import Houston.Burst
import Houston.Division

/-!
# The checksums are remainders

The two checksum loops of `dashboard/Dashboard.c`, which `Burst` has shown to be shift
registers, are cyclic redundancy checks: a string of bytes is a polynomial over the field
of two elements, its first bit the leading coefficient, and the checksum is the remainder
of the polynomial, moved up by the width of the checksum, read from its lowest bit on.

* `checksums_remainder` — this, for both, and for either sign of `char`.
-/

namespace Houston

open Polynomial ShiftRegister

/-- A string of bytes as a polynomial: the lowest bit of the first byte is the leading
coefficient. -/
noncomputable def messagePoly (s : List Byte) : (ZMod 2)[X] := bitsPoly (bitsOf s)

/-- The generator polynomial of `crc16`. -/
theorem generator_taps16 : generator taps16 = X ^ 16 + X ^ 15 + X ^ 2 + 1 := by
  have hbits : bits taps16 = [true, false, false, false, false, false, false, false, false, false,
      false, false, false, true, false, true] := by decide
  rw [generator, reflected, hbits]
  simp [bitsPoly, add_assoc]

/-- **The checksums are remainders** on division by their generator polynomials. -/
theorem checksums_remainder (sign : CharSign) (s : List Byte) :
    reflected (crc16 s 0) =
        (messagePoly s * X ^ 16) %ₘ (X ^ 16 + X ^ 15 + X ^ 2 + 1) ∧
      reflected (crc32With sign s 0) =
        (messagePoly s * X ^ 32) %ₘ (X ^ 32 + reflected (0xEDB88320 : BitVec 32)) := by
  constructor
  · rw [crc16_eq, ← generator_taps16]
    exact reflected_run_zero (bitsOf s)
  · rw [crc32With_eq, crc32_eq]
    exact reflected_run_zero (bitsOf s)

end Houston
