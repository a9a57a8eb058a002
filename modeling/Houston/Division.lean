import Mathlib.Algebra.CharP.Two
import Mathlib.Algebra.Polynomial.Div
import Mathlib.Algebra.CharP.Lemmas
import Mathlib.Algebra.Field.ZMod
import Houston.ShiftRegister

/-!
# Shift registers divide polynomials

What the shift registers of `ShiftRegister` compute. A list of bits is read as a
polynomial over the field of two elements, the first bit being the leading coefficient,
and so is a register, its lowest bit first. A turn of the register multiplies it by `X`
and reduces it by the generator polynomial of its taps.

* `reflected_turn` — one turn, up to a multiple of the generator.
* `reflected_run` — a whole run is a division with remainder.
-/

namespace ShiftRegister

open Polynomial

variable {w : ℕ} {taps : BitVec w}

/-! ## Bits as polynomials -/

/-- A bit as a constant. -/
noncomputable def bitPoly (b : Bool) : (ZMod 2)[X] := if b then 1 else 0

@[simp] theorem bitPoly_false : bitPoly false = 0 := rfl

@[simp] theorem bitPoly_true : bitPoly true = 1 := rfl

theorem bitPoly_xor (a b : Bool) : bitPoly (a ^^ b) = bitPoly a + bitPoly b := by
  cases a <;> cases b <;> simp [CharTwo.add_self_eq_zero]

/-- The polynomial whose coefficients are the given bits, the leading one first. -/
noncomputable def bitsPoly : List Bool → (ZMod 2)[X]
  | [] => 0
  | b :: bs => bitPoly b * X ^ bs.length + bitsPoly bs

@[simp] theorem bitsPoly_nil : bitsPoly [] = 0 := rfl

theorem bitsPoly_cons (b : Bool) (bs : List Bool) :
    bitsPoly (b :: bs) = bitPoly b * X ^ bs.length + bitsPoly bs := rfl

/-- One more bit behind the others. -/
theorem bitsPoly_concat (bs : List Bool) (b : Bool) :
    bitsPoly (bs ++ [b]) = X * bitsPoly bs + bitPoly b := by
  induction bs with
  | nil => simp [bitsPoly]
  | cons a bs ih =>
    rw [List.cons_append, bitsPoly_cons, bitsPoly_cons, ih, List.length_append,
      List.length_singleton]
    ring

theorem bitsPoly_zipWith_xor : ∀ (bs cs : List Bool), bs.length = cs.length →
    bitsPoly (List.zipWith xor bs cs) = bitsPoly bs + bitsPoly cs := by
  intro bs
  induction bs with
  | nil =>
    intro cs hlen
    obtain rfl := List.length_eq_zero_iff.mp hlen.symm
    simp
  | cons b bs ih =>
    intro cs hlen
    cases cs with
    | nil => cases hlen
    | cons c cs =>
      have hlen' : bs.length = cs.length := Nat.succ.inj hlen
      rw [List.zipWith_cons_cons, bitsPoly_cons, bitsPoly_cons, bitsPoly_cons, ih cs hlen',
        bitPoly_xor, List.length_zipWith, ← hlen', min_self]
      ring

/-- The degree is below the number of bits. -/
theorem degree_bitsPoly_lt (bs : List Bool) : (bitsPoly bs).degree < (bs.length : WithBot ℕ) := by
  induction bs with
  | nil => simp
  | cons b bs ih =>
    have hlead : (bitPoly b * X ^ bs.length).degree ≤ (bs.length : WithBot ℕ) := by
      cases b with
      | false => simp
      | true =>
        rw [bitPoly_true, one_mul]
        exact degree_X_pow_le _
    have hsucc : (bs.length : WithBot ℕ) < ((b :: bs).length : WithBot ℕ) :=
      WithBot.coe_lt_coe.mpr (Nat.lt_succ_self bs.length)
    exact ((degree_add_le _ _).trans (max_le hlead ih.le)).trans_lt hsucc

/-! ## Registers as polynomials -/

/-- A register as a polynomial: its lowest bit is the leading coefficient. -/
noncomputable def reflected (s : BitVec w) : (ZMod 2)[X] := bitsPoly (bits s)

/-- The generator polynomial of a register. -/
noncomputable def generator (taps : BitVec w) : (ZMod 2)[X] := X ^ w + reflected taps

theorem degree_reflected_lt (s : BitVec w) : (reflected s).degree < w := by
  have hdegree := degree_bitsPoly_lt (bits s)
  rwa [length_bits] at hdegree

theorem monic_generator (taps : BitVec w) : (generator taps).Monic :=
  monic_X_pow_add (degree_reflected_lt taps)

theorem degree_generator (taps : BitVec w) : (generator taps).degree = w := by
  rw [generator, degree_add_eq_left_of_degree_lt, degree_X_pow]
  rw [degree_X_pow]
  exact degree_reflected_lt taps

theorem reflected_xor (s t : BitVec w) : reflected (s ^^^ t) = reflected s + reflected t := by
  have hbits : bits (s ^^^ t) = List.zipWith xor (bits s) (bits t) := by
    rw [bits, bits, bits, List.zipWith_map, List.zipWith_self]
    refine List.map_congr_left fun i _ => BitVec.getLsbD_xor ..
  rw [reflected, hbits, bitsPoly_zipWith_xor _ _ (by rw [length_bits, length_bits])]
  rfl

/-- Shifting down multiplies by `X`, except for the bit that falls out. -/
theorem reflected_shift (s : BitVec w) :
    X * reflected s = bitPoly (s.getLsbD 0) * X ^ w + reflected (s >>> 1) := by
  cases w with
  | zero => simp [reflected, bits]
  | succ v =>
    have hbits : bits s = s.getLsbD 0 :: (List.range v).map fun i => s.getLsbD (i + 1) := by
      rw [bits, List.range_succ_eq_map, List.map_cons, List.map_map]
      rfl
    have hshift : bits (s >>> 1) = ((List.range v).map fun i => s.getLsbD (i + 1)) ++ [false] := by
      rw [bits, List.range_succ, List.map_append, List.map_singleton]
      congr 1
      · refine List.map_congr_left fun i _ => ?_
        rw [BitVec.getLsbD_ushiftRight, Nat.add_comm 1 i]
      · rw [BitVec.getLsbD_ushiftRight, BitVec.getLsbD_of_ge s _ (by omega)]
    rw [reflected, reflected, hbits, hshift, bitsPoly_concat, bitsPoly_cons, List.length_map,
      List.length_range, bitPoly_false]
    ring

/-! ## Division -/

/-- **A turn**: multiply by `X`, add the input in the top place, and take the generator
away if that leaves a term of its degree. -/
theorem reflected_turn (s : BitVec w) (b : Bool) :
    X * reflected s + bitPoly b * X ^ w =
      reflected (turn taps s b) + bitPoly (s.getLsbD 0 ^^ b) * generator taps := by
  have hturn : reflected (turn taps s b) =
      reflected (s >>> 1) + bitPoly (s.getLsbD 0 ^^ b) * reflected taps := by
    rw [turn]
    cases s.getLsbD 0 ^^ b
    · simp
    · rw [if_pos rfl, reflected_xor, bitPoly_true, one_mul]
  have htwice : bitPoly (s.getLsbD 0 ^^ b) * reflected taps +
      bitPoly (s.getLsbD 0 ^^ b) * reflected taps = 0 := CharTwo.add_self_eq_zero _
  calc X * reflected s + bitPoly b * X ^ w
      = reflected (s >>> 1) + bitPoly (s.getLsbD 0 ^^ b) * X ^ w := by
        rw [reflected_shift, bitPoly_xor]
        ring
    _ = reflected (s >>> 1) + bitPoly (s.getLsbD 0 ^^ b) * X ^ w +
          (bitPoly (s.getLsbD 0 ^^ b) * reflected taps +
            bitPoly (s.getLsbD 0 ^^ b) * reflected taps) := by rw [htwice, add_zero]
    _ = reflected (turn taps s b) + bitPoly (s.getLsbD 0 ^^ b) * generator taps := by
        rw [hturn, generator]
        ring

/-- A run, up to a multiple of the generator: by induction on the message. -/
theorem generator_dvd_run : ∀ (message : List Bool) (s : BitVec w),
    generator taps ∣ reflected s * X ^ message.length + bitsPoly message * X ^ w -
      reflected (run taps message s) := by
  intro message
  induction message with
  | nil => simp [run]
  | cons b message ih =>
    intro s
    have hrest := ih (turn taps s b)
    have hturn : X * reflected s + bitPoly b * X ^ w =
        reflected (turn taps s b) + bitPoly (s.getLsbD 0 ^^ b) * generator taps :=
      reflected_turn s b
    have hsplit : reflected s * X ^ (b :: message).length + bitsPoly (b :: message) * X ^ w =
        X ^ message.length * (X * reflected s + bitPoly b * X ^ w) +
          bitsPoly message * X ^ w := by
      rw [bitsPoly_cons, List.length_cons, pow_succ]
      ring
    rw [run_cons, hsplit, hturn]
    have hsum := dvd_add hrest (Dvd.intro_left
      (X ^ message.length * bitPoly (s.getLsbD 0 ^^ b)) (rfl : _ * generator taps = _))
    convert hsum using 1
    ring

/-- **Shift registers divide**: what is left in a register is the remainder of the state
and the message, moved up by the width of the register, on division by the generator. -/
theorem reflected_run (message : List Bool) (s : BitVec w) :
    reflected (run taps message s) =
      (reflected s * X ^ message.length + bitsPoly message * X ^ w) %ₘ generator taps := by
  have hreduced : (reflected (run taps message s)).degree < (generator taps).degree := by
    rw [degree_generator]
    exact degree_reflected_lt _
  rw [modByMonic_eq_of_dvd_sub (monic_generator taps) (generator_dvd_run message s),
    (modByMonic_eq_self_iff (monic_generator taps)).mpr hreduced]

/-- From an empty register. -/
theorem reflected_run_zero (message : List Bool) :
    reflected (run taps message 0#w) = (bitsPoly message * X ^ w) %ₘ generator taps := by
  have hzero : reflected (0#w) = 0 := by
    have hself := reflected_xor (0#w) (0#w)
    rwa [CharTwo.add_self_eq_zero, BitVec.xor_self] at hself
  rw [reflected_run, hzero, zero_mul, zero_add]

end ShiftRegister
