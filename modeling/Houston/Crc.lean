import Houston.Memory

/-!
# The checksums: `crc16` and `crc32`

The two shift registers of `dashboard/Dashboard.c`. `crc16` xors a whole byte in
and shifts eight times; `crc32` takes the bits of the byte one at a time from a
`char`, whose sign is up to the compiler. The sign does not matter
(`crc32With_eq`): within eight shifts no copied sign bit reaches the bottom.
-/

namespace Houston

/-- Whether the compiler's `char` is signed. -/
inductive CharSign where
  | signed
  | unsigned
  deriving DecidableEq

/-- A `char` promoted to `uint32_t`. -/
def CharSign.promote : CharSign → Byte → BitVec 32
  | .signed, ch => ch.signExtend 32
  | .unsigned, ch => ch.setWidth 32

/-- `ch >>= 1` -/
def CharSign.shift : CharSign → Byte → Byte
  | .signed, ch => ch.sshiftRight 1
  | .unsigned, ch => ch >>> 1

/-- The inner loop of `crc32` with `j` turns left. -/
def crc32Bits (sign : CharSign) : ℕ → Byte → BitVec 32 → BitVec 32
  | 0, _, crc => crc
  | j + 1, ch, crc =>
    let b := (sign.promote ch ^^^ crc) &&& 1
    let crc := crc >>> 1
    let crc := if b ≠ 0 then crc ^^^ 0xEDB88320 else crc
    crc32Bits sign j (sign.shift ch) crc

/-- `crc32(s, n, crc)`, where `s` stands for the `n` bytes read. -/
def crc32With (sign : CharSign) (s : List Byte) (crc : BitVec 32) : BitVec 32 :=
  s.foldl (fun crc ch => crc32Bits sign 8 ch crc) crc

/-- `crc32` as compiled with a signed `char`. -/
def crc32 (s : List Byte) (crc : BitVec 32) : BitVec 32 := crc32With .signed s crc

/-- The inner loop of `crc16` with `j` turns left. -/
def crc16Bits : ℕ → BitVec 16 → BitVec 16
  | 0, crc => crc
  | j + 1, crc => crc16Bits j (if crc &&& 1 ≠ 0 then (crc >>> 1) ^^^ 0xA001 else crc >>> 1)

/-- `crc16(s, n, crc)`, where `s` stands for the `n` bytes read. -/
def crc16 (s : List Byte) (crc : BitVec 16) : BitVec 16 :=
  s.foldl (fun crc b => crc16Bits 8 (crc ^^^ b.setWidth 16)) crc

/-- A checksum taken in two pieces. -/
theorem crc32_append (s t : List Byte) (crc : BitVec 32) :
    crc32 (s ++ t) crc = crc32 t (crc32 s crc) :=
  List.foldl_append

/-! ## The sign of `char` -/

theorem CharSign.getLsbD_shift (sign : CharSign) {ch : Byte} {i : ℕ} (hi : i + 1 < 8) :
    (sign.shift ch).getLsbD i = ch.getLsbD (i + 1) := by
  cases sign with
  | signed =>
    rw [CharSign.shift, BitVec.getLsbD_sshiftRight, if_pos (by omega), Nat.add_comm]
    simp [show ¬ 8 ≤ i by omega]
  | unsigned => rw [CharSign.shift, BitVec.getLsbD_ushiftRight, Nat.add_comm]

/-- The loop tests the lowest bit of the promoted `char`, whatever its sign. -/
theorem CharSign.test_eq (sign : CharSign) (ch : Byte) (crc : BitVec 32) :
    ((sign.promote ch ^^^ crc) &&& 1 ≠ 0) = (ch.getLsbD 0 ≠ crc.getLsbD 0) := by
  have hlow : (sign.promote ch).getLsbD 0 = ch.getLsbD 0 := by
    cases sign with
    | signed => rw [CharSign.promote, BitVec.getLsbD_signExtend]; simp
    | unsigned => simp [CharSign.promote]
  rw [show (1 : BitVec 32) = 1#32 from rfl, BitVec.and_one_eq_setWidth_ofBool_getLsbD,
    BitVec.getLsbD_xor, hlow]
  cases ch.getLsbD 0 <;> cases crc.getLsbD 0 <;> simp

/-- `j` turns read the lowest `j` bits of the `char`, if there are as many. -/
theorem crc32Bits_congr {sign sign' : CharSign} :
    ∀ (j : ℕ) {ch ch' : Byte} (crc : BitVec 32), j ≤ 8 →
      (∀ i < j, ch.getLsbD i = ch'.getLsbD i) →
      crc32Bits sign j ch crc = crc32Bits sign' j ch' crc := by
  intro j
  induction j with
  | zero => exact fun _ _ _ => rfl
  | succ j ih =>
    intro ch ch' crc hj hbits
    simp only [crc32Bits, CharSign.test_eq, hbits 0 (Nat.succ_pos j)]
    refine ih _ (by omega) fun i hi => ?_
    rw [sign.getLsbD_shift (by omega), sign'.getLsbD_shift (by omega)]
    exact hbits (i + 1) (by omega)

/-- **The sign of `char` does not matter** to `crc32`. -/
theorem crc32With_eq (sign : CharSign) : crc32With sign = crc32 := by
  funext s crc
  have hbyte : ∀ (crc : BitVec 32) (ch : Byte),
      crc32Bits sign 8 ch crc = crc32Bits .signed 8 ch crc :=
    fun crc ch => crc32Bits_congr 8 crc (le_refl 8) fun _ _ => rfl
  rw [crc32, crc32With, crc32With]
  simp only [hbyte]

end Houston
