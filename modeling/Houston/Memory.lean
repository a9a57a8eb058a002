import Mathlib.Data.List.Basic
import Mathlib.Tactic.Ring

/-!
# Bytes, words and fixed-size buffers

What C memory comes down to in this development: bytes, little-endian words, and
arrays of a fixed size. A `Buffer` carries its size as an invariant, and each
access to it is checked: `none` stands for an access outside the array, that is
for undefined behaviour. A function of the model that returns `some _` has thus
stayed inside every buffer it touched.
-/

namespace Houston

universe u

/-- A byte. -/
abbrev Byte : Type := BitVec 8

/-- Reduction to an unsigned 32-bit integer. -/
def u32 (n : ℕ) : ℕ := n % 2 ^ 32

theorem u32_of_lt {n : ℕ} (h : n < 2 ^ 32) : u32 n = n := Nat.mod_eq_of_lt h

/-- The characters of a text, one byte each. -/
def ascii (s : String) : List Byte := s.toList.map fun c => BitVec.ofNat 8 c.toNat

/-! ## Little-endian words -/

/-- The low `k` bytes of a number, least significant first. -/
def leBytes : ℕ → ℕ → List Byte
  | 0, _ => []
  | k + 1, v => BitVec.ofNat 8 v :: leBytes k (v / 256)

/-- The number that a string of bytes spells, least significant byte first. -/
def ofLE : List Byte → ℕ
  | [] => 0
  | b :: l => b.toNat + 256 * ofLE l

@[simp] theorem length_leBytes : ∀ k v : ℕ, (leBytes k v).length = k
  | 0, _ => rfl
  | k + 1, v => by rw [leBytes, List.length_cons, length_leBytes k]

theorem ofLE_leBytes : ∀ k v : ℕ, ofLE (leBytes k v) = v % 256 ^ k
  | 0, v => by rw [leBytes, ofLE, Nat.pow_zero, Nat.mod_one]
  | k + 1, v => by
    rw [leBytes, ofLE, ofLE_leBytes k, BitVec.toNat_ofNat,
      show 256 ^ (k + 1) = 256 * 256 ^ k from Nat.pow_succ', Nat.mod_mul]

theorem leBytes_ofLE : ∀ l : List Byte, leBytes l.length (ofLE l) = l
  | [] => rfl
  | b :: l => by
    have hb := b.isLt
    have hdiv : (b.toNat + 256 * ofLE l) / 256 = ofLE l := by omega
    have hmod : BitVec.ofNat 8 (b.toNat + 256 * ofLE l) = b := by
      apply BitVec.eq_of_toNat_eq
      rw [BitVec.toNat_ofNat]
      omega
    rw [List.length_cons, ofLE, leBytes, hdiv, hmod, leBytes_ofLE l]

theorem ofLE_lt : ∀ l : List Byte, ofLE l < 256 ^ l.length
  | [] => by simp [ofLE]
  | b :: l => by
    have hb := b.isLt
    have hl := ofLE_lt l
    rw [ofLE, List.length_cons, Nat.pow_succ]
    omega

/-- A word of `w` bits as `k` little-endian bytes. -/
def wordBytes {w : ℕ} (k : ℕ) (v : BitVec w) : List Byte := leBytes k v.toNat

/-- The word of `w` bits in the `k` bytes that start at `off`. -/
def wordAt (w k : ℕ) (bs : List Byte) (off : ℕ) : BitVec w :=
  BitVec.ofNat w (ofLE ((bs.drop off).take k))

@[simp] theorem length_wordBytes {w : ℕ} (k : ℕ) (v : BitVec w) : (wordBytes k v).length = k :=
  length_leBytes k _

/-- Reading back a word that was stored at `off`. -/
theorem wordAt_append {w k : ℕ} (hw : 2 ^ w = 256 ^ k) (v : BitVec w) (pre post : List Byte) :
    wordAt w k (pre ++ (wordBytes k v ++ post)) pre.length = v := by
  have htake : (wordBytes k v ++ post).take k = wordBytes k v :=
    List.take_left' (length_wordBytes k v)
  apply BitVec.eq_of_toNat_eq
  rw [wordAt, List.drop_left, htake, wordBytes, ofLE_leBytes, BitVec.toNat_ofNat, hw,
    Nat.mod_mod, ← hw, Nat.mod_eq_of_lt v.isLt]

/-- Storing a word that was read gives the bytes back. -/
theorem wordBytes_wordAt {w k : ℕ} (hw : 2 ^ w = 256 ^ k) {bs : List Byte} {off : ℕ}
    (h : off + k ≤ bs.length) : wordBytes k (wordAt w k bs off) = (bs.drop off).take k := by
  have hlen : ((bs.drop off).take k).length = k := by simp; omega
  have hlt := ofLE_lt ((bs.drop off).take k)
  rw [hlen] at hlt
  rw [wordBytes, wordAt, BitVec.toNat_ofNat, hw, Nat.mod_eq_of_lt hlt]
  have hback := leBytes_ofLE ((bs.drop off).take k)
  rw [hlen] at hback
  exact hback

/-- A word depends only on its own bytes. -/
theorem wordAt_take {w k : ℕ} {bs : List Byte} {off n : ℕ} (h : off + k ≤ n) :
    wordAt w k (bs.take n) off = wordAt w k bs off := by
  rw [wordAt, wordAt, List.drop_take, List.take_take, Nat.min_eq_left (by omega)]

/-- A word that was cut out first. -/
theorem wordAt_cut (w k : ℕ) (bs : List Byte) (off : ℕ) :
    wordAt w k ((bs.drop off).take k) 0 = wordAt w k bs off := by
  rw [wordAt, wordAt, List.drop_zero, List.take_take, min_self]

/-! ## Buffers -/

/-- An array of `n` elements. -/
@[ext] structure Buffer (α : Type u) (n : ℕ) where
  /-- the contents -/
  data : List α
  /-- the contents fill the array exactly -/
  length_data : data.length = n

namespace Buffer

variable {α : Type u} {n : ℕ}

/-- An array filled with one value. -/
def replicate (n : ℕ) (a : α) : Buffer α n := ⟨List.replicate n a, List.length_replicate⟩

/-- The array that holds exactly the given elements. -/
def ofList (l : List α) : Buffer α l.length := ⟨l, rfl⟩

/-- Read one element. -/
def get? (b : Buffer α n) (i : ℕ) : Option α := b.data[i]?

/-- Read `len` elements from `off` on. -/
def read? (b : Buffer α n) (off len : ℕ) : Option (List α) :=
  if off + len ≤ n then some ((b.data.drop off).take len) else none

/-- The contents after `src` was copied to `off`. -/
def overwrite (b : Buffer α n) (off : ℕ) (src : List α) (h : off + src.length ≤ n) :
    Buffer α n where
  data := b.data.take off ++ src ++ b.data.drop (off + src.length)
  length_data := by
    have := b.length_data
    simp only [List.length_append, List.length_take, List.length_drop]
    omega

/-- Copy `src` to `off`. -/
def memcpy (b : Buffer α n) (off : ℕ) (src : List α) : Option (Buffer α n) :=
  if h : off + src.length ≤ n then some (b.overwrite off src h) else none

/-- Write one element. -/
def set? (b : Buffer α n) (i : ℕ) (a : α) : Option (Buffer α n) := b.memcpy i [a]

theorem read?_eq_some {b : Buffer α n} {off len : ℕ} (h : off + len ≤ n) :
    b.read? off len = some ((b.data.drop off).take len) := if_pos h

theorem memcpy_eq_some {b : Buffer α n} {off : ℕ} {src : List α} (h : off + src.length ≤ n) :
    b.memcpy off src = some (b.overwrite off src h) := dif_pos h

theorem memcpy_eq_none {b : Buffer α n} {off : ℕ} {src : List α} (h : ¬ off + src.length ≤ n) :
    b.memcpy off src = none := dif_neg h

theorem data_overwrite (b : Buffer α n) {off : ℕ} {src : List α} (h : off + src.length ≤ n) :
    (b.overwrite off src h).data = b.data.take off ++ src ++ b.data.drop (off + src.length) := rfl

theorem length_take_append (b : Buffer α n) {off : ℕ} {src : List α} (h : off + src.length ≤ n) :
    (b.data.take off ++ src).length = off + src.length := by
  have := b.length_data
  rw [List.length_append, List.length_take]
  omega

/-- What stands in front of the end of a copy. -/
theorem take_overwrite (b : Buffer α n) {off : ℕ} {src : List α} (h : off + src.length ≤ n) :
    (b.overwrite off src h).data.take (off + src.length) = b.data.take off ++ src := by
  rw [data_overwrite, List.take_left' (length_take_append b h)]

/-- What stands behind the end of a copy is as before. -/
theorem drop_overwrite (b : Buffer α n) {off i : ℕ} {src : List α} (h : off + src.length ≤ n)
    (hi : off + src.length ≤ i) : (b.overwrite off src h).data.drop i = b.data.drop i := by
  obtain ⟨d, rfl⟩ : ∃ d, i = off + src.length + d := ⟨i - (off + src.length), by omega⟩
  rw [data_overwrite, ← List.drop_drop, List.drop_left' (length_take_append b h),
    List.drop_drop]

/-- What stands in front of a copy is as before. -/
theorem take_overwrite_of_le (b : Buffer α n) {off i : ℕ} {src : List α}
    (h : off + src.length ≤ n) (hi : i ≤ off) :
    (b.overwrite off src h).data.take i = b.data.take i := by
  have hlen : i ≤ (b.data.take off).length := by
    have := b.length_data
    rw [List.length_take]
    omega
  rw [data_overwrite, List.append_assoc, List.take_append_of_le_length hlen, List.take_take,
    Nat.min_eq_left hi]

theorem memcpy_eq_of_data {b b' : Buffer α n} {off : ℕ} {src : List α} (h : off + src.length ≤ n)
    (hdata : b'.data = b.data.take off ++ src ++ b.data.drop (off + src.length)) :
    b.memcpy off src = some b' := by
  rw [memcpy_eq_some h]
  exact congrArg some (Buffer.ext hdata.symm)

theorem of_memcpy {b b' : Buffer α n} {off : ℕ} {src : List α} (h : b.memcpy off src = some b') :
    ∃ hlen : off + src.length ≤ n, b' = b.overwrite off src hlen := by
  by_cases hlen : off + src.length ≤ n
  · rw [memcpy_eq_some hlen] at h
    exact ⟨hlen, (Option.some.inj h).symm⟩
  · rw [memcpy_eq_none hlen] at h
    cases h

/-- After a copy to the start, the start is what was copied. -/
theorem take_of_memcpy {b b' : Buffer α n} {src : List α} (h : b.memcpy 0 src = some b') :
    b'.data.take src.length = src := by
  obtain ⟨hlen, rfl⟩ := of_memcpy h
  have htake := b.take_overwrite hlen
  rwa [Nat.zero_add, List.take_zero, List.nil_append] at htake

/-- Reading back what was copied. -/
theorem read?_of_memcpy {b b' : Buffer α n} {off : ℕ} {src : List α}
    (h : b.memcpy off src = some b') : b'.read? off src.length = some src := by
  obtain ⟨hlen, rfl⟩ := of_memcpy h
  have hoff : (b.data.take off).length = off := by
    have := b.length_data
    rw [List.length_take]
    omega
  rw [read?_eq_some hlen, data_overwrite, List.append_assoc, List.drop_left' hoff, List.take_left]

/-- Two copies side by side are one. -/
theorem memcpy_memcpy (b : Buffer α n) (off : ℕ) (s t : List α) :
    ((b.memcpy off s).bind fun b => b.memcpy (off + s.length) t) = b.memcpy off (s ++ t) := by
  by_cases hs : off + s.length ≤ n
  · rw [memcpy_eq_some hs, Option.bind_some]
    by_cases ht : off + s.length + t.length ≤ n
    · rw [memcpy_eq_some ht, eq_comm]
      refine memcpy_eq_of_data (by rw [List.length_append]; omega) ?_
      rw [data_overwrite, take_overwrite b hs, drop_overwrite b hs (by omega),
        List.length_append, List.append_assoc (b.data.take off), Nat.add_assoc]
    · rw [memcpy_eq_none ht, memcpy_eq_none (by rw [List.length_append]; omega)]
  · rw [memcpy_eq_none hs, memcpy_eq_none (by rw [List.length_append]; omega)]
    rfl

/-- A copy replaces a stretch of its own length. -/
theorem data_overwrite_of_eq {b : Buffer α n} {pre mid post src : List α}
    (hb : b.data = pre ++ (mid ++ post)) (hlen : mid.length = src.length)
    (h : pre.length + src.length ≤ n) :
    (b.overwrite pre.length src h).data = pre ++ (src ++ post) := by
  rw [data_overwrite, hb, List.take_left, ← List.append_assoc, List.drop_left' (by simp [hlen]),
    List.append_assoc]

/-- Copying over a stretch of the array, with what comes out. -/
theorem exists_memcpy {b : Buffer α n} (mid src : List α) {pre post : List α}
    (hb : b.data = pre ++ (mid ++ post)) (hlen : mid.length = src.length) :
    ∃ b', b.memcpy pre.length src = some b' ∧ b'.data = pre ++ (src ++ post) := by
  have hn := b.length_data
  rw [hb, List.length_append, List.length_append, hlen] at hn
  exact ⟨_, memcpy_eq_some (by omega), data_overwrite_of_eq hb hlen _⟩

/-- Writing one element, with what comes out. -/
theorem exists_set? {b : Buffer α n} {pre post : List α} {x : α} (hb : b.data = pre ++ x :: post)
    (a : α) : ∃ b', b.set? pre.length a = some b' ∧ b'.data = pre ++ a :: post :=
  exists_memcpy [x] [a] hb rfl

theorem get?_of_eq {b : Buffer α n} {pre post : List α} {a : α} (hb : b.data = pre ++ a :: post) :
    b.get? pre.length = some a := by
  simp [get?, hb]

theorem length_eq_of_eq {b : Buffer α n} {l : List α} (hb : b.data = l) : l.length = n := by
  rw [← hb, b.length_data]

end Buffer

end Houston
