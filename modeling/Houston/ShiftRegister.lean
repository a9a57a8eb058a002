import Mathlib.Data.List.Basic
import Mathlib.Data.Nat.Notation

/-!
# Shift registers

A register of `w` bits that shifts towards its lowest bit and feeds its taps back
whenever the bit that falls out differs from the input. Over exclusive or everything
about it is linear, and if the topmost tap is set, no turn loses information. The word
it ends with is then a checksum that detects every error burst of at most `w` bits.

* `run_xor` — the register is linear in its input and its state together.
* `run_eq_blank` — up to `w` inputs can be xored into the state beforehand.
* `run_bits_eq_zero` — a message followed by its checksum, and nothing else, ends in zero.
* `eq_of_burst` — two messages that end alike do not differ in a burst of at most `w` bits.
-/

namespace ShiftRegister

variable {w : ℕ} {taps : BitVec w}

/-- One turn of the register. -/
def turn (taps : BitVec w) (s : BitVec w) (input : Bool) : BitVec w :=
  if s.getLsbD 0 ^^ input then (s >>> 1) ^^^ taps else s >>> 1

/-- The register after a message. -/
def run (taps : BitVec w) (message : List Bool) (s : BitVec w) : BitVec w :=
  message.foldl (turn taps) s

/-- A message without a set bit. -/
abbrev blank (n : ℕ) : List Bool := List.replicate n false

theorem run_cons (b : Bool) (message : List Bool) (s : BitVec w) :
    run taps (b :: message) s = run taps message (turn taps s b) := rfl

theorem run_append (m m' : List Bool) (s : BitVec w) :
    run taps (m ++ m') s = run taps m' (run taps m s) := List.foldl_append

/-! ## Linearity -/

/-- **A turn is linear** in the state and the input together. -/
theorem turn_xor (s t : BitVec w) (a b : Bool) :
    turn taps (s ^^^ t) (a ^^ b) = turn taps s a ^^^ turn taps t b := by
  have htest : ((s ^^^ t).getLsbD 0 ^^ (a ^^ b)) =
      ((s.getLsbD 0 ^^ a) ^^ (t.getLsbD 0 ^^ b)) := by
    rw [BitVec.getLsbD_xor]
    cases s.getLsbD 0 <;> cases t.getLsbD 0 <;> cases a <;> cases b <;> rfl
  rw [turn, turn, turn, htest, BitVec.ushiftRight_xor_distrib]
  -- the taps are fed back by both, by one, or by neither
  cases s.getLsbD 0 ^^ a <;> cases t.getLsbD 0 ^^ b
  · rfl
  · exact BitVec.xor_assoc ..
  · rw [Bool.xor_false, if_pos rfl, if_pos rfl, if_neg Bool.false_ne_true, BitVec.xor_assoc,
      BitVec.xor_assoc, BitVec.xor_comm taps]
  · rw [Bool.xor_self, if_neg Bool.false_ne_true, if_pos rfl, if_pos rfl, BitVec.xor_assoc,
      BitVec.xor_comm taps, BitVec.xor_assoc, BitVec.xor_self, BitVec.xor_zero]

/-- **The register is linear**: the exclusive or of two messages of one length. -/
theorem run_xor : ∀ (m m' : List Bool) (s t : BitVec w), m.length = m'.length →
    run taps (List.zipWith xor m m') (s ^^^ t) = run taps m s ^^^ run taps m' t := by
  intro m
  induction m with
  | nil =>
    intro m' s t hlen
    obtain rfl := List.length_eq_zero_iff.mp hlen.symm
    rfl
  | cons b m ih =>
    intro m' s t hlen
    cases m' with
    | nil => cases hlen
    | cons b' m' =>
      rw [List.zipWith_cons_cons, run_cons, run_cons, run_cons, turn_xor,
        ih m' _ _ (Nat.succ.inj hlen)]

/-- A blank message leaves an empty register empty. -/
theorem run_blank_zero (n : ℕ) : run taps (blank n) 0#w = 0#w := by
  induction n with
  | zero => rfl
  | succ n ih =>
    have hturn : turn taps 0#w false = 0#w := by
      rw [turn, if_neg (by simp)]
      exact BitVec.zero_ushiftRight
    rw [blank, List.replicate_succ, run_cons, hturn, ih]

/-! ## Nothing is lost -/

/-- The topmost bit tells whether the taps were fed back. -/
theorem turn_eq_zero (htop : taps.getLsbD (w - 1) = true) {s : BitVec w}
    (h : turn taps s false = 0#w) : s = 0#w := by
  have hbits : ∀ i, (turn taps s false).getLsbD i = false := by
    intro i
    rw [h]
    exact BitVec.getLsbD_zero
  rw [turn, Bool.xor_false] at hbits
  have hlow : s.getLsbD 0 = false := by
    by_contra hset
    have htap := hbits (w - 1)
    rw [if_pos (by simpa using hset), BitVec.getLsbD_xor, htop, BitVec.getLsbD_ushiftRight,
      BitVec.getLsbD_of_ge s _ (by omega)] at htap
    cases htap
  rw [hlow] at hbits
  apply BitVec.eq_of_getLsbD_eq
  intro i hi
  rw [BitVec.getLsbD_zero]
  cases i with
  | zero => exact hlow
  | succ i =>
    have hbit := hbits i
    rwa [if_neg Bool.false_ne_true, BitVec.getLsbD_ushiftRight, Nat.add_comm] at hbit

/-- **No blank message empties a register.** -/
theorem run_blank_eq_zero (htop : taps.getLsbD (w - 1) = true) (n : ℕ) :
    ∀ {s : BitVec w}, run taps (blank n) s = 0#w → s = 0#w := by
  induction n with
  | zero => exact id
  | succ n ih => exact fun h => turn_eq_zero htop (ih h)

/-! ## Short messages -/

/-- The first `w` bits of a message as a word, the first bit lowest. -/
def word (w : ℕ) : List Bool → BitVec w
  | [] => 0#w
  | b :: message => (word w message).shiftConcat b

theorem getLsbD_word : ∀ (message : List Bool) {i : ℕ}, i < w →
    (word w message).getLsbD i = message.getD i false := by
  intro message
  induction message with
  | nil => exact fun _ => BitVec.getLsbD_zero
  | cons b message ih =>
    intro i hi
    rw [word, BitVec.getLsbD_shiftConcat, decide_eq_true hi, Bool.true_and]
    cases i with
    | zero => rfl
    | succ i =>
      rw [if_neg (Nat.succ_ne_zero i), Nat.add_sub_cancel, ih (Nat.lt_of_succ_lt hi),
        List.getD_cons_succ]

/-- A turn takes back the last step of the construction of a word. -/
theorem turn_shiftConcat {s : BitVec w} (hs : s.getLsbD (w - 1) = false) (b : Bool) :
    turn taps (s.shiftConcat b) b = s := by
  rcases Nat.eq_zero_or_pos w with rfl | hw
  · exact BitVec.eq_of_getLsbD_eq fun i hi => absurd hi (Nat.not_lt_zero i)
  · have hlow : (s.shiftConcat b).getLsbD 0 = b := by
      rw [BitVec.getLsbD_shiftConcat, decide_eq_true hw, Bool.true_and, if_pos rfl]
    rw [turn, hlow, Bool.xor_self, if_neg Bool.false_ne_true]
    apply BitVec.eq_of_getLsbD_eq
    intro i hi
    rw [BitVec.getLsbD_ushiftRight, BitVec.getLsbD_shiftConcat, Nat.add_comm 1 i,
      if_neg (Nat.succ_ne_zero i), Nat.add_sub_cancel]
    by_cases hlast : i + 1 < w
    · rw [decide_eq_true hlast, Bool.true_and]
    · obtain rfl : i = w - 1 := by omega
      rw [hs, Bool.and_false]

/-- **A short message** has the same effect as its word in the register. -/
theorem run_eq_blank : ∀ (message : List Bool) (s : BitVec w), message.length ≤ w →
    run taps message s = run taps (blank message.length) (s ^^^ word w message) := by
  intro message
  induction message with
  | nil =>
    intro s _
    rw [word, BitVec.xor_zero]
    rfl
  | cons b message ih =>
    intro s hlen
    rw [List.length_cons] at hlen
    have htop : (word w message).getLsbD (w - 1) = false := by
      rw [getLsbD_word message (by omega), List.getD_eq_getElem?_getD,
        List.getElem?_eq_none (by omega), Option.getD_none]
    have hturn : turn taps (s ^^^ word w (b :: message)) false =
        turn taps s b ^^^ word w message := by
      rw [← Bool.xor_self b, turn_xor, word, turn_shiftConcat htop]
    rw [run_cons, ih _ (by omega), ← hturn, List.length_cons, blank, blank, List.replicate_succ,
      run_cons]

/-! ## Checksums -/

/-- The bits of a word, the lowest first. -/
def bits (v : BitVec w) : List Bool := (List.range w).map v.getLsbD

@[simp] theorem length_bits (v : BitVec w) : (bits v).length = w := by
  rw [bits, List.length_map, List.length_range]

theorem getElem?_bits (v : BitVec w) {i : ℕ} (hi : i < w) : (bits v)[i]? = some (v.getLsbD i) := by
  rw [bits, List.getElem?_map, List.getElem?_range hi, Option.map_some]

/-- A word fills another register with zeros. -/
theorem word_bits {v : ℕ} (x : BitVec v) : word w (bits x) = x.setWidth w := by
  apply BitVec.eq_of_getLsbD_eq
  intro i hi
  rw [getLsbD_word _ hi, BitVec.getLsbD_setWidth, decide_eq_true hi, Bool.true_and,
    List.getD_eq_getElem?_getD]
  by_cases hv : i < v
  · rw [getElem?_bits x hv, Option.getD_some]
  · rw [List.getElem?_eq_none (by rw [length_bits]; omega), BitVec.getLsbD_of_ge x i (by omega),
      Option.getD_none]

/-- A word is told by its bits. -/
theorem bits_injective : Function.Injective (bits (w := w)) := by
  intro x y h
  rw [← BitVec.setWidth_eq x, ← BitVec.setWidth_eq y, ← word_bits, ← word_bits, h]

/-- **The residue law**: a message that is followed by a word ends in zero exactly when
the word is the checksum of the message. -/
theorem run_bits_eq_zero (htop : taps.getLsbD (w - 1) = true) (message : List Bool)
    (s sum : BitVec w) : run taps (message ++ bits sum) s = 0#w ↔ run taps message s = sum := by
  rw [run_append, run_eq_blank _ _ (Nat.le_of_eq (length_bits sum)), word_bits, BitVec.setWidth_eq,
    length_bits]
  constructor
  · exact fun h => BitVec.xor_eq_zero_iff.mp (run_blank_eq_zero htop w h)
  · rintro rfl
    rw [BitVec.xor_self]
    exact run_blank_zero w

/-- The only set bits of a message that empties an empty register are not within `w`
bits of each other. -/
theorem eq_blank_of_window (htop : taps.getLsbD (w - 1) = true) {message : List Bool}
    (hrun : run taps message 0#w = 0#w) {first : ℕ}
    (hwindow : ∀ i : ℕ, message[i]? = some true → first ≤ i ∧ i < first + w) :
    ∀ i : ℕ, message[i]? ≠ some true := by
  -- the message up to the window, in it, and behind it
  have hcut : message = blank (message.take first).length ++ ((message.drop first).take w ++
      blank (message.drop (first + w)).length) := by
    have hfront : message.take first = blank (message.take first).length := by
      rw [List.eq_replicate_iff]
      refine ⟨rfl, fun b hb => ?_⟩
      obtain ⟨i, hi⟩ := List.mem_iff_getElem?.mp hb
      rw [List.getElem?_take] at hi
      split_ifs at hi with hlt
      cases b with
      | false => rfl
      | true => exact absurd (hwindow i hi).1 (Nat.not_le_of_lt hlt)
    have hback : message.drop (first + w) = blank (message.drop (first + w)).length := by
      rw [List.eq_replicate_iff]
      refine ⟨rfl, fun b hb => ?_⟩
      obtain ⟨i, hi⟩ := List.mem_iff_getElem?.mp hb
      rw [List.getElem?_drop] at hi
      cases b with
      | false => rfl
      | true => exact absurd (hwindow _ hi).2 (Nat.not_lt_of_le (Nat.le_add_right _ i))
    rw [← hfront, ← hback, ← List.drop_drop, List.take_append_drop, List.take_append_drop]
  set window := (message.drop first).take w
  have hlen : window.length ≤ w := List.length_take_le ..
  have hzero : word w window = 0#w := by
    rw [hcut, run_append, run_append, run_blank_zero] at hrun
    have hinner := run_blank_eq_zero htop _ hrun
    rw [run_eq_blank window _ hlen, BitVec.zero_xor] at hinner
    exact run_blank_eq_zero htop _ hinner
  intro i hi
  obtain ⟨hge, hlt⟩ := hwindow i hi
  have hbit : (word w window).getLsbD (i - first) = true := by
    rw [getLsbD_word _ (by omega), List.getD_eq_getElem?_getD, List.getElem?_take,
      if_pos (by omega), List.getElem?_drop, Nat.add_sub_cancel' hge, hi, Option.getD_some]
  rw [hzero] at hbit
  cases BitVec.getLsbD_zero.symm.trans hbit

/-- **Bursts are detected**: two messages of one length that end alike, and that differ
within `w` consecutive bits only, do not differ. -/
theorem eq_of_burst (htop : taps.getLsbD (w - 1) = true) {m m' : List Bool}
    (hlen : m.length = m'.length) {s : BitVec w} (hrun : run taps m s = run taps m' s) {first : ℕ}
    (hwindow : ∀ i : ℕ, m[i]? ≠ m'[i]? → first ≤ i ∧ i < first + w) : m = m' := by
  have hdiffer : ∀ i : ℕ, (List.zipWith xor m m')[i]? = some true ↔ m[i]? ≠ m'[i]? := by
    intro i
    rw [List.getElem?_zipWith]
    rcases Nat.lt_or_ge i m.length with hi | hi
    · rw [List.getElem?_eq_getElem hi, List.getElem?_eq_getElem (hlen ▸ hi)]
      cases m[i] <;> cases m'[i] <;> decide
    · rw [List.getElem?_eq_none hi, List.getElem?_eq_none (hlen ▸ hi)]
      simp
  have hzero : run taps (List.zipWith xor m m') 0#w = 0#w := by
    have hxor : run taps (List.zipWith xor m m') (s ^^^ s) = run taps m s ^^^ run taps m' s :=
      run_xor m m' s s hlen
    rwa [hrun, BitVec.xor_self, BitVec.xor_self] at hxor
  have hsame := eq_blank_of_window htop hzero fun i hi => hwindow i ((hdiffer i).mp hi)
  apply List.ext_getElem?
  intro i
  by_contra hne
  exact hsame i ((hdiffer i).mpr hne)

end ShiftRegister
