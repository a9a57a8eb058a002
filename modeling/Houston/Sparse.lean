import Houston.ShiftRegister
import Mathlib.Data.List.Chain
import Mathlib.Data.List.Nodup
import Mathlib.Order.Basic

/-!
# Sparse messages

What a register is left with is the exclusive or of what each set bit of the message leaves. So
no message with up to three set bits empties an empty register, as long as it is shorter than it
takes until the states that a set bit leaves behind repeat, the lowest bit apart. For given taps
and a given length that can be found out by sorting these states.

* `run_marks` — what a message leaves is made up of what its set bits leave.
* `Spread` — the states that a set bit leaves behind are different, the lowest bit apart.
* `eq_of_flips` — then up to three flipped bits are detected.
* `spread_of_sorted` — a computation that shows it.
-/

namespace ShiftRegister

variable {w : ℕ} {taps : BitVec w}

/-- A blank message is linear in the state. -/
theorem run_blank_xor (k : ℕ) (s t : BitVec w) :
    run taps (blank k) (s ^^^ t) = run taps (blank k) s ^^^ run taps (blank k) t := by
  have hxor : run taps (List.zipWith xor (blank k) (blank k)) (s ^^^ t) =
      run taps (blank k) s ^^^ run taps (blank k) t := run_xor _ _ s t rfl
  rwa [blank, List.zipWith_replicate, Nat.min_self, Bool.xor_self] at hxor

/-! ## One set bit -/

/-- What is left of a set bit after some further turns. -/
def echo (taps : BitVec w) (k : ℕ) : BitVec w := run taps (blank k) taps

theorem echo_succ (k : ℕ) : echo taps (k + 1) = turn taps (echo taps k) false := by
  rw [echo, blank, List.replicate_succ', run_append]
  rfl

theorem echo_add (k d : ℕ) : echo taps (k + d) = run taps (blank k) (echo taps d) := by
  rw [echo, echo, Nat.add_comm, blank, List.replicate_add, run_append]

/-- A set bit leaves its echo, whatever comes behind it. -/
theorem run_true (m : List Bool) :
    run taps (true :: m) 0#w = echo taps m.length ^^^ run taps m 0#w := by
  have hturn : turn taps 0#w true = taps := by
    rw [turn, if_pos (by simp), BitVec.zero_ushiftRight, BitVec.zero_xor]
  have hblank : List.zipWith xor (blank m.length) m = m := by
    induction m with
    | nil => rfl
    | cons b m ih =>
      rw [List.length_cons, blank, List.replicate_succ, List.zipWith_cons_cons, ih, Bool.false_xor]
  have hxor : run taps (List.zipWith xor (blank m.length) m) (taps ^^^ 0#w) =
      run taps (blank m.length) taps ^^^ run taps m 0#w := run_xor _ _ _ _ List.length_replicate
  rw [run_cons, hturn, echo, ← hxor, hblank, BitVec.xor_zero]

theorem run_false (m : List Bool) : run taps (false :: m) 0#w = run taps m 0#w := by
  have hturn : turn taps 0#w false = 0#w := run_blank_zero 1
  rw [run_cons, hturn]

/-- How many bits there are behind each of the set bits. -/
def marks : List Bool → List ℕ
  | [] => []
  | true :: m => m.length :: marks m
  | false :: m => marks m

theorem length_marks : ∀ m : List Bool, (marks m).length = m.count true
  | [] => rfl
  | true :: m => by rw [marks, List.length_cons, length_marks m, List.count_cons_self]
  | false :: m => by rw [marks, length_marks m, List.count_cons_of_ne Bool.false_ne_true]

theorem lt_of_mem_marks : ∀ {m : List Bool} {k : ℕ}, k ∈ marks m → k < m.length
  | true :: m, k, hk => by
    rcases List.mem_cons.mp hk with rfl | hk
    · exact Nat.lt_succ_self _
    · exact Nat.lt_succ_of_lt (lt_of_mem_marks hk)
  | false :: _, _, hk => Nat.lt_succ_of_lt (lt_of_mem_marks hk)

theorem pairwise_marks : ∀ m : List Bool, (marks m).Pairwise (· > ·)
  | [] => .nil
  | true :: m => .cons (fun _ hk => lt_of_mem_marks hk) (pairwise_marks m)
  | false :: m => pairwise_marks m

/-- **What a message leaves** is made up of the echoes of its set bits. -/
theorem run_marks : ∀ m : List Bool,
    run taps m 0#w = ((marks m).map (echo taps)).foldr (· ^^^ ·) 0#w
  | [] => rfl
  | true :: m => by rw [run_true, run_marks m, marks, List.map_cons, List.foldr_cons]
  | false :: m => by rw [run_false, run_marks m, marks]

/-! ## Few set bits -/

/-- The first states that a set bit leaves behind are different, the lowest bit apart, and none
of them is zero but for the lowest bit. -/
def Spread (taps : BitVec w) (n : ℕ) : Prop :=
  (0#w :: (List.range n).map fun k => echo taps k >>> 1).Nodup

theorem Spread.ne_zero {n k : ℕ} (h : Spread taps n) (hk : k < n) : echo taps k >>> 1 ≠ 0#w :=
  fun hzero => (List.nodup_cons.mp h).1 (List.mem_map.mpr ⟨k, List.mem_range.mpr hk, hzero⟩)

theorem Spread.inj {n j k : ℕ} (h : Spread taps n) (hj : j < n) (hk : k < n)
    (hsame : echo taps j >>> 1 = echo taps k >>> 1) : j = k :=
  List.inj_on_of_nodup_map (List.nodup_cons.mp h).2 (List.mem_range.mpr hj) (List.mem_range.mpr hk)
    hsame

/-- Messages that differ in no bit are the same. -/
theorem eq_of_count_xor_eq_zero : ∀ {m m' : List Bool}, m.length = m'.length →
    (List.zipWith xor m m').count true = 0 → m = m'
  | [], [], _, _ => rfl
  | b :: m, b' :: m', hlen, hcount => by
    rw [List.zipWith_cons_cons, List.count_cons, Nat.add_eq_zero_iff] at hcount
    obtain ⟨hrest, hbit⟩ := hcount
    obtain rfl : b = b' := by
      revert hbit
      cases b <;> cases b' <;> decide
    rw [eq_of_count_xor_eq_zero (Nat.succ.inj hlen) hrest]

section Top

variable (htop : taps.getLsbD (w - 1) = true)
include htop

theorem echo_ne_zero (k : ℕ) : echo taps k ≠ 0#w := by
  intro hzero
  have htaps := run_blank_eq_zero htop k hzero
  rw [htaps, BitVec.getLsbD_zero] at htop
  cases htop

/-- Only a state without a higher bit than the lowest one is turned into the taps. -/
theorem shift_eq_zero_of_turn {s : BitVec w} (h : turn taps s false = taps) : s >>> 1 = 0#w := by
  have hclear : (s >>> 1).getLsbD (w - 1) = false := by
    rw [BitVec.getLsbD_ushiftRight]
    refine BitVec.getLsbD_of_ge s _ ?_
    have := BitVec.lt_of_getLsbD htop
    omega
  rw [turn] at h
  split_ifs at h
  · exact (BitVec.xor_left_inj taps).mp (h.trans (BitVec.zero_xor).symm)
  · rw [h, htop] at hclear
    cases hclear

/-- Echoes that cancel out do so from the beginning. -/
theorem xor_echo_eq_taps {a b k : ℕ}
    (hzero : echo taps (k + a) ^^^ (echo taps (k + b) ^^^ echo taps k) = 0#w) :
    echo taps a ^^^ echo taps b = taps := by
  have hstart : echo taps k = run taps (blank k) taps := rfl
  rw [echo_add, echo_add, hstart, ← run_blank_xor, ← run_blank_xor, ← BitVec.xor_assoc] at hzero
  exact BitVec.xor_eq_zero_iff.mp (run_blank_eq_zero htop k hzero)

variable {n : ℕ} (h : Spread taps n)
include h

/-- Two set bits. -/
theorem two_marks {i j : ℕ} (hij : j < i) (hi : i ≤ n) : echo taps i ^^^ echo taps j ≠ 0#w := by
  intro hzero
  obtain ⟨d, rfl⟩ : ∃ d, i = j + (d + 1) := ⟨i - j - 1, by omega⟩
  have hstart : echo taps j = run taps (blank j) taps := rfl
  rw [echo_add, hstart, ← run_blank_xor] at hzero
  have hturn : echo taps (d + 1) = taps :=
    BitVec.xor_eq_zero_iff.mp (run_blank_eq_zero htop j hzero)
  rw [echo_succ] at hturn
  exact h.ne_zero (by omega) (shift_eq_zero_of_turn htop hturn)

/-- Three set bits. -/
theorem three_marks {i j k : ℕ} (hij : j < i) (hjk : k < j) (hi : i ≤ n) :
    echo taps i ^^^ (echo taps j ^^^ echo taps k) ≠ 0#w := by
  intro hzero
  obtain ⟨a, rfl⟩ : ∃ a, i = k + (a + 1) := ⟨i - k - 1, by omega⟩
  obtain ⟨b, rfl⟩ : ∃ b, j = k + (b + 1) := ⟨j - k - 1, by omega⟩
  -- let the lowest one be the last: then two echoes one turn earlier differ in the lowest bit only
  have hturn := xor_echo_eq_taps htop hzero
  rw [echo_succ, echo_succ, ← turn_xor, Bool.xor_false] at hturn
  have hshift := shift_eq_zero_of_turn htop hturn
  rw [BitVec.ushiftRight_xor_distrib] at hshift
  have hsame := h.inj (by omega) (by omega) (BitVec.xor_eq_zero_iff.mp hshift)
  omega

/-- **Up to three set bits are noticed.** -/
theorem count_eq_zero_of_spread {m : List Bool} (hlen : m.length ≤ n + 1)
    (hrun : run taps m 0#w = 0#w) (hcount : m.count true ≤ 3) : m.count true = 0 := by
  have hle : ∀ k ∈ marks m, k ≤ n := fun k hk => by
    have := lt_of_mem_marks hk
    omega
  have hdown := pairwise_marks m
  rw [run_marks] at hrun
  rw [← length_marks] at hcount ⊢
  match hmarks : marks m with
  | [] => rfl
  | [k] =>
    rw [hmarks] at hrun
    exact absurd ((BitVec.xor_zero).symm.trans hrun) (echo_ne_zero htop k)
  | [j, k] =>
    rw [hmarks] at hrun hdown hle
    simp only [List.map_cons, List.map_nil, List.foldr_cons, List.foldr_nil, BitVec.xor_zero] at hrun
    have hjk : k < j := List.rel_of_pairwise_cons hdown List.mem_cons_self
    exact absurd hrun (two_marks htop h hjk (hle j List.mem_cons_self))
  | [i, j, k] =>
    rw [hmarks] at hrun hdown hle
    simp only [List.map_cons, List.map_nil, List.foldr_cons, List.foldr_nil, BitVec.xor_zero] at hrun
    have hij : j < i := List.rel_of_pairwise_cons hdown List.mem_cons_self
    have hjk : k < j := List.rel_of_pairwise_cons (List.pairwise_cons.mp hdown).2 List.mem_cons_self
    exact absurd hrun (three_marks htop h hij hjk (hle i List.mem_cons_self))
  | i :: j :: k :: l :: ks =>
    rw [hmarks] at hcount
    simp only [List.length_cons] at hcount
    omega

/-- **Up to three flipped bits are detected**: two messages of one length that end alike, and that
differ in up to three bits, do not differ. -/
theorem eq_of_flips {m m' : List Bool} (hlen : m.length = m'.length) (hn : m.length ≤ n + 1)
    {s : BitVec w} (hrun : run taps m s = run taps m' s)
    (hcount : (List.zipWith xor m m').count true ≤ 3) : m = m' := by
  have hzero : run taps (List.zipWith xor m m') (s ^^^ s) = run taps m s ^^^ run taps m' s :=
    run_xor m m' s s hlen
  rw [hrun, BitVec.xor_self, BitVec.xor_self] at hzero
  refine eq_of_count_xor_eq_zero hlen (count_eq_zero_of_spread htop h ?_ hzero hcount)
  rw [List.length_zipWith, ← hlen, Nat.min_self]
  exact hn

end Top

/-! ## Finding it out -/

/-- A tree to sort with. -/
inductive Tree (α : Type) where
  | leaf
  | node (left : Tree α) (a : α) (right : Tree α)

namespace Tree

variable {α : Type} [Preorder α] [DecidableLT α]

/-- Put an element in its place. -/
def insert (a : α) : Tree α → Tree α
  | leaf => node leaf a leaf
  | node left b right =>
    if a < b then node (left.insert a) b right else node left b (right.insert a)

/-- The elements from left to right. -/
def elements : Tree α → List α
  | leaf => []
  | node left a right => left.elements ++ a :: right.elements

/-- The elements of a list in their order. -/
def sort (l : List α) : List α := (l.foldl (fun t a => t.insert a) leaf).elements

theorem elements_insert_perm (a : α) (t : Tree α) : (t.insert a).elements.Perm (a :: t.elements) := by
  induction t with
  | leaf => exact .refl _
  | node left b right ihLeft ihRight =>
    rw [insert]
    split_ifs
    · exact ihLeft.append_right _
    · calc left.elements ++ b :: (right.insert a).elements
          _ |>.Perm (left.elements ++ b :: a :: right.elements) :=
            (ihRight.cons b).append_left left.elements
          _ |>.Perm (left.elements ++ a :: b :: right.elements) :=
            (List.Perm.swap a b right.elements).append_left left.elements
          _ |>.Perm (a :: (left.elements ++ b :: right.elements)) := List.perm_middle

theorem sort_perm (l : List α) : (sort l).Perm l := by
  have hfold : ∀ (l : List α) (t : Tree α),
      (l.foldl (fun t a => t.insert a) t).elements.Perm (l ++ t.elements) := by
    intro l
    induction l with
    | nil => exact fun _ => .refl _
    | cons a l ih =>
      intro t
      exact (ih _).trans (((elements_insert_perm a t).append_left l).trans List.perm_middle)
  have hsort := hfold l leaf
  rwa [elements, List.append_nil] at hsort

/-- **What is strictly increasing when it is sorted** has no repetition. -/
theorem nodup_of_sort {l : List α} (h : (sort l).IsChain (· < ·)) : l.Nodup :=
  (sort_perm l).nodup_iff.mp ((List.isChain_iff_pairwise.mp h).imp fun hlt => ne_of_lt hlt)

end Tree

/-- A turn without input, of a register that is kept as a number. -/
def turnNat (taps s : ℕ) : ℕ := if s % 2 = 1 then s / 2 ^^^ taps else s / 2

/-- The states that follow one, without their lowest bits. -/
def trail (taps : ℕ) : ℕ → ℕ → List ℕ
  | 0, _ => []
  | n + 1, s => s / 2 :: trail taps n (turnNat taps s)

theorem toNat_shift (s : BitVec w) : (s >>> 1).toNat = s.toNat / 2 :=
  (BitVec.toNat_ushiftRight s 1).trans (Nat.shiftRight_eq_div_pow s.toNat 1)

theorem toNat_turn (s : BitVec w) : (turn taps s false).toNat = turnNat taps.toNat s.toNat := by
  have hlow : (s.getLsbD 0 = true) = (s.toNat % 2 = 1) := by
    rw [BitVec.getLsbD, Nat.testBit_zero, decide_eq_true_eq]
  rw [turn, turnNat, Bool.xor_false]
  simp only [hlow]
  split_ifs
  · rw [BitVec.toNat_xor, toNat_shift]
  · exact toNat_shift s

theorem trail_echo : ∀ n k : ℕ, trail taps.toNat n (echo taps k).toNat =
    (List.range' k n).map fun k => (echo taps k >>> 1).toNat := by
  intro n
  induction n with
  | zero => exact fun _ => rfl
  | succ n ih =>
    intro k
    rw [trail, ← toNat_turn, ← echo_succ, ih, List.range'_succ, List.map_cons, toNat_shift]

/-- **A computation that shows it**: the states sorted as numbers. -/
theorem spread_of_sorted {n : ℕ}
    (h : (Tree.sort (0 :: trail taps.toNat n taps.toNat)).IsChain (· < ·)) : Spread taps n := by
  have htrail : trail taps.toNat n taps.toNat =
      (List.range' 0 n).map fun k => (echo taps k >>> 1).toNat := trail_echo n 0
  have hnodup := Tree.nodup_of_sort h
  rw [htrail, ← List.range_eq_range'] at hnodup
  refine List.Nodup.of_map BitVec.toNat ?_
  rw [List.map_cons, List.map_map]
  exact hnodup

end ShiftRegister
