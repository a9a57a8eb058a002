import Mathlib.Data.List.Basic
import Mathlib.Algebra.Order.BigOperators.Group.List
import Mathlib.Tactic.Ring

/-!
# Lazy block stuffing

A library on consistent-overhead stuffing over an arbitrary alphabet; it knows
nothing of any particular program.

A *stuffed* frame is a chain of blocks `code :: data`. The code of a block
carrying `n` symbols is `code (n + 1)`; a block of `cap` symbols is *full*, and
only a block that is not full implies a delimiter behind its data. The variant
treated here is the **lazy** one: a full block is closed when the next symbol
arrives, not when it fills up. That is what makes it lossy — a delimiter which
arrives right behind a full block closes that block, and the full block implies
no delimiter.

* `stuff` — the sender, `unstuff` — the receiver, over lists.
* `unstuff_stuff` — what the receiver recovers (`recovered`).
* `recovered_eq_self_iff` — it is everything exactly when no run of
  non-delimiters in front of a delimiter fills its last block.
* `length_stuff` — the exact size of a frame.
* `stuff_unstuff` — short frames are canonical.
-/

namespace Stuffing

universe u

/-- An alphabet for block stuffing: the symbols are numbered `0, …, cap + 1`,
number `0` being the delimiter. -/
class Alphabet (α : Type u) where
  /-- the delimiter -/
  zero : α
  /-- the largest number of data symbols in one block -/
  cap : ℕ
  /-- the symbol with a given number -/
  code : ℕ → α
  /-- the number of a symbol -/
  val : α → ℕ
  cap_pos : 0 < cap
  val_zero : val zero = 0
  val_code : ∀ {n}, n ≤ cap + 1 → val (code n) = n
  code_val : ∀ a, code (val a) = a
  val_le : ∀ a, val a ≤ cap + 1

open Alphabet

variable {α : Type u} [Alphabet α] [DecidableEq α]

omit [DecidableEq α] in
theorem val_eq_zero {a : α} : val a = 0 ↔ a = zero := by
  constructor
  · intro h
    rw [← code_val a, ← code_val (zero : α), h, val_zero]
  · rintro rfl
    exact val_zero

omit [DecidableEq α] in
theorem code_ne_zero {n : ℕ} (hpos : 0 < n) (hn : n ≤ cap α + 1) : code n ≠ (zero : α) := by
  intro h
  have := val_code hn
  rw [h, val_zero] at this
  omega

/-! ## Sender and receiver -/

/-- The frame for the symbols still to come, when the open block already holds
the data `run`. -/
def stuffFrom (run : List α) : List α → List α
  | [] => code (run.length + 1) :: (run ++ [zero])
  | b :: xs =>
    if b = zero then code (run.length + 1) :: (run ++ stuffFrom [] xs)
    else if run.length = cap α then code (run.length + 1) :: (run ++ stuffFrom [b] xs)
    else stuffFrom (run ++ [b]) xs

/-- The frame of a message. -/
def stuff (xs : List α) : List α := stuffFrom [] xs

/-- The receiver inside a block: `k` data symbols are still to be copied, and
`full` says whether the block is a full one. When `k` is used up the next symbol
is a code; the delimiter in that place has to be the last symbol. -/
def unstuffFrom (k : ℕ) (full : Bool) : List α → Option (List α)
  | [] => none
  | b :: l =>
    if k = 0 then
      if b = zero then if l = [] then some [] else none
      else
        (unstuffFrom (val b - 1) (decide (val b = cap α + 1)) l).map fun y =>
          if full then y else zero :: y
    else (unstuffFrom (k - 1) full l).map (b :: ·)

/-- The receiver: the first symbol is a code, and no delimiter stands before it. -/
def unstuff : List α → Option (List α) := unstuffFrom 0 true

/-- What the receiver recovers of the symbols to come, when the open block holds
`k` symbols: a delimiter behind a full block is lost. -/
def recovered (k : ℕ) : List α → List α
  | [] => []
  | b :: xs =>
    if b = zero then if k = cap α then recovered 0 xs else zero :: recovered 0 xs
    else b :: recovered (if k = cap α then 1 else k + 1) xs

theorem stuffFrom_zero (run xs : List α) :
    stuffFrom run (zero :: xs) = code (run.length + 1) :: (run ++ stuffFrom [] xs) := by
  rw [stuffFrom, if_pos rfl]

theorem stuffFrom_full {b : α} (hb : b ≠ zero) {run : List α} (hfull : run.length = cap α)
    (xs : List α) :
    stuffFrom run (b :: xs) = code (run.length + 1) :: (run ++ stuffFrom [b] xs) := by
  rw [stuffFrom, if_neg hb, if_pos hfull]

theorem stuffFrom_data {b : α} (hb : b ≠ zero) {run : List α} (hfull : run.length ≠ cap α)
    (xs : List α) : stuffFrom run (b :: xs) = stuffFrom (run ++ [b]) xs := by
  rw [stuffFrom, if_neg hb, if_neg hfull]

/-! ## The round trip -/

/-- Copying the data of a block. -/
theorem unstuffFrom_append (full : Bool) (l : List α) :
    ∀ data : List α,
      unstuffFrom data.length full (data ++ l) = (unstuffFrom 0 full l).map (data ++ ·) := by
  intro data
  induction data with
  | nil => simp
  | cons b data ih =>
    rw [List.cons_append, unstuffFrom, if_neg (by simp), List.length_cons, Nat.add_sub_cancel, ih,
      Option.map_map]
    rfl

/-- Entering a block through its code. -/
theorem unstuffFrom_block {n : ℕ} (hn : n ≤ cap α) {data : List α} (hlen : data.length = n)
    (full : Bool) (l : List α) :
    unstuffFrom 0 full (code (n + 1) :: (data ++ l)) =
      (unstuffFrom 0 (decide (n = cap α)) l).map fun y =>
        if full then data ++ y else zero :: (data ++ y) := by
  have hne : code (n + 1) ≠ (zero : α) := code_ne_zero (by omega) (by omega)
  have hval : val (code (n + 1) : α) = n + 1 := val_code (by omega)
  subst hlen
  rw [unstuffFrom, if_pos rfl, if_neg hne, hval]
  simp only [Nat.add_sub_cancel, Nat.add_right_cancel_iff]
  rw [unstuffFrom_append, Option.map_map]
  rfl

/-- The receiver on the sender's output, from inside the message. -/
theorem unstuffFrom_stuffFrom (full : Bool) :
    ∀ (xs run : List α), run.length ≤ cap α →
      unstuffFrom 0 full (stuffFrom run xs) =
        some (if full then run ++ recovered run.length xs
          else zero :: (run ++ recovered run.length xs)) := by
  intro xs
  induction xs generalizing full with
  | nil =>
    intro run hrun
    rw [stuffFrom, unstuffFrom_block hrun rfl]
    simp [unstuffFrom, recovered]
  | cons b xs ih =>
    intro run hrun
    by_cases hb : b = zero
    · -- the delimiter closes the block; a full block does not imply it
      subst hb
      rw [stuffFrom_zero, unstuffFrom_block hrun rfl, ih _ [] (Nat.zero_le _)]
      by_cases hfull : run.length = cap α <;> simp [recovered, hfull]
    · by_cases hfull : run.length = cap α
      · -- the lazy split: `b` opens the next block
        rw [stuffFrom_full hb hfull, unstuffFrom_block hrun rfl, ih _ [b] (cap_pos (α := α))]
        simp [recovered, hb, hfull]
      · rw [stuffFrom_data hb hfull, ih _ (run ++ [b]) (by simp; omega)]
        simp [recovered, hb, hfull]

/-- **The round trip**: the receiver recovers everything but the delimiters that
were lost behind a full block. -/
theorem unstuff_stuff (xs : List α) : unstuff (stuff xs) = some (recovered 0 xs) := by
  rw [unstuff, stuff, unstuffFrom_stuffFrom true xs [] (Nat.zero_le _)]
  rfl

/-- A successful receiver has consumed the data of the block and one code. -/
theorem lt_length_of_unstuffFrom {full : Bool} :
    ∀ {l : List α} {k : ℕ} {y : List α}, unstuffFrom k full l = some y → k < l.length := by
  intro l
  induction l with
  | nil => intro k y h; cases h
  | cons b l ih =>
    intro k y h
    rw [unstuffFrom] at h
    by_cases hk : k = 0
    · rw [List.length_cons]
      omega
    · rw [if_neg hk] at h
      obtain ⟨y', hy', -⟩ := Option.map_eq_some_iff.mp h
      have := ih hy'
      rw [List.length_cons]
      omega

/-- Inside a frame the receiver writes less than it reads. -/
theorem length_unstuffFrom :
    ∀ {l : List α} {full : Bool} {k : ℕ} {y : List α}, unstuffFrom k full l = some y →
      y.length < l.length := by
  intro l
  induction l with
  | nil => intro full k y h; cases h
  | cons b l ih =>
    intro full k y h
    rw [unstuffFrom] at h
    rw [List.length_cons]
    split at h
    · split at h
      · split at h
        · obtain rfl := Option.some.inj h
          exact Nat.succ_pos _
        · cases h
      · obtain ⟨y', hy', rfl⟩ := Option.map_eq_some_iff.mp h
        have := ih hy'
        cases full
        · simpa using this
        · simp only [if_true]
          omega
    · obtain ⟨y', hy', rfl⟩ := Option.map_eq_some_iff.mp h
      have := ih hy'
      simpa using this

/-- A frame costs the code of its first block and the closing delimiter. -/
theorem length_unstuff {f y : List α} (h : unstuff f = some y) (hf : 1 < f.length) :
    y.length + 2 ≤ f.length := by
  rcases f with - | ⟨c, l⟩
  · cases h
  · rw [List.length_cons] at hf
    rw [unstuff, unstuffFrom, if_pos rfl] at h
    split at h
    · split at h
      · rename_i hl
        rw [hl, List.length_nil] at hf
        omega
      · cases h
    · obtain ⟨y', hy', rfl⟩ := Option.map_eq_some_iff.mp h
      have := length_unstuffFrom hy'
      simp only [if_true, List.length_cons]
      omega

/-- The receiver at a code: the block in front of it decides whether the code
implies a delimiter. -/
theorem unstuffFrom_code (full : Bool) (c : α) (l : List α) :
    unstuffFrom 0 full (c :: l) =
      (unstuff (c :: l)).map fun y => if full = false ∧ c ≠ zero then zero :: y else y := by
  by_cases hc : c = zero
  · by_cases hl : l = [] <;> simp [unstuff, unstuffFrom, hc, hl]
  · cases full <;> simp [unstuff, unstuffFrom, hc]

/-- One whole block of a frame. -/
theorem unstuff_block {c : α} (hc : c ≠ zero) {data : List α} (hdata : data.length = val c - 1)
    (c' : α) (l : List α) :
    unstuff (c :: (data ++ c' :: l)) =
      (unstuff (c' :: l)).map fun y =>
        data ++ if val c ≠ cap α + 1 ∧ c' ≠ zero then zero :: y else y := by
  conv_lhs => rw [unstuff, unstuffFrom, if_pos rfl, if_neg hc]
  rw [← hdata, unstuffFrom_append, unstuffFrom_code, Option.map_map, Option.map_map]
  simp [Function.comp_def]

/-- A block cut short. -/
theorem unstuff_eq_none {c : α} (hc : c ≠ zero) {l : List α} (hl : l.length < val c) :
    unstuff (c :: l) = none := by
  rw [unstuff, unstuffFrom, if_pos rfl, if_neg hc, Option.map_eq_none_iff,
    Option.eq_none_iff_forall_ne_some]
  intro y hy
  have := lt_length_of_unstuffFrom hy
  omega

theorem recovered_sublist : ∀ (xs : List α) (k : ℕ), (recovered k xs).Sublist xs := by
  intro xs
  induction xs with
  | nil => exact fun _ => List.Sublist.refl _
  | cons b xs ih =>
    intro k
    rw [recovered]
    split
    · rename_i hb
      subst hb
      split
      · exact (ih 0).cons _
      · exact (ih 0).cons_cons _
    · exact (ih _).cons_cons _

theorem recovered_eq_self_iff_length {xs : List α} {k : ℕ} :
    recovered k xs = xs ↔ (recovered k xs).length = xs.length :=
  ⟨fun h => by rw [h], (recovered_sublist xs k).eq_of_length⟩

/-! ## Runs -/

/-- The lengths of the maximal runs of non-delimiters of a message, in order and
empty ones included, the first run being `n` symbols longer. -/
def runsFrom (n : ℕ) (xs : List α) : List ℕ :=
  ((xs.splitOn zero).map List.length).modifyHead (n + ·)

/-- The lengths of the maximal runs of non-delimiters: every run but the last is
followed by a delimiter. -/
def runs (xs : List α) : List ℕ := (xs.splitOn zero).map List.length

theorem runs_eq (xs : List α) : runs xs = runsFrom 0 xs := by
  rw [runs, runsFrom]
  cases (xs.splitOn zero).map List.length <;> simp

@[simp] theorem runsFrom_nil (n : ℕ) : runsFrom n ([] : List α) = [n] := by
  simp [runsFrom]

@[simp] theorem runsFrom_zero (n : ℕ) (xs : List α) :
    runsFrom n (zero :: xs) = n :: runsFrom 0 xs := by
  rw [← runs_eq]
  simp [runsFrom, runs, List.splitOn_cons_eq_if_modifyHead]

theorem runsFrom_cons (n : ℕ) {b : α} (hb : b ≠ zero) (xs : List α) :
    runsFrom n (b :: xs) = runsFrom (n + 1) xs := by
  rw [runsFrom, runsFrom, List.splitOn_cons_eq_if_modifyHead, if_neg (by simpa using hb)]
  rcases xs.splitOn zero with - | ⟨s, ss⟩
  · rfl
  · simp only [List.modifyHead_cons, List.map_cons, List.length_cons]
    rw [show n + (s.length + 1) = n + 1 + s.length by omega]

theorem runsFrom_ne_nil (n : ℕ) (xs : List α) : runsFrom n xs ≠ [] := by
  simp [runsFrom]

theorem runsFrom_add (m n : ℕ) (xs : List α) :
    runsFrom (m + n) xs = (runsFrom n xs).modifyHead (m + ·) := by
  rw [runsFrom, runsFrom]
  rcases (xs.splitOn zero).map List.length with - | ⟨s, ss⟩
  · rfl
  · simp [Nat.add_assoc]

/-! ## What is lost -/

/-- The number of symbols in the open block after a run of `n` non-delimiters. -/
def fill (cap n : ℕ) : ℕ := if n = 0 then 0 else (n - 1) % cap + 1

theorem fill_eq_cap {c n : ℕ} (hc : 0 < c) : fill c n = c ↔ n ≠ 0 ∧ c ∣ n := by
  rw [fill]
  rcases Nat.eq_zero_or_pos n with rfl | hn
  · simp [hc.ne]
  · rw [if_neg hn.ne', Nat.dvd_iff_mod_eq_zero]
    have hmod := Nat.mod_lt (n - 1) hc
    have hstep : n % c = ((n - 1) % c + 1) % c := by
      rw [Nat.mod_add_mod, Nat.sub_add_cancel hn]
    constructor
    · intro h
      exact ⟨hn.ne', by rw [hstep, h, Nat.mod_self]⟩
    · rintro ⟨-, h⟩
      rw [hstep] at h
      by_contra hne
      rw [Nat.mod_eq_of_lt (by omega)] at h
      omega

theorem fill_succ {c : ℕ} (hc : 0 < c) (n : ℕ) :
    fill c (n + 1) = if fill c n = c then 1 else fill c n + 1 := by
  rcases Nat.eq_zero_or_pos n with rfl | hn
  · simp [fill, hc.ne]
  · have hmod := Nat.mod_lt (n - 1) hc
    have hstep : n % c = ((n - 1) % c + 1) % c := by
      rw [Nat.mod_add_mod, Nat.sub_add_cancel hn]
    simp only [fill, if_neg hn.ne', Nat.add_eq_zero_iff, one_ne_zero, and_false, if_false,
      Nat.add_sub_cancel]
    rw [hstep]
    split
    · rename_i h
      rw [h, Nat.mod_self]
    · rw [Nat.mod_eq_of_lt (by omega)]

/-- Nothing is lost: no run in front of a delimiter fills its last block. -/
def Lossless (cap : ℕ) (rs : List ℕ) : Prop := ∀ n ∈ rs.dropLast, n ≠ 0 → ¬ cap ∣ n

instance (cap : ℕ) (rs : List ℕ) : Decidable (Lossless cap rs) :=
  inferInstanceAs (Decidable (∀ n ∈ rs.dropLast, n ≠ 0 → ¬ cap ∣ n))

theorem recovered_eq_iff_lossless :
    ∀ (xs : List α) (n : ℕ),
      recovered (fill (cap α) n) xs = xs ↔ Lossless (cap α) (runsFrom n xs) := by
  intro xs
  induction xs with
  | nil => simp [recovered, Lossless]
  | cons b xs ih =>
    intro n
    by_cases hb : b = zero
    · subst hb
      have hsplit : Lossless (cap α) (runsFrom n (zero :: xs)) ↔
          (n ≠ 0 → ¬ cap α ∣ n) ∧ Lossless (cap α) (runsFrom 0 xs) := by
        simp [Lossless, List.dropLast_cons_of_ne_nil (runsFrom_ne_nil 0 xs)]
      rw [hsplit, ← ih 0, recovered, if_pos rfl]
      by_cases hfull : fill (cap α) n = cap α
      · -- the delimiter is lost, so the lengths differ
        obtain ⟨hn, hdvd⟩ := (fill_eq_cap cap_pos).mp hfull
        rw [if_pos hfull]
        have hlen := (recovered_sublist xs 0).length_le
        refine iff_of_false (fun h => ?_) (fun h => h.1 hn hdvd)
        rw [h] at hlen
        simp at hlen
      · rw [if_neg hfull]
        have hkeep : n ≠ 0 → ¬ cap α ∣ n :=
          fun hn hdvd => hfull ((fill_eq_cap cap_pos).mpr ⟨hn, hdvd⟩)
        simp only [List.cons.injEq, true_and, fill, if_true]
        exact ⟨fun h => ⟨hkeep, h⟩, fun h => h.2⟩
    · rw [runsFrom_cons n hb, ← ih (n + 1), recovered, if_neg hb, fill_succ cap_pos]
      simp

/-- **What the round trip needs**: the message comes back exactly when none of
its runs in front of a delimiter is a positive multiple of the block capacity. -/
theorem recovered_eq_self_iff (xs : List α) :
    recovered 0 xs = xs ↔ Lossless (cap α) (runs xs) := by
  rw [runs_eq, ← recovered_eq_iff_lossless xs 0]
  simp [fill]

/-! ## The size of a frame -/

/-- The number of blocks opened because a run filled the previous one. -/
def overhead (cap : ℕ) (rs : List ℕ) : ℕ := (rs.map fun n => (n - 1) / cap).sum

theorem overhead_le (c : ℕ) : ∀ rs : List ℕ, overhead c rs ≤ rs.sum / c := by
  intro rs
  induction rs with
  | nil => simp [overhead]
  | cons n rs ih =>
    rw [overhead, List.map_cons, List.sum_cons, List.sum_cons, ← overhead]
    calc (n - 1) / c + overhead c rs ≤ n / c + rs.sum / c :=
          Nat.add_le_add (Nat.div_le_div_right (Nat.sub_le n 1)) ih
      _ ≤ (n + rs.sum) / c := Nat.div_add_div_le_add_div

theorem sum_runsFrom_le : ∀ (xs : List α) (n : ℕ), (runsFrom n xs).sum ≤ n + xs.length := by
  intro xs
  induction xs with
  | nil => simp
  | cons b xs ih =>
    intro n
    by_cases hb : b = zero
    · subst hb
      have := ih 0
      simp only [runsFrom_zero, List.sum_cons, List.length_cons]
      omega
    · rw [runsFrom_cons n hb, List.length_cons]
      have := ih (n + 1)
      omega

/-- A run that fills a block opens one more. -/
theorem overhead_full {c : ℕ} (hc : 0 < c) (xs : List α) :
    overhead c (runsFrom (c + 1) xs) = 1 + overhead c (runsFrom 1 xs) := by
  rw [runsFrom_add]
  rcases hr : runsFrom 1 xs with - | ⟨m, rs⟩
  · exact absurd hr (runsFrom_ne_nil 1 xs)
  · have hm : 1 ≤ m := by
      have hadd := runsFrom_add 1 0 xs
      rw [Nat.add_zero, hr] at hadd
      rcases h0 : runsFrom 0 xs with - | ⟨t, ts⟩
      · exact absurd h0 (runsFrom_ne_nil 0 xs)
      · rw [h0, List.modifyHead_cons, List.cons.injEq] at hadd
        omega
    have hdiv : (c + m - 1) / c = 1 + (m - 1) / c := by
      rw [Nat.add_sub_assoc hm, Nat.add_div_left _ hc, Nat.add_comm]
    simp only [overhead, List.modifyHead_cons, List.map_cons, List.sum_cons, hdiv]
    omega

theorem length_stuffFrom :
    ∀ (xs run : List α), run.length ≤ cap α →
      (stuffFrom run xs).length =
        run.length + xs.length + 2 + overhead (cap α) (runsFrom run.length xs) := by
  intro xs
  induction xs with
  | nil =>
    intro run hrun
    have hz : (run.length - 1) / cap α = 0 :=
      Nat.div_eq_of_lt (by have := cap_pos (α := α); omega)
    simp [stuffFrom, overhead, hz]
  | cons b xs ih =>
    intro run hrun
    have hz : (run.length - 1) / cap α = 0 :=
      Nat.div_eq_of_lt (by have := cap_pos (α := α); omega)
    by_cases hb : b = zero
    · subst hb
      have hnil := ih [] (Nat.zero_le _)
      rw [stuffFrom_zero, runsFrom_zero]
      simp only [List.length_cons, List.length_append, hnil, overhead, List.map_cons,
        List.sum_cons, hz, List.length_nil]
      omega
    · rw [runsFrom_cons _ hb]
      by_cases hfull : run.length = cap α
      · have hone := ih [b] (cap_pos (α := α))
        rw [stuffFrom_full hb hfull, hfull, overhead_full cap_pos]
        simp only [List.length_cons, List.length_append, hone, List.length_nil, hfull, Nat.zero_add]
        omega
      · rw [stuffFrom_data hb hfull, ih (run ++ [b]) (by simp; omega)]
        simp only [List.length_append, List.length_cons, List.length_nil, Nat.zero_add]
        omega

/-- **The exact size of a frame**: one code, the data, the closing delimiter, and
one more code for each block that a run overfills. -/
theorem length_stuff (xs : List α) :
    (stuff xs).length = xs.length + 2 + overhead (cap α) (runs xs) := by
  rw [stuff, length_stuffFrom xs [] (Nat.zero_le _), runs_eq]
  simp

theorem length_stuff_le (xs : List α) :
    (stuff xs).length ≤ xs.length + 2 + xs.length / cap α := by
  rw [length_stuff, runs_eq]
  have hsum := sum_runsFrom_le xs 0
  have hdiv := Nat.div_le_div_right (c := cap α) hsum
  have := overhead_le (cap α) (runsFrom 0 xs)
  simp only [Nat.zero_add] at hdiv
  omega

/-- A message which fits one block costs two symbols. -/
theorem length_stuff_short {xs : List α} (h : xs.length ≤ cap α) :
    (stuff xs).length = xs.length + 2 := by
  rw [length_stuff, runs_eq]
  have hle : ∀ n ∈ runsFrom 0 xs, n ≤ xs.length := by
    intro n hn
    have := List.le_sum_of_mem hn
    have := sum_runsFrom_le xs 0
    omega
  have hzero : overhead (cap α) (runsFrom 0 xs) = 0 := by
    rw [overhead, List.sum_eq_zero]
    intro m hm
    obtain ⟨n, hn, rfl⟩ := List.mem_map.mp hm
    have := hle n hn
    exact Nat.div_eq_of_lt (by have := cap_pos (α := α); omega)
  rw [hzero]

/-- A message which fits one block comes back whole. -/
theorem recovered_short : ∀ (xs : List α) (k : ℕ), k + xs.length ≤ cap α →
    recovered k xs = xs := by
  intro xs
  induction xs with
  | nil => exact fun _ _ => rfl
  | cons b xs ih =>
    intro k hk
    rw [List.length_cons] at hk
    rw [recovered, if_neg (show k ≠ cap α by omega), if_neg (show k ≠ cap α by omega)]
    by_cases hb : b = zero
    · rw [if_pos hb, ih 0 (by omega), hb]
    · rw [if_neg hb, ih (k + 1) (by omega)]

/-- **A message which fits one block survives** the round trip. -/
theorem unstuff_stuff_short {xs : List α} (h : xs.length ≤ cap α) :
    unstuff (stuff xs) = some xs := by
  rw [unstuff_stuff, recovered_short xs 0]
  rwa [Nat.zero_add]

/-! ## The delimiter -/

/-- The delimiter closes a frame and occurs nowhere else in it. -/
def Delimited (f : List α) : Prop := ∃ t, f = t ++ [zero] ∧ zero ∉ t

omit [DecidableEq α] in
theorem Delimited.prepend {s f : List α} (hs : zero ∉ s) (hf : Delimited f) :
    Delimited (s ++ f) := by
  obtain ⟨t, rfl, ht⟩ := hf
  exact ⟨s ++ t, by rw [List.append_assoc], by simp [hs, ht]⟩

omit [DecidableEq α] in
theorem Delimited.tail {b : α} {f : List α} (hne : f ≠ []) (h : Delimited (b :: f)) :
    b ≠ zero ∧ Delimited f := by
  obtain ⟨t, ht, hz⟩ := h
  rcases t with - | ⟨c, t⟩
  · simp only [List.nil_append, List.cons.injEq] at ht
    exact absurd ht.2 hne
  · simp only [List.cons_append, List.cons.injEq] at ht
    obtain ⟨rfl, rfl⟩ := ht
    simp only [List.mem_cons, not_or] at hz
    exact ⟨Ne.symm hz.1, t, rfl, hz.2⟩

theorem delimited_stuffFrom :
    ∀ (xs run : List α), run.length ≤ cap α → zero ∉ run → Delimited (stuffFrom run xs) := by
  have hhead : ∀ run : List α, run.length ≤ cap α → zero ∉ run →
      zero ∉ code (run.length + 1) :: run := by
    intro run hrun hz
    rw [List.mem_cons, not_or]
    exact ⟨(code_ne_zero (by omega) (by omega)).symm, hz⟩
  intro xs
  induction xs with
  | nil =>
    intro run hrun hz
    exact ⟨code (run.length + 1) :: run, rfl, hhead run hrun hz⟩
  | cons b xs ih =>
    intro run hrun hz
    rw [stuffFrom]
    split
    · exact (ih [] (Nat.zero_le _) (by simp)).prepend (hhead run hrun hz)
    · rename_i hb
      split
      · exact (ih [b] (cap_pos (α := α)) (by simpa using Ne.symm hb)).prepend (hhead run hrun hz)
      · exact ih (run ++ [b]) (by simp; omega) (by simp [hz, Ne.symm hb])

theorem delimited_stuff (xs : List α) : Delimited (stuff xs) :=
  delimited_stuffFrom xs [] (Nat.zero_le _) (by simp)

/-! ## Canonicity of short frames -/

/-- A frame too short for a full block is what the sender makes of its content:
`run` is the part of the open block already copied, `k` what is left of it. -/
theorem stuffFrom_unstuffFrom :
    ∀ (l run : List α) (k : ℕ) (y : List α),
      Delimited l → run.length + l.length ≤ cap α → unstuffFrom k false l = some y →
      stuffFrom run y = code (run.length + k + 1) :: (run ++ l) := by
  intro l
  induction l with
  | nil => intro run k y _ _ h; cases h
  | cons b l ih =>
    intro run k y hd hlen h
    have hk := lt_length_of_unstuffFrom h
    rw [List.length_cons] at hlen hk
    rw [unstuffFrom] at h
    by_cases hk0 : k = 0
    · subst hk0
      rw [if_pos rfl] at h
      by_cases hb : b = zero
      · -- the closing delimiter
        rw [if_pos hb] at h
        by_cases hl : l = []
        · rw [if_pos hl] at h
          obtain rfl := Option.some.inj h
          rw [stuffFrom, hb, hl, Nat.add_zero]
        · rw [if_neg hl] at h
          cases h
      · -- a code: the block before it was not full, so it implies a delimiter
        rw [if_neg hb] at h
        obtain ⟨y', hy', rfl⟩ := Option.map_eq_some_iff.mp h
        have hk' := lt_length_of_unstuffFrom hy'
        have hne : l ≠ [] := by
          rintro rfl
          cases hy'
        have hval : val b ≠ 0 := fun hv => hb (val_eq_zero.mp hv)
        rw [decide_eq_false (by omega)] at hy'
        have hrest := ih [] (val b - 1) y' (hd.tail hne).2 (by simp; omega) hy'
        rw [List.length_nil, Nat.zero_add, Nat.sub_add_cancel (by omega), code_val,
          List.nil_append] at hrest
        rw [if_neg Bool.false_ne_true, stuffFrom_zero, hrest, Nat.add_zero]
    · rw [if_neg hk0] at h
      obtain ⟨y', hy', rfl⟩ := Option.map_eq_some_iff.mp h
      have hne : l ≠ [] := by
        rintro rfl
        cases hy'
      obtain ⟨hb, hd'⟩ := hd.tail hne
      rw [stuffFrom_data hb (by omega),
        ih (run ++ [b]) (k - 1) y' hd' (by simp; omega) hy', List.length_append,
        List.length_singleton, List.append_assoc, List.singleton_append,
        show run.length + 1 + (k - 1) + 1 = run.length + k + 1 by omega]

/-- **Short frames are canonical**: the sender gives the frame back. -/
theorem stuff_unstuff {f y : List α} (hd : Delimited f) (hlen : f.length ≤ cap α + 1)
    (h : unstuff f = some y) (hone : f ≠ [zero]) : stuff y = f := by
  rcases f with - | ⟨c, l⟩
  · cases h
  · rw [List.length_cons] at hlen
    rw [unstuff, unstuffFrom, if_pos rfl] at h
    by_cases hc : c = zero
    · rw [if_pos hc] at h
      by_cases hl : l = []
      · exact absurd (by rw [hc, hl]) hone
      · rw [if_neg hl] at h
        cases h
    · rw [if_neg hc] at h
      obtain ⟨y', hy', rfl⟩ := Option.map_eq_some_iff.mp h
      have hk := lt_length_of_unstuffFrom hy'
      have hne : l ≠ [] := by
        rintro rfl
        cases hy'
      have hval : val c ≠ 0 := fun hv => hc (val_eq_zero.mp hv)
      rw [decide_eq_false (by omega)] at hy'
      have hrest := stuffFrom_unstuffFrom l [] _ y' (hd.tail hne).2 (by simp; omega) hy'
      rw [List.length_nil, Nat.zero_add, Nat.sub_add_cancel (by omega), code_val,
        List.nil_append] at hrest
      exact hrest

end Stuffing
