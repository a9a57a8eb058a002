import Mathlib.Data.List.Rotate
import Mathlib.Data.List.DropRight

/-!
# Rings of recent entries

A library on circular buffers that keep the newest entries of an unbounded history; it
knows nothing of any particular program.

The slots of a ring are filled in order until there are `cap` of them. From then on each
entry replaces the oldest one, which stands at `start`, and `start` moves on cyclically.
`Layout cap slots start history` ties the slots to the history: read from `start` on,
they are its last `cap` entries, oldest first.

* `Layout.append`, `Layout.replace` — the two ways in which an entry comes in.
* `Layout.empty` — an empty ring holds an empty history.
-/

namespace Ring

universe u

variable {α : Type u} {cap start : ℕ} {slots history : List α}

/-! ## One slot of a cyclic list -/

/-- Replacing the first entry of a cyclic list and starting behind it. -/
theorem rotate_set {l : List α} {i : ℕ} (hi : i < l.length) (a : α) :
    (l.set i a).rotate (i + 1) = (l.rotate i).tail ++ [a] := by
  have hset : i + 1 ≤ (l.set i a).length := by
    rw [List.length_set]
    exact hi
  have hfront : (l.set i a).take (i + 1) = l.take i ++ [a] := by
    rw [List.take_add_one, List.take_set_of_le (Nat.le_refl i), List.getElem?_set_self hi]
    rfl
  rw [List.rotate_eq_drop_append_take hset, List.rotate_eq_drop_append_take hi.le,
    List.drop_set_of_lt (Nat.lt_succ_self i), hfront, List.drop_eq_getElem_cons hi,
    List.cons_append, List.tail_cons, List.append_assoc]

/-- A cyclic list starts over behind its last entry. -/
theorem rotate_succ_mod {l : List α} {i : ℕ} :
    l.rotate ((i + 1) % l.length) = l.rotate (i + 1) := List.rotate_mod l (i + 1)

/-! ## The last entries of a history -/

theorem length_rtake (n : ℕ) (l : List α) : (l.rtake n).length = min n l.length := by
  rw [List.rtake, List.length_drop]
  omega

theorem rtake_eq_self {n : ℕ} {l : List α} (h : l.length ≤ n) : l.rtake n = l := by
  rw [List.rtake, Nat.sub_eq_zero_of_le h, List.drop_zero]

/-- While there is room, the newest entry joins the others. -/
theorem rtake_append_of_lt {n : ℕ} {l : List α} (h : l.length < n) (a : α) :
    (l ++ [a]).rtake n = l.rtake n ++ [a] := by
  have hlen : (l ++ [a]).length ≤ n := by
    rw [List.length_append, List.length_singleton]
    exact h
  rw [rtake_eq_self h.le, rtake_eq_self hlen]

/-- Without room, it takes the place of the oldest one. -/
theorem rtake_append_of_le {n : ℕ} {l : List α} (hn : 0 < n) (h : n ≤ l.length) (a : α) :
    (l ++ [a]).rtake n = (l.rtake n).tail ++ [a] := by
  have hlen : (l ++ [a]).length - n = l.length - n + 1 := by
    rw [List.length_append, List.length_singleton]
    omega
  rw [List.rtake, List.rtake, hlen, List.tail_drop, List.drop_append_of_le_length (by omega)]

/-! ## The layout -/

/-- The slots hold the last `cap` entries of a history, the oldest one at `start`. -/
structure Layout (cap : ℕ) (slots : List α) (start : ℕ) (history : List α) : Prop where
  start_lt : start < cap
  /-- a ring that is not full has never wrapped -/
  start_eq : slots.length < cap → start = 0
  recent : slots.rotate start = history.rtake cap

/-- The ring never has more slots than it may have. -/
theorem Layout.length_eq (hl : Layout cap slots start history) :
    slots.length = min cap history.length := by
  rw [← length_rtake, ← hl.recent, List.length_rotate]

theorem Layout.empty (hcap : 0 < cap) : Layout cap ([] : List α) 0 [] :=
  ⟨hcap, fun _ => rfl, by simp⟩

/-- An entry that comes in while there is room. -/
theorem Layout.append (hl : Layout cap slots start history) (hroom : slots.length < cap) (a : α) :
    Layout cap (slots ++ [a]) start (history ++ [a]) := by
  have hstart := hl.start_eq hroom
  have hlen := hl.length_eq
  have hrecent := hl.recent
  subst hstart
  rw [List.rotate_zero] at hrecent
  refine ⟨hl.start_lt, fun _ => rfl, ?_⟩
  rw [List.rotate_zero, rtake_append_of_lt (by omega), hrecent]

/-- An entry that comes in when there is none: it replaces the oldest one. -/
theorem Layout.replace (hl : Layout cap slots start history) (hfull : ¬ slots.length < cap)
    (a : α) : Layout cap (slots.set start a) ((start + 1) % cap) (history ++ [a]) := by
  have hpos : 0 < cap := Nat.zero_lt_of_lt hl.start_lt
  have hlen := hl.length_eq
  have hcap : slots.length = cap := by omega
  refine ⟨Nat.mod_lt _ hpos, fun hlt => ?_, ?_⟩
  · rw [List.length_set] at hlt
    exact absurd hlt hfull
  · have hset : (slots.set start a).length = cap := by rw [List.length_set, hcap]
    calc (slots.set start a).rotate ((start + 1) % cap)
        = (slots.set start a).rotate (start + 1) := by rw [← hset, rotate_succ_mod]
      _ = (slots.rotate start).tail ++ [a] := rotate_set (by rw [hcap]; exact hl.start_lt) a
      _ = (history ++ [a]).rtake cap := by
        rw [hl.recent, rtake_append_of_le hpos (by omega)]

end Ring
