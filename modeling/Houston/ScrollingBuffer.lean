import Houston.Ring
import Houston.Runs

/-!
# The points of a plot: `ScrollingBuffer`

The ring of points of `Util.h`. Its storage is an `ImVector` of the user interface
library, of which the model takes the operations the ring calls (`ImVector`) and their
documented effect on the elements (`LawfulImVector`).

* `ScrollingBuffer.step_holds` — one call keeps the `Ring.Layout` of the points so far.
* `ScrollingBuffer.run_recent` — after any calls the ring holds the most recent points
  since the last `Erase`, oldest first from `Offset` on.
-/

namespace Houston

universe u

/-- `ImVec2`: two `float`s, by their 32 bits. -/
structure ImVec2 where
  x : BitVec 32
  y : BitVec 32
  deriving DecidableEq, Repr

/-! ## The vector of the library -/

/-- What the ring calls of `ImVector<ImVec2>`. An access outside the vector fails an
assertion of the library: it is `none` here. -/
class ImVector (V : Type u) where
  /-- `ImVector()` -/
  new : V
  /-- `reserve(new_capacity)` -/
  reserve : V → ℕ → V
  /-- `Size` -/
  size : V → ℕ
  /-- `push_back(v)` -/
  pushBack : V → ImVec2 → V
  /-- `operator[](i)`, assigned to -/
  set? : V → ℕ → ImVec2 → Option V
  /-- `shrink(new_size)` -/
  shrink? : V → ℕ → Option V
  /-- the elements behind `Data` -/
  elems : V → List ImVec2

open ImVector

/-- The vector does as its documentation says. -/
class LawfulImVector (V : Type u) [ImVector V] : Prop where
  elems_new : elems (new : V) = []
  elems_reserve : ∀ (v : V) (n : ℕ), elems (reserve v n) = elems v
  size_eq : ∀ v : V, size v = (elems v).length
  elems_pushBack : ∀ (v : V) (p : ImVec2), elems (pushBack v p) = elems v ++ [p]
  set?_eq : ∀ (v : V) (i : ℕ) (p : ImVec2), i < size v →
    ∃ v', set? v i p = some v' ∧ elems v' = (elems v).set i p
  shrink?_eq : ∀ (v : V) (n : ℕ), n ≤ size v →
    ∃ v', shrink? v n = some v' ∧ elems v' = (elems v).take n

/-- A vector that is the list of its elements. -/
instance : ImVector (List ImVec2) where
  new := []
  reserve v _ := v
  size := List.length
  pushBack v p := v ++ [p]
  set? v i p := if i < v.length then some (v.set i p) else none
  shrink? v n := if n ≤ v.length then some (v.take n) else none
  elems v := v

instance : LawfulImVector (List ImVec2) where
  elems_new := rfl
  elems_reserve _ _ := rfl
  size_eq _ := rfl
  elems_pushBack _ _ := rfl
  set?_eq _ _ _ hi := ⟨_, if_pos hi, rfl⟩
  shrink?_eq _ _ hn := ⟨_, if_pos hn, rfl⟩

/-! ## The ring -/

/-- `Util::ScrollingBuffer` -/
structure ScrollingBuffer (V : Type u) where
  /-- `MaxSize` -/
  maxSize : ℕ
  /-- `Offset` -/
  offset : ℕ
  /-- `Data` -/
  data : V

namespace ScrollingBuffer

variable {V : Type u} [ImVector V] {b b' : ScrollingBuffer V} {points : List ImVec2}

/-- The constructor. -/
def new (maxSize : ℕ) : ScrollingBuffer V where
  maxSize := maxSize
  offset := 0
  data := reserve ImVector.new maxSize

/-- `AddPoint` -/
def addPoint (x y : BitVec 32) (b : ScrollingBuffer V) : Option (ScrollingBuffer V) :=
  if size b.data < b.maxSize then some { b with data := pushBack b.data ⟨x, y⟩ }
  else do
    let data ← set? b.data b.offset ⟨x, y⟩
    some { b with data := data, offset := (b.offset + 1) % b.maxSize }

/-- `Erase` -/
def erase (b : ScrollingBuffer V) : Option (ScrollingBuffer V) :=
  if size b.data > 0 then do
    let data ← shrink? b.data 0
    some { b with data := data, offset := 0 }
  else some b

/-- The calls on a ring. -/
inductive Call where
  | addPoint (x y : BitVec 32)
  | erase
  deriving DecidableEq, Repr

/-- One call. -/
def step : Call → ScrollingBuffer V → Option (ScrollingBuffer V)
  | .addPoint x y, b => b.addPoint x y
  | .erase, b => b.erase

/-- The points added since the last `Erase`, when `points` were there before. -/
def added (points : List ImVec2) : Call → List ImVec2
  | .addPoint x y => points ++ [⟨x, y⟩]
  | .erase => []

/-- The points added since the last `Erase`, or since the start. -/
def sinceErase (calls : List Call) : List ImVec2 := calls.foldl added []

/-! ## The ring holds the most recent points -/

/-- The points in the ring, in the order in which a plot reads them: cyclically, from
`Offset` on. -/
def read (b : ScrollingBuffer V) : List ImVec2 := (elems b.data).rotate b.offset

/-- The ring holds the most recent of the points added. -/
def Holds (b : ScrollingBuffer V) (points : List ImVec2) : Prop :=
  Ring.Layout b.maxSize (elems b.data) b.offset points

variable [LawfulImVector V]

open LawfulImVector

theorem holds_new {maxSize : ℕ} (h : 1 ≤ maxSize) : (new maxSize : ScrollingBuffer V).Holds [] := by
  have helems : elems (new maxSize : ScrollingBuffer V).data = [] := by
    rw [new, elems_reserve, elems_new]
  rw [Holds, helems]
  exact Ring.Layout.empty h

/-- `AddPoint` writes inside the vector and keeps the most recent points. -/
theorem addPoint_holds (hb : b.Holds points) (x y : BitVec 32) :
    ∃ b', b.addPoint x y = some b' ∧ b'.maxSize = b.maxSize ∧ b'.Holds (points ++ [⟨x, y⟩]) := by
  by_cases hroom : size b.data < b.maxSize
  · refine ⟨_, if_pos hroom, rfl, ?_⟩
    rw [size_eq] at hroom
    rw [Holds, elems_pushBack]
    exact hb.append hroom ⟨x, y⟩
  · -- a full ring is as long as it may be, so `Offset` is an index of it
    have hfull := hroom
    rw [size_eq] at hfull
    have hin : b.offset < size b.data := by
      have := hb.start_lt
      omega
    obtain ⟨data, hset, hdata⟩ := set?_eq b.data b.offset ⟨x, y⟩ hin
    refine ⟨{ b with data := data, offset := (b.offset + 1) % b.maxSize }, ?_, rfl, ?_⟩
    · rw [addPoint, if_neg hroom, hset]
      rfl
    · rw [Holds, hdata]
      exact hb.replace hfull ⟨x, y⟩

/-- `Erase` forgets all points. -/
theorem erase_holds (hb : b.Holds points) :
    ∃ b', b.erase = some b' ∧ b'.maxSize = b.maxSize ∧ b'.Holds [] := by
  have hpos : 0 < b.maxSize := Nat.zero_lt_of_lt hb.start_lt
  by_cases hsize : size b.data > 0
  · obtain ⟨data, hshrink, hdata⟩ := shrink?_eq b.data 0 (Nat.zero_le _)
    refine ⟨{ b with data := data, offset := 0 }, ?_, rfl, ?_⟩
    · rw [erase, if_pos hsize, hshrink]
      rfl
    · rw [Holds, hdata, List.take_zero]
      exact Ring.Layout.empty hpos
  · -- an empty ring is left alone, its `Offset` is 0 already
    have helems : elems b.data = [] := by
      rw [size_eq] at hsize
      exact List.length_eq_zero_iff.mp (Nat.eq_zero_of_not_pos hsize)
    have hoffset : b.offset = 0 := hb.start_eq (by rw [helems]; exact hpos)
    refine ⟨b, if_neg hsize, rfl, ?_⟩
    rw [Holds, helems, hoffset]
    exact Ring.Layout.empty hpos

/-- One call succeeds and keeps the most recent points. -/
theorem step_holds (hb : b.Holds points) (c : Call) :
    ∃ b', step c b = some b' ∧ b'.maxSize = b.maxSize ∧ b'.Holds (added points c) := by
  cases c with
  | addPoint x y => exact addPoint_holds hb x y
  | erase => exact erase_holds hb

/-- All calls, by induction on them. -/
theorem run_holds : ∀ (calls : List Call) {b : ScrollingBuffer V} {points : List ImVec2},
    b.Holds points →
      ∃ b', Runs.run step calls b = some b' ∧ b'.maxSize = b.maxSize ∧
        b'.Holds (calls.foldl added points) := by
  intro calls
  induction calls with
  | nil => exact fun {b points} hb => ⟨b, rfl, rfl, hb⟩
  | cons c calls ih =>
    intro b points hb
    obtain ⟨b', hstep, hmax, hb'⟩ := step_holds hb c
    obtain ⟨b'', hrun, hmax', hb''⟩ := ih hb'
    exact ⟨b'', Runs.run_cons.mpr ⟨b', hstep, hrun⟩, hmax'.trans hmax, hb''⟩

/-- **The most recent points in order**: after any calls on a new ring, none of which
leaves the vector, `Offset` is an index below `MaxSize`, 0 while the vector is not full,
and reading from it on gives the last points since the last `Erase`, at most `MaxSize`. -/
theorem run_recent {maxSize : ℕ} (h : 1 ≤ maxSize) (calls : List Call) :
    ∃ b : ScrollingBuffer V, Runs.run step calls (new maxSize) = some b ∧
      b.maxSize = maxSize ∧ b.offset < b.maxSize ∧
      (size b.data < b.maxSize → b.offset = 0) ∧
      b.read.length = min b.maxSize (sinceErase calls).length ∧
      b.read <:+ sinceErase calls := by
  obtain ⟨b, hrun, hmax, hb⟩ := run_holds calls (holds_new (V := V) h)
  have hread : b.read = (sinceErase calls).rtake b.maxSize := hb.recent
  refine ⟨b, hrun, hmax, hb.start_lt, fun hsize => ?_, ?_, ?_⟩
  · rw [size_eq] at hsize
    exact hb.start_eq hsize
  · rw [hread, Ring.length_rtake]
  · rw [hread]
    exact List.drop_suffix _ _

/-- Five points in a ring of three. -/
theorem run_recent_five :
    ∃ b : ScrollingBuffer (List ImVec2),
      Runs.run step [.addPoint 1 1, .erase, .addPoint 2 2, .addPoint 3 3, .addPoint 4 4,
        .addPoint 5 5] (new 3) = some b ∧
      b.maxSize = 3 ∧ b.offset < b.maxSize ∧ (size b.data < b.maxSize → b.offset = 0) ∧
      b.read.length = min b.maxSize (sinceErase [.addPoint 1 1, .erase, .addPoint 2 2,
        .addPoint 3 3, .addPoint 4 4, .addPoint 5 5]).length ∧
      b.read <:+ sinceErase [.addPoint 1 1, .erase, .addPoint 2 2, .addPoint 3 3,
        .addPoint 4 4, .addPoint 5 5] :=
  run_recent (by decide) _

end ScrollingBuffer

end Houston
