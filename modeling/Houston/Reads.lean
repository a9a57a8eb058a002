import Mathlib.Data.List.Basic

/-!
# Programs that read an array

A library on what a computation looks at; it knows nothing of any particular program. A
`Prog` is a computation whose only access to an array is to read stretches of it, each
chosen by what was read before. It yields its result and the list of the stretches, and a
stretch that is not within the array is an error.

* `Within` — all stretches that a run reads end within the first `m` elements, with one
  rule for each way of building programs.
* `run_congr` — a run that reads within the first `m` elements depends on these only.
-/

namespace Reads

universe u v w

/-- A computation that reads stretches of an array with elements in `β`. -/
inductive Prog (β : Type u) (α : Type v) : Type (max u v) where
  /-- a result -/
  | done (a : α)
  /-- read `len` elements from `first` on, and go on with them -/
  | read (first len : ℕ) (next : List β → Prog β α)

namespace Prog

variable {β : Type u} {α : Type v} {γ : Type w}

/-- Run a program on an array. -/
def run (data : List β) : Prog β α → Option α
  | done a => some a
  | read first len next =>
    if first + len ≤ data.length then run data (next ((data.drop first).take len)) else none

/-- The stretches that a run reads, each as its first index and its length. -/
def stretches (data : List β) : Prog β α → List (ℕ × ℕ)
  | done _ => []
  | read first len next =>
    (first, len) :: if first + len ≤ data.length then
      stretches data (next ((data.drop first).take len)) else []

/-- One program after another. -/
def bind (p : Prog β α) (f : α → Prog β γ) : Prog β γ :=
  match p with
  | done a => f a
  | read first len next => read first len fun l => (next l).bind f

/-- A program with its result changed. -/
def map (f : α → γ) (p : Prog β α) : Prog β γ := p.bind fun a => done (f a)

/-- All that a run reads lies within the first `m` elements. -/
def Within (m : ℕ) (data : List β) (p : Prog β α) : Prop :=
  ∀ r ∈ p.stretches data, r.1 + r.2 ≤ m

variable {data data' : List β} {m first len : ℕ} {p : Prog β α} {f : α → Prog β γ}
  {next : List β → Prog β α}

/-! ## Runs -/

@[simp] theorem run_done (a : α) : (done a : Prog β α).run data = some a := rfl

theorem run_read : (read first len next).run data =
    if first + len ≤ data.length then (next ((data.drop first).take len)).run data else none := rfl

theorem run_bind (p : Prog β α) (f : α → Prog β γ) :
    (p.bind f).run data = (p.run data).bind fun a => (f a).run data := by
  induction p with
  | done a => rfl
  | read first len next ih =>
    rw [bind, run_read, run_read]
    split_ifs
    · exact ih _
    · rfl

theorem run_map (f : α → γ) (p : Prog β α) : (p.map f).run data = (p.run data).map f := by
  rw [map, run_bind]
  cases p.run data <;> rfl

/-! ## Where a run reads -/

theorem within_done (a : α) : Within m data (done a : Prog β α) :=
  fun _ hr => absurd hr List.not_mem_nil

/-- A read is within bounds, and so is all that follows it. -/
theorem within_read (h : first + len ≤ m) (hm : m ≤ data.length)
    (hnext : Within m data (next ((data.drop first).take len))) :
    Within m data (read first len next) := by
  intro r hr
  rw [stretches, if_pos (Nat.le_trans h hm)] at hr
  rcases List.mem_cons.mp hr with rfl | hr
  · exact h
  · exact hnext r hr

theorem within_ite {c : Prop} [Decidable c] {q : Prog β α} (hp : c → Within m data p)
    (hq : ¬ c → Within m data q) : Within m data (if c then p else q) := by
  split_ifs with hc
  · exact hp hc
  · exact hq hc

/-- A program is within bounds, and so is what follows on each of its results. -/
theorem within_bind (hp : Within m data p) (hf : ∀ a, p.run data = some a → Within m data (f a)) :
    Within m data (p.bind f) := by
  induction p with
  | done a => exact hf a rfl
  | read first len next ih =>
    intro r hr
    rw [bind, stretches] at hr
    rcases List.mem_cons.mp hr with rfl | hr
    · exact hp _ List.mem_cons_self
    · split_ifs at hr with hin
      · have hnext : Within m data (next ((data.drop first).take len)) := by
          intro r' hr'
          refine hp r' ?_
          rw [stretches, if_pos hin]
          exact List.mem_cons_of_mem _ hr'
        refine ih _ hnext (fun a ha => hf a ?_) r hr
        rw [run_read, if_pos hin]
        exact ha
      · exact absurd hr List.not_mem_nil

theorem within_map (g : α → γ) (hp : Within m data p) : Within m data (p.map g) :=
  within_bind hp fun _ _ => within_done _

/-- **A run depends only on what it reads**: two arrays with the same first `m` elements
give the same result, if the run on one of them stays within these. -/
theorem run_congr (hm : m ≤ data.length) (hm' : m ≤ data'.length)
    (hsame : data.take m = data'.take m) (p : Prog β α) (hp : Within m data p) :
    p.run data = p.run data' := by
  induction p with
  | done a => rfl
  | read first len next ih =>
    have hin : first + len ≤ m := hp (first, len) (by rw [stretches]; exact List.mem_cons_self)
    -- a stretch in front of `m` is cut out of the first `m` elements
    have hcut : ∀ l : List β, (l.drop first).take len = ((l.take m).drop first).take len := by
      intro l
      rw [List.drop_take, List.take_take, Nat.min_eq_left (by omega)]
    have hread : (data'.drop first).take len = (data.drop first).take len := by
      rw [hcut data, hcut data', hsame]
    rw [run_read, run_read, if_pos (Nat.le_trans hin hm), if_pos (Nat.le_trans hin hm'), hread]
    refine ih _ fun r hr => hp r ?_
    rw [stretches, if_pos (Nat.le_trans hin hm)]
    exact List.mem_cons_of_mem _ hr

end Prog

end Reads
