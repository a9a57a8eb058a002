import Mathlib.Data.Nat.Notation
import Mathlib.Logic.Function.Iterate
import Mathlib.Logic.Relation

/-!
# Readers of a stream that arrives in pieces

A reader works on symbols as they arrive, and is polled from time to time; a poll
lets it make some steps, as many as it likes. If its steps are deterministic, and a
step that can be made can still be made with the same effect when more symbols have
arrived, then how the symbols arrive and when the reader is polled does not matter.

* `Run.steps` — a run is a sequence of steps from the configuration in which all
  symbols have arrived beforehand.
* `Run.confluent` — two runs of the same symbols that both end where no step is left
  end in the same configuration.
* `Reader.exists_iterate_stuck` — a reader that uses something up in every poll comes
  to an end.
-/

namespace Polling

open Relation

universe u v

/-- A reader: configurations hold the symbols that have arrived. -/
structure Reader (σ : Type u) (α : Type v) where
  /-- symbols arrive -/
  feed : List α → σ → σ
  /-- the reader makes a step -/
  Step : σ → σ → Prop
  feed_nil : ∀ a, feed [] a = a
  feed_append : ∀ l m a, feed (l ++ m) a = feed m (feed l a)
  deterministic : Relator.RightUnique Step
  /-- a step does not mind what arrives behind the symbols it reads -/
  step_feed : ∀ {a b}, Step a b → ∀ l, Step (feed l a) (feed l b)

variable {σ : Type u} {α : Type v} (R : Reader σ α)

/-- No step is left. -/
def Reader.Stuck (a : σ) : Prop := ∀ b, ¬ R.Step a b

/-- The runs from a configuration: symbols arrive in pieces, and polls let the reader
make some steps in between. -/
inductive Run : σ → List α → σ → Prop where
  | nil (a : σ) : Run a [] a
  | arrive {a b : σ} {l : List α} (m : List α) (h : Run (R.feed m a) l b) : Run a (m ++ l) b
  | poll {a b c : σ} {l : List α} (hpoll : ReflTransGen R.Step a b) (h : Run b l c) : Run a l c

variable {R} {a b c : σ} {l : List α}

/-- Steps can be made when more has arrived. -/
theorem steps_feed (h : ReflTransGen R.Step a b) (l : List α) :
    ReflTransGen R.Step (R.feed l a) (R.feed l b) :=
  h.lift (R.feed l) fun _ _ hstep => R.step_feed hstep l

/-- **Arrivals can be moved to the front** of a run. -/
theorem Run.steps (h : Run R a l b) : ReflTransGen R.Step (R.feed l a) b := by
  induction h with
  | nil a => rw [R.feed_nil]
  | arrive m h ih => rwa [R.feed_append]
  | poll hpoll h ih => exact (steps_feed hpoll _).trans ih

/-- What can be reached from a stuck configuration. -/
theorem eq_of_stuck (ha : R.Stuck a) (h : ReflTransGen R.Step a b) : a = b := by
  rcases h.cases_head with rfl | ⟨c, hstep, -⟩
  · rfl
  · exact absurd hstep (ha c)

/-- Two ways to the end lead to the same end. -/
theorem stuck_unique (hb : R.Stuck b) (hc : R.Stuck c) (hab : ReflTransGen R.Step a b)
    (hac : ReflTransGen R.Step a c) : b = c := by
  rcases ReflTransGen.total_of_right_unique R.deterministic hab hac with hbc | hcb
  · exact eq_of_stuck hb hbc
  · exact (eq_of_stuck hc hcb).symm

/-- **Arrivals and polls do not matter**: runs of the same symbols that end where no
step is left end in the same configuration. -/
theorem Run.confluent (hab : Run R a l b) (hac : Run R a l c) (hb : R.Stuck b)
    (hc : R.Stuck c) : b = c :=
  stuck_unique hb hc hab.steps hac.steps

/-- A reader that uses something up in every poll comes to an end. -/
theorem Reader.exists_iterate_stuck (R : Reader σ α) (size : σ → ℕ) {p : σ → σ}
    (hp : ∀ a, R.Stuck a ∨ size (p a) < size a) (a : σ) : ∃ n, R.Stuck (p^[n] a) := by
  induction hn : size a using Nat.strongRecOn generalizing a with
  | ind n ih =>
    rcases hp a with hstuck | hless
    · exact ⟨0, hstuck⟩
    · obtain ⟨k, hk⟩ := ih (size (p a)) (by rw [← hn]; exact hless) (p a) rfl
      exact ⟨k + 1, hk⟩

end Polling
