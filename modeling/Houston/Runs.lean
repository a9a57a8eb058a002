import Mathlib.Algebra.Ring.Nat
import Mathlib.Data.List.Basic

/-!
# Runs of a system of steps

A system makes one step after another, each with a label; a step that cannot be made in a
state has no successor. Whatever threads the steps belong to, a run is one of the orders
in which they can be made.

* `run_invariant` — what every step keeps holds after every run.
* `run_meets` — what steps keep that meet a condition holds after a run of such steps.
* `run_filter` — when the steps of others can be left out of a run.
* `run_conserved` — what every step extends by its input has been extended by all of the
  inputs after a run.
* `run_reaches` — a goal is reached if some step always leads further down.
* `run_potential` — what no step raises by more than its cost has not been raised by more than
  all of the costs.
-/

namespace Runs

universe u v x y

variable {ε : Type u} {σ : Type v} {step : ε → σ → Option σ} {s t : σ} {e : ε} {es es' : List ε}

/-- Make steps, one after another. -/
def run (step : ε → σ → Option σ) (es : List ε) (s : σ) : Option σ :=
  es.foldlM (fun s e => step e s) s

theorem run_nil : run step [] s = some t ↔ s = t := by
  rw [run, List.foldlM_nil]
  exact Option.some_inj

theorem run_cons : run step (e :: es) s = some t ↔ ∃ r, step e s = some r ∧ run step es r = some t := by
  rw [run, List.foldlM_cons]
  exact Option.bind_eq_some_iff

theorem run_append :
    run step (es ++ es') s = some t ↔ ∃ r, run step es s = some r ∧ run step es' r = some t := by
  rw [run, List.foldlM_append]
  exact Option.bind_eq_some_iff

/-- Every step of a run, with the state in which it is made, is as it should be. -/
def Meets (step : ε → σ → Option σ) (P : ε → σ → Prop) : List ε → σ → Prop
  | [], _ => True
  | e :: es, s => P e s ∧ ∀ t, step e s = some t → Meets step P es t

/-- Whether all steps are as they should be can be found out by making them. -/
instance decidableMeets {P : ε → σ → Prop} [∀ e s, Decidable (P e s)] :
    ∀ (es : List ε) (s : σ), Decidable (Meets step P es s)
  | [], _ => isTrue trivial
  | e :: es, s =>
    have : Decidable (∀ t, step e s = some t → Meets step P es t) :=
      match step e s with
      | none => isTrue nofun
      | some t =>
        have := decidableMeets (P := P) es t
        decidable_of_iff (Meets step P es t) ⟨fun h _ ht => Option.some.inj ht ▸ h, fun h => h t rfl⟩
    inferInstanceAs (Decidable (_ ∧ _))

/-- What the steps of a run put out, each in the state in which it is made. -/
def outputs {β : Type x} (step : ε → σ → Option σ) (out : ε → σ → List β) : List ε → σ → List β
  | [], _ => []
  | e :: es, s => out e s ++ ((step e s).map (outputs step out es)).getD []

theorem outputs_cons {β : Type x} {out : ε → σ → List β} (hstep : step e s = some t) :
    outputs step out (e :: es) s = out e s ++ outputs step out es t := by
  rw [outputs, hstep]
  rfl

theorem outputs_append {β : Type x} {out : ε → σ → List β} :
    ∀ {es : List ε} {s : σ}, run step es s = some t →
      outputs step out (es ++ es') s = outputs step out es s ++ outputs step out es' t := by
  intro es
  induction es with
  | nil =>
    intro s hrun
    rw [run_nil.mp hrun]
    rfl
  | cons e es ih =>
    intro s hrun
    obtain ⟨r, hfirst, hrest⟩ := run_cons.mp hrun
    rw [List.cons_append, outputs_cons hfirst, outputs_cons hfirst, ih hrest, List.append_assoc]

theorem outputs_eq_nil {β : Type x} {out : ε → σ → List β} :
    ∀ {es : List ε} {s : σ}, (∀ e ∈ es, ∀ s, out e s = []) → outputs step out es s = [] := by
  intro es
  induction es with
  | nil => exact fun _ => rfl
  | cons e es ih =>
    intro s hnone
    obtain ⟨hfirst, hrest⟩ := List.forall_mem_cons.mp hnone
    rw [outputs, hfirst]
    cases step e s with
    | none => rfl
    | some t => exact ih hrest

/-- **Conditional invariants**: what every step keeps that is as it should be, holds after a
run of such steps. -/
theorem run_meets {I : σ → Prop} {P : ε → σ → Prop}
    (hstep : ∀ {e s t}, P e s → I s → step e s = some t → I t) :
    ∀ {es s t}, Meets step P es s → I s → run step es s = some t → I t := by
  intro es
  induction es with
  | nil =>
    intro s t _ hs hrun
    rwa [← run_nil.mp hrun]
  | cons e es ih =>
    intro s t hmeets hs hrun
    obtain ⟨r, hfirst, hrest⟩ := run_cons.mp hrun
    exact ih (hmeets.2 r hfirst) (hstep hmeets.1 hs hfirst) hrest

theorem meets_of_forall {P : ε → σ → Prop} :
    ∀ {es : List ε} (s : σ), (∀ e ∈ es, ∀ s, P e s) → Meets step P es s := by
  intro es
  induction es with
  | nil => exact fun _ _ => trivial
  | cons e es ih =>
    intro s hes
    exact ⟨hes e List.mem_cons_self s, fun t _ => ih t fun e he => hes e (List.mem_cons_of_mem _ he)⟩

/-- **Invariants**: what every step keeps holds after every run. -/
theorem run_invariant {I : σ → Prop} (hstep : ∀ {e s t}, I s → step e s = some t → I t) (hs : I s)
    (hrun : run step es s = some t) : I t :=
  run_meets (P := fun _ _ => True) (fun _ hs hnext => hstep hs hnext)
    (meets_of_forall s fun _ _ _ => trivial) hs hrun

/-- **Leaving steps out**: a simulation that some steps keep on both sides, and that the
other ones keep although they are made on one side only, relates a run to what is left of
it without the other ones. -/
theorem run_filter {Sim : σ → σ → Prop} {P : ε → σ → Prop} {mine : ε → Bool}
    (hmine : ∀ {e s t s'}, P e s → Sim s s' → mine e = true → step e s = some t →
      ∃ t', step e s' = some t' ∧ Sim t t')
    (hother : ∀ {e s t s'}, P e s → Sim s s' → ¬ mine e = true → step e s = some t → Sim t s') :
    ∀ {es s s' t}, Meets step P es s → Sim s s' → run step es s = some t →
      ∃ t', run step (es.filter mine) s' = some t' ∧ Sim t t' := by
  intro es
  induction es with
  | nil =>
    intro s s' t _ hsim hrun
    rw [← run_nil.mp hrun]
    exact ⟨s', rfl, hsim⟩
  | cons e es ih =>
    intro s s' t hmeets hsim hrun
    obtain ⟨r, hfirst, hrest⟩ := run_cons.mp hrun
    by_cases he : mine e = true
    · obtain ⟨r', hfirst', hsim'⟩ := hmine hmeets.1 hsim he hfirst
      obtain ⟨t', hrest', hend⟩ := ih (hmeets.2 r hfirst) hsim' hrest
      rw [List.filter_cons_of_pos he]
      exact ⟨t', run_cons.mpr ⟨r', hfirst', hrest'⟩, hend⟩
    · rw [List.filter_cons_of_neg he]
      exact ih (hmeets.2 r hfirst) (hother hmeets.1 hsim he hfirst) hrest

/-- **Conservation**: in a run that keeps an invariant, what every step extends by its
input has been extended by all of the inputs. -/
theorem run_conserved {β : Type x} {I : σ → Prop} {content : σ → List β} {input : ε → List β}
    (hkeep : ∀ {e s t}, I s → step e s = some t → I t)
    (hstep : ∀ {e s t}, I s → step e s = some t → content t = content s ++ input e) :
    ∀ {es s t}, I s → run step es s = some t → content t = content s ++ es.flatMap input := by
  intro es
  induction es with
  | nil =>
    intro s t _ hrun
    rw [← run_nil.mp hrun, List.flatMap_nil, List.append_nil]
  | cons e es ih =>
    intro s t hs hrun
    obtain ⟨r, hfirst, hrest⟩ := run_cons.mp hrun
    rw [ih (hkeep hs hfirst) hrest, hstep hs hfirst, List.flatMap_cons, List.append_assoc]

/-- **Potentials**: in a run of steps that are as they should be, what none of them raises by more
than its cost has not been raised by more than all of the costs. -/
theorem run_potential {P : ε → Prop} {I : σ → Prop} {potential : σ → ℕ} {cost : ε → ℕ}
    (hkeep : ∀ {e s t}, P e → I s → step e s = some t → I t)
    (hstep : ∀ {e s t}, P e → I s → step e s = some t → potential t ≤ potential s + cost e) :
    ∀ {es s t}, (∀ e ∈ es, P e) → I s → run step es s = some t →
      potential t ≤ potential s + (es.map cost).sum := by
  intro es
  induction es with
  | nil =>
    intro s t _ _ hrun
    rw [← run_nil.mp hrun]
    exact Nat.le_add_right _ _
  | cons e es ih =>
    intro s t hes hs hrun
    obtain ⟨r, hfirst, hrest⟩ := run_cons.mp hrun
    have he := hes e List.mem_cons_self
    have hpaid := hstep he hs hfirst
    have hmore := ih (fun e he => hes e (List.mem_cons_of_mem _ he)) (hkeep he hs hfirst) hrest
    rw [List.map_cons, List.sum_cons]
    omega

/-- **Reaching a goal**: if from every state that is as it should be some step leads further down,
or the goal is there, then some steps lead to the goal. -/
theorem run_reaches {P : ε → Prop} {I Goal : σ → Prop} {below : σ → σ → Prop}
    (hbelow : WellFounded below)
    (hstep : ∀ s, I s → ¬ Goal s → ∃ e t, P e ∧ step e s = some t ∧ I t ∧ below t s) (s : σ)
    (hs : I s) : ∃ es t, (∀ e ∈ es, P e) ∧ run step es s = some t ∧ I t ∧ Goal t := by
  induction s using hbelow.induction with
  | _ s ih =>
    by_cases hgoal : Goal s
    · exact ⟨[], s, fun e he => absurd he List.not_mem_nil, rfl, hs, hgoal⟩
    · obtain ⟨e, r, he, hfirst, hr, hdown⟩ := hstep s hs hgoal
      obtain ⟨es, t, hes, hrest, ht, hend⟩ := ih r hdown hr
      refine ⟨e :: es, t, ?_, run_cons.mpr ⟨r, hfirst, hrest⟩, ht, hend⟩
      exact List.forall_mem_cons.mpr ⟨he, hes⟩

end Runs
