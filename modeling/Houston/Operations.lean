import Houston.Parsing
import Houston.Runs

/-!
# What an operation does to the firmware

One inversion lemma for all that may happen to the firmware, and what follows from it for every
run from a successful `Dashboard_Init`.

* `Sound.op_cases` — an operation registers a variable, makes some reads, sends a packet, lets
  bytes arrive, or assigns to a variable.
* `Reachable.listening` — the receiver is in one of the two states that it uses.
* `Reachable.initialised` — none of the pointers that the transport is called through is null.
* `Reachable.run` — runs of allowed operations lead from reachable states to reachable ones.
* `Reachable.exists_run` — and nothing can go wrong in them.
-/

namespace Houston

open Relation Polling

variable {w v : Firmware} {es : List Entry} {op : Op}

/-- The firmware with another table, and another number of entries in use. -/
def Firmware.enter (table : Buffer LiveDataPacket kLiveDataBufSize)
    (ptr : Buffer (Option Ptr) kLiveDataBufSize) (count : ℕ) (w : Firmware) : Firmware :=
  { w with
    liveDataBuffer := table
    liveDataPtr := ptr
    dashboard.liveDataCount := count }

/-- Registering touches the table only. -/
theorem register_frame {key : BitVec 16} {data : Option Ptr} {type : ValueType}
    {status : DashboardStatus}
    (hrun : dashboardRegisterLiveData .ref key data type w = some (status, v)) :
    ∃ table ptr count, v = w.enter table ptr count := by
  by_cases hrefused : DashboardPtr.ref = .null ∨ data = none ∨
      w.dashboard.liveDataCount ≥ kLiveDataBufSize
  · rw [dashboardRegisterLiveData, if_pos hrefused] at hrun
    cases hrun
    exact ⟨_, _, _, rfl⟩
  · rw [dashboardRegisterLiveData, if_neg hrefused] at hrun
    obtain ⟨entry, -, hrun⟩ := Option.bind_eq_some_iff.mp hrun
    obtain ⟨table, -, hrun⟩ := Option.bind_eq_some_iff.mp hrun
    obtain ⟨ptr, -, hrun⟩ := Option.bind_eq_some_iff.mp hrun
    cases hrun
    exact ⟨table, ptr, _, rfl⟩

/-- **All that may happen** to the firmware. -/
theorem Sound.op_cases (h : Sound w es) (ha : op.Allowed) (hrun : op.run w = some v) :
    (∃ key data type, op = .register key data type ∧
        ∃ table ptr count, v = w.enter table ptr count) ∨
      (∃ io, op = .update io ∧ ReflTransGen ReadStep w v) ∨
      (∃ io call, op = .send io call ∧ call.size ≤ 99 ∧ v = w.send call) ∨
      (∃ bytes, op = .arrive bytes ∧ v = w.feed bytes) ∨
      ∃ ptr value, op = .assign ptr value ∧ v = w.setVars (Function.update w.vars ptr value) := by
  cases op with
  | register key data type =>
    obtain ⟨⟨status, u⟩, hregister, rfl⟩ := Option.map_eq_some_iff.mp hrun
    exact Or.inl ⟨key, data, type, rfl, register_frame hregister⟩
  | update io =>
    obtain ⟨status, hupdate⟩ := dashboardUpdate_eq io h
    have hv : v = w.update io :=
      Option.some.inj (hrun.symm.trans (congrArg (Option.map Prod.snd) hupdate))
    refine Or.inr (Or.inl ⟨io, rfl, ?_⟩)
    rw [hv]
    exact steps_update w io
  | send io call =>
    have hv : v = w.send call :=
      Option.some.inj (hrun.symm.trans (congrArg (Option.map Prod.snd) (call.run_of_fits io ha w)))
    exact Or.inr (Or.inr (Or.inl ⟨io, call, rfl, ha, hv⟩))
  | arrive bytes => exact Or.inr (Or.inr (Or.inr (Or.inl ⟨bytes, rfl, (Option.some.inj hrun).symm⟩)))
  | assign ptr value =>
    exact Or.inr (Or.inr (Or.inr (Or.inr ⟨ptr, value, rfl, (Option.some.inj hrun).symm⟩)))

theorem Firmware.Listening.steps (hw : w.Listening) (hsteps : ReflTransGen ReadStep w v) :
    v.Listening := by
  induction hsteps with
  | refl => exact hw
  | tail _ hstep _ => exact .step hstep

/-- A firmware in use is in one of the two states that its receiver uses. -/
theorem Reachable.listening (h : Reachable w) : w.Listening := by
  induction h with
  | init hinit =>
    rw [dashboardInit, if_neg (by simp)] at hinit
    obtain rfl := (Prod.mk.inj hinit).2
    exact Or.inl rfl
  | step h ha hrun ih =>
    obtain ⟨es, hsound⟩ := h.sound
    rcases hsound.op_cases ha hrun with ⟨_, _, _, -, _, _, _, rfl⟩ | ⟨_, -, hsteps⟩ |
      ⟨_, _, -, -, rfl⟩ | ⟨_, -, rfl⟩ | ⟨_, _, -, rfl⟩
    · exact ih
    · exact ih.steps hsteps
    · exact ih
    · exact ih
    · exact ih

/-- None of the three pointers that are called through is null. -/
def Dashboard.Initialised (d : Dashboard) : Prop :=
  d.sendData ≠ none ∧ d.readData ≠ none ∧ d.hasData ≠ none

theorem Dashboard.Initialised.steps (hw : w.dashboard.Initialised)
    (hsteps : ReflTransGen ReadStep w v) : v.dashboard.Initialised := by
  induction hsteps with
  | refl => exact hw
  | tail _ hstep ih =>
    cases hstep with
    | header =>
      rw [Firmware.takeHeader]
      split_ifs <;> exact ih
    | payload =>
      rw [dashboard_takePayload]
      exact ih

/-- **A firmware in use was initialised**, and nothing that happens to it sets a pointer back. -/
theorem Reachable.initialised (h : Reachable w) : w.dashboard.Initialised := by
  induction h with
  | init hinit =>
    rw [dashboardInit, if_neg (by simp)] at hinit
    obtain rfl := (Prod.mk.inj hinit).2
    exact ⟨Option.some_ne_none _, Option.some_ne_none _, Option.some_ne_none _⟩
  | step h ha hrun ih =>
    obtain ⟨es, hsound⟩ := h.sound
    rcases hsound.op_cases ha hrun with ⟨_, _, _, -, _, _, _, rfl⟩ | ⟨_, -, hsteps⟩ |
      ⟨_, _, -, -, rfl⟩ | ⟨_, -, rfl⟩ | ⟨_, _, -, rfl⟩
    · exact ih
    · exact ih.steps hsteps
    · exact ih
    · exact ih
    · exact ih

/-- **Runs of allowed operations** lead to reachable states. -/
theorem Reachable.run : ∀ {ops : List Op} {w v : Firmware}, Reachable w →
    (∀ op ∈ ops, op.Allowed) → Runs.run Op.run ops w = some v → Reachable v := by
  intro ops
  induction ops with
  | nil =>
    intro w v h _ hrun
    rwa [← Runs.run_nil.mp hrun]
  | cons op ops ih =>
    intro w v h hallowed hrun
    obtain ⟨u, hfirst, hrest⟩ := Runs.run_cons.mp hrun
    exact ih (.step h (hallowed op List.mem_cons_self) hfirst)
      (fun op hop => hallowed op (List.mem_cons_of_mem _ hop)) hrest

/-- Nothing can go wrong in a run of allowed operations. -/
theorem Reachable.exists_run : ∀ {ops : List Op} {w : Firmware}, Reachable w →
    (∀ op ∈ ops, op.Allowed) → ∃ v, Runs.run Op.run ops w = some v := by
  intro ops
  induction ops with
  | nil => exact fun {w} _ _ => ⟨w, rfl⟩
  | cons op ops ih =>
    intro w h hallowed
    obtain ⟨es, hsound⟩ := h.sound
    have ha := hallowed op List.mem_cons_self
    obtain ⟨u, -, hfirst, -, -⟩ := hsound.run ha
    obtain ⟨v, hrest⟩ := ih (.step h ha hfirst) fun op hop =>
      hallowed op (List.mem_cons_of_mem _ hop)
    exact ⟨v, Runs.run_cons.mpr ⟨u, hfirst, hrest⟩⟩

end Houston
