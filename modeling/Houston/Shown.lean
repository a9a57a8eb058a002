import Houston.Rest

/-!
# What the user gets back

The user changes some values and refreshes the live data panel while nothing is on its way. When
all has come to rest again, the panel lists the variables as the user has made them.

* `foundBy_once` — the one request among the effects finds what the user's commands have made of
  a variable, unless the program on the board writes to it.
* `LiveDataPanel.Untouched` — behind the entries are the values that have come in.
* `Loop.Watched` — what has come in since the panel was cleared.
* `Loop.shown_at_last` — the way there and back.
-/

namespace Houston

open Runs

variable {es : List Entry} {vars vars' : Ptr → BitVec 32} {p : Ptr}

/-! ## One request -/

/-- What is written to a variable is up to what was in it. -/
theorem put_congr (record : LiveDataPacket) (h : vars p = vars' p) :
    put es record vars p = put es record vars' p := by
  rw [put, put]
  cases es.find? fun e => e.Addressed record with
  | none => exact h
  | some e =>
    simp only
    split_ifs
    · by_cases hp : p = e.ptr
      · rw [hp] at h ⊢
        rw [Function.update_self, Function.update_self, h]
      · rw [Function.update_of_ne hp, Function.update_of_ne hp, h]
    · exact h

/-- As long as the program does not write to a variable, it is up to the commands. -/
theorem after_unassigned : ∀ {effects : List Effect} {vars vars' : Ptr → BitVec 32},
    (∀ a ∈ effects.filterMap Effect.assign?, a.1 ≠ p) → vars p = vars' p →
    after es effects vars p = after es ((effects.filterMap Effect.command?).map .command) vars' p := by
  intro effects
  induction effects with
  | nil => exact fun _ h => h
  | cons e effects ih =>
    intro vars vars' hunassigned h
    cases e with
    | command c =>
      rw [List.filterMap_cons_none rfl] at hunassigned
      refine ih hunassigned ?_
      cases c with
      | refresh => exact h
      | modify record => exact put_congr record h
    | assign ptr value =>
      have hall : ∀ a ∈ (ptr, value) :: effects.filterMap Effect.assign?, a.1 ≠ p := hunassigned
      obtain ⟨hne, hothers⟩ := List.forall_mem_cons.mp hall
      exact ih hothers ((Function.update_of_ne hne.symm _ _).trans h)

/-- Nothing is found without a request. -/
theorem foundBy_eq_nil : ∀ {effects : List Effect} {vars : Ptr → BitVec 32},
    (∀ c ∈ effects.filterMap Effect.command?, c ≠ .refresh) → foundBy es effects vars = [] := by
  intro effects
  induction effects with
  | nil => exact fun _ => rfl
  | cons e effects ih =>
    intro vars hnone
    cases e with
    | command c =>
      have hall : ∀ c' ∈ c :: effects.filterMap Effect.command?, c' ≠ .refresh := hnone
      obtain ⟨hne, hothers⟩ := List.forall_mem_cons.mp hall
      cases c with
      | refresh => exact absurd rfl hne
      | modify record => exact ih hothers
    | assign ptr value =>
      rw [List.filterMap_cons_none rfl] at hnone
      exact ih hnone

/-- **One request, behind other commands**: it finds, in every variable that the program does not
write to, what these have made of it; and so it stays. -/
theorem foundBy_once (es : List Entry) (vars : Ptr → BitVec 32) {effects : List Effect}
    {commands : List Command} (hmodify : ∀ c ∈ commands, c ≠ .refresh)
    (hcommands : effects.filterMap Effect.command? = commands ++ [.refresh]) :
    ∃ found, foundBy es effects vars = [found] ∧
      ∀ p, (∀ a ∈ effects.filterMap Effect.assign?, a.1 ≠ p) →
        found p = after es (commands.map .command) vars p ∧
          after es effects vars p = after es (commands.map .command) vars p := by
  obtain ⟨front, back, rfl, hfront, hback⟩ := List.filterMap_eq_append_iff.mp hcommands
  obtain ⟨assigns, e, rest, rfl, hassigns, he, hrest⟩ := List.filterMap_eq_cons_iff.mp hback
  obtain rfl : e = .command .refresh := by
    cases e <;> cases he
    rfl
  have hahead : (front ++ assigns).filterMap Effect.command? = commands := by
    rw [List.filterMap_append, hfront, List.filterMap_eq_nil_iff.mpr hassigns, List.append_nil]
  refine ⟨after es (front ++ assigns) vars, ?_, fun p hunassigned => ⟨?_, ?_⟩⟩
  · rw [← List.append_assoc, foundBy_append, foundBy_eq_nil (hahead ▸ hmodify), foundBy,
      foundBy_eq_nil (hrest ▸ fun c hc => absurd hc List.not_mem_nil)]
    rfl
  · rw [← List.append_assoc, List.filterMap_append] at hunassigned
    rw [after_unassigned (List.forall_mem_append.mp hunassigned).1 rfl, hahead]
  · rw [after_unassigned hunassigned rfl, hcommands, List.map_append, List.map_singleton,
      after_concat]
    rfl

theorem Entry.ReportedBy.congr {e : Entry} {it : LiveDataPacket} (h : e.ReportedBy vars it)
    (hsame : vars e.ptr = vars' e.ptr) : e.ReportedBy vars' it :=
  ⟨h.key, h.type, hsame ▸ h.value⟩

/-- What has happened in between. -/
theorem Obeys.since {w₀ w v : Firmware} {h : History} {effects : List Effect}
    {sayings : List Saying} {ahead ahead' : List Command} {later later' : List Byte}
    (hw : Obeys es w₀ h ahead later w) (hv : Obeys es w₀ (h.extend effects sayings) ahead' later' v) :
    v.vars = after es effects w.vars ∧
      List.Forall₂ (fun vars records => List.Forall₂ (Entry.ReportedBy vars) es records)
        (foundBy es effects w.vars) (sayings.filterMap Saying.records) := by
  have hvars := hv.vars
  have hresponses := hv.responses
  rw [History.extend, after, List.foldl_append, ← after, ← after, ← hw.vars] at hvars
  rw [History.extend, foundBy_append, List.filterMap_append, ← hw.vars] at hresponses
  have hdropped := List.forall₂_drop_append _ _ _ hresponses
  rw [← hw.responses.length_eq, List.drop_left] at hdropped
  exact ⟨hvars, hdropped⟩

/-! ## The panel -/

namespace LiveDataPanel

variable {panel : LiveDataPanel} {key : BitVec 16} {it : LiveDataPacket}

/-- Behind each entry is the value that has come in with it. -/
def Untouched (panel : LiveDataPanel) : Prop :=
  ∀ key it, panel.liveDataMap key = some it → panel.cell key it.valueType = some it.value

theorem untouched_blank : Untouched ⟨fun _ => none, fun _ => none, fun _ => none⟩ :=
  fun _ _ hit => by cases hit

theorem Untouched.takeRecord (h : panel.Untouched) (it : LiveDataPacket) :
    (panel.takeRecord it).Untouched := by
  rw [takeRecord_eq]
  split_ifs
  · have hlist : (panel.list it).liveDataMap =
        Function.update panel.liveDataMap it.packetID (some it) := rfl
    intro key it' hit'
    rw [liveDataMap_setCell, hlist] at hit'
    by_cases hkey : key = it.packetID
    · rw [hkey, Function.update_self] at hit'
      cases hit'
      rw [hkey, cell_setCell_self]
    · rw [Function.update_of_ne hkey] at hit'
      rw [cell_setCell_of_ne hkey]
      exact h key it' hit'
  · exact h

theorem Untouched.foldl : ∀ (records : List LiveDataPacket) {panel : LiveDataPanel},
    panel.Untouched → (records.foldl LiveDataPanel.takeRecord panel).Untouched := by
  intro records
  induction records with
  | nil => exact fun h => h
  | cons it records ih => exact fun h => ih (h.takeRecord it)

section Reported

variable {records : List LiveDataPacket}
  (hreported : List.Forall₂ (Entry.ReportedBy vars) es records)
include hreported

/-- What is listed of a response is listed for a variable. -/
theorem entry_of_first (hit : first records key = some it) :
    ∃ e ∈ es, e.key = key ∧ e.ReportedBy vars it := by
  obtain ⟨hmem, hkey⟩ := mem_of_first hit
  obtain ⟨e, he, hsays⟩ := Loop.exists_of_forall₂ hreported hmem
  exact ⟨e, he, hsays.key.symm.trans hkey, hsays⟩

/-- Each variable is listed with its own record. -/
theorem exists_first (hkeys : (es.map Entry.key).Nodup) {e : Entry} (he : e ∈ es) :
    ∃ it, first records e.key = some it ∧ e.ReportedBy vars it := by
  obtain ⟨record, hrecord, hsays⟩ := Loop.exists_of_forall₂ hreported.flip he
  cases hfirst : first records e.key with
  | none =>
    have hnot := List.find?_eq_none.mp hfirst record hrecord
    exact absurd (decide_eq_true hsays.key) hnot
  | some it =>
    obtain ⟨e', he', hkey, hsays'⟩ := entry_of_first hreported hfirst
    obtain rfl := List.inj_on_of_nodup_map hkeys he' he hkey
    exact ⟨it, rfl, hsays'⟩

end Reported

end LiveDataPanel

/-! ## The application -/

namespace Application

open LiveDataPanel

variable {s t : Application} {e : Step} {l : Log}

/-- No action on an entry asks for the variables. -/
theorem Action.ne_refresh {a : Action} {listed : BitVec 16 → Option LiveDataPacket} {c : Command}
    (h : a.command listed = some c) : c ≠ .refresh := by
  cases a with
  | edit key value => cases h
  | apply key value junk =>
    obtain ⟨it, -, rfl⟩ := Option.map_eq_some_iff.mp h
    exact fun hsame => by cases hsame

/-- The user only watches the live data panel. -/
def Step.Watching : Step → Prop
  | .liveData actions refresh => actions = [] ∧ refresh = false
  | _ => True

/-- What is dispatched in a step. -/
def Step.batch : Step → List (List Byte)
  | .control _ _ batch => batch
  | _ => []

/-- Then the log grows by what is dispatched. -/
theorem Step.Watching.stepLog (hwatching : e.Watching) (hcalm : e.Calm) (hattached : l.attached = true) :
    (stepLog l e).attached = true ∧
      (Application.stepLog l e).records = l.records ++ (e.batch.filterMap liveDataEntry).flatten := by
  cases e with
  | control click opens batch =>
    obtain rfl : click = false := hcalm
    have hlog : Application.stepLog l (.control false opens batch) = l.dispatch batch :=
      if_pos hattached
    rw [hlog]
    exact ⟨hattached, rfl⟩
  | alert clear => cases clear <;> exact ⟨hattached, (List.append_nil _).symm⟩
  | liveData actions refresh =>
    obtain ⟨-, rfl⟩ := hwatching
    exact ⟨hattached, (List.append_nil _).symm⟩
  | _ => exact ⟨hattached, (List.append_nil _).symm⟩

/-- And the panel takes in records, if anything happens to it. -/
theorem Step.Watching.panel (hwatching : e.Watching) (hcalm : e.Calm) (hs : s.Tracks l)
    (hstep : step e s = some t) :
    ∃ records : List LiveDataPacket, t.liveDataPanel = records.foldl takeRecord s.liveDataPanel := by
  obtain ⟨telemetry, alerts, responses, shown, hserves, -⟩ := hs.panels
  cases e with
  | control click opens batch =>
    obtain rfl : click = false := hcalm
    rw [Application.step] at hstep
    split_ifs at hstep
    have hserve : s.serve batch = some t := hstep
    rw [serve] at hserve
    split at hserve
    · obtain ⟨h, -, hserve⟩ := Option.bind_eq_some_iff.mp hserve
      obtain ⟨link, -, hserve⟩ := Option.bind_eq_some_iff.mp hserve
      cases hserve
      exact ⟨[], rfl⟩
    · cases hserve
      exact ⟨[], rfl⟩
  | post | clear =>
    rw [Application.step] at hstep
    split_ifs at hstep
    obtain ⟨link, -, hstep⟩ := Option.bind_eq_some_iff.mp hstep
    cases hstep
    exact ⟨[], rfl⟩
  | telemetry | alert =>
    rw [Application.step] at hstep
    split_ifs at hstep
    obtain ⟨y, -, hstep⟩ := Option.bind_eq_some_iff.mp hstep
    cases hstep
    exact ⟨[], rfl⟩
  | liveData actions refresh =>
    obtain ⟨rfl, rfl⟩ := hwatching
    rw [Application.step] at hstep
    split_ifs at hstep
    rw [renderLiveData_eq (hserves.takeIn s.liveDataPanel)] at hstep
    cases hstep
    exact ⟨responses.flatten, rfl⟩
  | handle | complete =>
    obtain ⟨link, -, hstep⟩ := Option.bind_eq_some_iff.mp hstep
    cases hstep
    exact ⟨[], rfl⟩

end Application

/-! ## Both programs -/

namespace Loop

open LiveDataPanel

variable {s₀ s t u : Loop} {e : Step} {h : History} {given : List Command} {r : Receiver}

/-- The user only watches the live data panel. -/
def Step.Watching : Step → Prop
  | .app e => e.Watching
  | _ => True

theorem Step.Watching.commands (hwatching : e.Watching) (s : Loop) : commands e s = [] := by
  cases e with
  | app e =>
    cases e with
    | liveData actions refresh =>
      obtain ⟨rfl, rfl⟩ := hwatching
      rfl
    | _ => rfl
  | _ => rfl

/-- **What the user watches**: since the receiver was as in `r`, what was dispatched is what is
listed or is about to be, and nobody has touched it. -/
structure Watched (r : Receiver) (s : Loop) : Prop where
  arrivals : r.arrivals <+: s.receiver.arrivals
  log : ∃ since l, s.receiver.dispatched = r.dispatched ++ since ∧ s.app.Tracks l ∧
    l.attached = true ∧ l.records = (since.filterMap liveDataEntry).flatten
  untouched : s.app.liveDataPanel.Untouched

namespace Watched

/-- The application goes on. -/
theorem app {e' : Application.Step} {app : Application} {receiver : Receiver} {down : List Byte}
    (hw : Watched r s) (hi : Inv es s₀ h given s) (hwatching : e'.Watching) (hcalm : e'.Calm)
    (hstep : Application.step e' s.app = some app)
    (harrivals : receiver.arrivals = s.receiver.arrivals)
    (hdispatched : receiver.dispatched = s.receiver.dispatched ++ e'.batch) :
    Watched r { s with receiver := receiver, app := app, down := down } := by
  obtain ⟨-, -, -, hin, -⟩ := hi.app
  obtain ⟨since, l, hsince, hs, hattached, hrecords⟩ := hw.log
  obtain ⟨hattached', hmore⟩ := hwatching.stepLog hcalm hattached
  obtain ⟨records, hpanel⟩ := hwatching.panel hcalm hs hstep
  refine ⟨harrivals ▸ hw.arrivals, ⟨since ++ e'.batch, _, ?_, hs.step hin hattached.symm hstep,
    hattached', ?_⟩, ?_⟩
  · rw [hdispatched, hsince, List.append_assoc]
  · rw [hmore, hrecords, List.filterMap_append, List.flatten_append]
  · rw [hpanel]
    exact hw.untouched.foldl records

/-- The receive side goes on by itself. -/
theorem receive {e' : Receiver.Step} {receiver : Receiver} {up : List Byte} (hw : Watched r s)
    (hstep : Receiver.step e' s.receiver = some receiver) (hport : e' ≠ .swap ∧ e' ≠ .dispatch) :
    Watched r { s with receiver := receiver, up := up } := by
  have harrivals : s.receiver.arrivals <+: receiver.arrivals := by
    cases e' with
    | read bytes =>
      rw [Receiver.step] at hstep
      split_ifs at hstep
      cases hstep
      exact List.prefix_rfl
    | complete =>
      rw [Receiver.step] at hstep
      split_ifs at hstep
      cases hstep
      rw [Receiver.handle]
      split_ifs
      · rw [Receiver.arrivals_push]
        exact List.prefix_append _ _
      · exact List.prefix_rfl
    | fail =>
      rw [Receiver.step] at hstep
      split_ifs at hstep
      cases hstep
      exact List.prefix_rfl
    | swap => exact absurd rfl hport.1
    | dispatch => exact absurd rfl hport.2
  obtain ⟨since, l, hsince, hlog⟩ := hw.log
  exact ⟨hw.arrivals.trans harrivals, ⟨since, l, (receive_frame hstep hport).1.trans hsince, hlog⟩,
    hw.untouched⟩

/-- **What a step keeps** while the user only watches. -/
theorem step (hw : Watched r s) (hi : Inv es s₀ h given s) (hallowed : e.Allowed)
    (hwatching : e.Watching) (hstep : Loop.step e s = some t) : Watched r t := by
  cases e with
  | board op =>
    obtain ⟨v, -, hstep⟩ := Option.bind_eq_some_iff.mp hstep
    cases hstep
    exact ⟨hw.arrivals, hw.log, hw.untouched⟩
  | arrive n =>
    cases hstep
    exact ⟨hw.arrivals, hw.log, hw.untouched⟩
  | read n | complete | fail =>
    obtain ⟨receiver, hread, hstep⟩ := Option.bind_eq_some_iff.mp hstep
    cases hstep
    exact hw.receive hread ⟨by simp, by simp⟩
  | frame =>
    obtain ⟨receiver, hreceiver, hframe⟩ := Option.bind_eq_some_iff.mp hstep
    obtain ⟨app, happ, hframe⟩ := Option.bind_eq_some_iff.mp hframe
    cases hframe
    rw [run_produce hi.batch] at hreceiver
    cases hreceiver
    have hplain : (Application.Step.control false false s.receiver.rxQueue).Watching ∧
        (Application.Step.control false false s.receiver.rxQueue).Calm := ⟨trivial, rfl⟩
    exact hw.app hi hplain.1 hplain.2 happ rfl rfl
  | app e' =>
    obtain ⟨app, happ, hstep⟩ := Option.bind_eq_some_iff.mp hstep
    cases hstep
    have hboth : e'.Calm ∧ e'.batch = [] := by
      cases e' with
      | control => exact hallowed.elim
      | _ => exact ⟨trivial, rfl⟩
    exact hw.app hi hwatching hboth.1 happ rfl (by rw [hboth.2, List.append_nil])
  | broken k m =>
    obtain ⟨packet, -, hstep⟩ := Option.bind_eq_some_iff.mp hstep
    obtain ⟨app, happ, hstep⟩ := Option.bind_eq_some_iff.mp hstep
    cases hstep
    have hplain : (Application.Step.complete k true).Watching ∧
        (Application.Step.complete k true).Calm := ⟨trivial, trivial⟩
    exact hw.app hi hplain.1 hplain.2 happ rfl (List.append_nil _).symm

theorem run (hb : Begins es s₀) (hw : Watched r s) (hi : Inv es s₀ h given s) {steps : List Step}
    (hallowed : ∀ e ∈ steps, e.Allowed) (hwatching : ∀ e ∈ steps, e.Watching)
    (hrun : Runs.run Loop.step steps s = some t) : Watched r t := by
  let I (s : Loop) : Prop := Watched r s ∧ ∃ h given, Inv es s₀ h given s
  have hstep : ∀ {e : Step} {s t : Loop}, e.Allowed ∧ e.Watching → I s → Loop.step e s = some t →
      I t := by
    rintro e s t ⟨hallowed, hwatching⟩ ⟨hw, h, given, hi⟩ hstep
    obtain ⟨effects, more, new, ht, -⟩ := hi.step hb hallowed hstep
    exact ⟨hw.step hi hallowed hwatching hstep, _, _, ht⟩
  have hmeets : Meets Loop.step (fun e _ => e.Allowed ∧ e.Watching) steps s :=
    meets_of_forall s fun e he _ => ⟨hallowed e he, hwatching e he⟩
  exact (run_meets hstep hmeets ⟨hw, h, given, hi⟩ hrun).1

/-- **The panel is cleared** with a refresh. -/
theorem start (hi : Inv es s₀ h given s) {actions : List Application.Action}
    (hstep : Loop.step (.app (.liveData actions true)) s = some t) : Watched s.receiver t := by
  obtain ⟨app, happ, hstep⟩ := Option.bind_eq_some_iff.mp hstep
  cases hstep
  obtain ⟨l, hs, hattached, hin, -⟩ := hi.app
  have ht := hs.step hin hattached.symm happ
  have hblank : app.liveDataPanel = ⟨fun _ => none, fun _ => none, fun _ => none⟩ := by
    obtain ⟨telemetry, alerts, responses, shown, hserves, -⟩ := hs.panels
    rw [Application.step] at happ
    split_ifs at happ
    rw [Application.renderLiveData_eq (hserves.takeIn s.app.liveDataPanel),
      Option.map_eq_some_iff] at happ
    obtain ⟨y, -, rfl⟩ := happ
    rfl
  refine ⟨List.prefix_rfl, ⟨[], _, (List.append_nil _).symm, ht, hattached, rfl⟩, ?_⟩
  rw [hblank]
  exact untouched_blank

end Watched

/-- What is still has dispatched all that was said, if the queue was never full. -/
theorem Still.dispatched (hstill : s.Still) (hi : Inv es s₀ h given s)
    (hspace : ∀ arrival ∈ s.receiver.arrivals, arrival.2 < 1024) :
    s.receiver.dispatched = h.sayings.map Saying.frame := by
  obtain ⟨heard, hheard, -, hall⟩ := hi.dispatched
  obtain rfl := (hall hspace).2 hstill.up hstill.readBuffer hstill.rxQueue
  exact hheard

/-- And the firmware has carried out all commands. -/
theorem Still.obeys (hstill : s.Still) (hi : Inv es s₀ h given s) :
    given = h.effects.filterMap Effect.command? ∧ Obeys es s₀.board h [] [] s.board := by
  obtain ⟨ahead, lost, hgiven, hobeys, hleaves⟩ := hi.obeys
  rw [hstill.down, hleaves.lost_eq_nil hstill.unwritten] at hobeys
  obtain rfl := hobeys.ahead_of_quiet hstill.quiet
  rw [List.append_nil] at hgiven
  exact ⟨hgiven, hobeys⟩

/-- **Between two such states**, what was given was carried out, and what was said was
dispatched. -/
theorem Still.between {effects : List Effect} {sayings : List Saying} {new : List Command}
    (hs : s.Still) (hi : Inv es s₀ h given s) (ht : t.Still)
    (hi' : Inv es s₀ (h.extend effects sayings) (given ++ new) t) :
    effects.filterMap Effect.command? = new ∧ t.board.vars = after es effects s.board.vars ∧
      List.Forall₂ (fun vars records => List.Forall₂ (Entry.ReportedBy vars) es records)
        (foundBy es effects s.board.vars) (sayings.filterMap Saying.records) ∧
      (s.receiver.arrivals <+: t.receiver.arrivals →
        (∀ arrival ∈ t.receiver.arrivals, arrival.2 < 1024) →
        t.receiver.dispatched = s.receiver.dispatched ++ sayings.map Saying.frame) := by
  obtain ⟨hgiven, hobeys⟩ := hs.obeys hi
  obtain ⟨hgiven', hobeys'⟩ := ht.obeys hi'
  obtain ⟨hvars, hresponses⟩ := hobeys.since hobeys'
  refine ⟨?_, hvars, hresponses, fun harrivals hspace => ?_⟩
  · rw [History.extend, List.filterMap_append, ← hgiven] at hgiven'
    exact (List.append_cancel_left hgiven').symm
  · have hspace' : ∀ arrival ∈ s.receiver.arrivals, arrival.2 < 1024 :=
      fun arrival harrival => hspace arrival (harrivals.subset harrival)
    rw [ht.dispatched hi' hspace, hs.dispatched hi hspace', History.extend, List.map_append]

/-- **There and back.** The user acts on entries of the live data panel and refreshes it, while
nothing is on its way; from then on the user only watches the panel, and the two programs do
whatever they do. When all has come to rest again and the queue was never full, the panel lists
the variables of the firmware and nothing else; and each one that the program on the board has not
written to meanwhile is shown with the value that the user's actions have made of what was in the
variable, and that is still there. The keys of the variables fit a byte. -/
theorem shown_at_last (hb : Begins es s₀) (hlow : ∀ e ∈ es, Application.lowKey e.key = e.key)
    {steps more : List Step} {actions : List Application.Action}
    (hallowed : ∀ e ∈ steps, e.Allowed) (hrun : run step steps s₀ = some s) (hstill : s.Still)
    (hstep : step (.app (.liveData actions true)) s = some u)
    (hmore : ∀ e ∈ more, e.Allowed ∧ e.Watching) (hrest : run step more u = some t)
    (hend : t.AtRest) (hspace : ∀ arrival ∈ t.receiver.arrivals, arrival.2 < 1024) :
    (∀ key, (∃ it, t.app.liveDataPanel.liveDataMap key = some it) ↔ ∃ e ∈ es, e.key = key) ∧
      ∀ e ∈ es, (∀ a ∈ more.flatMap Step.assigned, a.1 ≠ e.ptr) →
        t.board.vars e.ptr = after es ((actions.filterMap
            (Application.Action.command s.listing)).map .command) s.board.vars e.ptr ∧
          ∃ it, t.app.liveDataPanel.liveDataMap e.key = some it ∧
            e.ReportedBy t.board.vars it ∧
            t.app.liveDataPanel.cell e.key it.valueType = some it.value := by
  obtain ⟨h, given, new, -, hi, -⟩ := hb.run hallowed hrun
  have hboth : run step (.app (.liveData actions true) :: more) s = some t :=
    run_cons.mpr ⟨u, hstep, hrest⟩
  have hallowed' : ∀ e ∈ Step.app (.liveData actions true) :: more, e.Allowed :=
    List.forall_mem_cons.mpr ⟨trivial, fun e he => (hmore e he).1⟩
  obtain ⟨effects, sayings, new', ht, hassigned, hnew⟩ := hi.run hb hallowed' hboth
  obtain ⟨_, _, _, hu, -⟩ := hi.step hb (hallowed' _ List.mem_cons_self) hstep
  have hw := (Watched.start hi hstep).run hb hu (fun e he => (hmore e he).1)
    (fun e he => (hmore e he).2) hrest
  -- what was carried out in between are the user's commands, and one request behind them
  set commands := actions.filterMap (Application.Action.command s.listing) with hcommands
  have houtputs : outputs step Loop.commands (.app (.liveData actions true) :: more) s =
      commands ++ [.refresh] := by
    rw [outputs_cons hstep, outputs_eq_nil fun e he => (hmore e he).2.commands, List.append_nil]
    rfl
  obtain ⟨hdone, hvars, hresponses, hdispatched⟩ := hstill.between hi hend.toStill ht
  rw [hnew hlow, houtputs] at hdone
  have hmodify : ∀ c ∈ commands, c ≠ .refresh := by
    intro c hc
    obtain ⟨a, -, ha⟩ := List.mem_filterMap.mp hc
    exact Application.Action.ne_refresh ha
  obtain ⟨found, hfound, hsame⟩ := foundBy_once es s.board.vars hmodify hdone
  rw [hfound] at hresponses
  obtain ⟨records, rest, hreported, hnil, hrecords⟩ := List.forall₂_cons_left_iff.mp hresponses
  obtain rfl := List.forall₂_nil_left_iff.mp hnil
  -- what was said in between is what was dispatched in between
  obtain ⟨since, l, hsince, hs, -, hl⟩ := hw.log
  rw [hdispatched hw.arrivals hspace] at hsince
  obtain rfl := List.append_cancel_left hsince
  rw [(entries_frames sayings).2.2, hrecords, List.flatten_singleton] at hl
  obtain ⟨telemetry, -, -, hmap⟩ := hs.at_control hend.phase
  rw [hl] at hmap
  refine ⟨fun key => ?_, fun e he hunassigned => ?_⟩
  · rw [hmap]
    constructor
    · rintro ⟨it, hit⟩
      obtain ⟨e, he, hkey, -⟩ := entry_of_first hreported hit
      exact ⟨e, he, hkey⟩
    · rintro ⟨e, he, rfl⟩
      obtain ⟨it, hit, -⟩ := exists_first hreported hb.keys he
      exact ⟨it, hit⟩
  · have hunassigned' : ∀ a ∈ effects.filterMap Effect.assign?, a.1 ≠ e.ptr := by
      rw [hassigned]
      exact hunassigned
    obtain ⟨hrequested, hlast⟩ := hsame e.ptr hunassigned'
    rw [← hvars] at hlast
    obtain ⟨it, hit, hsays⟩ := exists_first hreported hb.keys he
    rw [← hmap] at hit
    exact ⟨hlast, it, hit, hsays.congr (hrequested.trans hlast.symm), hw.untouched e.key it hit⟩

/-- All queues are empty, and the firmware waits for a header. -/
def Empty (s : Loop) : Prop :=
  s.app.link.unwritten = [] ∧ s.down = [] ∧ s.board.dashboard.packetStatus = .waiting ∧
    s.board.incoming = [] ∧ s.up = [] ∧ (0 : Byte) ∉ s.receiver.readBuffer ∧ s.receiver.rxQueue = []

instance (s : Loop) : Decidable (Empty s) := inferInstanceAs (Decidable (_ ∧ _))

theorem Begins.still_of_empty (hb : Begins es s₀) {steps : List Step}
    (hallowed : ∀ e ∈ steps, e.Allowed) (hrun : Runs.run step steps s₀ = some s)
    (hempty : s.Empty) : s.Still := by
  obtain ⟨hunwritten, hdown, hwaiting, hincoming, hup, hreadBuffer, hrxQueue⟩ := hempty
  obtain ⟨h, given, new, -, hi, -⟩ := hb.run hallowed hrun
  obtain ⟨ahead, lost, -, hobeys, -⟩ := hi.obeys
  have hquiet : Quiet s.board := quiet_of_short hobeys.sound hwaiting (hincoming ▸ Nat.zero_le 12)
  exact ⟨hunwritten, hdown, hquiet, hup, hreadBuffer, hrxQueue⟩

/-- A value is applied to the one variable, the panel is refreshed, and the answer comes in. -/
def secondAnswer : List Step :=
  [.frame, .app .post, .app .post, .app .clear, .app (.telemetry Application.noInput),
      .app (.alert false), .app (.liveData [] false), .app .handle, .app .handle,
      .app (.complete 0 false), .app (.complete 0 false), .arrive 40,
      .board (.update openTransport), .board (.update openTransport), .read 1000] ++
    List.replicate 11 .complete ++
    [.frame, .app .clear, .app (.telemetry Application.noInput), .app (.alert false),
      .app (.liveData [] false)]

/-- The value is shown. -/
theorem shown_at_last_answer : ∃ s u t, run step firstAnswer.dropLast oneSession = some s ∧
    step (.app (.liveData [.apply 0 5 0] true)) s = some u ∧ run step secondAnswer u = some t ∧
    ∃ it, t.app.liveDataPanel.liveDataMap 0 = some it ∧ it.value = 5 := by
  have hall : ((run step firstAnswer.dropLast oneSession).bind fun s =>
      ((step (.app (.liveData [.apply 0 5 0] true)) s).bind (run step secondAnswer)).map
        fun t => decide ((s.Empty ∧ after [⟨0, .uint32, 0⟩]
          (([Application.Action.apply 0 5 0].filterMap
            (Application.Action.command s.listing)).map .command) s.board.vars 0 = 5) ∧
          t.Empty ∧ t.app.phase = .control ∧
            ∀ arrival ∈ t.receiver.arrivals, arrival.2 < 1024)) = some true := by
    decide +kernel
  obtain ⟨s, hrun, hafter⟩ := Option.bind_eq_some_iff.mp hall
  obtain ⟨t, hboth, ht⟩ := Option.map_eq_some_iff.mp hafter
  obtain ⟨⟨hempty, hvalue⟩, hempty', hphase, hspace⟩ := of_decide_eq_true ht
  obtain ⟨u, hstep, hrest⟩ := Option.bind_eq_some_iff.mp hboth
  have hallowed : ∀ e ∈ firstAnswer.dropLast, e.Allowed :=
    fun e he => allowed_firstAnswer e (List.mem_of_mem_dropLast he)
  have hmore : ∀ e ∈ secondAnswer, e.Allowed ∧ e.Watching := by
    simp [secondAnswer, Step.Allowed, Step.Watching, Application.Step.Watching, Op.Local, Op.Allowed]
  have hall' : ∀ e ∈ firstAnswer.dropLast ++ .app (.liveData [.apply 0 5 0] true) :: secondAnswer,
      e.Allowed :=
    List.forall_mem_append.mpr ⟨hallowed, List.forall_mem_cons.mpr
      ⟨trivial, fun e he => (hmore e he).1⟩⟩
  have hend : run step (firstAnswer.dropLast ++ .app (.liveData [.apply 0 5 0] true) :: secondAnswer)
      oneSession = some t :=
    run_append.mpr ⟨s, hrun, run_cons.mpr ⟨u, hstep, hrest⟩⟩
  obtain ⟨-, hshown⟩ := shown_at_last begins_oneSession (by decide) hallowed hrun
    (begins_oneSession.still_of_empty hallowed hrun hempty) hstep hmore hrest
    ⟨begins_oneSession.still_of_empty hall' hend hempty', hphase⟩ hspace
  obtain ⟨hvar, it, hit, hsays, -⟩ := hshown _ List.mem_cons_self (by decide)
  exact ⟨s, u, t, hrun, hstep, hrest, it, hit, hsays.value.trans (hvar.trans hvalue)⟩

end Loop

end Houston
