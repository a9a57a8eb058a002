import Houston.Hearing

/-!
# What the panels show

In every run of the application the alert panel has all alerts since it was last cleared, and
the live data panel lists, for each key, the first record that has come in since it was last
cleared; and whether a frame of the live data panel goes through is decided by what is listed.

* `LiveDataPanel.Matched` — a pointer stands behind an entry, of the kind that goes with its type.
* `Log` — what was dispatched since the panels were cleared, as a function of the steps.
* `Tracks` — **the invariant**: the panels, and behind them the queues, are what the log says.
* `alerts_session`, `listing_session`, `actions_iff` — what is shown, and what can be done to it.
-/

namespace Houston

open Stuffing

/-! ## Entries and pointers -/

namespace LiveDataPanel

variable {panel panel' : LiveDataPanel} {key k valueType t : BitVec 16} {value : BitVec 32}

/-- The first record of each key. -/
def first (records : List LiveDataPacket) (key : BitVec 16) : Option LiveDataPacket :=
  records.find? fun it => it.packetID = key

/-- Two types have pointers of the same kind. -/
def SameKind (t t' : BitVec 16) : Prop :=
  t = ValueType.float.bits 16 ↔ t' = ValueType.float.bits 16

instance (t t' : BitVec 16) : Decidable (SameKind t t') := inferInstanceAs (Decidable (_ ↔ _))

/-- A pointer of a kind is there if and only if there is an entry of that kind. -/
def Matched (panel : LiveDataPanel) : Prop :=
  ∀ key t, (∃ value, panel.cell key t = some value) ↔
    ∃ it, panel.liveDataMap key = some it ∧ SameKind it.valueType t

theorem mem_of_first {records : List LiveDataPacket} {it : LiveDataPacket}
    (h : first records key = some it) : it ∈ records ∧ it.packetID = key :=
  ⟨List.mem_of_find?_eq_some h, of_decide_eq_true
    (List.find?_some (p := fun it : LiveDataPacket => decide (it.packetID = key)) h)⟩

theorem first_concat (records : List LiveDataPacket) (it : LiveDataPacket) (key : BitVec 16) :
    first (records ++ [it]) key =
      (first records key).or (if it.packetID = key then some it else none) := by
  rw [first, List.find?_append, List.find?_singleton]
  simp only [decide_eq_true_eq]
  rfl

/-- Taking in one more record lists it if its key is not listed. -/
theorem listed_takeRecord {records : List LiveDataPacket} (hmap : panel.liveDataMap = first records)
    (it : LiveDataPacket) : (panel.takeRecord it).liveDataMap = first (records ++ [it]) := by
  funext key
  rw [takeRecord_eq, first_concat, ← hmap]
  by_cases hnone : panel.liveDataMap it.packetID = none
  · rw [if_pos hnone, liveDataMap_setCell]
    show Function.update panel.liveDataMap it.packetID (some it) key = _
    by_cases hkey : it.packetID = key
    · rw [← hkey, Function.update_self, hnone, if_pos rfl]
      rfl
    · rw [Function.update_of_ne (Ne.symm hkey), if_neg hkey, Option.or_none]
  · rw [if_neg hnone]
    obtain ⟨other, hother⟩ := Option.ne_none_iff_exists'.mp hnone
    by_cases hkey : it.packetID = key
    · rw [← hkey, hother]
      rfl
    · rw [if_neg hkey, Option.or_none]

theorem listed_foldl : ∀ (more : List LiveDataPacket) {panel : LiveDataPanel}
    {records : List LiveDataPacket}, panel.liveDataMap = first records →
      (more.foldl takeRecord panel).liveDataMap = first (records ++ more) := by
  intro more
  induction more with
  | nil =>
    intro panel records hmap
    rwa [List.append_nil]
  | cons it more ih =>
    intro panel records hmap
    rw [List.foldl_cons, ih (listed_takeRecord hmap it), List.append_assoc, List.singleton_append]

/-- A pointer that is set is there for its kind. -/
theorem cell_setCell (hsame : SameKind valueType t) :
    (panel.setCell key valueType value).cell key t = some value := by
  rw [cell, setCell]
  split_ifs with hfloat hfloat' hfloat'
  · exact Function.update_self ..
  · exact absurd (hsame.mpr hfloat) hfloat'
  · exact absurd (hsame.mp hfloat') hfloat
  · exact Function.update_self ..

/-- Nothing happens to the pointers of the other kind. -/
theorem cell_setCell_of_not (hdiffer : ¬ SameKind valueType t) :
    (panel.setCell key valueType value).cell k t = panel.cell k t := by
  rw [cell, cell, setCell]
  split_ifs with hfloat hfloat' hfloat'
  · exact absurd ⟨fun _ => hfloat, fun _ => hfloat'⟩ hdiffer
  · rfl
  · rfl
  · exact absurd ⟨fun h => absurd h hfloat', fun h => absurd h hfloat⟩ hdiffer

theorem matched_blank : Matched ⟨fun _ => none, fun _ => none, fun _ => none⟩ := by
  intro key t
  constructor
  · rintro ⟨value, hvalue⟩
    rw [cell] at hvalue
    split_ifs at hvalue
  · rintro ⟨it, hit, -⟩
    cases hit

theorem Matched.takeRecord (h : panel.Matched) (it : LiveDataPacket) :
    (panel.takeRecord it).Matched := by
  rw [takeRecord_eq]
  split_ifs with hnone
  · intro key t
    rw [liveDataMap_setCell]
    show _ ↔ ∃ it', Function.update panel.liveDataMap it.packetID (some it) key = some it' ∧ _
    by_cases hkey : key = it.packetID
    · rw [hkey, Function.update_self]
      by_cases hsame : SameKind it.valueType t
      · exact ⟨fun _ => ⟨it, rfl, hsame⟩, fun _ => ⟨_, cell_setCell hsame⟩⟩
      · -- there was no pointer under the key, of whatever kind
        rw [cell_setCell_of_not hsame]
        constructor
        · intro hcell
          obtain ⟨other, hother, -⟩ := (h it.packetID t).mp hcell
          rw [hnone] at hother
          cases hother
        · rintro ⟨it', hit', hkind⟩
          cases hit'
          exact absurd hkind hsame
    · rw [Function.update_of_ne hkey, cell_setCell_of_ne hkey]
      exact h key t
  · exact h

theorem Matched.foldl : ∀ (records : List LiveDataPacket) {panel : LiveDataPanel}, panel.Matched →
    (records.foldl LiveDataPanel.takeRecord panel).Matched := by
  intro records
  induction records with
  | nil => exact fun h => h
  | cons it records ih => exact fun h => ih (h.takeRecord it)

/-- An edit puts another value behind a pointer that is there. -/
theorem Matched.edit (h : panel.Matched) (hedit : panel.edit key value = some panel') :
    panel'.Matched := by
  obtain ⟨hlist, hother⟩ := frame_edit hedit
  cases hit : panel.liveDataMap key with
  | none =>
    rw [LiveDataPanel.edit, hit] at hedit
    cases hedit
  | some it =>
    rw [edit_eq hit, Option.map_eq_some_iff] at hedit
    obtain ⟨old, hold, rfl⟩ := hedit
    intro k t
    rw [liveDataMap_setCell]
    by_cases hkey : k = key
    · rw [hkey]
      by_cases hsame : SameKind it.valueType t
      · exact ⟨fun _ => ⟨it, hit, hsame⟩, fun _ => ⟨_, cell_setCell hsame⟩⟩
      · rw [cell_setCell_of_not hsame]
        exact h key t
    · rw [cell_setCell_of_ne hkey]
      exact h k t

theorem Matched.exists_edit (h : panel.Matched) {it : LiveDataPacket}
    (hit : panel.liveDataMap key = some it) (value : BitVec 32) :
    ∃ panel', panel.edit key value = some panel' := by
  obtain ⟨old, hold⟩ := (h key it.valueType).mpr ⟨it, hit, Iff.rfl⟩
  exact ⟨_, (edit_eq hit).trans (congrArg (Option.map _) hold)⟩

end LiveDataPanel

namespace Application

open LiveDataPanel

/-- The low byte of a key, which is what is left of it in the parameter `packetID` of
`sendModifyPacket`. -/
def lowKey (key : BitVec 16) : BitVec 16 := (key.setWidth 8).setWidth 16

/-- What an action needs of what is listed: an entry; and to apply it, one under the low byte of
its key, whose pointer is of the same kind. -/
def Action.Fine (listed : BitVec 16 → Option LiveDataPacket) : Action → Prop
  | .edit key _ => ∃ it, listed key = some it ∧ it.valueType ≠ ValueType.bool.bits 16
  | .apply key _ _ => ∃ it it', listed key = some it ∧ listed (lowKey key) = some it' ∧
      SameKind it'.valueType it.valueType

variable {panel panel' : LiveDataPanel} {d d' : Dispatcher} {a : Action}

/-- An action leaves what is listed as it is. -/
theorem act_frame (h : panel.Matched) (hact : act (panel, d) a = some (panel', d')) :
    panel'.Matched ∧ panel'.liveDataMap = panel.liveDataMap := by
  cases a with
  | edit key value =>
    obtain ⟨it, -, hact⟩ := Option.bind_eq_some_iff.mp hact
    split_ifs at hact
    obtain ⟨panel₁, hedit, hact⟩ := Option.bind_eq_some_iff.mp hact
    cases hact
    exact ⟨h.edit hedit, (frame_edit hedit).1⟩
  | apply key value junk =>
    obtain ⟨it, hedit, -, -⟩ := press_inv hact
    exact ⟨h.edit hedit, (frame_edit hedit).1⟩

/-- **One action** goes through if and only if it has what it needs. -/
theorem act_iff (h : panel.Matched) :
    (∃ y, act (panel, d) a = some y) ↔ a.Fine panel.liveDataMap := by
  cases a with
  | edit key value =>
    constructor
    · rintro ⟨y, hact⟩
      obtain ⟨it, hit, hact⟩ := Option.bind_eq_some_iff.mp hact
      split_ifs at hact with hbool
      exact ⟨it, hit, hbool⟩
    · rintro ⟨it, hit, hbool⟩
      obtain ⟨panel', hedit⟩ := h.exists_edit hit value
      refine ⟨(panel', d), ?_⟩
      rw [act, hit, Option.bind_eq_bind, Option.bind_some, if_neg hbool, hedit]
      rfl
  | apply key value junk =>
    constructor
    · rintro ⟨⟨panel', d'⟩, hact⟩
      obtain ⟨it, hedit, hit, hsend⟩ := press_inv hact
      rw [sendModifyPacket_eq, Option.map_eq_some_iff] at hsend
      obtain ⟨old, hold, -⟩ := hsend
      obtain ⟨it', hit', hkind⟩ := (h.edit hedit (lowKey key) it.valueType).mp ⟨old, hold⟩
      rw [(frame_edit hedit).1] at hit'
      exact ⟨it, it', hit, hit', hkind⟩
    · rintro ⟨it, it', hit, hit', hkind⟩
      obtain ⟨panel', hedit⟩ := h.exists_edit hit value
      have hlist := (frame_edit hedit).1
      -- the value that is sent is behind the pointer under the low byte
      obtain ⟨old, hold⟩ := (h.edit hedit (lowKey key) it.valueType).mpr
        ⟨it', by rw [hlist, hit'], hkind⟩
      have hold' : panel'.cell ((key.setWidth 8).setWidth 16) it.valueType = some old := hold
      obtain ⟨d', hsend⟩ : ∃ d', panel'.sendModifyPacket (key.setWidth 8) it.valueType junk d =
          some d' := by
        rw [sendModifyPacket_eq, hold']
        exact ⟨_, rfl⟩
      refine ⟨(panel', d'), ?_⟩
      rw [act, press, hedit, Option.bind_eq_bind, Option.bind_some, hlist, hit,
        Option.bind_eq_bind, Option.bind_some, hsend]
      rfl

/-- **A sequence of actions** goes through if and only if each of them does. -/
theorem actions_foldlM : ∀ (actions : List Action) {panel : LiveDataPanel} {d : Dispatcher},
    panel.Matched →
    ((∃ y, actions.foldlM act (panel, d) = some y) ↔
      ∀ a ∈ actions, a.Fine panel.liveDataMap) ∧
    ∀ {panel' d'}, actions.foldlM act (panel, d) = some (panel', d') →
      panel'.Matched ∧ panel'.liveDataMap = panel.liveDataMap := by
  intro actions
  induction actions with
  | nil =>
    intro panel d h
    refine ⟨⟨fun _ a ha => absurd ha List.not_mem_nil, fun _ => ⟨_, rfl⟩⟩, fun hrun => ?_⟩
    cases hrun
    exact ⟨h, rfl⟩
  | cons a actions ih =>
    intro panel d h
    rw [List.foldlM_cons, List.forall_mem_cons, ← act_iff (d := d) h]
    constructor
    · constructor
      · rintro ⟨y, hrun⟩
        obtain ⟨⟨panel₁, d₁⟩, hact, hrest⟩ := Option.bind_eq_some_iff.mp hrun
        obtain ⟨h₁, hlist⟩ := act_frame h hact
        rw [← hlist]
        exact ⟨⟨_, hact⟩, (ih h₁).1.mp ⟨y, hrest⟩⟩
      · rintro ⟨⟨⟨panel₁, d₁⟩, hact⟩, hrest⟩
        obtain ⟨h₁, hlist⟩ := act_frame h hact
        rw [← hlist] at hrest
        obtain ⟨y, hy⟩ := (ih h₁ (d := d₁)).1.mpr hrest
        exact ⟨y, Option.bind_eq_some_iff.mpr ⟨_, hact, hy⟩⟩
    · intro panel' d' hrun
      obtain ⟨⟨panel₁, d₁⟩, hact, hrest⟩ := Option.bind_eq_some_iff.mp hrun
      obtain ⟨h₁, hlist⟩ := act_frame h hact
      obtain ⟨h', hlist'⟩ := (ih h₁).2 hrest
      exact ⟨h', hlist'.trans hlist⟩

/-- The end of the live data panel: the user may click "Refresh". -/
def endFrame (refresh : Bool) (h : Host) (s : Application) (y : LiveDataPanel × Dispatcher) :
    Application :=
  let (panel, d) := if refresh then refreshPackets y.2 else y
  { s.setHost { h with dispatcher := d } with liveDataPanel := panel, phase := .control }

theorem renderLiveData_eq {s : Application} {h : Host} {actions : List Action} {refresh : Bool}
    (htake : s.liveDataPanel.takeIn s.host = some (panel, h)) :
    s.renderLiveData actions refresh =
      (actions.foldlM act (panel, h.dispatcher)).map (s.endFrame refresh h) := by
  rw [renderLiveData, htake, Option.bind_eq_bind, Option.bind_some]
  dsimp only
  cases actions.foldlM act (panel, h.dispatcher) <;> rfl

/-! ## The log -/

/-- What was dispatched since the panels were cleared. -/
structure Log where
  attached : Bool
  alerts : List (List Byte)
  records : List LiveDataPacket

/-- A batch is dispatched. -/
def Log.dispatch (batch : List (List Byte)) (l : Log) : Log where
  attached := l.attached
  alerts := l.alerts ++ batch.filterMap alertEntry
  records := l.records ++ (batch.filterMap liveDataEntry).flatten

/-- What a step does to the log. -/
def stepLog (l : Log) : Step → Log
  | .control click opens batch =>
    if !click then if l.attached then l.dispatch batch else l
    else if l.attached then ⟨false, [], []⟩
    else if opens then Log.dispatch batch ⟨true, l.alerts, []⟩
    else l
  | .alert clear => if clear then { l with alerts := [] } else l
  | .liveData _ refresh => if refresh then { l with records := [] } else l
  | _ => l

/-- The log of a sequence of steps. -/
def log (es : List Step) : Log := es.foldl stepLog ⟨false, [], []⟩

/-- **The invariant**: what the log says is in the panels, or behind them in the queues; and the
pointers of the live data panel go with its entries. -/
structure Tracks (l : Log) (s : Application) : Prop where
  panels : ∃ telemetry alerts responses shown, s.host.Serves telemetry alerts responses ∧
    s.alertPanel.alerts ++ alerts = l.alerts ∧
    (s.phase = .control ∨ s.phase = .liveData → alerts = []) ∧
    s.liveDataPanel.liveDataMap = first shown ∧ shown ++ responses.flatten = l.records ∧
    (s.phase = .control → responses = [])
  matched : s.liveDataPanel.Matched

theorem tracks_main : main.Tracks ⟨false, [], []⟩ where
  panels := ⟨[], [], [], [], ⟨rfl, rfl, rfl, rfl⟩, rfl, fun _ => rfl, rfl, rfl, fun _ => rfl⟩
  matched := matched_blank

variable {s t : Application} {e : Step} {es : List Step} {l : Log}
  {packets : Option (List (List Byte))} {batch : List (List Byte)}

theorem attached_stepSession (hattached : packets.isSome = l.attached) (e : Step) :
    (stepSession packets e).isSome = (stepLog l e).attached := by
  cases e with
  | control click opens batch =>
    rw [stepSession, stepLog, ← hattached]
    cases packets <;> cases click <;> cases opens <;> first | rfl | exact hattached
  | alert clear => cases clear <;> exact hattached
  | liveData actions refresh => cases refresh <;> exact hattached
  | _ => exact hattached

theorem attached_foldl : ∀ (es : List Step) {packets : Option (List (List Byte))} {l : Log},
    packets.isSome = l.attached →
      (es.foldl stepSession packets).isSome = (es.foldl stepLog l).attached := by
  intro es
  induction es with
  | nil => exact fun h => h
  | cons e es ih => exact fun h => ih (attached_stepSession h e)

/-- There is nothing in the log while the user is not attached. -/
def Log.Tidy (l : Log) : Prop := l.attached = false → l = ⟨false, [], []⟩

theorem Log.Tidy.stepLog (h : l.Tidy) (e : Step) : (stepLog l e).Tidy := by
  intro hdetached
  cases e with
  | control click opens batch =>
    cases hl : l.attached <;> cases click <;> cases opens <;>
      simp_all [Application.stepLog, Log.dispatch, Log.Tidy]
  | alert clear =>
    have hl : l.attached = false := by cases clear <;> exact hdetached
    rw [h hl]
    cases clear <;> rfl
  | liveData actions refresh =>
    have hl : l.attached = false := by cases refresh <;> exact hdetached
    rw [h hl]
    cases refresh <;> rfl
  | _ => exact h hdetached

theorem Log.Tidy.foldl : ∀ (es : List Step) {l : Log}, l.Tidy →
    Log.Tidy (es.foldl Application.stepLog l) := by
  intro es
  induction es with
  | nil => exact fun h => h
  | cons e es ih => exact fun h => ih (h.stepLog e)

namespace Tracks

/-- Before the control panel is rendered, all queues that the log is about are empty. -/
theorem at_control (hs : s.Tracks l) (hphase : s.phase = .control) :
    ∃ telemetry, s.host.Serves telemetry [] [] ∧ s.alertPanel.alerts = l.alerts ∧
      s.liveDataPanel.liveDataMap = first l.records := by
  obtain ⟨telemetry, alerts, responses, shown, hserves, halerts, hnone, hmap, hrecords, hempty⟩ :=
    hs.panels
  obtain rfl := hnone (Or.inl hphase)
  obtain rfl := hempty hphase
  rw [List.append_nil] at halerts
  rw [List.flatten_nil, List.append_nil] at hrecords
  exact ⟨telemetry, hserves, halerts, hrecords ▸ hmap⟩

/-- When the queues are empty, all is in the panels. -/
theorem of_empty {telemetry : List (List Byte × List Byte)}
    (hserves : s.host.Serves telemetry [] []) (halerts : s.alertPanel.alerts = l.alerts)
    (hmap : s.liveDataPanel.liveDataMap = first l.records) (hmatched : s.liveDataPanel.Matched) :
    s.Tracks l where
  panels := ⟨telemetry, [], [], l.records, hserves, (List.append_nil _).trans halerts, fun _ => rfl,
    hmap, List.append_nil _, fun _ => rfl⟩
  matched := hmatched

theorem stepLink {e : Transmitter.Step Numbered} (hs : s.Tracks l)
    (hstep : s.stepLink e = some t) : t.Tracks l := by
  obtain ⟨link, -, hstep⟩ := Option.bind_eq_some_iff.mp hstep
  cases hstep
  obtain ⟨telemetry, alerts, responses, shown, hserves, hrest⟩ := hs.panels
  exact ⟨⟨telemetry, alerts, responses, shown, hserves.of_same rfl rfl, hrest⟩, hs.matched⟩

/-- **The control panel** dispatches a batch, if a producer is at work. -/
theorem serve (hs : s.Tracks l) (hphase : s.phase = .control)
    (hstatus : s.dataProducer.map Session.status = if l.attached then some true else none)
    (hserve : s.serve batch = some t) :
    t.Tracks (if l.attached then l.dispatch batch else l) := by
  obtain ⟨telemetry, hserves, halerts, hmap⟩ := hs.at_control hphase
  rw [Application.serve] at hserve
  split at hserve
  · next birth hproducer =>
    have hattached : l.attached = true := by
      by_contra hnot
      rw [hproducer, if_neg hnot] at hstatus
      cases hstatus
    obtain ⟨h, hproduce, hserve⟩ := Option.bind_eq_some_iff.mp hserve
    obtain ⟨htaken, -⟩ := hserves.produce batch hproduce
    rw [if_pos hattached]
    refine stepLink (s := { s.setHost h with phase := .sending }) ⟨⟨_, _, _, l.records,
      htaken.of_same rfl rfl, ?_, fun hother => ?_, hmap, rfl, fun hother => ?_⟩, hs.matched⟩ hserve
    · rw [List.nil_append]
      exact congrArg (· ++ batch.filterMap alertEntry) halerts
    · rcases hother with hother | hother <;> cases hother
    · cases hother
  · next hnone =>
    have hattached : ¬ l.attached = true := by
      intro hattached
      rw [if_pos hattached] at hstatus
      obtain ⟨⟨birth, status⟩, hproducer, rfl⟩ := Option.map_eq_some_iff.mp hstatus
      exact hnone birth hproducer
    cases hserve
    rw [if_neg hattached]
    exact .of_empty (hserves.of_same rfl rfl) halerts hmap hs.matched

/-- **Attach**: the live data panel is cleared, and the alert panel is not. -/
theorem attach (hs : s.Tracks l) (hphase : s.phase = .control) (hproducer : s.dataProducer = none) :
    s.attach.Tracks ⟨true, l.alerts, []⟩ ∧ s.attach.phase = .control ∧
      s.attach.dataProducer.map Session.status = some true := by
  obtain ⟨telemetry, hserves, halerts, -⟩ := hs.at_control hphase
  have hsame : s.attach.handlerMap = s.handlerMap ∧ s.attach.consumers = s.consumers ∧
      s.attach.alertPanel = s.alertPanel ∧ s.attach.phase = s.phase ∧
      s.attach.liveDataPanel = ⟨fun _ => none, fun _ => none, fun _ => none⟩ ∧
      s.attach.dataProducer.map Session.status = some true := by
    have hnew : s.newProducer =
        { s with dataProducer := some ⟨s.given, false⟩, link := .start s.link.txData } := by
      rw [newProducer, hproducer]
    rw [Application.attach, hnew]
    exact ⟨rfl, rfl, rfl, rfl, rfl, rfl⟩
  obtain ⟨hhandler, hconsumers, halert, hphase', hpanel, hstatus⟩ := hsame
  refine ⟨.of_empty (hserves.of_same hhandler hconsumers) ?_ ?_ ?_, hphase'.trans hphase, hstatus⟩
  · rw [halert, halerts]
  · rw [hpanel]
    rfl
  · rw [hpanel]
    exact matched_blank

/-- **Detach**: both panels are cleared. -/
theorem detach (hs : s.Tracks l) (hphase : s.phase = .control) (hdetach : s.detach = some t) :
    t.Tracks ⟨false, [], []⟩ ∧ t.phase = .control ∧ t.dataProducer = none := by
  obtain ⟨telemetry, hserves, -⟩ := hs.at_control hphase
  rw [Application.detach] at hdetach
  split at hdetach <;> cases hdetach
  exact ⟨.of_empty (hserves.of_same rfl rfl) rfl rfl matched_blank, hphase, rfl⟩

theorem renderControl {click opens : Bool} (hs : s.Tracks l) (hphase : s.phase = .control)
    (hin : s.InSession packets) (hattached : packets.isSome = l.attached)
    (hrender : s.renderControl click opens batch = some t) :
    t.Tracks (stepLog l (.control click opens batch)) := by
  have hstatus : s.dataProducer.map Session.status = if l.attached then some true else none := by
    rw [hin.status, ← hattached]
    cases packets <;> rfl
  rw [Application.renderControl, hin.isEnable, hattached] at hrender
  rw [stepLog]
  cases click with
  | false => exact hs.serve hphase hstatus hrender
  | true =>
    cases hl : l.attached with
    | true =>
      -- the producer is gone, so nothing is dispatched in the rest of this frame
      rw [hl] at hrender
      obtain ⟨r, hdetach, hserve⟩ := Option.bind_eq_some_iff.mp hrender
      obtain ⟨hr, hphase', hproducer⟩ := hs.detach hphase hdetach
      exact hr.serve hphase' (congrArg _ hproducer) hserve
    | false =>
      rw [hl] at hrender
      have hproducer : s.dataProducer = none := by
        rw [hl] at hstatus
        exact Option.map_eq_none_iff.mp hstatus
      cases opens with
      | true =>
        obtain ⟨hr, hphase', hatWork⟩ := hs.attach hphase hproducer
        exact hr.serve hphase' hatWork hrender
      | false =>
        -- the port cannot be opened: the producer comes and goes
        obtain ⟨telemetry, hserves, halerts, hmap⟩ := hs.at_control hphase
        have hnew : s.newProducer.deleteProducer = s.deleteProducer := by
          rw [newProducer, hproducer]
          rfl
        cases hrender
        rw [hnew]
        exact .of_empty (hserves.of_same rfl rfl) halerts hmap hs.matched

/-! ### The other panels -/

/-- The telemetry panel is no concern of the log. -/
theorem telemetry {input : TelemetryInput} {panel : TelemetryPanel} {h : Host} (hs : s.Tracks l)
    (hrender : s.telemetryPanel.render input s.host = some (panel, h)) :
    Tracks l { s.setHost h with telemetryPanel := panel, phase := .alert } := by
  obtain ⟨telemetry, alerts, responses, shown, hserves, halerts, -, hmap, hrecords, -⟩ := hs.panels
  obtain rfl := hserves.render_telemetry hrender
  refine ⟨⟨[], alerts, responses, shown, (hserves.setTelemetry []).of_same rfl rfl, halerts,
    fun hother => ?_, hmap, hrecords, fun hother => ?_⟩, hs.matched⟩
  · rcases hother with hother | hother <;> cases hother
  · cases hother

/-- **The alert panel** can always go on with the frame, and empties its queue. -/
theorem alert (hs : s.Tracks l) (hphase : s.phase = .alert) (clear : Bool) :
    ∃ t, step (.alert clear) s = some t ∧ t.Tracks (stepLog l (.alert clear)) ∧
      t.phase = .liveData := by
  obtain ⟨telemetry, alerts, responses, shown, hserves, halerts, -, hmap, hrecords, -⟩ := hs.panels
  refine ⟨_, by rw [step, if_pos hphase, hserves.render_alert clear]; rfl, ?_, rfl⟩
  refine ⟨⟨telemetry, [], responses, shown, (hserves.setAlert []).of_same rfl rfl, ?_,
    fun _ => rfl, hmap, ?_, fun hother => ?_⟩, hs.matched⟩
  · cases clear with
    | true => rfl
    | false => exact (List.append_nil _).trans halerts
  · cases clear <;> exact hrecords
  · cases hother

/-- **The live data panel** can go on with the frame if and only if each action has what it needs
among the records that have come in; then it has emptied its queue. -/
theorem liveData {actions : List Action} {refresh : Bool} (hs : s.Tracks l)
    (hphase : s.phase = .liveData) :
    ((∃ t, s.renderLiveData actions refresh = some t) ↔
      ∀ a ∈ actions, a.Fine (first l.records)) ∧
    ∀ {t}, s.renderLiveData actions refresh = some t →
      t.Tracks (stepLog l (.liveData actions refresh)) ∧ t.phase = .control := by
  obtain ⟨telemetry, alerts, responses, shown, hserves, halerts, hnone, hmap, hrecords, -⟩ :=
    hs.panels
  obtain rfl := hnone (Or.inr hphase)
  have hlisted := listed_foldl responses.flatten hmap
  rw [hrecords] at hlisted
  obtain ⟨hiff, hframe⟩ := actions_foldlM actions (hs.matched.foldl responses.flatten)
    (d := (s.host.setConsumer 2 (.liveData [])).dispatcher)
  rw [hlisted] at hiff hframe
  rw [← hiff, renderLiveData_eq (hserves.takeIn s.liveDataPanel)]
  -- taking in the records and refreshing always go through: it is up to the actions
  refine ⟨?_, fun hrender => ?_⟩
  · constructor
    · rintro ⟨t, hrender⟩
      obtain ⟨y, hactions, -⟩ := Option.map_eq_some_iff.mp hrender
      exact ⟨y, hactions⟩
    · rintro ⟨y, hactions⟩
      exact ⟨_, congrArg _ hactions⟩
  · obtain ⟨⟨panel, d⟩, hactions, rfl⟩ := Option.map_eq_some_iff.mp hrender
    obtain ⟨hmatched, hsame⟩ := hframe hactions
    have hhandler : d.handlerMap = s.handlerMap := handlerMap_foldlM hactions
    rw [List.append_nil] at halerts
    have hserves' := hserves.setLiveData []
    refine ⟨?_, rfl⟩
    cases refresh with
    | true => exact .of_empty (hserves'.of_same hhandler rfl) halerts rfl matched_blank
    | false => exact .of_empty (hserves'.of_same hhandler rfl) halerts hsame hmatched

/-! ### Runs -/

/-- **What a step keeps.** -/
theorem step (hs : s.Tracks l) (hin : s.InSession packets) (hattached : packets.isSome = l.attached)
    (hstep : step e s = some t) : t.Tracks (stepLog l e) := by
  cases e with
  | control click opens batch =>
    rw [Application.step] at hstep
    split_ifs at hstep with hphase
    exact hs.renderControl hphase hin hattached hstep
  | post =>
    rw [Application.step] at hstep
    split_ifs at hstep
    exact hs.stepLink hstep
  | clear =>
    rw [Application.step] at hstep
    split_ifs at hstep with hphase
    obtain ⟨telemetry, alerts, responses, shown, hserves, halerts, -, hmap, hrecords, -⟩ := hs.panels
    refine stepLink (s := { s with phase := .telemetry }) ⟨⟨telemetry, alerts, responses, shown,
      hserves.of_same rfl rfl, halerts, fun hother => ?_, hmap, hrecords, fun hother => ?_⟩,
      hs.matched⟩ hstep
    · rcases hother with hother | hother <;> cases hother
    · cases hother
  | telemetry input =>
    rw [Application.step] at hstep
    split_ifs at hstep
    obtain ⟨⟨panel, h⟩, hrender, hstep⟩ := Option.bind_eq_some_iff.mp hstep
    cases hstep
    exact hs.telemetry hrender
  | alert clear =>
    by_cases hphase : s.phase = .alert
    · obtain ⟨t', hstep', ht', -⟩ := hs.alert hphase clear
      obtain rfl := Option.some.inj (hstep'.symm.trans hstep)
      exact ht'
    · rw [Application.step, if_neg hphase] at hstep
      cases hstep
  | liveData actions refresh =>
    rw [Application.step] at hstep
    split_ifs at hstep with hphase
    exact ((hs.liveData hphase).2 hstep).1
  | handle => exact hs.stepLink hstep
  | complete k error => exact hs.stepLink hstep

/-- A run, by induction on its steps. -/
theorem run : ∀ {es : List Step} {l : Log} {packets : Option (List (List Byte))}
    {s t : Application}, s.Tracks l → s.InSession packets → packets.isSome = l.attached →
      Runs.run Application.step es s = some t → t.Tracks (es.foldl stepLog l) := by
  intro es
  induction es with
  | nil =>
    intro l packets s t hs hin hattached hrun
    rwa [← Runs.run_nil.mp hrun]
  | cons e es ih =>
    intro l packets s t hs hin hattached hrun
    obtain ⟨r, hfirst, hrest⟩ := Runs.run_cons.mp hrun
    exact ih (hs.step hin hattached hfirst) (hin.step hfirst) (attached_stepSession hattached e) hrest

end Tracks

/-- Between any two steps of a run. -/
theorem tracks_run (hrun : Runs.run step es main = some s) : s.Tracks (log es) :=
  tracks_main.run inSession_main rfl hrun

theorem log_concat (es : List Step) (e : Step) : log (es ++ [e]) = stepLog (log es) e := by
  rw [log, List.foldl_append]
  rfl

/-! ## What is shown, and what can be done to it -/

/-- **The alerts.** In every run, whenever the alert panel is next, it goes on with the frame;
after that the queue of its consumer is empty, and the panel shows all alerts that were
dispatched since it was last cleared, in their order, and nothing else. -/
theorem alerts_session (hrun : Runs.run step es main = some s) (hphase : s.phase = .alert)
    (clear : Bool) :
    ∃ t, step (.alert clear) s = some t ∧ t.host.consumers 0 = .alert [] ∧
      t.alertPanel.alerts = (log (es ++ [.alert clear])).alerts := by
  obtain ⟨t, hstep, ht, hphase'⟩ := (tracks_run hrun).alert hphase clear
  obtain ⟨telemetry, alerts, responses, shown, hserves, halerts, hnone, -⟩ := ht.panels
  obtain rfl := hnone (Or.inr hphase')
  rw [List.append_nil] at halerts
  exact ⟨t, hstep, hserves.alert, halerts.trans (congrArg Log.alerts (log_concat es _).symm)⟩

/-- The user attaches; an alert has come in, and a response with two records. -/
def firstFrame : List Step :=
  [.control true true [stuff (Call.alert ⟨ascii "hot", by decide⟩).packet,
    stuff (responsePacket [⟨300, ValueType.int32.bits 16, 7⟩, ⟨1, ValueType.float.bits 16, 0⟩])],
    .post, .clear, .telemetry noInput]

/-- The alert is shown. -/
theorem alerts_session_one :
    ∃ s t, Runs.run step firstFrame main = some s ∧ step (.alert false) s = some t ∧
      t.host.consumers 0 = .alert [] ∧ t.alertPanel.alerts = [ascii "hot"] := by
  have hphase : (Runs.run step firstFrame main).map Application.phase = some .alert := by
    decide +kernel
  have halerts : (log (firstFrame ++ [.alert false])).alerts = [ascii "hot"] := by decide +kernel
  obtain ⟨s, hrun, hs⟩ := Option.map_eq_some_iff.mp hphase
  obtain ⟨t, hstep, hqueue, hshown⟩ := alerts_session hrun hs false
  exact ⟨s, t, hrun, hstep, hqueue, hshown.trans halerts⟩

/-- **The listing.** In every run, after each frame of the live data panel the queue of its
consumer is empty, and the panel lists for each key the first record that was dispatched since it
was last cleared, and no other key; and there is a pointer of the right kind behind each entry,
and no other pointer. -/
theorem listing_session {actions : List Action} {refresh : Bool}
    (hrun : Runs.run step es main = some s) (hstep : step (.liveData actions refresh) s = some t) :
    t.host.consumers 2 = .liveData [] ∧
      t.liveDataPanel.liveDataMap = first (log (es ++ [.liveData actions refresh])).records ∧
      t.liveDataPanel.Matched := by
  rw [step] at hstep
  split_ifs at hstep with hphase
  obtain ⟨ht, hphase'⟩ := ((tracks_run hrun).liveData hphase).2 hstep
  obtain ⟨telemetry, hserves, -, hmap⟩ := ht.at_control hphase'
  rw [log_concat]
  exact ⟨hserves.liveData, hmap, ht.matched⟩

/-- Both records are listed. -/
theorem listing_session_one :
    ∃ s t, Runs.run step (firstFrame ++ [.alert false]) main = some s ∧
      step (.liveData [.edit 300 9] false) s = some t ∧
      t.host.consumers 2 = .liveData [] ∧
      t.liveDataPanel.liveDataMap =
        first [⟨300, ValueType.int32.bits 16, 7⟩, ⟨1, ValueType.float.bits 16, 0⟩] ∧
      t.liveDataPanel.Matched := by
  have hsome : ((Runs.run step (firstFrame ++ [.alert false]) main).bind
      (step (.liveData [.edit 300 9] false))).map Application.phase = some .control := by
    decide +kernel
  have hrecords : (log ((firstFrame ++ [.alert false]) ++ [.liveData [.edit 300 9] false])).records =
      [⟨300, ValueType.int32.bits 16, 7⟩, ⟨1, ValueType.float.bits 16, 0⟩] := by decide +kernel
  obtain ⟨t, hboth, -⟩ := Option.map_eq_some_iff.mp hsome
  obtain ⟨s, hrun, hstep⟩ := Option.bind_eq_some_iff.mp hboth
  obtain ⟨hqueue, hmap, hmatched⟩ := listing_session hrun hstep
  exact ⟨s, t, hrun, hstep, hqueue, hrecords ▸ hmap, hmatched⟩

/-- **The actions.** In every run, a frame of the live data panel goes through if and only if the
user puts values into entries that are listed and have no checkbox, and applies them to entries
such that the low byte of the key is the key of an entry of the same kind. Any other frame follows
a null pointer. -/
theorem actions_iff (hrun : Runs.run step es main = some s) (hphase : s.phase = .liveData)
    (actions : List Action) (refresh : Bool) :
    (∃ t, step (.liveData actions refresh) s = some t) ↔
      ∀ a ∈ actions, a.Fine (first (log es).records) := by
  rw [step, if_pos hphase]
  exact ((tracks_run hrun).liveData hphase).1

/-- There is no entry under 44, which is the low byte of 300. -/
theorem actions_iff_low :
    ∃ s, Runs.run step (firstFrame ++ [.alert false]) main = some s ∧
      ¬ ∃ t, step (.liveData [.apply 300 9 0] false) s = some t := by
  have hphase : (Runs.run step (firstFrame ++ [.alert false]) main).map Application.phase =
      some .liveData := by decide +kernel
  have hlow : first (log (firstFrame ++ [.alert false])).records (lowKey 300) = none := by
    decide +kernel
  obtain ⟨s, hrun, hs⟩ := Option.map_eq_some_iff.mp hphase
  refine ⟨s, hrun, fun hgo => ?_⟩
  obtain ⟨it, it', -, hit', -⟩ := (actions_iff hrun hs [.apply 300 9 0] false).mp hgo _
    List.mem_cons_self
  rw [hlow] at hit'
  cases hit'

end Application

end Houston
