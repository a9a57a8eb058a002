import Houston.Application

/-!
# What the telemetry table shows

A run of the application is a sequence of sessions, from an attach that succeeds to the
next detach. The telemetry panel is cleared at both ends of a session; what comes in during
a frame goes through the dispatcher and the queue of the consumer into the panel.

* `Application.session` — whether the user has attached, and the packets dispatched since.
* `Application.InSession` — what the panel and the queue behind it hold of the session,
  between any two steps.
* `Application.telemetry_session` — after each frame of the telemetry panel it shows the
  latest values of its session, and nothing else.
-/

namespace Houston

/-- The entry of a packet that gets past the checks and is a telemetry packet. -/
def telemetryEntry (packet : List Byte) : Option (List Byte × List Byte) :=
  match dispatchChecks packet with
  | some (.ok (header, data)) =>
    if header.packetType = PacketID.telemetry.code then TelemetryConsumer.decode data else none
  | _ => none

/-! ## Dispatching -/

/-- The host has the handlers that `main` registers, and its telemetry consumer a queue. -/
structure Host.Queues (h : Host) (queue : List (List Byte × List Byte)) : Prop where
  handlerMap : h.dispatcher.handlerMap = Host.main.dispatcher.handlerMap
  telemetry : h.consumers 1 = .telemetry queue

namespace Host.Queues

variable {h h' : Host} {queue : List (List Byte × List Byte)}

theorem getHandler (hq : h.Queues queue) (key : Byte) :
    h.dispatcher.getHandler key = Host.main.dispatcher.getHandler key := by
  rw [Dispatcher.getHandler, Dispatcher.getHandler, hq.handlerMap]

/-- The telemetry consumer handles the telemetry packets, and no others. -/
theorem getHandler_main {key : Byte} :
    Host.main.dispatcher.getHandler key = some 1 ↔ key = PacketID.telemetry.code := by
  have hmap : Host.main.dispatcher.handlerMap key =
      if key = PacketID.responseLiveData.code then some (some 2)
      else if key = PacketID.telemetry.code then some (some 1)
      else if key = PacketID.alert.code then some (some 0) else none := by
    simp only [Host.main, Dispatcher.registerHandler, Dispatcher.empty, Function.update_apply]
  rw [Dispatcher.getHandler, hmap]
  split_ifs with hresponse htelemetry halert
  · rw [hresponse]
    decide
  · exact iff_of_true rfl htelemetry
  · rw [halert]
    decide
  · exact iff_of_false (by decide) htelemetry

/-- Other consumers do not matter. -/
theorem setConsumer (hq : h.Queues queue) {c : ConsumerPtr} (hc : c ≠ 1)
    (consumer : DataConsumer) : (h.setConsumer c consumer).Queues queue :=
  ⟨hq.handlerMap, (Host.consumers_setConsumer_of_ne hc.symm consumer h).trans hq.telemetry⟩

/-- **A packet is dispatched**: its entry, if it has one, joins the queue. -/
theorem dispatchData (hq : h.Queues queue) {packet : List Byte}
    (hrun : Houston.dispatchData packet h = some h') :
    h'.Queues (queue ++ (telemetryEntry packet).toList) ∧ h'.dispatcher = h.dispatcher := by
  obtain ⟨r, hchecks, hrun⟩ := Option.bind_eq_some_iff.mp hrun
  rw [telemetryEntry, hchecks]
  rcases r with message | ⟨header, data⟩
  · cases hrun
    rw [Option.toList_none, List.append_nil]
    exact ⟨⟨hq.handlerMap, hq.telemetry⟩, rfl⟩
  · simp only [hq.getHandler] at hrun
    cases hhandler : Host.main.dispatcher.getHandler header.packetType with
    | none =>
      rw [hhandler] at hrun
      cases hrun
    | some c =>
      rw [hhandler] at hrun
      obtain ⟨consumer, hconsume, hrun⟩ := Option.bind_eq_some_iff.mp hrun
      obtain rfl : h.setConsumer c consumer = h' := Option.some.inj hrun
      by_cases hc : c = 1
      · -- a telemetry packet
        subst hc
        rw [hq.telemetry, DataConsumer.consume] at hconsume
        obtain ⟨entry, hdecode, hpush⟩ := Option.bind_eq_some_iff.mp hconsume
        cases hpush
        simp only [if_pos (getHandler_main.mp hhandler), hdecode, Option.toList_some]
        exact ⟨⟨hq.handlerMap, Host.consumers_setConsumer_self ..⟩, rfl⟩
      · have hother : ¬ header.packetType = PacketID.telemetry.code := by
          intro htype
          rw [← getHandler_main, hhandler, Option.some.injEq] at htype
          exact hc htype
        simp only [if_neg hother, Option.toList_none, List.append_nil]
        exact ⟨hq.setConsumer hc consumer, rfl⟩

/-- The packets of a batch, one after another. -/
theorem produce : ∀ (batch : List (List Byte)) {h h' : Host}
    {queue : List (List Byte × List Byte)}, h.Queues queue → Houston.produce batch h = some h' →
      h'.Queues (queue ++ batch.filterMap telemetryEntry) ∧ h'.dispatcher = h.dispatcher := by
  intro batch
  induction batch with
  | nil =>
    intro h h' queue hq hrun
    cases hrun
    rw [List.filterMap_nil, List.append_nil]
    exact ⟨hq, rfl⟩
  | cons packet batch ih =>
    intro h h' queue hq hrun
    rw [Houston.produce, List.foldlM_cons] at hrun
    obtain ⟨r, hfirst, hrest⟩ := Option.bind_eq_some_iff.mp hrun
    obtain ⟨hr, hsame⟩ := hq.dispatchData hfirst
    obtain ⟨hh', hsame'⟩ := ih hr hrest
    rw [List.append_assoc] at hh'
    refine ⟨?_, hsame'.trans hsame⟩
    rw [List.filterMap_cons]
    cases hentry : telemetryEntry packet <;> rw [hentry] at hh' <;> exact hh'

/-! ### The other panels -/

/-- The handlers of other packets are other consumers. -/
theorem ne_of_getHandler (hq : h.Queues queue) {key : Byte} {c : ConsumerPtr}
    (hkey : key ≠ PacketID.telemetry.code) (hhandler : h.dispatcher.getHandler key = some c) :
    c ≠ 1 := by
  rintro rfl
  exact hkey (getHandler_main.mp ((hq.getHandler key).symm.trans hhandler))

theorem alertPanel (hq : h.Queues queue) {panel panel' : AlertPanel} {clear : Bool}
    (hrender : panel.render clear h = some (panel', h')) : h'.Queues queue := by
  rw [AlertPanel.render] at hrender
  split at hrender
  · cases hrender
    exact hq
  · next c hhandler =>
    have hc : c ≠ 1 := hq.ne_of_getHandler (by decide) hhandler
    split at hrender <;> cases hrender
    exact hq.setConsumer hc _

theorem liveDataPanel (hq : h.Queues queue) {panel panel' : LiveDataPanel}
    (htake : panel.takeIn h = some (panel', h')) : h'.Queues queue := by
  rw [LiveDataPanel.takeIn] at htake
  split at htake
  · cases htake
    exact hq
  · next c hhandler =>
    have hc : c ≠ 1 := hq.ne_of_getHandler (by decide) hhandler
    split at htake <;> cases htake
    exact hq.setConsumer hc _

end Host.Queues

/-- The panel has emptied the queue, and the producer has not dispatched since. -/
def Phase.Drained : Phase → Prop
  | .sending | .telemetry => False
  | _ => True

namespace Application

open Runs Stuffing

/-! ## Sessions -/

/-- What a step does to a session: `none` if the user is not attached, else the packets that
were dispatched since. -/
def stepSession (packets : Option (List (List Byte))) : Step → Option (List (List Byte))
  | .control click opens batch =>
    if !click then packets.map (· ++ batch)
    else if packets.isSome then none
    else if opens then some batch
    else none
  | _ => packets

/-- The session after a sequence of steps. -/
def session (es : List Step) : Option (List (List Byte)) := es.foldl stepSession none

/-- The entries of a session. -/
def entriesOf (packets : Option (List (List Byte))) : List (List Byte × List Byte) :=
  (packets.getD []).filterMap telemetryEntry

/-- **The invariant**: there is a producer, and it is at work, if and only if the user is
attached; the entries of the session are in the panel, or behind it in the queue. -/
structure InSession (packets : Option (List (List Byte))) (s : Application) : Prop where
  isEnable : s.isEnable = packets.isSome
  status : s.dataProducer.map Session.status = packets.map fun _ => true
  panel : ∃ shown queue, s.host.Queues queue ∧
    s.telemetryPanel.telemetryMap = TelemetryPanel.latest shown ∧
    shown ++ queue = entriesOf packets ∧ (s.phase.Drained → queue = [])

theorem inSession_main : main.InSession none :=
  ⟨rfl, rfl, [], [], ⟨rfl, rfl⟩, rfl, rfl, fun _ => rfl⟩

variable {s t : Application} {e : Step} {es : List Step} {packets : Option (List (List Byte))}
  {batch : List (List Byte)}

/-- What the user does with an entry sends a packet, at most. -/
theorem handlerMap_act {a : Action} {x y : LiveDataPanel × Dispatcher} (hact : act x a = some y) :
    y.2.handlerMap = x.2.handlerMap := by
  obtain ⟨panel, d⟩ := x
  cases a with
  | edit key value =>
    obtain ⟨it, -, hact⟩ := Option.bind_eq_some_iff.mp hact
    split_ifs at hact
    obtain ⟨panel', -, hact⟩ := Option.bind_eq_some_iff.mp hact
    cases hact
    rfl
  | apply key value junk =>
    obtain ⟨panel', d'⟩ := y
    obtain ⟨it, -, -, hsend⟩ := LiveDataPanel.press_inv hact
    rw [LiveDataPanel.sendModifyPacket_eq] at hsend
    obtain ⟨value', -, hsend⟩ := Option.map_eq_some_iff.mp hsend
    rw [← hsend]
    rfl

theorem handlerMap_foldlM {actions : List Action} {x y : LiveDataPanel × Dispatcher}
    (hactions : actions.foldlM act x = some y) : y.2.handlerMap = x.2.handlerMap := by
  have hrun : Runs.run (fun a x => act x a) actions x = some y := hactions
  exact run_invariant (I := fun z => z.2.handlerMap = x.2.handlerMap)
    (fun hz hact => (handlerMap_act hact).trans hz) rfl hrun

namespace InSession

/-- Nothing is in the queue, once it has been emptied. -/
theorem drained (hs : s.InSession packets) (hphase : s.phase.Drained) :
    s.host.Queues [] ∧
      s.telemetryPanel.telemetryMap = TelemetryPanel.latest (entriesOf packets) := by
  obtain ⟨shown, queue, hqueues, hmap, hentries, hempty⟩ := hs.panel
  obtain rfl := hempty hphase
  rw [List.append_nil] at hentries
  exact ⟨hqueues, hentries ▸ hmap⟩

/-- A step that only other components notice. -/
theorem of_queues (hs : s.InSession packets) (hisEnable : t.isEnable = s.isEnable)
    (hproducer : t.dataProducer = s.dataProducer) (hpanel : t.telemetryPanel = s.telemetryPanel)
    (hphase : t.phase.Drained → s.phase.Drained)
    (hqueues : ∀ queue, s.host.Queues queue → t.host.Queues queue) : t.InSession packets := by
  obtain ⟨shown, queue, hqueue, hmap, hentries, hempty⟩ := hs.panel
  exact ⟨hisEnable.trans hs.isEnable, (congrArg _ hproducer).trans hs.status, shown, queue,
    hqueues queue hqueue, hpanel ▸ hmap, hentries, fun h => hempty (hphase h)⟩

theorem stepLink {e : Transmitter.Step Numbered} (hs : s.InSession packets)
    (hstep : s.stepLink e = some t) : t.InSession packets := by
  obtain ⟨link, -, hstep⟩ := Option.bind_eq_some_iff.mp hstep
  cases hstep
  exact hs.of_queues rfl rfl rfl id fun _ hqueue => ⟨hqueue.handlerMap, hqueue.telemetry⟩

/-! ### The control panel -/

/-- The end of the control panel: what it dispatches is behind the panel in the queue. -/
theorem serve (hs : s.InSession packets) (hphase : s.phase.Drained)
    (hserve : s.serve batch = some t) : t.InSession (packets.map (· ++ batch)) := by
  obtain ⟨hqueues, hmap⟩ := hs.drained hphase
  rw [Application.serve] at hserve
  have hstatus := hs.status
  split at hserve
  · next birth hproducer =>
    rw [hproducer] at hstatus
    obtain ⟨h, hproduce, hserve⟩ := Option.bind_eq_some_iff.mp hserve
    obtain ⟨hqueue, -⟩ := hqueues.produce batch hproduce
    cases packets with
    | none => cases hstatus
    | some packets =>
      refine stepLink (s := { s.setHost h with phase := .sending }) ⟨hs.isEnable, ?_,
        entriesOf (some packets), batch.filterMap telemetryEntry,
        ⟨hqueue.handlerMap, hqueue.telemetry⟩, hmap, ?_, False.elim⟩ hserve
      · exact (congrArg _ hproducer).trans rfl
      · exact (List.filterMap_append ..).symm
  · next hnone =>
    cases packets with
    | none =>
      cases hserve
      exact ⟨hs.isEnable, hs.status, [], [], hqueues, hmap, rfl, fun _ => rfl⟩
    | some packets =>
      -- the producer of a session is at work
      obtain ⟨⟨birth, status⟩, hproducer, rfl⟩ := Option.map_eq_some_iff.mp hstatus
      exact absurd hproducer (hnone birth)

/-- **Attach**: a session begins with nothing in the panel. -/
theorem attach (hs : s.InSession none) (hphase : s.phase.Drained) :
    s.attach.InSession (some []) ∧ s.attach.phase = s.phase := by
  obtain ⟨hqueues, -⟩ := hs.drained hphase
  have hproducer : s.dataProducer = none := Option.map_eq_none_iff.mp hs.status
  have hnew : s.newProducer =
      { s with dataProducer := some ⟨s.given, false⟩, link := .start s.link.txData } := by
    rw [newProducer, hproducer]
  rw [Application.attach, hnew]
  exact ⟨⟨rfl, rfl, [], [], ⟨hqueues.handlerMap, hqueues.telemetry⟩, rfl, rfl, fun _ => rfl⟩, rfl⟩

/-- **Detach**: nothing is left of the session. -/
theorem detach (hs : s.InSession packets) (hphase : s.phase.Drained)
    (hdetach : s.detach = some t) : t.InSession none ∧ t.phase = s.phase := by
  obtain ⟨hqueues, -⟩ := hs.drained hphase
  rw [Application.detach] at hdetach
  split at hdetach <;> cases hdetach
  exact ⟨⟨rfl, rfl, [], [], ⟨hqueues.handlerMap, hqueues.telemetry⟩, rfl, rfl, fun _ => rfl⟩, rfl⟩

/-- The port cannot be opened: the new producer is deleted. -/
theorem refuse (hs : s.InSession none) (hphase : s.phase.Drained) :
    InSession none { s.newProducer.deleteProducer with phase := .telemetry } := by
  obtain ⟨hqueues, hmap⟩ := hs.drained hphase
  have hproducer : s.dataProducer = none := Option.map_eq_none_iff.mp hs.status
  have hnew : s.newProducer.deleteProducer = s.deleteProducer := by
    rw [newProducer, hproducer]
    rfl
  rw [hnew]
  exact ⟨hs.isEnable, rfl, [], [], ⟨hqueues.handlerMap, hqueues.telemetry⟩, hmap, rfl, fun _ => rfl⟩

/-- **The control panel**: by the button, and whether the user is attached. -/
theorem renderControl {click opens : Bool} (hs : s.InSession packets) (hphase : s.phase.Drained)
    (hrender : s.renderControl click opens batch = some t) :
    t.InSession (stepSession packets (.control click opens batch)) := by
  rw [Application.renderControl, hs.isEnable] at hrender
  cases click with
  | false => exact hs.serve hphase hrender
  | true =>
    cases packets with
    | some packets =>
      obtain ⟨r, hdetach, hserve⟩ := Option.bind_eq_some_iff.mp hrender
      obtain ⟨hr, hsame⟩ := hs.detach hphase hdetach
      exact hr.serve (hsame ▸ hphase) hserve
    | none =>
      cases opens with
      | true =>
        obtain ⟨hr, hsame⟩ := hs.attach hphase
        exact hr.serve (hsame ▸ hphase) hrender
      | false =>
        cases hrender
        exact hs.refuse hphase

/-! ### The other panels -/

/-- **The telemetry panel** can always go on with the frame, and empties the queue. -/
theorem telemetry (hs : s.InSession packets) (hphase : s.phase = .telemetry)
    (input : TelemetryInput) :
    ∃ t, step (.telemetry input) s = some t ∧ t.InSession packets ∧ t.phase = .alert := by
  obtain ⟨shown, queue, hqueues, hmap, hentries, -⟩ := hs.panel
  have hhandler : s.host.dispatcher.getHandler PacketID.telemetry.code = some 1 :=
    (hqueues.getHandler _).trans (Host.Queues.getHandler_main.mpr rfl)
  obtain ⟨panel, hrender, hpanel⟩ :=
    TelemetryPanel.render_eq hhandler hqueues.telemetry hmap input
  have hconsumer : (s.host.setConsumer 1 (.telemetry [])).consumers 1 = .telemetry [] :=
    Host.consumers_setConsumer_self ..
  refine ⟨_, by rw [step, if_pos hphase, hrender]; rfl, ?_, rfl⟩
  exact ⟨hs.isEnable, hs.status, shown ++ queue, [], ⟨hqueues.handlerMap, hconsumer⟩, hpanel,
    (List.append_nil _).trans hentries, fun _ => rfl⟩

/-- The alert panel. -/
theorem alert {clear : Bool} {panel : AlertPanel} {h : Host} (hs : s.InSession packets)
    (hphase : s.phase = .alert) (hrender : s.alertPanel.render clear s.host = some (panel, h)) :
    InSession packets { s.setHost h with alertPanel := panel, phase := .liveData } := by
  refine hs.of_queues rfl rfl rfl (fun _ => hphase ▸ trivial) fun queue hqueue => ?_
  have hqueue' := hqueue.alertPanel hrender
  exact ⟨hqueue'.handlerMap, hqueue'.telemetry⟩

/-- The live data panel. -/
theorem liveData {actions : List Action} {refresh : Bool} (hs : s.InSession packets)
    (hphase : s.phase = .liveData) (hrender : s.renderLiveData actions refresh = some t) :
    t.InSession packets := by
  obtain ⟨⟨panel, h⟩, htake, hrender⟩ := Option.bind_eq_some_iff.mp hrender
  obtain ⟨⟨panel', d⟩, hactions, hrender⟩ := Option.bind_eq_some_iff.mp hrender
  have hmap : d.handlerMap = h.dispatcher.handlerMap := handlerMap_foldlM hactions
  have hrefresh : (if refresh then LiveDataPanel.refreshPackets d else (panel', d)).2.handlerMap =
      d.handlerMap := by
    cases refresh <;> rfl
  cases hrender
  refine hs.of_queues rfl rfl rfl (fun _ => hphase ▸ trivial) fun queue hqueue => ?_
  have hqueue' := hqueue.liveDataPanel htake
  exact ⟨hrefresh.trans (hmap.trans hqueue'.handlerMap), hqueue'.telemetry⟩

/-! ### Runs -/

/-- **What a step keeps.** -/
theorem step (hs : s.InSession packets) (hstep : step e s = some t) :
    t.InSession (stepSession packets e) := by
  cases e with
  | control click opens batch =>
    rw [Application.step] at hstep
    split_ifs at hstep with hphase
    exact hs.renderControl (hphase ▸ trivial) hstep
  | post =>
    rw [Application.step] at hstep
    split_ifs at hstep
    exact hs.stepLink hstep
  | clear =>
    rw [Application.step] at hstep
    split_ifs at hstep
    exact stepLink (s := { s with phase := .telemetry })
      (hs.of_queues rfl rfl rfl False.elim fun _ hqueue => hqueue) hstep
  | telemetry input =>
    by_cases hphase : s.phase = .telemetry
    · obtain ⟨t', hstep', ht', -⟩ := hs.telemetry hphase input
      obtain rfl := Option.some.inj (hstep'.symm.trans hstep)
      exact ht'
    · rw [Application.step, if_neg hphase] at hstep
      cases hstep
  | alert clear =>
    rw [Application.step] at hstep
    split_ifs at hstep with hphase
    obtain ⟨⟨panel, h⟩, hrender, hstep⟩ := Option.bind_eq_some_iff.mp hstep
    cases hstep
    exact hs.alert hphase hrender
  | liveData actions refresh =>
    rw [Application.step] at hstep
    split_ifs at hstep with hphase
    exact hs.liveData hphase hstep
  | handle => exact hs.stepLink hstep
  | complete k error => exact hs.stepLink hstep

/-- A run, by induction on its steps. -/
theorem run : ∀ {es : List Step} {packets : Option (List (List Byte))} {s t : Application},
    s.InSession packets → Runs.run Application.step es s = some t →
      t.InSession (es.foldl stepSession packets) := by
  intro es
  induction es with
  | nil =>
    intro packets s t hs hrun
    rwa [← run_nil.mp hrun]
  | cons e es ih =>
    intro packets s t hs hrun
    obtain ⟨r, hfirst, hrest⟩ := run_cons.mp hrun
    exact ih (hs.step hfirst) hrest

end InSession

/-- **The telemetry table.** In every run, whenever the telemetry panel is next, it goes on
with the frame; after that the queue of its consumer is empty, and the panel shows the last
value of every key that was decoded from a telemetry packet since the user attached, and no
other key. While the user is not attached it shows nothing. -/
theorem telemetry_session (hrun : run step es main = some s) (hphase : s.phase = .telemetry)
    (input : TelemetryInput) :
    ∃ t, step (.telemetry input) s = some t ∧ t.isEnable = (session es).isSome ∧
      t.host.Queues [] ∧
      t.telemetryPanel.telemetryMap = TelemetryPanel.latest (entriesOf (session es)) := by
  obtain ⟨t, hstep, ht, halert⟩ := (inSession_main.run hrun).telemetry hphase input
  obtain ⟨hqueues, hmap⟩ := ht.drained (halert ▸ trivial)
  exact ⟨t, hstep, ht.isEnable, hqueues, hmap⟩

/-- The frame of a telemetry packet of one key and one value. -/
def telemetryFrame (key : CString) (value : BitVec 32) : List Byte :=
  stuff (Call.telemetryInt32 key value).packet

/-- The user attaches, detaches, and attaches again; both times a packet has come in. -/
def twoSessions : List Step :=
  [.control true true [telemetryFrame ⟨ascii "a", by decide⟩ 1], .post, .clear,
    .telemetry noInput, .alert false, .liveData [] false,
    .control true false [], .telemetry noInput, .alert false, .liveData [] false,
    .control true true [telemetryFrame ⟨ascii "b", by decide⟩ 2], .post, .clear]

/-- The panel shows the entry of the second session. -/
theorem telemetry_session_two :
    ∃ s t, run step twoSessions main = some s ∧ step (.telemetry noInput) s = some t ∧
      t.host.Queues [] ∧
      t.telemetryPanel.telemetryMap = TelemetryPanel.latest [(ascii "b", ascii "2")] := by
  have hphase : (run step twoSessions main).map Application.phase = some .telemetry := by
    decide +kernel
  have hentries : entriesOf (session twoSessions) = [(ascii "b", ascii "2")] := by decide +kernel
  obtain ⟨s, hrun, hs⟩ := Option.map_eq_some_iff.mp hphase
  obtain ⟨t, hstep, -, hqueues, hmap⟩ := telemetry_session hrun hs noInput
  exact ⟨s, t, hrun, hstep, hqueues, hentries ▸ hmap⟩

end Application

end Houston
