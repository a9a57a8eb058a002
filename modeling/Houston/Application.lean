import Houston.Panel
import Houston.Panels
import Houston.Producer
import Houston.Transmitter

/-!
# Sessions: `components/ControlPanel.cpp` and the loop of `main.cpp`

In every frame `main` renders the control panel, the telemetry panel, the alert panel and
the live data panel. The control panel creates a `SerialProducer` when the user attaches,
and deletes it when the user detaches; in between it lets the producer dispatch what has
come in, and hands it what the dispatcher has collected in `txData`. The thread of the port
works on at any time.

To tell packets with the same bytes apart, `txData` keeps with every packet how many calls
of `Dispatcher::sendData` came before; the packets carry this number through the producer.

* `Application.step` — what may happen, in any order.
* `current_of_empty` — a producer writes no packet from before its own session, if `txData`
  is empty whenever a session begins.
* `stale_request` — a session writes a request from before it.
-/

namespace Houston

open Runs

/-- A packet, and how many calls of `Dispatcher::sendData` came before it. -/
abbrev Numbered : Type := List Byte × ℕ

/-- An instance of `SerialProducer`, but for its queues. -/
structure Session where
  /-- how many calls of `Dispatcher::sendData` came before its construction -/
  birth : ℕ
  status : Bool

/-- Where in a frame the thread of the user interface is: before the panel that it renders
next, or in the loop of `SerialProducer::send_data`. -/
inductive Phase where
  | control
  | sending
  | telemetry
  | alert
  | liveData
  deriving DecidableEq

/-- The application: the dispatcher, the consumers, the producer and the four panels. -/
structure Application where
  /-- `Dispatcher::handlerMap` -/
  handlerMap : Byte → Option (Option ConsumerPtr)
  consumers : ConsumerPtr → DataConsumer
  /-- what the dispatcher printed to `std::cerr` -/
  cerr : List String
  /-- `Dispatcher::txData`, and the queues of the producer -/
  link : Transmitter Numbered
  /-- how many calls of `Dispatcher::sendData` there were -/
  given : ℕ
  /-- `ControlPanel::isEnable` -/
  isEnable : Bool
  /-- `ControlPanel::dataProducer` -/
  dataProducer : Option Session
  telemetryPanel : TelemetryPanel
  alertPanel : AlertPanel
  liveDataPanel : LiveDataPanel
  phase : Phase

namespace Application

/-! ## The model -/

/-- The application as `main` sets it up. -/
def main : Application where
  handlerMap := Host.main.dispatcher.handlerMap
  consumers := Host.main.consumers
  cerr := []
  link := .start []
  given := 0
  isEnable := false
  dataProducer := none
  telemetryPanel := .init
  alertPanel := ⟨[]⟩
  liveDataPanel := ⟨fun _ => none, fun _ => none, fun _ => none⟩
  phase := .control

/-- The dispatcher and the consumers. -/
def host (s : Application) : Host where
  dispatcher := ⟨s.handlerMap, s.link.txData.map Prod.fst⟩
  consumers := s.consumers
  cerr := s.cerr

/-- The dispatcher and the consumers are as in `h`; what is new in `txData` is numbered. -/
def setHost (h : Host) (s : Application) : Application :=
  let fresh := h.dispatcher.txData.drop s.link.txData.length
  { s with
    handlerMap := h.dispatcher.handlerMap
    consumers := h.consumers
    cerr := h.cerr
    link := { s.link with txData := s.link.txData ++ fresh.zipIdx s.given }
    given := s.given + fresh.length }

/-- `new SerialProducer()`, if there is none. -/
def newProducer (s : Application) : Application :=
  match s.dataProducer with
  | none => { s with dataProducer := some ⟨s.given, false⟩, link := .start s.link.txData }
  | some _ => s

/-- `delete dataProducer`: the queues of the producer are gone, `txData` is the dispatcher's. -/
def deleteProducer (s : Application) : Application :=
  { s with dataProducer := none, link := .start s.link.txData }

/-- `component->start()` for all components: `LiveDataPanel::start` refreshes. -/
def startComponents (s : Application) : Application :=
  let (liveDataPanel, dispatcher) := LiveDataPanel.refreshPackets s.host.dispatcher
  { s.setHost { s.host with dispatcher := dispatcher } with
    telemetryPanel := s.telemetryPanel.start
    liveDataPanel := liveDataPanel }

/-- `component->stop()` for all components. -/
def stopComponents (s : Application) : Application :=
  { s with
    telemetryPanel := s.telemetryPanel.stop
    alertPanel := s.alertPanel.stop
    liveDataPanel := ⟨fun _ => none, fun _ => none, fun _ => none⟩ }

/-- A step of the queues. -/
def stepLink (e : Transmitter.Step Numbered) (s : Application) : Option Application := do
  let link ← Transmitter.step e s.link
  some { s with link := link }

/-- `ControlPanel::render`, the end: the producer dispatches the packets of `batch`, which
are what it finds in `rx_queue_`, and its `send_data` begins. -/
def serve (batch : List (List Byte)) (s : Application) : Option Application :=
  match s.dataProducer with
  | some ⟨_, true⟩ => do
    let host ← produce batch s.host
    stepLink .begin { s.setHost host with phase := .sending }
  | _ => some { s with phase := .telemetry }

/-- `ControlPanel::render`, the button "Detach". -/
def detach (s : Application) : Option Application :=
  match s.dataProducer with
  | none => none
  | some _ => some { s.deleteProducer.stopComponents with isEnable := false }

/-- `ControlPanel::render`, the button "Attach", if the port can be opened. -/
def attach (s : Application) : Application :=
  let s := s.newProducer
  let s := { s with dataProducer := s.dataProducer.map fun p : Session => { p with status := true } }
  let s := s.startComponents
  { s with isEnable := true }

/-- `ControlPanel::render`, up to the loop of `send_data`: the user may click the button, the
port may open, and `batch` is what the producer finds in `rx_queue_`. -/
def renderControl (click opens : Bool) (batch : List (List Byte)) (s : Application) :
    Option Application :=
  if !click then s.serve batch
  else if s.isEnable then do
    let s ← s.detach
    s.serve batch
  else if opens then s.attach.serve batch
  else some { s.newProducer.deleteProducer with phase := .telemetry }

/-- What the user does with an entry of the live data panel: another value is put into its
widget; or a modify packet is sent, as its checkbox is clicked or its value is applied. -/
inductive Action where
  | edit (key : BitVec 16) (value : BitVec 32)
  | apply (key : BitVec 16) (value junk : BitVec 32)

/-- `LiveDataPanel::render`, one entry. A checkbox cannot be edited without a packet being
sent. -/
def act : LiveDataPanel × Dispatcher → Action → Option (LiveDataPanel × Dispatcher)
  | (panel, d), .edit key value => do
    let it ← panel.liveDataMap key
    if it.valueType = ValueType.bool.bits 16 then none
    else do
      let panel ← panel.edit key value
      some (panel, d)
  | (panel, d), .apply key value junk => panel.press key value junk d

/-- `LiveDataPanel::render`, where the user may click "Refresh". -/
def renderLiveData (actions : List Action) (refresh : Bool) (s : Application) :
    Option Application := do
  let (panel, h) ← s.liveDataPanel.takeIn s.host
  let (panel, d) ← actions.foldlM act (panel, h.dispatcher)
  let (panel, d) := if refresh then LiveDataPanel.refreshPackets d else (panel, d)
  some { s.setHost { h with dispatcher := d } with liveDataPanel := panel, phase := .control }

/-- What may happen: the thread of the user interface goes on with its frame; on the thread
of the port the next posted handler runs, or an outstanding write ends. -/
inductive Step where
  | control (click opens : Bool) (batch : List (List Byte))
  | post
  | clear
  | telemetry (input : TelemetryInput)
  | alert (clear : Bool)
  | liveData (actions : List Action) (refresh : Bool)
  | handle
  | complete (k : ℕ) (error : Bool)

/-- Let it happen. -/
def step : Step → Application → Option Application
  | .control click opens batch, s =>
    if s.phase = .control then s.renderControl click opens batch else none
  | .post, s => if s.phase = .sending then s.stepLink .post else none
  | .clear, s =>
    if s.phase = .sending then { s with phase := .telemetry }.stepLink .clear else none
  | .telemetry input, s =>
    if s.phase = .telemetry then do
      let (panel, h) ← s.telemetryPanel.render input s.host
      some { s.setHost h with telemetryPanel := panel, phase := .alert }
    else none
  | .alert clear, s =>
    if s.phase = .alert then do
      let (panel, h) ← s.alertPanel.render clear s.host
      some { s.setHost h with alertPanel := panel, phase := .liveData }
    else none
  | .liveData actions refresh, s =>
    if s.phase = .liveData then s.renderLiveData actions refresh else none
  | .handle, s => s.stepLink .handle
  | .complete k error, s => s.stepLink (.complete k error)

variable {s t : Application} {e : Step} {es : List Step} {b : ℕ}

/-- The numbers do not get in the way: the dispatcher is as in `h`, if `h` has only appended
to `txData`. -/
theorem host_setHost {h : Host} (happend : s.host.dispatcher.txData <+: h.dispatcher.txData) :
    (s.setHost h).host = h := by
  obtain ⟨fresh, hfresh⟩ := happend
  have hlen : s.link.txData.length = s.host.dispatcher.txData.length := (List.length_map _).symm
  have htxData : (s.setHost h).host.dispatcher.txData = h.dispatcher.txData := by
    show (s.link.txData ++ (h.dispatcher.txData.drop s.link.txData.length).zipIdx s.given).map
      Prod.fst = h.dispatcher.txData
    rw [List.map_append, List.zipIdx_map_fst, hlen, ← hfresh, List.drop_left]
    rfl
  calc (s.setHost h).host = ⟨⟨h.dispatcher.handlerMap, (s.setHost h).host.dispatcher.txData⟩,
      h.consumers, h.cerr⟩ := rfl
    _ = h := by rw [htxData]

/-! ## Steps -/

/-- All packets that are anywhere come from no earlier call of `sendData` than number `b`. -/
def Since (b : ℕ) (s : Application) : Prop :=
  b ≤ s.given ∧ s.link.All fun packet => b ≤ packet.2

theorem Since.setHost (hs : s.Since b) (h : Host) : (s.setHost h).Since b := by
  refine ⟨hs.1.trans (Nat.le_add_right ..), { hs.2 with txData := fun packet hpacket => ?_ }⟩
  rcases List.mem_append.mp hpacket with hpacket | hpacket
  · exact hs.2.txData packet hpacket
  · exact hs.1.trans (List.le_snd_of_mem_zipIdx hpacket)

theorem Since.stepLink (hs : s.Since b) {e : Transmitter.Step Numbered} (hgiven : e.given = [])
    (hstep : s.stepLink e = some t) : t.Since b := by
  obtain ⟨link, hlink, hstep⟩ := Option.bind_eq_some_iff.mp hstep
  cases hstep
  refine ⟨hs.1, hs.2.step (fun packet hpacket => ?_) hlink⟩
  rw [hgiven] at hpacket
  exact absurd hpacket List.not_mem_nil

theorem dataProducer_stepLink {e : Transmitter.Step Numbered} (hstep : s.stepLink e = some t) :
    t.dataProducer = s.dataProducer := by
  obtain ⟨link, -, hstep⟩ := Option.bind_eq_some_iff.mp hstep
  cases hstep
  rfl

/-- The producer is the same one, and no packet from before comes in. -/
def Continues (s t : Application) : Prop :=
  t.dataProducer.map Session.birth = s.dataProducer.map Session.birth ∧
    ∀ b, s.Since b → t.Since b

theorem Continues.trans {r : Application} (h : s.Continues t) (h' : t.Continues r) :
    s.Continues r :=
  ⟨h'.1.trans h.1, fun b hs => h'.2 b (h.2 b hs)⟩

/-- The panels, and where in the frame the thread is, do not matter. -/
theorem continues_of_eq (hproducer : t.dataProducer = s.dataProducer) (hlink : t.link = s.link)
    (hgiven : t.given = s.given) : s.Continues t := by
  refine ⟨congrArg _ hproducer, fun b hs => ?_⟩
  rw [Since, hgiven, hlink]
  exact hs

theorem continues_setHost (h : Host) (s : Application) : s.Continues (s.setHost h) :=
  ⟨rfl, fun _ hs => hs.setHost h⟩

theorem continues_stepLink {e : Transmitter.Step Numbered} (hgiven : e.given = [])
    (hstep : s.stepLink e = some t) : s.Continues t :=
  ⟨congrArg _ (dataProducer_stepLink hstep), fun _ hs => hs.stepLink hgiven hstep⟩

theorem continues_serve {batch : List (List Byte)} (hserve : s.serve batch = some t) :
    s.Continues t := by
  rw [serve] at hserve
  split at hserve
  · obtain ⟨host, -, hserve⟩ := Option.bind_eq_some_iff.mp hserve
    have hsending : (s.setHost host).Continues { s.setHost host with phase := .sending } :=
      continues_of_eq rfl rfl rfl
    exact ((continues_setHost host s).trans hsending).trans (continues_stepLink rfl hserve)
  · cases hserve
    exact continues_of_eq rfl rfl rfl

/-- Starting the components adds a request, and nothing else. -/
theorem continues_startComponents (s : Application) :
    s.Continues { s.startComponents with isEnable := true } :=
  (continues_setHost _ s).trans (continues_of_eq rfl rfl rfl)

/-- **What attaching does**: if there is no producer, one is made, and its session has only
the packets from then on, unless `txData` has older ones. -/
theorem attach_cases (s : Application) :
    s.Continues s.attach ∨ s.attach.dataProducer = some ⟨s.given, true⟩ ∧
      (s.link.txData = [] → s.attach.Since s.given) := by
  cases hproducer : s.dataProducer with
  | some p =>
    have hnew : s.newProducer = s := by
      rw [newProducer, hproducer]
    have hstatus : s.Continues { s with dataProducer := some { p with status := true } } :=
      ⟨by rw [hproducer]; rfl, fun _ hs => hs⟩
    rw [attach, hnew, hproducer]
    exact Or.inl (hstatus.trans (continues_startComponents _))
  | none =>
    have hnew : s.newProducer =
        { s with dataProducer := some ⟨s.given, false⟩, link := .start s.link.txData } := by
      rw [newProducer, hproducer]
    rw [attach, hnew]
    refine Or.inr ⟨rfl, fun hempty => ?_⟩
    refine (continues_startComponents _).2 s.given ⟨Nat.le_refl _, Transmitter.all_start ?_⟩
    rw [hempty]
    exact fun packet hpacket => absurd hpacket List.not_mem_nil

/-- **What the control panel can do**: the session goes on, or it ends, or one begins. -/
theorem renderControl_cases {click opens : Bool} {batch : List (List Byte)}
    (hrender : s.renderControl click opens batch = some t) :
    s.Continues t ∨ t.dataProducer = none ∨
      (click = true ∧ opens = true ∧ s.isEnable = false) ∧
        t.dataProducer.map Session.birth = some s.given ∧
        (s.link.txData = [] → t.Since s.given) := by
  rw [renderControl] at hrender
  split_ifs at hrender with hclick henable hopens
  · exact Or.inl (continues_serve hrender)
  · -- nothing is left of the session
    obtain ⟨r, hdetach, hserve⟩ := Option.bind_eq_some_iff.mp hrender
    have hnone : r.dataProducer = none := by
      rw [detach] at hdetach
      split at hdetach <;> cases hdetach
      rfl
    have hbirth := (continues_serve hserve).1
    rw [hnone, Option.map_none, Option.map_eq_none_iff] at hbirth
    exact Or.inr (Or.inl hbirth)
  · have hend := continues_serve hrender
    rcases attach_cases s with hsame | ⟨hproducer, hsince⟩
    · exact Or.inl (hsame.trans hend)
    · have hbirth : t.dataProducer.map Session.birth = some s.given := by
        rw [hend.1, hproducer]
        rfl
      exact Or.inr (Or.inr ⟨⟨by simpa using hclick, hopens, by simpa using henable⟩, hbirth,
        fun hempty => hend.2 _ (hsince hempty)⟩)
  · cases hrender
    exact Or.inr (Or.inl rfl)

/-- **What a step can do**: the session goes on, or it ends, or one begins. -/
theorem step_cases (hstep : step e s = some t) :
    s.Continues t ∨ t.dataProducer = none ∨
      ∃ batch, e = .control true true batch ∧ s.isEnable = false ∧
        t.dataProducer.map Session.birth = some s.given ∧
        (s.link.txData = [] → t.Since s.given) := by
  cases e with
  | control click opens batch =>
    rw [step] at hstep
    split_ifs at hstep
    rcases renderControl_cases hstep with h | h | ⟨⟨rfl, rfl, hdisabled⟩, hbirth, hsince⟩
    · exact Or.inl h
    · exact Or.inr (Or.inl h)
    · exact Or.inr (Or.inr ⟨batch, rfl, hdisabled, hbirth, hsince⟩)
  | post =>
    rw [step] at hstep
    split_ifs at hstep
    exact Or.inl (continues_stepLink rfl hstep)
  | clear =>
    rw [step] at hstep
    split_ifs at hstep
    have hphase : s.Continues { s with phase := .telemetry } := continues_of_eq rfl rfl rfl
    exact Or.inl (hphase.trans (continues_stepLink rfl hstep))
  | telemetry input =>
    rw [step] at hstep
    split_ifs at hstep
    obtain ⟨⟨panel, h⟩, -, hstep⟩ := Option.bind_eq_some_iff.mp hstep
    cases hstep
    exact Or.inl ((continues_setHost h s).trans (continues_of_eq rfl rfl rfl))
  | alert clear =>
    rw [step] at hstep
    split_ifs at hstep
    obtain ⟨⟨panel, h⟩, -, hstep⟩ := Option.bind_eq_some_iff.mp hstep
    cases hstep
    exact Or.inl ((continues_setHost h s).trans (continues_of_eq rfl rfl rfl))
  | liveData actions refresh =>
    rw [step] at hstep
    split_ifs at hstep
    obtain ⟨⟨panel, h⟩, -, hstep⟩ := Option.bind_eq_some_iff.mp hstep
    obtain ⟨⟨panel', d⟩, -, hstep⟩ := Option.bind_eq_some_iff.mp hstep
    cases hstep
    exact Or.inl ((continues_setHost _ s).trans (continues_of_eq rfl rfl rfl))
  | handle => exact Or.inl (continues_stepLink rfl hstep)
  | complete k error => exact Or.inl (continues_stepLink rfl hstep)

/-! ## Runs -/

/-- The port is given only packets that the dispatcher was given during the session. -/
def Current (s : Application) : Prop :=
  ∀ p, s.dataProducer = some p → ∀ packet ∈ s.link.writes ++ s.link.port, p.birth ≤ packet.2

/-- A session begins with nothing in `txData`. -/
def BeginsEmpty : Step → Application → Prop
  | .control true true _, s => s.isEnable = false → s.link.txData = []
  | _, _ => True

instance : ∀ (e : Step) (s : Application), Decidable (BeginsEmpty e s)
  | .control true true _, s => inferInstanceAs (Decidable (s.isEnable = false → s.link.txData = []))
  | .control true false _, _ | .control false _ _, _ => isTrue trivial
  | .post, _ | .clear, _ | .telemetry _, _ | .alert _, _ | .liveData _ _, _ => isTrue trivial
  | .handle, _ | .complete _ _, _ => isTrue trivial

/-- **Sessions that begin empty.** In a run in which `txData` is empty whenever the user
attaches and the port opens, every packet that the producer has given to its port was given
to `sendData` during or after the attach that made the producer: none of them was left over
from an earlier session, or from the time in between. -/
theorem current_of_empty (hrun : run step es main = some s)
    (hempty : Meets step BeginsEmpty es main) : s.Current := by
  have hstep : ∀ {e s t}, BeginsEmpty e s → (∀ b, s.dataProducer.map Session.birth = some b →
      s.Since b) → step e s = some t → ∀ b, t.dataProducer.map Session.birth = some b → t.Since b := by
    intro e s t hbegins hs hstep b hb
    rcases step_cases hstep with ⟨hbirth, hsince⟩ | hnone | ⟨batch, rfl, hdisabled, hbirth, hsince⟩
    · exact hsince b (hs b (hbirth.symm.trans hb))
    · rw [hnone] at hb
      cases hb
    · obtain rfl : s.given = b := Option.some.inj (hbirth.symm.trans hb)
      exact hsince (hbegins hdisabled)
  have hsince := run_meets hstep hempty (fun b hb => by cases hb) hrun
  intro p hp packet hpacket
  have hall := (hsince p.birth (congrArg (Option.map Session.birth) hp)).2
  rcases List.mem_append.mp hpacket with hpacket | hpacket
  · exact hall.writes packet hpacket
  · exact hall.port packet hpacket

/-- The telemetry panel is left alone. -/
def noInput : TelemetryInput := ⟨0, [], false, false⟩

/-- A frame in which the user attaches, and the request is posted. -/
def attachFrame (posts : ℕ) : List Step :=
  .control true true [] :: List.replicate posts .post ++
    [.clear, .telemetry noInput, .alert false, .liveData [] false]

/-- A frame in which the user detaches. -/
def detachFrame : List Step :=
  [.control true false [], .telemetry noInput, .alert false, .liveData [] false]

/-- The user attaches, detaches, and attaches again. -/
def attachTwice : List Step :=
  attachFrame 1 ++ .handle :: (detachFrame ++ (attachFrame 1 ++ [.handle]))

/-- Both sessions begin with nothing, and the port of the second one is given its request. -/
theorem current_of_empty_two :
    ∃ s p request, run step attachTwice main = some s ∧ Meets step BeginsEmpty attachTwice main ∧
      s.dataProducer = some p ∧ p.birth = 1 ∧ s.link.writes = [(request, 1)] ∧ s.Current := by
  have hrun : run step attachTwice main = some _ := rfl
  have hempty : Meets step BeginsEmpty attachTwice main := by decide +kernel
  exact ⟨_, _, _, hrun, hempty, rfl, rfl, rfl, current_of_empty hrun hempty⟩

/-- The user refreshes while nothing is attached, and attaches in the next frame. -/
def refreshThenAttach : List Step :=
  [.control false false [], .telemetry noInput, .alert false, .liveData [] true] ++ attachFrame 2 ++
    [.handle]

/-- **A session writes a request from before it**: it is posted together with the request
that the session itself begins with. -/
theorem stale_request :
    ∃ s p request, run step refreshThenAttach main = some s ∧ s.dataProducer = some p ∧
      p.birth = 1 ∧ s.link.writes = [(request, 0)] ∧ ¬ s.Current := by
  have hrun : run step refreshThenAttach main = some _ := rfl
  refine ⟨_, _, _, hrun, rfl, rfl, rfl, fun hcurrent => ?_⟩
  exact absurd (hcurrent _ rfl _ (List.mem_append_left _ List.mem_cons_self)) (by decide)

end Application

end Houston
