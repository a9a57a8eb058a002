import Houston.Atomic
import Houston.Downlink

/-!
# The firmware and the application together

The two programs are joined by a serial line: what the firmware sends goes on its way up, and what
the application writes goes on its way down. Both go on at their own pace, and bytes come in one
part at a time.

* `Loop.step` — what may happen, in any order, while the user is attached.
* `Loop.Inv` — **the invariant**, with what has happened to the variables and what was said.
* `Loop.goes_on` — both programs can always go on, and the dispatcher prints nothing.
* `Loop.linearised` — what the user applies is carried out, in order, one command at a time.
* `Loop.truthful` — what is listed was true once.
* `Loop.caught_up` — what is shown was said, and all of it when all has come in.
-/

namespace Houston

open Runs Stuffing

/-- The firmware, the application, and the serial line between them. -/
structure Loop where
  board : Firmware
  /-- what the firmware has sent, and the host has not read -/
  up : List Byte
  /-- the receive side of the producer -/
  receiver : Receiver
  app : Application
  /-- what the producer has written, and has not come in at the firmware -/
  down : List Byte

namespace Loop

/-! ## The model -/

/-- What may happen: the program on the board does something; bytes come in at the firmware, or at
the host; a read completes or fails; the control panel dispatches what has come in; the application
does something else; or a write fails when some bytes of its packet have been written. -/
inductive Step where
  | board (op : Op)
  | arrive (n : ℕ)
  | read (n : ℕ)
  | complete
  | fail
  | frame
  | app (e : Application.Step)
  | broken (k m : ℕ)

/-- Let it happen. -/
def step : Step → Loop → Option Loop
  | .board op, s => do
    let board ← op.run s.board
    -- what is new in the trace is on its way
    let frames := (sentFrames board.trace).drop (sentFrames s.board.trace).length
    some { s with board := board, up := s.up ++ frames.flatten }
  | .arrive n, s =>
    some { s with board := s.board.feed (s.down.take n), down := s.down.drop n }
  | .read n, s => do
    let receiver ← Receiver.step (.read (s.up.take n)) s.receiver
    some { s with receiver := receiver, up := s.up.drop n }
  | .complete, s => do
    let receiver ← Receiver.step .complete s.receiver
    some { s with receiver := receiver }
  | .fail, s => do
    let receiver ← Receiver.step .fail s.receiver
    some { s with receiver := receiver }
  | .frame, s => do
    -- the queue is swapped at once; what comes in meanwhile is for the next frame
    let batch := s.receiver.rxQueue
    let receiver ← run Receiver.step (.swap :: List.replicate batch.length .dispatch) s.receiver
    let app ← Application.step (.control false false batch) s.app
    some { s with receiver := receiver, app := app }
  | .app e, s => do
    let app ← Application.step e s.app
    -- what `async_write` has written is on its way
    let written := app.link.port.drop s.app.link.port.length
    some { s with app := app, down := s.down ++ Transmitter.bytesOf written }
  | .broken k m, s => do
    let packet ← s.app.link.writes[k]?
    let app ← Application.step (.complete k true) s.app
    some { s with app := app, down := s.down ++ packet.1.take m }

/-- The program on the board keeps to itself, and the control panel has nothing to dispatch but
what has come in. -/
def Step.Allowed : Step → Prop
  | .board op => op.Local
  | .app (.control _ _ _) => False
  | _ => True

/-- What the program on the board writes in a step. -/
def Step.assigned : Step → List (Ptr × BitVec 32)
  | .board op => op.assigned
  | _ => []

/-- What is listed in the frame that the live data panel is about to render. -/
def listing (s : Loop) (key : BitVec 16) : Option LiveDataPacket := do
  let (panel, _) ← s.app.liveDataPanel.takeIn s.app.host
  panel.liveDataMap key

/-- The commands that the user gives in a step: one for each entry that is applied, and one for
a refresh. -/
def commands : Step → Loop → List Command
  | .app e, s => e.commands s.listing
  | _, _ => []

/-- A session begins: the user has just attached, and the firmware, with its variables under
different keys, waits for a header. -/
structure Begins (es : List Entry) (s : Loop) : Prop where
  idle : Idle s.board
  table : Registered s.board es
  keys : (es.map Entry.key).Nodup
  types : ∀ e ∈ es, e.type ≠ .string
  up : s.up = []
  receiver : s.receiver = .start
  down : s.down = []
  attached : ∃ before r, run Application.step before .main = some r ∧ r.isEnable = false ∧
    Application.step (.control true true []) r = some s.app

variable {es : List Entry} {s₀ s t : Loop} {e : Step} {h : History} {given : List Command}

/-! ## The control panel -/

/-- What was taken from the queue is dispatched, one packet after another. -/
theorem run_dispatch : ∀ (batch : List (List Byte)) {r : Receiver}, r.batch = batch →
    run Receiver.step (List.replicate batch.length .dispatch) r =
      some { r with batch := [], dispatched := r.dispatched ++ batch } := by
  intro batch
  induction batch with
  | nil =>
    intro r hbatch
    show some r = _
    rw [List.append_nil, ← hbatch]
  | cons packet batch ih =>
    intro r hbatch
    have hfirst : Receiver.step .dispatch r =
        some { r with batch := batch, dispatched := r.dispatched ++ [packet] } := by
      rw [Receiver.step, hbatch]
    rw [List.length_cons, List.replicate_succ]
    refine run_cons.mpr ⟨_, hfirst, (ih rfl).trans ?_⟩
    rw [List.append_assoc, List.singleton_append]

/-- Nothing else is dispatched. -/
theorem receive_frame {e' : Receiver.Step} {r r' : Receiver} (hstep : Receiver.step e' r = some r')
    (hport : e' ≠ .swap ∧ e' ≠ .dispatch) : r'.dispatched = r.dispatched ∧ r'.batch = r.batch := by
  cases e' with
  | read bytes =>
    rw [Receiver.step] at hstep
    split_ifs at hstep
    cases hstep
    exact ⟨rfl, rfl⟩
  | complete =>
    rw [Receiver.step] at hstep
    split_ifs at hstep
    cases hstep
    rw [Receiver.handle]
    split_ifs
    · rw [Receiver.push_eq]
      exact ⟨rfl, rfl⟩
    · exact ⟨rfl, rfl⟩
  | fail =>
    rw [Receiver.step] at hstep
    split_ifs at hstep
    cases hstep
    exact ⟨rfl, rfl⟩
  | swap => exact absurd rfl hport.1
  | dispatch => exact absurd rfl hport.2

/-- A call of `produce`. -/
theorem run_produce {r : Receiver} (hbatch : r.batch = []) :
    run Receiver.step (.swap :: List.replicate r.rxQueue.length .dispatch) r =
      some { r with batch := [], rxQueue := [], dispatched := r.dispatched ++ r.rxQueue } := by
  have hswap : Receiver.step .swap r = some { r with batch := r.rxQueue, rxQueue := [] } :=
    if_pos hbatch
  exact run_cons.mpr ⟨_, hswap, run_dispatch r.rxQueue rfl⟩

/-- The control panel goes on when what it dispatches was said by the firmware, and the
dispatcher prints nothing. -/
theorem exists_frame {app : Application} {l : Application.Log} {packets : List (List Byte)}
    (hs : app.Tracks l) (hin : app.InSession (some packets)) (hsettled : app.Settled)
    (hphase : app.phase = .control) (sayings : List Saying) :
    ∃ app', Application.step (.control false false (sayings.map Saying.frame)) app = some app' ∧
      app'.cerr = app.cerr ∧ app'.phase = .sending ∧
      app'.link = { app.link with sending := some 0 } := by
  obtain ⟨telemetry, hserves, -⟩ := hs.at_control hphase
  obtain ⟨host, hproduce, -, hcerr⟩ := hserves.hear_all sayings
  obtain ⟨-, hsame⟩ := hserves.produce _ hproduce
  have hlink : (app.setHost host).link = app.link := Application.link_setHost_same hsame
  obtain ⟨⟨birth, status⟩, hproducer, rfl⟩ := Option.map_eq_some_iff.mp hin.status
  have hsending : app.link.sending = none := hsettled.mpr (hphase ▸ nofun)
  have hbegin : Transmitter.step .begin (app.setHost host).link =
      some { (app.setHost host).link with sending := some 0 } := by
    rw [hlink]
    exact if_pos hsending
  have hserve : app.serve (sayings.map Saying.frame) = some { app.setHost host with
      phase := .sending, link := { (app.setHost host).link with sending := some 0 } } := by
    rw [Application.serve, hproducer]
    show (produce _ app.host >>= _) = _
    rw [hproduce]
    exact congrArg (fun link => link >>= fun link => some { app.setHost host with
      phase := .sending, link := link }) hbegin
  exact ⟨_, by rw [Application.step, if_pos hphase]; exact hserve, hcerr, rfl,
    congrArg (fun link => ({ link with sending := some 0 } : Transmitter Numbered)) hlink⟩

/-! ## The invariant -/

/-- **The invariant**: the commands that were given are carried out, or ahead; the frames of what
was said are dispatched, or behind; and the panels show what was dispatched. -/
structure Inv (es : List Entry) (s₀ : Loop) (h : History) (given : List Command) (s : Loop) :
    Prop where
  obeys : ∃ ahead lost, given = h.effects.filterMap Effect.command? ++ ahead ∧
    Obeys es s₀.board h ahead (s.down ++ lost) s.board ∧ s.app.link.Leaves lost
  carry : Application.Carry s.app.link.content given
  received : ∃ steps, run Receiver.step steps .start = some s.receiver ∧
    steps.flatMap Receiver.Step.received ++ s.up = (h.sayings.map Saying.frame).flatten
  batch : s.receiver.batch = []
  app : ∃ l, s.app.Tracks l ∧ l.attached = true ∧
    s.app.InSession (some s.receiver.dispatched) ∧
    l.alerts <:+ s.receiver.dispatched.filterMap alertEntry ∧
    l.records <:+ (s.receiver.dispatched.filterMap liveDataEntry).flatten
  settled : s.app.Settled
  cerr : s.app.cerr = s₀.app.cerr

open Application (Carry IsCommand)

/-- Of two lists that go together, each element of the second goes with one of the first. -/
theorem exists_of_forall₂ {α β : Type} {R : α → β → Prop} {l : List α} {m : List β}
    (h : List.Forall₂ R l m) {b : β} (hb : b ∈ m) : ∃ a ∈ l, R a b := by
  induction h with
  | nil => cases hb
  | @cons a b' l m hab _ ih =>
    rcases List.mem_cons.mp hb with rfl | hb
    · exact ⟨a, List.mem_cons_self, hab⟩
    · obtain ⟨a', ha', hab'⟩ := ih hb
      exact ⟨a', List.mem_cons_of_mem a ha', hab'⟩

theorem exists_carry : ∀ {packets : List Numbered}, (∀ packet ∈ packets, IsCommand packet) →
    ∃ commands, Carry packets commands := by
  intro packets
  induction packets with
  | nil => exact fun _ => ⟨[], rfl⟩
  | cons packet packets ih =>
    intro hall
    obtain ⟨⟨c, hc⟩, hrest⟩ := List.forall_mem_cons.mp hall
    obtain ⟨commands, hcommands⟩ := ih hrest
    exact ⟨c :: commands, congrArg₂ List.cons hc.symm hcommands⟩

theorem bytesOf_carry {packets : List Numbered} {commands : List Command}
    (h : Carry packets commands) :
    Transmitter.bytesOf packets = commands.flatMap fun c => c.toPacket.bytes := by
  rw [Transmitter.bytesOf, List.flatMap_def, h, List.flatMap_def]

/-- **A session begins**: the commands that were in `txData` are there, and a request; nothing is
shown, and nothing has gone out. -/
theorem Begins.app (hb : Begins es s₀) :
    ∃ packets given, Carry packets given ∧
      s₀.app.link = { Transmitter.start packets with sending := some 0 } ∧
      s₀.app.Tracks ⟨true, [], []⟩ ∧ s₀.app.InSession (some []) ∧ s₀.app.Settled := by
  obtain ⟨before, r, hrun, hdisabled, hattach⟩ := hb.attached
  have htracks := Application.tracks_run hrun
  have hin := Application.inSession_main.run hrun
  have hsession : Application.session before = none := by
    have hisEnable := hin.isEnable
    rw [hdisabled] at hisEnable
    exact Option.isNone_iff_eq_none.mp (Option.isSome_eq_false_iff.mp hisEnable.symm)
  have hin' : r.InSession none := hsession ▸ hin
  have hlog : Application.log before = ⟨false, [], []⟩ := by
    refine Application.Log.Tidy.foldl before (fun _ => rfl) ?_
    have hboth : (before.foldl Application.stepSession none).isSome =
        (before.foldl Application.stepLog ⟨false, [], []⟩).attached :=
      Application.attached_foldl before rfl
    rw [← hboth]
    exact congrArg Option.isSome hsession
  rw [hlog] at htracks
  have hproducer : r.dataProducer = none := Option.map_eq_none_iff.mp hin'.status
  have hserve := hattach
  rw [Application.step] at hserve
  split_ifs at hserve with hphase
  rw [Application.renderControl, hdisabled] at hserve
  obtain ⟨new, hnew, hlink⟩ := Application.link_attach htracks hproducer hphase hserve
  -- what an earlier session has left in `txData` are commands, too
  obtain ⟨old, hold⟩ := exists_carry (Application.commands_only hrun).txData
  have hcarry : Carry (r.link.txData ++ new) (old ++ [.refresh]) := by
    rw [Carry, List.map_append, List.map_append, hold, hnew]
  exact ⟨_, _, hcarry, hlink, htracks.step hin' rfl hattach, hin'.step hattach,
    (Application.settled_run hrun).step hattach⟩

/-- The invariant holds in the beginning. -/
theorem Begins.inv (hb : Begins es s₀) : ∃ given, Inv es s₀ ⟨[], []⟩ given s₀ := by
  obtain ⟨packets, given, hcarry, hlink, htracks, hin, hsettled⟩ := hb.app
  have hobeys := (Obeys.start hb.idle hb.table).append given
  rw [List.nil_append, List.nil_append] at hobeys
  have hleaves : s₀.app.link.Leaves (given.flatMap fun c : Command => c.toPacket.bytes) := by
    rw [hlink]
    exact ⟨Nat.zero_le _, Or.inl ⟨rfl, (bytesOf_carry hcarry).symm⟩⟩
  refine ⟨given, ⟨_, _, rfl, ?_, hleaves⟩, ?_, ⟨[], ?_, ?_⟩, ?_, ⟨_, htracks, rfl, ?_, ?_, ?_⟩,
    hsettled, rfl⟩
  · rwa [hb.down]
  · rw [hlink]
    exact hcarry
  · rw [hb.receiver]
    rfl
  · rw [hb.up]
    rfl
  · rw [hb.receiver]
    rfl
  · rw [hb.receiver]
    exact hin
  · exact List.nil_suffix
  · exact List.nil_suffix

namespace Inv

/-! ### What is heard -/

/-- What was put into the queue of the producer was said. -/
theorem heard (hi : Inv es s₀ h given s) :
    ∃ heard : List Saying, s.receiver.content = heard.map Saying.frame ∧ heard.Sublist h.sayings ∧
      ((∀ arrival ∈ s.receiver.arrivals, arrival.2 < 1024) → heard <+: h.sayings) := by
  obtain ⟨steps, hrun, hstream⟩ := hi.received
  obtain ⟨hsub, hfirst⟩ := content_of_sayings hrun ⟨s.up, hstream⟩
  exact exists_heard hsub hfirst

/-- So was what is in one of its parts. -/
theorem heard_of_infix (hi : Inv es s₀ h given s) {batch : List (List Byte)}
    (hbatch : batch <:+: s.receiver.content) :
    ∃ heard : List Saying, batch = heard.map Saying.frame ∧ heard.Sublist h.sayings := by
  obtain ⟨all, hall, hsub, -⟩ := hi.heard
  rw [hall] at hbatch
  obtain ⟨heard, hheard, rfl⟩ := List.sublist_map_iff.mp hbatch.sublist
  exact ⟨heard, rfl, hheard.trans hsub⟩

/-- A record that was dispatched says of a variable what a request has found. -/
theorem reported (hi : Inv es s₀ h given s) {record : LiveDataPacket}
    (hrecord : record ∈ (s.receiver.dispatched.filterMap liveDataEntry).flatten) :
    ∃ vars ∈ foundBy es h.effects s₀.board.vars, ∃ e ∈ es, e.ReportedBy vars record := by
  obtain ⟨ahead, lost, -, hobeys, -⟩ := hi.obeys
  obtain ⟨records, hrecords, hrecord⟩ := List.mem_flatten.mp hrecord
  obtain ⟨packet, hpacket, hentry⟩ := List.mem_filterMap.mp hrecords
  obtain ⟨heard, hheard, hsub⟩ := hi.heard_of_infix s.receiver.dispatched_prefix.isInfix
  rw [hheard] at hpacket
  obtain ⟨saying, hsaying, rfl⟩ := List.mem_map.mp hpacket
  rw [(entries_frame saying).2.2] at hentry
  have hmem : records ∈ h.sayings.filterMap Saying.records :=
    List.mem_filterMap.mpr ⟨saying, hsub.subset hsaying, hentry⟩
  obtain ⟨vars, hvars, hall⟩ := exists_of_forall₂ hobeys.responses hmem
  obtain ⟨e, he, hreported⟩ := exists_of_forall₂ hall hrecord
  exact ⟨vars, hvars, e, he, hreported⟩

/-! ### What a step adds -/

/-- The invariant after a step, with what the step adds: the program's writes are in their order
among the effects, and the commands are those that the user gives, if the keys fit a byte. -/
def Next (es : List Entry) (s₀ : Loop) (h : History) (given : List Command) (e : Step)
    (s t : Loop) : Prop :=
  ∃ effects more new, Inv es s₀ (h.extend effects more) (given ++ new) t ∧
    effects.filterMap Effect.assign? = e.assigned ∧
    ((∀ e ∈ es, Application.lowKey e.key = e.key) → new = commands e s)

theorem next (hi : Inv es s₀ h given t) (hassigned : e.assigned = [])
    (hcommands : commands e s = []) : Next es s₀ h given e s t := by
  refine ⟨[], [], [], ?_, hassigned.symm, fun _ => hcommands.symm⟩
  rwa [h.extend_nil, List.append_nil]

/-- The program on the board does something. -/
theorem board {op : Op} (hb : Begins es s₀) (hi : Inv es s₀ h given s) (hlocal : op.Local)
    (hstep : step (.board op) s = some t) : Next es s₀ h given (.board op) s t := by
  obtain ⟨v, hrun, hstep⟩ := Option.bind_eq_some_iff.mp hstep
  cases hstep
  obtain ⟨ahead, lost, rfl, hobeys, hleaves⟩ := hi.obeys
  obtain ⟨effects, rest, more, rfl, hassigned, hv⟩ := hobeys.op hb.keys hb.types hlocal hrun
  -- what is new in the trace are the frames of what was said in this step
  have hframes : (sentFrames v.trace).drop (sentFrames s.board.trace).length =
      more.map Saying.frame := by
    rw [hv.said, hobeys.said, History.extend, List.map_append, ← List.append_assoc, List.drop_left]
  refine ⟨effects, more, [], ⟨⟨rest, lost, ?_, hv, hleaves⟩, ?_, ?_, hi.batch, hi.app, hi.settled,
    hi.cerr⟩, hassigned, fun _ => rfl⟩
  · rw [List.append_nil, History.extend, List.filterMap_append, List.append_assoc]
  · rw [List.append_nil]
    exact hi.carry
  · obtain ⟨steps, hreceiver, hstream⟩ := hi.received
    refine ⟨steps, hreceiver, ?_⟩
    rw [hframes, ← List.append_assoc, hstream, History.extend, List.map_append, List.flatten_append]

/-- Bytes come in at the firmware. -/
theorem arrive {n : ℕ} (hi : Inv es s₀ h given s) (hstep : step (.arrive n) s = some t) :
    Inv es s₀ h given t := by
  cases hstep
  obtain ⟨ahead, lost, hgiven, hobeys, hleaves⟩ := hi.obeys
  refine { hi with obeys := ⟨ahead, lost, hgiven, Obeys.feed ?_, hleaves⟩ }
  rwa [← List.append_assoc, List.take_append_drop]

/-- The receive side of the producer goes on by itself. -/
theorem receive {e' : Receiver.Step} {receiver : Receiver} {up : List Byte}
    (hi : Inv es s₀ h given s) (hup : s.up = e'.received ++ up)
    (hdispatched : receiver.dispatched = s.receiver.dispatched) (hbatch : receiver.batch = [])
    (hstep : Receiver.step e' s.receiver = some receiver) :
    Inv es s₀ h given { s with receiver := receiver, up := up } := by
  obtain ⟨steps, hrun, hstream⟩ := hi.received
  refine { hi with
    received := ⟨steps ++ [e'], run_append.mpr ⟨_, hrun, run_cons.mpr ⟨_, hstep, rfl⟩⟩, ?_⟩
    batch := hbatch
    app := ?_ }
  · rw [List.flatMap_append, List.flatMap_singleton, List.append_assoc, ← hup, hstream]
  · show ∃ l, _ ∧ _ ∧ s.app.InSession (some receiver.dispatched) ∧ _
    rw [hdispatched]
    exact hi.app

/-- What a calm step of the application does to the commands. -/
theorem advance {e' : Application.Step} {app : Application} {l : Application.Log}
    (hi : Inv es s₀ h given s) (hs : s.app.Tracks l) (hcalm : e'.Calm)
    (hstep : Application.step e' s.app = some app) :
    ∃ new written, app.link.port = s.app.link.port ++ written ∧
      Carry app.link.content (given ++ new) ∧
      (∃ ahead lost, given ++ new = h.effects.filterMap Effect.command? ++ ahead ∧
        Obeys es s₀.board h ahead (s.down ++ Transmitter.bytesOf written ++ lost) s.board ∧
        app.link.Leaves lost) ∧
      (e'.Low → new = e'.commands (LiveDataPanel.first l.records)) ∧
      ((∀ k, e' ≠ .complete k false) → written = []) := by
  obtain ⟨ahead, lost, hgiven, hobeys, hleaves⟩ := hi.obeys
  rcases Application.step_link hs hcalm hstep with ⟨move, hnone, hmove, hcommands, hsame⟩ |
    ⟨commands, packets, hpackets, hlink, hcommands⟩
  · obtain ⟨written, lost', hport, hcontent, rfl, hleaves', hquiet⟩ := hleaves.step hnone hmove
    refine ⟨[], written, hport, ?_, ⟨ahead, lost', ?_, ?_, hleaves'⟩, fun _ => hcommands.symm,
      fun hnot => hquiet fun k hk => hnot k (hsame k false hk)⟩
    · rw [hcontent, List.append_nil]
      exact hi.carry
    · rw [List.append_nil, hgiven]
    · rwa [List.append_assoc]
  · refine ⟨commands, [], ?_, ?_, ⟨ahead ++ commands, lost ++ Transmitter.bytesOf packets, ?_, ?_, ?_⟩,
      hcommands, fun _ => rfl⟩
    · rw [hlink, List.append_nil]
    · have hcontent : app.link.content = s.app.link.content ++ packets := by
        rw [hlink]
        exact congrArg (s.app.link.port ++ ·) (Transmitter.unwritten_append hleaves.posts packets)
          |>.trans (List.append_assoc ..).symm
      rw [hcontent, Carry, List.map_append, List.map_append, hi.carry, hpackets]
    · rw [hgiven, List.append_assoc]
    · rw [bytesOf_carry hpackets, ← List.append_assoc]
      exact (List.append_nil s.down).symm ▸ hobeys.append commands
    · rw [hlink]
      exact hleaves.append packets

/-- **The control panel** can always go on with its frame. -/
theorem frame (hi : Inv es s₀ h given s) (hphase : s.app.phase = .control) :
    ∃ app, step .frame s = some { s with
        receiver := { s.receiver with
          batch := [], rxQueue := [], dispatched := s.receiver.dispatched ++ s.receiver.rxQueue }
        app := app } ∧
      (∀ t, step .frame s = some t → Inv es s₀ h given t) ∧
      app.phase = .sending ∧ app.link = { s.app.link with sending := some 0 } := by
  obtain ⟨l, hs, hattached, hin, halerts, hrecords⟩ := hi.app
  have hbatch : s.receiver.rxQueue <:+: s.receiver.content :=
    ⟨s.receiver.dispatched ++ s.receiver.batch, [], List.append_nil _⟩
  -- only sayings are in the queue, and those go through
  obtain ⟨sayings, hsayings, -⟩ := hi.heard_of_infix hbatch
  obtain ⟨app, happ, hcerr, hphase', hlink⟩ := exists_frame hs hin hi.settled hphase sayings
  rw [← hsayings] at happ
  have hreceiver := run_produce hi.batch
  have hcalm : (Application.Step.control false false s.receiver.rxQueue).Calm := rfl
  obtain ⟨new, written, hport, hcarry, hobeys, hnew, hwritten⟩ := hi.advance hs hcalm happ
  obtain rfl := hnew trivial
  obtain rfl := hwritten fun _ => nofun
  have hs' := hs.step hin hattached.symm happ
  have hlog : Application.stepLog l (.control false false s.receiver.rxQueue) =
      l.dispatch s.receiver.rxQueue := if_pos hattached
  rw [hlog] at hs'
  have hstep : step .frame s = some { s with
      receiver := { s.receiver with
        batch := [], rxQueue := [], dispatched := s.receiver.dispatched ++ s.receiver.rxQueue }
      app := app } := by
    rw [step, hreceiver]
    simp only [happ]
    rfl
  refine ⟨app, hstep, fun t ht => ?_, hphase', hlink⟩
  obtain rfl := Option.some.inj (hstep.symm.trans ht)
  refine ⟨?_, ?_, ?_, rfl, ⟨_, hs', hattached, hin.step happ, ?_, ?_⟩, hi.settled.step happ,
    hcerr.trans hi.cerr⟩
  · simpa only [List.append_nil, Transmitter.bytesOf, List.flatMap_nil, Application.Step.commands]
      using hobeys
  · simpa only [List.append_nil, Application.Step.commands] using hcarry
  · obtain ⟨steps, hrun, hstream⟩ := hi.received
    refine ⟨steps ++ .swap :: List.replicate s.receiver.rxQueue.length .dispatch,
      run_append.mpr ⟨_, hrun, hreceiver⟩, ?_⟩
    have hnone : (List.replicate s.receiver.rxQueue.length Receiver.Step.dispatch).flatMap
        Receiver.Step.received = [] := List.flatMap_eq_nil_iff.mpr fun e he => by
      rw [List.eq_of_mem_replicate he]
      rfl
    rw [List.flatMap_append, List.flatMap_cons, hnone, List.append_nil]
    exact (List.append_nil _).symm ▸ hstream
  · obtain ⟨front, hfront⟩ := halerts
    refine ⟨front, ?_⟩
    rw [List.filterMap_append, ← hfront, List.append_assoc]
    rfl
  · obtain ⟨front, hfront⟩ := hrecords
    refine ⟨front, ?_⟩
    rw [List.filterMap_append, List.flatten_append, ← hfront, List.append_assoc]
    rfl

/-! ### The other steps of the application -/

theorem listing_eq {l : Application.Log} (hs : s.app.Tracks l) :
    s.listing = LiveDataPanel.first l.records := by
  obtain ⟨telemetry, alerts, responses, shown, hserves, -, -, hmap, hrecords, -⟩ := hs.panels
  funext key
  rw [listing, hserves.takeIn s.app.liveDataPanel, ← hrecords]
  exact congrFun (LiveDataPanel.listed_foldl responses.flatten hmap) key

/-- If the keys of the variables fit a byte, so do those of the entries. -/
theorem low {e' : Application.Step} {app : Application} {l : Application.Log}
    (hi : Inv es s₀ h given s) (hs : s.app.Tracks l)
    (hrecords : l.records <:+ (s.receiver.dispatched.filterMap liveDataEntry).flatten)
    (hlow : ∀ e ∈ es, Application.lowKey e.key = e.key)
    (hstep : Application.step e' s.app = some app) : e'.Low := by
  cases e' with
  | liveData actions refresh =>
    intro a ha
    rw [Application.step] at hstep
    split_ifs at hstep with hphase
    have hfine := (hs.liveData hphase).1.mp ⟨app, hstep⟩ a ha
    cases a with
    | edit key value => trivial
    | apply key value junk =>
      -- the entry was reported by the firmware, so its key is that of a variable
      obtain ⟨it, -, hit, -⟩ := hfine
      obtain ⟨hmem, hkey⟩ := LiveDataPanel.mem_of_first hit
      obtain ⟨vars, -, e, he, hreported⟩ := hi.reported (hrecords.subset hmem)
      have hsame : key = e.key := hkey.symm.trans hreported.key
      rw [hsame]
      exact hlow e he
  | _ => trivial

/-- Nothing is printed in the other panels. -/
theorem cerr_step {e' : Application.Step} {a b : Application} (hallowed : (Step.app e').Allowed)
    {l : Application.Log} (hs : a.Tracks l) (hstep : Application.step e' a = some b) :
    b.cerr = a.cerr := by
  have hlink : ∀ {move : Transmitter.Step Numbered} {a : Application},
      a.stepLink move = some b → b.cerr = a.cerr := by
    intro move a hmove
    obtain ⟨link, -, hmove⟩ := Option.bind_eq_some_iff.mp hmove
    cases hmove
    rfl
  obtain ⟨telemetry, alerts, responses, shown, hserves, -⟩ := hs.panels
  cases e' with
  | control => exact hallowed.elim
  | post =>
    rw [Application.step] at hstep
    split_ifs at hstep
    exact hlink hstep
  | clear =>
    rw [Application.step] at hstep
    split_ifs at hstep
    exact hlink (a := { a with phase := .telemetry }) hstep
  | telemetry input =>
    rw [Application.step] at hstep
    split_ifs at hstep
    obtain ⟨⟨panel, h⟩, hrender, hstep⟩ := Option.bind_eq_some_iff.mp hstep
    obtain rfl := hserves.render_telemetry hrender
    cases hstep
    rfl
  | alert clear =>
    rw [Application.step] at hstep
    split_ifs at hstep
    rw [hserves.render_alert clear] at hstep
    cases hstep
    rfl
  | liveData actions refresh =>
    rw [Application.step] at hstep
    split_ifs at hstep
    rw [Application.renderLiveData_eq (hserves.takeIn a.liveDataPanel),
      Option.map_eq_some_iff] at hstep
    obtain ⟨y, -, rfl⟩ := hstep
    rfl
  | handle | complete => exact hlink hstep

/-- The application does something else. -/
theorem app_step {e' : Application.Step} (hi : Inv es s₀ h given s)
    (hallowed : (Step.app e').Allowed) (hstep : step (.app e') s = some t) :
    Next es s₀ h given (.app e') s t := by
  obtain ⟨app, happ, hstep⟩ := Option.bind_eq_some_iff.mp hstep
  cases hstep
  obtain ⟨l, hs, hattached, hin, halerts, hrecords⟩ := hi.app
  have hcalm : e'.Calm := by
    cases e' with
    | control => exact hallowed.elim
    | _ => trivial
  obtain ⟨new, written, hport, hcarry, hobeys, hnew, -⟩ := hi.advance hs hcalm happ
  have hwritten : app.link.port.drop s.app.link.port.length = written := by
    rw [hport, List.drop_left]
  have hsession : Application.stepSession (some s.receiver.dispatched) e' =
      some s.receiver.dispatched := by
    cases e' with
    | control => exact hallowed.elim
    | _ => rfl
  have hlog : (Application.stepLog l e').attached = true ∧
      (Application.stepLog l e').alerts <:+ l.alerts ∧
      (Application.stepLog l e').records <:+ l.records := by
    cases e' with
    | control => exact hallowed.elim
    | alert clear =>
      cases clear with
      | true => exact ⟨hattached, List.nil_suffix, List.suffix_rfl⟩
      | false => exact ⟨hattached, List.suffix_rfl, List.suffix_rfl⟩
    | liveData actions refresh =>
      cases refresh with
      | true => exact ⟨hattached, List.suffix_rfl, List.nil_suffix⟩
      | false => exact ⟨hattached, List.suffix_rfl, List.suffix_rfl⟩
    | _ => exact ⟨hattached, List.suffix_rfl, List.suffix_rfl⟩
  refine ⟨[], [], new, ⟨?_, hcarry, ?_, hi.batch, ⟨_, hs.step hin hattached.symm happ, hlog.1,
    hsession ▸ hin.step happ, hlog.2.1.trans halerts, hlog.2.2.trans hrecords⟩,
    hi.settled.step happ, (cerr_step hallowed hs happ).trans hi.cerr⟩, rfl, fun hlow => ?_⟩
  · rw [hwritten, h.extend_nil]
    exact hobeys
  · rw [h.extend_nil]
    exact hi.received
  · rw [hnew (hi.low hs hrecords hlow happ), commands, listing_eq hs]

/-- A write fails. -/
theorem broken {k m : ℕ} (hi : Inv es s₀ h given s) (hstep : step (.broken k m) s = some t) :
    Inv es s₀ h given t := by
  obtain ⟨packet, hpacket, hstep⟩ := Option.bind_eq_some_iff.mp hstep
  obtain ⟨app, happ, hstep⟩ := Option.bind_eq_some_iff.mp hstep
  cases hstep
  obtain ⟨l, hs, hattached, hin, hshown⟩ := hi.app
  obtain ⟨link, hlink, happ'⟩ := Option.bind_eq_some_iff.mp happ
  obtain ⟨ahead, lost, hgiven, hobeys, hleaves⟩ := hi.obeys
  obtain ⟨-, hcontent, lost', rfl, hleaves'⟩ := hleaves.broken (m := m) hpacket hlink
  have happlink : app.link = link := by
    cases happ'
    rfl
  have hallowed : (Step.app (.complete k true)).Allowed := trivial
  rw [← happlink] at hcontent hleaves'
  refine ⟨⟨ahead, lost', hgiven, ?_, hleaves'⟩, ?_, hi.received, hi.batch,
    ⟨l, hs.step hin hattached.symm happ, hattached, hin.step happ, hshown⟩, hi.settled.step happ,
    (cerr_step hallowed hs happ).trans hi.cerr⟩
  · rwa [List.append_assoc]
  · rw [hcontent]
    exact hi.carry

/-! ### Steps and runs -/

/-- **What a step keeps, and what it adds.** -/
theorem step (hb : Begins es s₀) (hi : Inv es s₀ h given s) (hallowed : e.Allowed)
    (hstep : Loop.step e s = some t) : Next es s₀ h given e s t := by
  cases e with
  | board op => exact hi.board hb hallowed hstep
  | arrive n => exact (hi.arrive hstep).next rfl rfl
  | read n =>
    obtain ⟨receiver, hread, hstep⟩ := Option.bind_eq_some_iff.mp hstep
    cases hstep
    obtain ⟨hsame, hnone⟩ := receive_frame hread ⟨nofun, nofun⟩
    exact (hi.receive (List.take_append_drop n s.up).symm hsame (hnone.trans hi.batch) hread).next rfl rfl
  | complete =>
    obtain ⟨receiver, hread, hstep⟩ := Option.bind_eq_some_iff.mp hstep
    cases hstep
    obtain ⟨hsame, hnone⟩ := receive_frame hread ⟨nofun, nofun⟩
    exact (hi.receive rfl hsame (hnone.trans hi.batch) hread).next rfl rfl
  | fail =>
    obtain ⟨receiver, hread, hstep⟩ := Option.bind_eq_some_iff.mp hstep
    cases hstep
    obtain ⟨hsame, hnone⟩ := receive_frame hread ⟨nofun, nofun⟩
    exact (hi.receive rfl hsame (hnone.trans hi.batch) hread).next rfl rfl
  | frame =>
    obtain ⟨receiver, -, hframe⟩ := Option.bind_eq_some_iff.mp hstep
    obtain ⟨app, happ, -⟩ := Option.bind_eq_some_iff.mp hframe
    rw [Application.step] at happ
    split_ifs at happ with hphase
    obtain ⟨-, -, hkept, -⟩ := hi.frame hphase
    exact (hkept t hstep).next rfl rfl
  | app e' => exact hi.app_step hallowed hstep
  | broken k m => exact (hi.broken hstep).next rfl rfl

/-- A run, by induction on its steps. -/
theorem run (hb : Begins es s₀) : ∀ {steps : List Step} {h : History} {given : List Command}
    {s t : Loop}, Inv es s₀ h given s → (∀ e ∈ steps, e.Allowed) →
    Runs.run Loop.step steps s = some t →
    ∃ effects more new, Inv es s₀ (h.extend effects more) (given ++ new) t ∧
      effects.filterMap Effect.assign? = steps.flatMap Step.assigned ∧
      ((∀ e ∈ es, Application.lowKey e.key = e.key) →
        new = outputs Loop.step commands steps s) := by
  intro steps
  induction steps with
  | nil =>
    intro h given s t hi _ hrun
    obtain rfl := run_nil.mp hrun
    refine ⟨[], [], [], ?_, rfl, fun _ => rfl⟩
    rwa [h.extend_nil, List.append_nil]
  | cons e steps ih =>
    intro h given s t hi hallowed hrun
    obtain ⟨r, hfirst, hrest⟩ := run_cons.mp hrun
    obtain ⟨he, hothers⟩ := List.forall_mem_cons.mp hallowed
    obtain ⟨effects, more, new, hr, hassigned, hnew⟩ := hi.step hb he hfirst
    obtain ⟨effects', more', new', ht, hassigned', hnew'⟩ := ih hr hothers hrest
    rw [History.extend_extend, List.append_assoc] at ht
    refine ⟨effects ++ effects', more ++ more', new ++ new', ht, ?_, fun hlow => ?_⟩
    · rw [List.filterMap_append, hassigned, hassigned', List.flatMap_cons]
    · rw [outputs_cons hfirst, hnew hlow, hnew' hlow]

end Inv

/-- Between any two steps of a session. -/
theorem Begins.run (hb : Begins es s₀) {steps : List Step} (hallowed : ∀ e ∈ steps, e.Allowed)
    (hrun : Runs.run step steps s₀ = some s) :
    ∃ h given new, Carry s₀.app.link.content given ∧ Inv es s₀ h (given ++ new) s ∧
      h.effects.filterMap Effect.assign? = steps.flatMap Step.assigned ∧
      ((∀ e ∈ es, Application.lowKey e.key = e.key) →
        new = outputs step commands steps s₀) := by
  obtain ⟨given, hi⟩ := hb.inv
  obtain ⟨effects, more, new, hs, hassigned, hnew⟩ := hi.run hb hallowed hrun
  exact ⟨_, given, new, hi.carry, hs, hassigned, hnew⟩

/-! ## What holds in every session -/

/-- A firmware with one variable, and a user who has just attached. -/
def oneSession : Loop where
  board := oneVariable
  up := []
  receiver := .start
  app := (Application.step (.control true true []) .main).getD .main
  down := []

theorem begins_oneSession : Begins [⟨0, .uint32, 0⟩] oneSession where
  idle := ⟨reachable_oneVariable, rfl, rfl⟩
  table := registered_oneVariable
  keys := by decide
  types := by decide
  up := rfl
  receiver := rfl
  down := rfl
  attached := ⟨[], .main, rfl, rfl, rfl⟩

/-- The request comes in at the firmware, whose program has written to its variable; the answer
comes in at the host, and is shown. -/
def firstAnswer : List Step :=
  [.app .post, .app .clear, .app .handle, .app (.complete 0 false), .arrive 16,
      .board (.assign 0 9), .board (.update openTransport), .read 400] ++
    List.replicate 6 .complete ++
    [.app (.telemetry Application.noInput), .app (.alert false), .app (.liveData [] false), .frame,
      .app .clear, .app (.telemetry Application.noInput), .app (.alert false),
      .app (.liveData [.apply 0 5 0] false)]

theorem allowed_firstAnswer : ∀ e ∈ firstAnswer, e.Allowed := by
  simp [firstAnswer, Step.Allowed, Op.Local, Op.Allowed]

/-- In the end all has come in, and was dispatched. -/
def Rests (s : Loop) : Prop :=
  (∀ arrival ∈ s.receiver.arrivals, arrival.2 < 1024) ∧ s.up = [] ∧
    (0 : Byte) ∉ s.receiver.readBuffer ∧ s.receiver.rxQueue = []

instance (s : Loop) : Decidable (Rests s) := inferInstanceAs (Decidable (_ ∧ _))

theorem exists_firstAnswer : ∃ s, run step firstAnswer oneSession = some s ∧
    s.app.phase = .control ∧ s.Rests ∧
      s.app.liveDataPanel.liveDataMap 0 = some ⟨0, ValueType.uint32.bits 16, 9⟩ := by
  have hrun : ((run step firstAnswer oneSession).map fun s => decide (s.app.phase = .control ∧
      s.Rests ∧ s.app.liveDataPanel.liveDataMap 0 = some ⟨0, ValueType.uint32.bits 16, 9⟩)) =
      some true := by decide +kernel
  obtain ⟨s, hs, hend⟩ := Option.map_eq_some_iff.mp hrun
  exact ⟨s, hs, of_decide_eq_true hend⟩

theorem exists_app_iff {e' : Application.Step} :
    (∃ t, step (.app e') s = some t) ↔ ∃ app, Application.step e' s.app = some app := by
  constructor
  · rintro ⟨t, hstep⟩
    obtain ⟨app, happ, -⟩ := Option.bind_eq_some_iff.mp hstep
    exact ⟨app, happ⟩
  · rintro ⟨app, happ⟩
    exact ⟨_, Option.bind_eq_some_iff.mpr ⟨app, happ, rfl⟩⟩

/-- The loop of `send_data` goes on. -/
theorem exists_sending {app : Application} (hsettled : app.Settled) (hphase : app.phase = .sending) :
    ∃ e ∈ [Application.Step.post, .clear], ∃ app', Application.step e app = some app' := by
  cases hsending : app.link.sending with
  | none => exact absurd hphase (hsettled.mp hsending)
  | some i =>
    by_cases hi : i < app.link.txData.length
    · obtain ⟨link, hpost⟩ : ∃ link, Transmitter.step .post app.link = some link :=
        ⟨_, Option.bind_eq_some_iff.mpr ⟨i, hsending,
          Option.bind_eq_some_iff.mpr ⟨_, List.getElem?_eq_getElem hi, rfl⟩⟩⟩
      refine ⟨.post, List.mem_cons_self, { app with link := link }, ?_⟩
      rw [Application.step, if_pos hphase]
      exact Option.bind_eq_some_iff.mpr ⟨link, hpost, rfl⟩
    · obtain ⟨link, hclear⟩ : ∃ link, Transmitter.step .clear app.link = some link :=
        ⟨_, Option.bind_eq_some_iff.mpr ⟨i, hsending, if_neg hi⟩⟩
      refine ⟨.clear, List.mem_cons_of_mem _ List.mem_cons_self,
        { app with phase := .telemetry, link := link }, ?_⟩
      rw [Application.step, if_pos hphase]
      exact Option.bind_eq_some_iff.mpr ⟨link, hclear, rfl⟩

/-- **Nothing goes wrong.** In every run of the two programs, whatever the order of the steps,
the dispatcher prints nothing to `std::cerr`; the program on the board can always go on, and so can
the handlers on the thread of the port; and the thread of the user interface can always go on with
its frame, unless the user does to an entry of the live data panel what it does not allow. -/
theorem goes_on (hb : Begins es s₀) {steps : List Step} (hallowed : ∀ e ∈ steps, e.Allowed)
    (hrun : run step steps s₀ = some s) :
    s.app.cerr = s₀.app.cerr ∧
      (∀ op : Op, op.Local → ∃ t, step (.board op) s = some t) ∧
      (s.app.link.posted ≠ [] → ∃ t, step (.app .handle) s = some t) ∧
      (∀ k error, k < s.app.link.writes.length →
        ∃ t, step (.app (.complete k error)) s = some t) ∧
      match s.app.phase with
      | .control => ∃ t, step .frame s = some t
      | .sending => ∃ e ∈ [Application.Step.post, .clear], ∃ t, step (.app e) s = some t
      | .telemetry => ∀ input, ∃ t, step (.app (.telemetry input)) s = some t
      | .alert => ∀ clear, ∃ t, step (.app (.alert clear)) s = some t
      | .liveData => ∀ actions refresh, (∃ t, step (.app (.liveData actions refresh)) s = some t) ↔
          ∀ a ∈ actions, a.Fine s.listing := by
  obtain ⟨h, given, new, -, hi, -⟩ := hb.run hallowed hrun
  obtain ⟨l, hs, hattached, hin, -⟩ := hi.app
  obtain ⟨ahead, lost, -, hobeys, hleaves⟩ := hi.obeys
  have hport := Transmitter.exists_step (hleaves.state.imp And.left id)
  refine ⟨hi.cerr, fun op hlocal => ?_, fun hposted => ?_, fun k error hk => ?_, ?_⟩
  · obtain ⟨v, -, hv, -⟩ := hobeys.sound.run hlocal.1
    exact ⟨_, Option.bind_eq_some_iff.mpr ⟨v, hv, rfl⟩⟩
  · obtain ⟨data, rest, hcons⟩ := List.exists_cons_of_ne_nil hposted
    obtain ⟨link, hlink⟩ := hport.1 data rest hcons
    exact exists_app_iff.mpr ⟨_, Option.bind_eq_some_iff.mpr ⟨link, hlink, rfl⟩⟩
  · obtain ⟨link, hlink⟩ := hport.2 k _ error (List.getElem?_eq_getElem hk)
    exact exists_app_iff.mpr ⟨_, Option.bind_eq_some_iff.mpr ⟨link, hlink, rfl⟩⟩
  · split
    · next hphase =>
      obtain ⟨app, hstep, -⟩ := hi.frame hphase
      exact ⟨_, hstep⟩
    · next hphase =>
      obtain ⟨e, he, app, happ⟩ := exists_sending hi.settled hphase
      exact ⟨e, he, exists_app_iff.mpr ⟨app, happ⟩⟩
    · next hphase =>
      intro input
      obtain ⟨app, happ, -⟩ := hin.telemetry hphase input
      exact exists_app_iff.mpr ⟨app, happ⟩
    · next hphase =>
      intro clear
      obtain ⟨app, happ, -⟩ := hs.alert hphase clear
      exact exists_app_iff.mpr ⟨app, happ⟩
    · next hphase =>
      intro actions refresh
      rw [exists_app_iff, Inv.listing_eq hs, Application.step, if_pos hphase]
      exact (hs.liveData hphase).1

/-- The next frame begins. -/
theorem goes_on_answer : ∃ s, run step firstAnswer oneSession = some s ∧ s.app.cerr = [] ∧
    ∃ t, step .frame s = some t := by
  obtain ⟨s, hrun, hphase, -⟩ := exists_firstAnswer
  obtain ⟨hcerr, -, -, -, hgo⟩ := goes_on begins_oneSession allowed_firstAnswer hrun
  rw [hphase] at hgo
  exact ⟨s, hrun, hcerr, hgo⟩

/-- **Linearisation.** In every run of the two programs there is one order of the commands that
were carried out and the writes of the program on the board, such that the variables are as this
order of effects leaves them. The commands are the first ones of those that the dispatcher was
given, and the writes are those of the program, each in their own order. When the session began
some commands were there; the others, if the keys of the variables fit a byte, are what the user
has applied or asked for, one for one. Nothing is ahead any more when everything was written and
has come in, and the firmware is done with it. -/
theorem linearised (hb : Begins es s₀) {steps : List Step} (hallowed : ∀ e ∈ steps, e.Allowed)
    (hrun : run step steps s₀ = some s) :
    ∃ effects ahead given new,
      s.board.vars = after es effects s₀.board.vars ∧
      effects.filterMap Effect.assign? = steps.flatMap Step.assigned ∧
      effects.filterMap Effect.command? ++ ahead = given ++ new ∧
      Carry s₀.app.link.content given ∧ Carry s.app.link.content (given ++ new) ∧
      ((∀ e ∈ es, Application.lowKey e.key = e.key) → new = outputs step commands steps s₀) ∧
      (s.app.link.unwritten = [] → s.down = [] → Quiet s.board → ahead = []) := by
  obtain ⟨h, given, new, hstart, hi, hassigned, hnew⟩ := hb.run hallowed hrun
  obtain ⟨ahead, lost, hgiven, hobeys, hleaves⟩ := hi.obeys
  refine ⟨h.effects, ahead, given, new, hobeys.vars, hassigned, hgiven.symm, hstart, hi.carry, hnew,
    fun hunwritten hdown hquiet => ?_⟩
  rw [hdown, hleaves.lost_eq_nil hunwritten] at hobeys
  exact hobeys.ahead_of_quiet hquiet

/-- There is one write, and a command that is ahead still comes in. -/
theorem linearised_answer : ∃ s effects ahead, run step firstAnswer oneSession = some s ∧
    s.board.vars = after [⟨0, .uint32, 0⟩] effects oneSession.board.vars ∧
    effects.filterMap Effect.assign? = [(0, 9)] ∧
    Carry s.app.link.content (effects.filterMap Effect.command? ++ ahead) := by
  obtain ⟨s, hrun, -⟩ := exists_firstAnswer
  obtain ⟨effects, ahead, given, new, hvars, hassigned, hcommands, -, hcarry, -⟩ :=
    linearised begins_oneSession allowed_firstAnswer hrun
  exact ⟨s, effects, ahead, hrun, hvars, hassigned, hcommands ▸ hcarry⟩

/-- **What is listed was true.** In every run of the two programs, each entry of the live data
panel is that of a variable, under its key and with its type, and has a value that the variable
had at some moment, in the order of the effects that has made the variables what they are. -/
theorem truthful (hb : Begins es s₀) {steps : List Step} (hallowed : ∀ e ∈ steps, e.Allowed)
    (hrun : run step steps s₀ = some s) :
    ∃ effects ahead,
      s.board.vars = after es effects s₀.board.vars ∧
      effects.filterMap Effect.assign? = steps.flatMap Step.assigned ∧
      Carry s.app.link.content (effects.filterMap Effect.command? ++ ahead) ∧
      ∀ key it, s.app.liveDataPanel.liveDataMap key = some it → ∃ e ∈ es, e.key = key ∧
        ∃ k, e.ReportedBy (after es (effects.take k) s₀.board.vars) it := by
  obtain ⟨h, given, new, -, hi, hassigned, -⟩ := hb.run hallowed hrun
  obtain ⟨ahead, lost, hgiven, hobeys, -⟩ := hi.obeys
  refine ⟨h.effects, ahead, hobeys.vars, hassigned, hgiven ▸ hi.carry, fun key it hit => ?_⟩
  obtain ⟨l, hs, -, -, -, hrecords⟩ := hi.app
  obtain ⟨telemetry, alerts, responses, shown, -, -, -, hmap, hshown, -⟩ := hs.panels
  rw [hmap] at hit
  obtain ⟨hfirst, hkey⟩ := LiveDataPanel.mem_of_first hit
  have hmem : it ∈ l.records := hshown ▸ List.mem_append_left _ hfirst
  obtain ⟨vars, hvars, e, he, hreported⟩ := hi.reported (hrecords.subset hmem)
  obtain ⟨k, rfl⟩ := exists_take_of_mem hvars
  exact ⟨e, he, hreported.key.symm.trans hkey, k, hreported⟩

/-- The variable had the value that is listed for it. -/
theorem truthful_answer : ∃ s effects, run step firstAnswer oneSession = some s ∧
    s.board.vars = after [⟨0, .uint32, 0⟩] effects oneSession.board.vars ∧
    ∃ k, after [⟨0, .uint32, 0⟩] (effects.take k) oneSession.board.vars 0 = 9 := by
  obtain ⟨s, hrun, -, -, hlisted⟩ := exists_firstAnswer
  obtain ⟨effects, ahead, hvars, -, -, htrue⟩ :=
    truthful begins_oneSession allowed_firstAnswer hrun
  obtain ⟨e, he, -, k, hreported⟩ := htrue 0 _ hlisted
  obtain rfl := List.mem_singleton.mp he
  exact ⟨s, effects, hrun, hvars, k, hreported.value.symm⟩

/-- What was dispatched was said; it is all of it, if the queue was never full, once all has come
in and was dispatched. -/
theorem Inv.dispatched (hi : Inv es s₀ h given s) :
    ∃ heard : List Saying, s.receiver.dispatched = heard.map Saying.frame ∧
      heard.Sublist h.sayings ∧
      ((∀ arrival ∈ s.receiver.arrivals, arrival.2 < 1024) → heard <+: h.sayings ∧
        (s.up = [] → (0 : Byte) ∉ s.receiver.readBuffer → s.receiver.rxQueue = [] →
          heard = h.sayings)) := by
  obtain ⟨steps, hrun, hstream⟩ := hi.received
  obtain ⟨hsub, hfirst⟩ := content_of_sayings hrun ⟨s.up, hstream⟩
  have hdispatched := s.receiver.dispatched_prefix
  obtain ⟨heard, hheard, hsublist, hfront⟩ := exists_heard (hdispatched.sublist.trans hsub)
    fun hspace => hdispatched.trans (hfirst hspace)
  refine ⟨heard, hheard, hsublist, fun hspace => ⟨hfront hspace, fun hup hdone hqueue => ?_⟩⟩
  rw [hup, List.append_nil] at hstream
  have hcontent := Receiver.content_run hrun hdone hspace
  -- all that was said is cut off, and none of it is left in the queue
  rw [hstream, readPackets_flatten _ (Saying.delimited_frames h.sayings), Receiver.content,
    hi.batch, hqueue, List.append_nil, List.append_nil, hheard] at hcontent
  refine (hfront hspace).eq_of_length ?_
  simpa only [List.length_map] using congrArg List.length hcontent

/-- **What is shown was said.** In every run of the two programs, between two frames, the panels
show what some of the sayings of the firmware say, in their order: the latest telemetry of each
key; the alerts, and for each key the first record, since the panel was last cleared. Sayings are
missing only if the queue of the producer was full, or they are still on their way; all have been
heard when all has come in and was dispatched. -/
theorem caught_up (hb : Begins es s₀) {steps : List Step} (hallowed : ∀ e ∈ steps, e.Allowed)
    (hrun : run step steps s₀ = some s) (hphase : s.app.phase = .control) :
    ∃ sayings heard : List Saying,
      sentFrames s.board.trace = sentFrames s₀.board.trace ++ sayings.map Saying.frame ∧
      heard.Sublist sayings ∧
      ((∀ arrival ∈ s.receiver.arrivals, arrival.2 < 1024) → heard <+: sayings ∧
        (s.up = [] → (0 : Byte) ∉ s.receiver.readBuffer → s.receiver.rxQueue = [] →
          heard = sayings)) ∧
      s.app.telemetryPanel.telemetryMap =
        TelemetryPanel.latest (heard.filterMap Saying.telemetry) ∧
      s.app.alertPanel.alerts <:+ heard.filterMap Saying.alertText ∧
      ∃ records, records <:+ (heard.filterMap Saying.records).flatten ∧
        s.app.liveDataPanel.liveDataMap = LiveDataPanel.first records := by
  obtain ⟨h, given, new, -, hi, -⟩ := hb.run hallowed hrun
  obtain ⟨ahead, lost, -, hobeys, -⟩ := hi.obeys
  obtain ⟨heard, hheard, hsub, hall⟩ := hi.dispatched
  obtain ⟨l, hs, -, hin, halerts, hrecords⟩ := hi.app
  obtain ⟨telemetry, -, hshown, hmap⟩ := hs.at_control hphase
  obtain ⟨-, hlatest⟩ := hin.drained (hphase ▸ trivial)
  obtain ⟨htelemetry, halertText, hresponses⟩ := entries_frames heard
  rw [Application.entriesOf, Option.getD_some, hheard, htelemetry] at hlatest
  rw [hheard, halertText, ← hshown] at halerts
  rw [hheard, hresponses] at hrecords
  exact ⟨h.sayings, heard, hobeys.said, hsub, hall, hlatest, halerts, l.records, hrecords, hmap⟩

/-- All that was said is shown. -/
theorem caught_up_answer : ∃ (s : Loop) (sayings : List Saying),
    run step firstAnswer oneSession = some s ∧
    sentFrames s.board.trace = sentFrames oneSession.board.trace ++ sayings.map Saying.frame ∧
    s.app.telemetryPanel.telemetryMap =
      TelemetryPanel.latest (sayings.filterMap Saying.telemetry) := by
  obtain ⟨s, hrun, hphase, ⟨hspace, hup, hdone, hqueue⟩, -⟩ := exists_firstAnswer
  obtain ⟨sayings, heard, hsaid, -, hall, htelemetry, -⟩ :=
    caught_up begins_oneSession allowed_firstAnswer hrun hphase
  obtain rfl := (hall hspace).2 hup hdone hqueue
  exact ⟨s, _, hrun, hsaid, htelemetry⟩

end Loop

end Houston
