import Houston.Polling
import Houston.Receiving

/-!
# Arrival chunking

An update reads a header when more than a header has arrived, and the rest of a
packet when all of it has. What it reads it takes from the front of what has arrived,
so the receiver is a `Polling.Reader`, and neither the split of a stream into arrivals
nor the polls in between have an effect on what is processed and sent.

* `receiver` — the firmware as a reader.
* `schedule_run` — a schedule of arrivals and updates is a run of the reader.
* `Reachable.quiet_of_endsWaiting` — a schedule that leaves too few bytes for a header has come
  to an end.
* `chunking` — two schedules of one stream that come to an end come to the same end.
-/

namespace Houston

open Relation Polling

variable {w : Firmware} {es : List Entry}

/-! ## The receiver as a reader -/

/-- One read of the receiver and all that follows from it. -/
inductive ReadStep : Firmware → Firmware → Prop where
  | header {w : Firmware} (hstatus : w.dashboard.packetStatus = .waiting)
      (hlen : 12 < w.incoming.length) : ReadStep w w.takeHeader
  | payload {w : Firmware} (hstatus : w.dashboard.packetStatus = .headerReceived)
      (hlen : payloadSize w.rxBuffer.data + 4 ≤ w.incoming.length) : ReadStep w w.takePayload

theorem read_feed {off n : ℕ} (h : n ≤ w.incoming.length) (bytes : List Byte) :
    (w.feed bytes).read off n = (w.read off n).feed bytes := by
  rw [Firmware.read, Firmware.read, Firmware.feed, Firmware.feed,
    List.take_append_of_le_length h, List.drop_append_of_le_length h]

theorem emit_feed (packet : List Byte) (w : Firmware) (bytes : List Byte) :
    (w.feed bytes).emit packet = (w.emit packet).feed bytes := rfl

theorem send_feed (c : Call) (w : Firmware) (bytes : List Byte) :
    (w.feed bytes).send c = (w.send c).feed bytes := by
  rw [Firmware.send, emit_feed, ← Firmware.send]

theorem setStatus_feed (status : DashboardPacketStatus) (w : Firmware) (bytes : List Byte) :
    (w.feed bytes).setStatus status = (w.setStatus status).feed bytes := rfl

theorem respond_feed (w : Firmware) (bytes : List Byte) :
    (w.feed bytes).respond = w.respond.feed bytes := by
  have htable : ∀ (table) (v : Firmware), (v.feed bytes).setTable table =
      (v.setTable table).feed bytes := fun _ _ => rfl
  have hfresh : (w.feed bytes).fresh = w.fresh := rfl
  have hfreshTable : (w.feed bytes).freshTable = w.freshTable := rfl
  rw [Firmware.respond, hfresh, hfreshTable, send_feed, htable, emit_feed, ← Firmware.respond]

theorem scan_feed (packet : LiveDataPacket) (rows : List Row) (w : Firmware) (bytes : List Byte) :
    (w.feed bytes).scan packet rows = (w.scan packet rows).feed bytes := by
  have hvars : (w.feed bytes).setVars (stored packet rows (w.feed bytes).vars) =
      (w.setVars (stored packet rows w.vars)).feed bytes := rfl
  rw [Firmware.scan, Firmware.scan, hvars, send_feed]
  split_ifs <;> rfl

theorem modify_feed (w : Firmware) (bytes : List Byte) :
    (w.feed bytes).modify = w.modify.feed bytes := by
  have hrecord : (w.feed bytes).record = w.record := rfl
  have hrows : (w.feed bytes).rows = w.rows := rfl
  rw [Firmware.modify, hrecord, hrows, send_feed, scan_feed, ← Firmware.modify]

theorem process_feed (w : Firmware) (bytes : List Byte) :
    (w.feed bytes).process = w.process.feed bytes := by
  have hheader : (w.feed bytes).header = w.header := rfl
  have hlog : (w.feed bytes).log = w.log.feed bytes := rfl
  rw [Firmware.process, Firmware.process, hheader, hlog, respond_feed, modify_feed]
  split_ifs <;> rfl

theorem takeHeader_feed (h : 12 ≤ w.incoming.length) (bytes : List Byte) :
    (w.feed bytes).takeHeader = w.takeHeader.feed bytes := by
  have hrx : ((w.read 0 12).feed bytes).rxBuffer = (w.read 0 12).rxBuffer := rfl
  simp only [Firmware.takeHeader, read_feed h, hrx, send_feed, setStatus_feed]
  split_ifs <;> rfl

theorem check_feed (w : Firmware) (bytes : List Byte) :
    (w.feed bytes).check = (w.check.1, w.check.2.feed bytes) := by
  have hrx : (w.feed bytes).rxBuffer = w.rxBuffer := rfl
  rw [Firmware.check, Firmware.check, Firmware.report, Firmware.report, hrx]
  simp only [send_feed]
  split_ifs <;> rfl

theorem received_feed (h : payloadSize w.rxBuffer.data + 4 ≤ w.incoming.length)
    (bytes : List Byte) :
    (w.feed bytes).received = (w.received.1, w.received.2.feed bytes) := by
  have hrx : (w.feed bytes).rxBuffer = w.rxBuffer := rfl
  have hload : (w.feed bytes).loadPayload = w.loadPayload.feed bytes := by
    rw [Firmware.loadPayload, hrx, read_feed h, setStatus_feed, ← Firmware.loadPayload]
  rw [Firmware.received, hload, check_feed, ← Firmware.received]

theorem takePayload_feed (h : payloadSize w.rxBuffer.data + 4 ≤ w.incoming.length)
    (bytes : List Byte) : (w.feed bytes).takePayload = w.takePayload.feed bytes := by
  simp only [Firmware.takePayload, received_feed h]
  split_ifs
  · exact process_feed _ bytes
  · rfl

/-- The receiver is in one state at a time. -/
theorem readStep_rightUnique : Relator.RightUnique ReadStep := by
  intro w v v' hv hv'
  cases hv with
  | header hstatus hlen =>
    cases hv' with
    | header => rfl
    | payload hstatus' => exact absurd (hstatus.symm.trans hstatus') (by decide)
  | payload hstatus hlen =>
    cases hv' with
    | header hstatus' => exact absurd (hstatus.symm.trans hstatus') (by decide)
    | payload => rfl

/-- **The firmware as a reader** of the bytes that arrive. -/
def receiver : Reader Firmware Byte where
  feed := Firmware.feed
  Step := ReadStep
  feed_nil w := by rw [Firmware.feed, List.append_nil]
  feed_append l m w := by rw [Firmware.feed, Firmware.feed, Firmware.feed, List.append_assoc]
  deterministic := readStep_rightUnique
  step_feed := by
    intro w v hstep bytes
    have hlonger : w.incoming.length ≤ (w.feed bytes).incoming.length := by
      rw [Firmware.feed, List.length_append]
      exact Nat.le_add_right _ _
    cases hstep with
    | header hstatus hlen =>
      rw [← takeHeader_feed (Nat.le_of_lt hlen)]
      exact .header hstatus (Nat.lt_of_lt_of_le hlen hlonger)
    | payload hstatus hlen =>
      rw [← takePayload_feed hlen]
      exact .payload hstatus (Nat.le_trans hlen hlonger)

/-! ## Schedules -/

/-- A part of a schedule. The transport of an update may report less than what has
arrived, as if the rest came later. -/
inductive Slot where
  | arrive (bytes : List Byte)
  | update (io : Transport)

namespace Slot

/-- What happens in a slot. -/
def op : Slot → Op
  | .arrive bytes => .arrive bytes
  | .update io => .update io

/-- The bytes that arrive in a slot. -/
def bytes : Slot → List Byte
  | .arrive bytes => bytes
  | .update _ => []

end Slot

/-- The stream that a schedule delivers. -/
def stream (slots : List Slot) : List Byte := slots.flatMap Slot.bytes

/-- Follow a schedule. -/
def runSchedule (slots : List Slot) (w : Firmware) : Option Firmware :=
  slots.foldlM (fun w slot => slot.op.run w) w

/-- An update is a poll: it makes at most one step of each kind. -/
theorem steps_update (w : Firmware) (io : Transport) : ReflTransGen ReadStep w (w.update io) := by
  have hfirst : ReflTransGen ReadStep w (w.afterHeader io) := by
    rw [Firmware.afterHeader]
    split_ifs with hready
    · obtain ⟨hstatus, hreport, hcount⟩ := hready
      exact .single (.header hstatus (Nat.lt_of_lt_of_le hcount (io.hasData_le _ _ hreport)))
    · exact .refl
  rw [Firmware.update]
  split_ifs with hready
  · obtain ⟨hstatus, hreport, hcount⟩ := hready
    exact hfirst.tail (.payload hstatus (Nat.le_trans hcount (io.hasData_le _ _ hreport)))
  · exact hfirst

/-- **A schedule is a run** of the reader, and nothing goes wrong on the way. -/
theorem schedule_run (slots : List Slot) (h : Sound w es) :
    ∃ v, runSchedule slots w = some v ∧ Sound v es ∧ Run receiver w (stream slots) v := by
  induction slots generalizing w with
  | nil => exact ⟨w, rfl, h, .nil w⟩
  | cons slot slots ih =>
    cases slot with
    | arrive bytes =>
      obtain ⟨v, hrun, hsound, hsteps⟩ := ih (h.feed bytes)
      exact ⟨v, hrun, hsound, .arrive bytes hsteps⟩
    | update io =>
      obtain ⟨status, hupdate⟩ := dashboardUpdate_eq io h
      obtain ⟨v, hrun, hsound, hsteps⟩ := ih (h.update io)
      refine ⟨v, ?_, hsound, .poll (steps_update w io) hsteps⟩
      rw [runSchedule, List.foldlM_cons, Slot.op, Op.run, hupdate]
      exact hrun

/-! ## The end of a schedule -/

/-- A transport that reports all that has arrived, as far as a `uint32_t` can. -/
def Transport.Exact (io : Transport) : Prop :=
  ∀ second unread, 0 < unread →
    io.hasData second unread = (true, BitVec.ofNat 32 (min unread (2 ^ 32 - 1)))

/-- A further update changes nothing. -/
def Quiet (w : Firmware) : Prop :=
  ∃ io status, io.Exact ∧ dashboardUpdate io .ref w = some (status, w)

theorem Transport.exact_exact (sendData : List Event → List Byte → Bool) :
    (Transport.exact sendData).Exact :=
  fun _ _ _ => rfl

theorem Transport.Exact.ready {io : Transport} (h : io.Exact) (second : Bool) {n unread : ℕ}
    (hn : n < 2 ^ 32) (hpos : 0 < unread) (hle : n ≤ unread) :
    (io.hasData second unread).1 = true ∧ n ≤ (io.hasData second unread).2.toNat := by
  rw [h second unread hpos]
  refine ⟨rfl, ?_⟩
  rw [BitVec.toNat_ofNat, Nat.mod_eq_of_lt (by omega)]
  omega

theorem incoming_takeHeader (w : Firmware) : w.takeHeader.incoming = w.incoming.drop 12 := by
  rw [Firmware.takeHeader]
  split_ifs <;> rfl

theorem incoming_takePayload (w : Firmware) :
    w.takePayload.incoming = w.incoming.drop (payloadSize w.rxBuffer.data + 4) := by
  have hprocess := (process_frame w.received.2).2.2
  have hreceived : w.received.2.incoming = w.incoming.drop (payloadSize w.rxBuffer.data + 4) := by
    rw [Firmware.received, Firmware.check]
    split_ifs <;> rfl
  rw [Firmware.takePayload]
  split_ifs
  · rw [hprocess, hreceived]
  · exact hreceived

/-- Every step uses up some of what has arrived. -/
theorem ReadStep.shorter {v : Firmware} (h : ReadStep w v) :
    v.incoming.length < w.incoming.length := by
  cases h with
  | header hstatus hlen =>
    rw [incoming_takeHeader, List.length_drop]
    omega
  | payload hstatus hlen =>
    rw [incoming_takePayload, List.length_drop]
    omega

/-- When a step is left, an update through an exact transport makes one. -/
theorem update_shorter {io : Transport} (hio : io.Exact) {v : Firmware} (h : ReadStep w v) :
    (w.update io).incoming.length < w.incoming.length := by
  cases h with
  | header hstatus hlen =>
    have hready : w.headerReady io := ⟨hstatus, hio.ready false (by decide) (by omega) hlen⟩
    have hfirst : w.afterHeader io = w.takeHeader := if_pos hready
    have hsteps := steps_update (w.afterHeader io) io
    have hshort := (ReadStep.header hstatus hlen).shorter
    rw [← hfirst] at hshort
    rw [Firmware.update]
    split_ifs with hpayload
    · exact Nat.lt_trans (ReadStep.payload hpayload.1 (Nat.le_trans hpayload.2.2
        (io.hasData_le _ _ hpayload.2.1))).shorter hshort
    · exact hshort
  | payload hstatus hlen =>
    have hsize : payloadSize w.rxBuffer.data + 4 < 2 ^ 32 := by
      have := (DashboardPacketHeader.ofBytes w.rxBuffer.data).payloadKeySize.isLt
      have := (DashboardPacketHeader.ofBytes w.rxBuffer.data).payloadValueSize.isLt
      rw [payloadSize]
      omega
    have hready : w.payloadReady io := ⟨hstatus, hio.ready true hsize (by omega) hlen⟩
    have hfirst : w.afterHeader io = w :=
      if_neg fun hheader => absurd (hheader.1.symm.trans hstatus) (by decide)
    rw [Firmware.update, hfirst, if_pos hready]
    exact (ReadStep.payload hstatus hlen).shorter

/-- **A schedule has come to an end** when no step is left. -/
theorem quiet_iff (h : Sound w es) : Quiet w ↔ receiver.Stuck w := by
  constructor
  · rintro ⟨io, status, hio, hrun⟩ v hstep
    obtain ⟨status', hrun'⟩ := dashboardUpdate_eq io h
    have hsame : w.update io = w := by
      rw [hrun'] at hrun
      exact (Prod.mk.inj (Option.some.inj hrun)).2
    have hshort := update_shorter hio hstep
    rw [hsame] at hshort
    exact Nat.lt_irrefl _ hshort
  · intro hstuck
    obtain ⟨status, hrun⟩ := dashboardUpdate_eq (.exact fun _ _ => true) h
    have hsame := eq_of_stuck hstuck (steps_update w (.exact fun _ _ => true))
    rw [← hsame] at hrun
    exact ⟨_, status, Transport.exact_exact _, hrun⟩

/-- Twelve bytes are too few for a firmware that waits for a header. -/
theorem quiet_of_short (h : Sound w es) (hwaiting : w.dashboard.packetStatus = .waiting)
    (hshort : w.incoming.length ≤ 12) : Quiet w := by
  refine (quiet_iff h).mpr fun v hstep => ?_
  cases hstep with
  | header hstatus hlen => exact absurd hlen (Nat.not_lt.mpr hshort)
  | payload hstatus hlen => cases hwaiting.symm.trans hstatus

/-- A schedule leaves the firmware waiting for a header, and too few bytes for one. -/
def endsWaiting (slots : List Slot) (w : Firmware) : Bool :=
  (runSchedule slots w).any fun v =>
    v.dashboard.packetStatus = .waiting ∧ v.incoming.length ≤ 12

theorem Reachable.quiet_of_endsWaiting (h : Reachable w) {slots : List Slot} {v : Firmware}
    (hrun : runSchedule slots w = some v) (hends : endsWaiting slots w) : Quiet v := by
  obtain ⟨es, hsound⟩ := h.sound
  obtain ⟨v', hrun', hv, -⟩ := schedule_run slots hsound
  obtain rfl := Option.some.inj (hrun.symm.trans hrun')
  rw [endsWaiting, hrun, Option.any_some] at hends
  obtain ⟨hwaiting, hshort⟩ := of_decide_eq_true hends
  exact quiet_of_short hv hwaiting hshort

/-- Enough updates bring every schedule to an end. -/
theorem exists_quiet (h : Sound w es) (sendData : List Event → List Byte → Bool) :
    ∃ n v, runSchedule (List.replicate n (.update (.exact sendData))) w = some v ∧ Quiet v := by
  obtain ⟨n, hn⟩ := receiver.exists_iterate_stuck (fun w => w.incoming.length)
    (p := Firmware.update (.exact sendData)) (fun w => by
      rcases Classical.em (∃ v, ReadStep w v) with ⟨v, hstep⟩ | hnone
      · exact Or.inr (update_shorter (Transport.exact_exact sendData) hstep)
      · exact Or.inl fun v hstep => hnone ⟨v, hstep⟩) w
  have hiterate : ∀ (n : ℕ) {w : Firmware}, Sound w es →
      runSchedule (List.replicate n (.update (.exact sendData))) w =
        some ((Firmware.update (.exact sendData))^[n] w) ∧
      Sound ((Firmware.update (.exact sendData))^[n] w) es := by
    intro n
    induction n with
    | zero => exact fun h => ⟨rfl, h⟩
    | succ n ih =>
      intro w h
      obtain ⟨status, hupdate⟩ := dashboardUpdate_eq (.exact sendData) h
      refine ⟨?_, (ih (h.update _)).2⟩
      rw [List.replicate_succ, runSchedule, List.foldlM_cons, Slot.op, Op.run, hupdate]
      exact (ih (h.update _)).1
  obtain ⟨hrun, hsound⟩ := hiterate n h
  exact ⟨n, _, hrun, (quiet_iff hsound).mpr hn⟩

/-- Every stream can be delivered at once, by a schedule that comes to an end. -/
theorem exists_schedule (h : Sound w es) (bytes : List Byte) :
    ∃ slots v, stream slots = bytes ∧ runSchedule slots w = some v ∧ Quiet v := by
  obtain ⟨n, v, hrun, hquiet⟩ := exists_quiet (h.feed bytes) fun _ _ => true
  refine ⟨.arrive bytes :: List.replicate n (.update (.exact fun _ _ => true)), v, ?_, hrun, hquiet⟩
  rw [stream, List.flatMap_cons, List.flatMap_eq_nil_iff.mpr, List.append_nil, Slot.bytes]
  intro slot hslot
  rw [List.eq_of_mem_replicate hslot, Slot.bytes]

/-- The packets that were processed. -/
def processedPackets (trace : List Event) : List (List Byte) :=
  trace.filterMap fun
    | .processed packet => some packet
    | .sent _ => none

/-- The frames that were handed to `sendData`. -/
def sentFrames (trace : List Event) : List (List Byte) :=
  trace.filterMap fun
    | .sent frame => some frame
    | .processed _ => none

/-- **Chunking does not matter.** Two schedules of one stream from a reachable state
run without fault; if a further update changes nothing at the end of either, they have
processed the same packets, sent the same frames, and consumed as much of the stream,
and the receiver and the variables are in the same state. -/
theorem chunking (h : Reachable w) {s t : List Slot} (hst : stream s = stream t) :
    ∃ v v', runSchedule s w = some v ∧ runSchedule t w = some v' ∧
      (Quiet v → Quiet v' →
        processedPackets v.trace = processedPackets v'.trace ∧
        sentFrames v.trace = sentFrames v'.trace ∧
        v.incoming.length = v'.incoming.length ∧
        v.dashboard.packetStatus = v'.dashboard.packetStatus ∧
        v.rxBuffer = v'.rxBuffer ∧ v.vars = v'.vars) := by
  obtain ⟨es, hsound⟩ := h.sound
  obtain ⟨v, hrun, hv, hsteps⟩ := schedule_run s hsound
  obtain ⟨v', hrun', hv', hsteps'⟩ := schedule_run t hsound
  refine ⟨v, v', hrun, hrun', fun hquiet hquiet' => ?_⟩
  rw [← hst] at hsteps'
  obtain rfl := hsteps.confluent hsteps' ((quiet_iff hv).mp hquiet) ((quiet_iff hv').mp hquiet')
  exact ⟨rfl, rfl, rfl, rfl, rfl, rfl⟩

/-- A request that arrives in two pieces, the second behind an update. -/
def requestInPieces : List Slot :=
  [.arrive (request.bytes.take 13), .update openTransport, .arrive (request.bytes.drop 13),
    .update openTransport]

/-- A request that arrives at once. -/
def requestAtOnce : List Slot := [.arrive request.bytes, .update openTransport]

/-- Either way it is processed. -/
theorem chunking_request :
    ∃ v v', runSchedule requestInPieces oneVariable = some v ∧
      runSchedule requestAtOnce oneVariable = some v' ∧ Quiet v ∧ Quiet v' ∧
      processedPackets v.trace = [request.bytes] ∧
      processedPackets v.trace = processedPackets v'.trace ∧
      sentFrames v.trace = sentFrames v'.trace ∧
      v.incoming.length = v'.incoming.length ∧
      v.dashboard.packetStatus = v'.dashboard.packetStatus ∧
      v.rxBuffer = v'.rxBuffer ∧ v.vars = v'.vars := by
  have hstream : stream requestInPieces = stream requestAtOnce := by decide +kernel
  obtain ⟨v, v', hrun, hrun', hsame⟩ := chunking reachable_oneVariable hstream
  have hquiet := reachable_oneVariable.quiet_of_endsWaiting hrun (by decide +kernel)
  have hquiet' := reachable_oneVariable.quiet_of_endsWaiting hrun' (by decide +kernel)
  have hprocessed : (runSchedule requestInPieces oneVariable).map
      (fun v => processedPackets v.trace) = some [request.bytes] := by decide +kernel
  rw [hrun] at hprocessed
  exact ⟨v, v', hrun, hrun', hquiet, hquiet', Option.some.inj hprocessed, hsame hquiet hquiet'⟩

end Houston
