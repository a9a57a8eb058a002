import Houston.Processing

/-!
# Receiving

`Dashboard_Update` is a receiver with two states: it waits for a header, then for the
rest of the packet. The sizes are checked when the header arrives and relied on when
the rest arrives, in a later call.

* `Firmware.takeHeader`, `Firmware.takePayload` — what the two reads do, as total
  functions of the state.
* `Sound` — the invariant: the table holds registered variables, and a header that
  was accepted is sealed and announces a packet that fits.
* `dashboardUpdate_eq` — in a sound state an update makes at most one read of each
  kind, and nothing goes wrong.
* `receive_safe` — no run of the firmware leaves a buffer, whatever arrives.
-/

namespace Houston

open Stuffing

variable {w : Firmware} {es : List Entry}

/-! ## The two reads -/

/-- The firmware after `readData(&rxBuffer[off], n)`. -/
def Firmware.read (off n : ℕ) (w : Firmware) : Firmware :=
  { w with
    rxBuffer := (w.rxBuffer.memcpy off (w.incoming.take n)).getD w.rxBuffer
    incoming := w.incoming.drop n }

theorem readData_eq {off n : ℕ} (h : off + n ≤ 101) (w : Firmware) :
    readData off n w = some (w.read off n) := by
  have hlen : (w.incoming.take n).length ≤ n := List.length_take_le _ _
  rw [readData, Firmware.read, Buffer.memcpy_eq_some (show _ ≤ 101 by omega)]
  rfl

/-- The firmware with another receiver state. -/
def Firmware.setStatus (status : DashboardPacketStatus) (w : Firmware) : Firmware :=
  { w with dashboard.packetStatus := status }

/-- The firmware after the read of a header. -/
def Firmware.takeHeader (w : Firmware) : Firmware :=
  let w := w.read 0 12
  if HeaderSealed w.rxBuffer.data then
    if 12 + payloadSize w.rxBuffer.data + 4 < kAlertBufCOBSize then
      (w.send (.alert (literal "Received packet header"))).setStatus .headerReceived
    else w.send (.alert (literal "Received packet too large"))
  else w

/-- Reading a header never goes wrong. -/
theorem receiveHeader_eq (io : Transport) (w : Firmware) :
    receiveHeader io w = some w.takeHeader := by
  have hsmall := dashboardAlert_of_fits io
    (by decide : (Call.alert (literal "Received packet header")).size ≤ 99) (w.read 0 12)
  have hlarge := dashboardAlert_of_fits io
    (by decide : (Call.alert (literal "Received packet too large")).size ≤ 99) (w.read 0 12)
  have hread : (w.read 0 12).rxBuffer.read? 0 12 = some ((w.read 0 12).rxBuffer.data.take 12) :=
    Buffer.read?_eq_some (by decide)
  have hheader : DashboardPacketHeader.ofBytes ((w.read 0 12).rxBuffer.data.take 12) =
      DashboardPacketHeader.ofBytes (w.read 0 12).rxBuffer.data :=
    DashboardPacketHeader.ofBytes_take (le_refl 12)
  have hfront : ((w.read 0 12).rxBuffer.data.take 12).take 10 =
      (w.read 0 12).rxBuffer.data.take 10 := by
    rw [List.take_take]
    rfl
  simp only [receiveHeader, readData_eq (show 0 + 12 ≤ 101 by decide), hread, hheader, hfront,
    hsmall, hlarge, Option.bind_eq_bind, Option.bind_some, Firmware.takeHeader, HeaderSealed,
    payloadSize, Nat.add_assoc]
  split_ifs <;> rfl

/-- The firmware after the read of the rest of a packet. -/
def Firmware.loadPayload (w : Firmware) : Firmware :=
  (w.read 12 (payloadSize w.rxBuffer.data + 4)).setStatus .waiting

/-- The checksum of the payload in `rxBuffer`. -/
def payloadChecksum (bs : List Byte) : BitVec 32 := crc32 ((bs.drop 12).take (payloadSize bs)) 0

/-- The checksum behind the payload in `rxBuffer`. -/
def receivedChecksum (bs : List Byte) : BitVec 32 := wordAt 32 4 bs (12 + payloadSize bs)

/-- The two checksums are reported before they are compared. -/
def Firmware.report (w : Firmware) : Firmware :=
  (w.send (.telemetryUint32 (literal "CalculuatedCRC") (payloadChecksum w.rxBuffer.data))).send
    (.telemetryUint32 (literal "ReceivedCRC") (receivedChecksum w.rxBuffer.data))

/-- The comparison of the two checksums: the first component says whether to go on to
process the packet. -/
def Firmware.check (w : Firmware) : Bool × Firmware :=
  if payloadChecksum w.rxBuffer.data = receivedChecksum w.rxBuffer.data then
    (true, w.report.send (.alert (literal "Processing packet")))
  else (false, w.report.send (.alert (literal "Payload checksum mismatch")))

/-- The firmware after the read of the rest of a packet, and whether it goes on to
process it. -/
def Firmware.received (w : Firmware) : Bool × Firmware := w.loadPayload.check

/-- The firmware after the read of the rest of a packet and all that follows. -/
def Firmware.takePayload (w : Firmware) : Firmware :=
  if w.received.1 then w.received.2.process else w.received.2

/-- A report of a number under a literal of the source that fits. -/
theorem dashboardTelemetryUint32_of_fits (io : Transport) {key : CString}
    (h : key.bytes.length ≤ 79) (value : BitVec 32) (w : Firmware) :
    dashboardTelemetryUint32 io .ref key value w =
      some (sendStatus io (Call.telemetryUint32 key value).packet w,
        w.send (.telemetryUint32 key value)) := by
  refine Call.run_of_fits (c := .telemetryUint32 key value) io ?_ w
  rw [Call.size, Call.key, Call.value, length_wordBytes]
  omega

/-- A header stays where it is while bytes are read behind it. -/
theorem take_loadPayload (w : Firmware) :
    w.loadPayload.rxBuffer.data.take 12 = w.rxBuffer.data.take 12 := by
  show (((w.rxBuffer.memcpy 12 _).getD w.rxBuffer).data).take 12 = _
  cases hcopy : w.rxBuffer.memcpy 12 (w.incoming.take (payloadSize w.rxBuffer.data + 4)) with
  | none => rfl
  | some buf =>
    obtain ⟨hlen, rfl⟩ := Buffer.of_memcpy hcopy
    exact w.rxBuffer.take_overwrite_of_le hlen (le_refl 12)

theorem payloadSize_loadPayload (w : Firmware) :
    payloadSize w.loadPayload.rxBuffer.data = payloadSize w.rxBuffer.data :=
  payloadSize_congr (take_loadPayload w)

/-- Reading the rest of a packet that fits never goes wrong. -/
theorem receivePayload_eq (io : Transport) (h : 12 + payloadSize w.rxBuffer.data + 4 ≤ 100) :
    receivePayload io w.header.payloadKeySize.toNat w.header.payloadValueSize.toNat w =
      some w.received := by
  have hsize : payloadSize w.rxBuffer.data =
    w.header.payloadKeySize.toNat + w.header.payloadValueSize.toNat := rfl
  have hload := payloadSize_loadPayload w
  set k := w.header.payloadKeySize.toNat
  set n := w.header.payloadValueSize.toNat
  -- what is read of the buffer, once the bytes are in it
  have hread : readData 12 (k + n + 4) w = some (w.read 12 (k + n + 4)) :=
    readData_eq (by omega) w
  have hkey : (w.read 12 (k + n + 4)).rxBuffer.read? 12 k =
      some ((w.loadPayload.rxBuffer.data.drop 12).take k) := by
    rw [Firmware.loadPayload, hsize]
    exact Buffer.read?_eq_some (show _ ≤ 101 by omega)
  have hvalue : (w.read 12 (k + n + 4)).rxBuffer.read? (12 + k) n =
      some ((w.loadPayload.rxBuffer.data.drop (12 + k)).take n) := by
    rw [Firmware.loadPayload, hsize]
    exact Buffer.read?_eq_some (show _ ≤ 101 by omega)
  have htail : (w.read 12 (k + n + 4)).rxBuffer.read? (12 + (k + n)) 4 =
      some ((w.loadPayload.rxBuffer.data.drop (12 + (k + n))).take 4) := by
    rw [Firmware.loadPayload, hsize]
    exact Buffer.read?_eq_some (show _ ≤ 101 by omega)
  -- the checksum is taken in two pieces
  have hsum : crc32 ((w.loadPayload.rxBuffer.data.drop (12 + k)).take n)
      (crc32 ((w.loadPayload.rxBuffer.data.drop 12).take k) 0) =
      payloadChecksum w.loadPayload.rxBuffer.data := by
    rw [payloadChecksum, hload, hsize, List.take_add, crc32_append, List.drop_drop]
  have hreceived : wordAt 32 4 ((w.loadPayload.rxBuffer.data.drop (12 + (k + n))).take 4) 0 =
      receivedChecksum w.loadPayload.rxBuffer.data := by
    rw [wordAt_cut, receivedChecksum, hload, hsize]
  have hwaiting : ({ w.read 12 (k + n + 4) with
      dashboard.packetStatus := .waiting } : Firmware) = w.loadPayload := by
    rw [Firmware.loadPayload, hsize]
    rfl
  -- the four reports, of which two are sent
  have hfirst := dashboardTelemetryUint32_of_fits io
    (by decide : (literal "CalculuatedCRC").bytes.length ≤ 79)
  have hsecond := dashboardTelemetryUint32_of_fits io
    (by decide : (literal "ReceivedCRC").bytes.length ≤ 79)
  have hok := dashboardAlert_of_fits io
    (by decide : (Call.alert (literal "Processing packet")).size ≤ 99)
  have hbad := dashboardAlert_of_fits io
    (by decide : (Call.alert (literal "Payload checksum mismatch")).size ≤ 99)
  simp only [receivePayload, hread, hkey, hvalue, htail, hsum, hreceived, hwaiting, hfirst, hsecond,
    hok, hbad, Option.bind_eq_bind, Option.bind_some, Firmware.received, Firmware.check,
    Firmware.report]
  split_ifs <;> rfl

/-! ## The invariant -/

/-- The table holds registered variables, and a header that was accepted is sealed
and announces a packet that fits. -/
structure Sound (w : Firmware) (es : List Entry) : Prop where
  table : Registered w es
  header : w.dashboard.packetStatus = .headerReceived →
    HeaderSealed w.rxBuffer.data ∧ 12 + payloadSize w.rxBuffer.data + 4 ≤ kAlertBufSize

/-- The header of a receiver that is waiting does not matter. -/
theorem Sound.of_waiting (h : Registered w es) (hstatus : w.dashboard.packetStatus = .waiting) :
    Sound w es :=
  ⟨h, fun hreceived => by rw [hstatus] at hreceived; cases hreceived⟩

theorem Sound.send (h : Sound w es) (c : Call) : Sound (w.send c) es :=
  ⟨⟨h.table.count, h.table.rows⟩, h.header⟩

/-- A header is accepted only after its size was checked. -/
theorem Sound.takeHeader (h : Sound w es) (hstatus : w.dashboard.packetStatus = .waiting) :
    Sound w.takeHeader es := by
  have hread : Sound (w.read 0 12) es := Sound.of_waiting ⟨h.table.count, h.table.rows⟩ hstatus
  rw [Firmware.takeHeader]
  split_ifs with hsealed hsmall
  · exact ⟨⟨h.table.count, h.table.rows⟩, fun _ => ⟨hsealed, Nat.le_of_lt_succ hsmall⟩⟩
  · exact hread.send _
  · exact hread

theorem dashboard_received (w : Firmware) :
    w.received.2.dashboard = { w.dashboard with packetStatus := .waiting } := by
  rw [Firmware.received, Firmware.check]
  split_ifs <;> rfl

theorem rxBuffer_received (w : Firmware) : w.received.2.rxBuffer = w.loadPayload.rxBuffer := by
  rw [Firmware.received, Firmware.check]
  split_ifs <;> rfl

/-- Receiving touches neither the table nor the variables. -/
theorem frame_takeHeader (w : Firmware) :
    w.takeHeader.rows = w.rows ∧ w.takeHeader.vars = w.vars := by
  rw [Firmware.takeHeader]
  split_ifs <;> exact ⟨rfl, rfl⟩

theorem frame_received (w : Firmware) :
    w.received.2.rows = w.rows ∧ w.received.2.vars = w.vars := by
  rw [Firmware.received, Firmware.check]
  split_ifs <;> exact ⟨rfl, rfl⟩

theorem Registered.received (h : Registered w es) : Registered w.received.2 es := by
  rw [Firmware.received, Firmware.check]
  split_ifs <;> exact ⟨h.count, h.rows⟩

/-- Reading the rest of a packet ends in the waiting state. -/
theorem dashboard_takePayload (w : Firmware) :
    w.takePayload.dashboard = { w.dashboard with packetStatus := .waiting } := by
  rw [Firmware.takePayload]
  split_ifs
  · rw [(process_frame _).1, dashboard_received]
  · rw [dashboard_received]

theorem status_takePayload (w : Firmware) : w.takePayload.dashboard.packetStatus = .waiting := by
  rw [dashboard_takePayload]

theorem Sound.takePayload (h : Sound w es) : Sound w.takePayload es := by
  refine Sound.of_waiting ?_ (status_takePayload w)
  rw [Firmware.takePayload]
  split_ifs
  · exact h.table.received.process
  · exact h.table.received

/-! ## An update -/

/-- The transport reports more than a header. -/
def Firmware.headerReady (io : Transport) (w : Firmware) : Prop :=
  w.dashboard.packetStatus = .waiting ∧ (io.hasData false w.incoming.length).1 = true ∧
    12 < (io.hasData false w.incoming.length).2.toNat

/-- The transport reports the rest of the packet. -/
def Firmware.payloadReady (io : Transport) (w : Firmware) : Prop :=
  w.dashboard.packetStatus = .headerReceived ∧ (io.hasData true w.incoming.length).1 = true ∧
    payloadSize w.rxBuffer.data + 4 ≤ (io.hasData true w.incoming.length).2.toNat

instance (io : Transport) (w : Firmware) : Decidable (w.headerReady io) :=
  inferInstanceAs (Decidable (_ ∧ _))

instance (io : Transport) (w : Firmware) : Decidable (w.payloadReady io) :=
  inferInstanceAs (Decidable (_ ∧ _))

/-- The firmware after the first half of an update. -/
def Firmware.afterHeader (io : Transport) (w : Firmware) : Firmware :=
  if w.headerReady io then w.takeHeader else w

/-- The firmware after an update. -/
def Firmware.update (io : Transport) (w : Firmware) : Firmware :=
  if (w.afterHeader io).payloadReady io then (w.afterHeader io).takePayload else w.afterHeader io

theorem Sound.afterHeader (h : Sound w es) (io : Transport) : Sound (w.afterHeader io) es := by
  rw [Firmware.afterHeader]
  split_ifs with hready
  · exact h.takeHeader hready.1
  · exact h

theorem Sound.update (h : Sound w es) (io : Transport) : Sound (w.update io) es := by
  rw [Firmware.update]
  split_ifs
  · exact (h.afterHeader io).takePayload
  · exact h.afterHeader io

/-- An update up to its call of `processPacket`. -/
theorem dashboardReceive_eq (io : Transport) (h : Sound w es) :
    dashboardReceive io w = some (if (w.afterHeader io).payloadReady io
      then (w.afterHeader io).received else (false, w.afterHeader io)) := by
  have hfirst : pollHeader io w = some (w.afterHeader io) := by
    rw [Firmware.afterHeader]
    by_cases hready : w.headerReady io
    · rw [if_pos hready, ← receiveHeader_eq io]
      exact if_pos hready
    · rw [if_neg hready]
      exact if_neg hready
  have hsound := h.afterHeader io
  rw [dashboardReceive, hfirst, Option.bind_eq_bind, Option.bind_some]
  set v := w.afterHeader io
  have hread : v.rxBuffer.read? 0 12 = some (v.rxBuffer.data.take 12) :=
    Buffer.read?_eq_some (by decide)
  have hheader : DashboardPacketHeader.ofBytes (v.rxBuffer.data.take 12) = v.header :=
    DashboardPacketHeader.ofBytes_take (le_refl 12)
  have hsize : payloadSize v.rxBuffer.data =
    v.header.payloadKeySize.toNat + v.header.payloadValueSize.toNat := rfl
  by_cases hstatus : v.dashboard.packetStatus = .headerReceived
  · have hpayload := receivePayload_eq io (hsound.header hstatus).2
    simp only [pollPayload, hstatus, if_true, hread, hheader, hpayload, Option.bind_eq_bind,
      Option.bind_some, Firmware.payloadReady, hsize, true_and, ge_iff_le]
    split_ifs <;> rfl
  · rw [pollPayload, if_neg hstatus, if_neg fun hready => hstatus hready.1]

/-- **An update never goes wrong** in a sound state: it makes at most one read of each
kind, whatever the transport says. -/
theorem dashboardUpdate_eq (io : Transport) (h : Sound w es) :
    ∃ status, dashboardUpdate io .ref w = some (status, w.update io) := by
  have htable := (h.afterHeader io).table.received
  rw [dashboardUpdate, dashboardReceive_eq io h, Option.bind_eq_bind, Option.bind_some,
    Firmware.update]
  by_cases hready : (w.afterHeader io).payloadReady io
  · simp only [if_pos hready, Firmware.takePayload]
    split_ifs
    · exact processPacket_eq io htable
    · exact ⟨.ok, rfl⟩
  · simp only [if_neg hready]
    exact ⟨.ok, rfl⟩

/-! ## Runs -/

/-- Bytes arrive. -/
def Firmware.feed (bytes : List Byte) (w : Firmware) : Firmware :=
  { w with incoming := w.incoming ++ bytes }

theorem Sound.feed (h : Sound w es) (bytes : List Byte) : Sound (w.feed bytes) es :=
  ⟨⟨h.table.count, h.table.rows⟩, h.header⟩

/-- What may happen to the firmware: calls of its functions on the one instance,
bytes that arrive, and the application writing a variable. -/
inductive Op where
  | register (key : BitVec 16) (data : Option Ptr) (type : ValueType)
  | update (io : Transport)
  | send (io : Transport) (call : Call)
  | arrive (bytes : List Byte)
  | assign (ptr : Ptr) (value : BitVec 32)

namespace Op

/-- Calls of the application that send a packet keep to 99 bytes. -/
def Allowed : Op → Prop
  | .send _ call => call.size ≤ 99
  | _ => True

/-- Let it happen. -/
def run : Op → Firmware → Option Firmware
  | .register key data type, w => (dashboardRegisterLiveData .ref key data type w).map Prod.snd
  | .update io, w => (dashboardUpdate io .ref w).map Prod.snd
  | .send io call, w => (call.run io w).map Prod.snd
  | .arrive bytes, w => some (w.feed bytes)
  | .assign ptr value, w => some { w with vars := Function.update w.vars ptr value }

end Op

/-- The states that runs lead to from a successful `Dashboard_Init`, whatever the
statics held before. -/
inductive Reachable : Firmware → Prop where
  | init {w w' : Firmware} {sendData readData hasData : FnPtr}
      (h : dashboardInit .ref (some sendData) (some readData) (some hasData) w = (.ok, w')) :
      Reachable w'
  | step {w w' : Firmware} {op : Op} (h : Reachable w) (ha : op.Allowed)
      (hrun : op.run w = some w') : Reachable w'

/-- Registering a variable appends an entry, until the table is full. -/
theorem register_eq (h : Sound w es) (key : BitVec 16) (data : Option Ptr) (type : ValueType) :
    dashboardRegisterLiveData .ref key data type w = some (.errInvalidArg, w) ∨
      ∃ p w', data = some p ∧ dashboardRegisterLiveData .ref key data type w = some (.ok, w') ∧
        Sound w' (es ++ [⟨key, type, p⟩]) := by
  have hcount := h.table.count
  have hlen := h.table.length_rows
  obtain ⟨htable, hptr⟩ := split_table w
  rcases data with - | p
  · refine Or.inl ?_
    rw [dashboardRegisterLiveData, if_pos (Or.inr (Or.inl rfl))]
  · by_cases hfull : w.dashboard.liveDataCount ≥ kLiveDataBufSize
    · exact Or.inl (if_pos (Or.inr (Or.inr hfull)))
    · have hroom : w.dashboard.liveDataCount < 5 := Nat.lt_of_not_le hfull
      -- the two places behind the rows in use
      have hplace : w.liveDataBuffer.data.length = 5 := w.liveDataBuffer.length_data
      have hplace' : w.liveDataPtr.data.length = 5 := w.liveDataPtr.length_data
      rcases hrest : w.liveDataBuffer.data.drop w.dashboard.liveDataCount with - | ⟨entry, rest⟩
      · have := List.drop_eq_nil_iff.mp hrest
        omega
      rcases hrest' : w.liveDataPtr.data.drop w.dashboard.liveDataCount with - | ⟨q, rest'⟩
      · have := List.drop_eq_nil_iff.mp hrest'
        omega
      rw [hrest] at htable
      rw [hrest'] at hptr
      have hidx : (w.rows.map Prod.fst).length = w.dashboard.liveDataCount := by
        rw [List.length_map, hlen, hcount]
      have hidx' : (w.rows.map Prod.snd).length = w.dashboard.liveDataCount := by
        rw [List.length_map, hlen, hcount]
      have hget := Buffer.get?_of_eq htable
      obtain ⟨table, hset, htable'⟩ := Buffer.exists_set? htable
        { entry with packetID := key, valueType := type.bits 16 }
      obtain ⟨ptrs, hset', hptr'⟩ := Buffer.exists_set? hptr (some p)
      rw [hidx] at hget hset
      rw [hidx'] at hset'
      have hnext : (w.dashboard.liveDataCount + 1) % 2 ^ 16 = w.dashboard.liveDataCount + 1 :=
        Nat.mod_eq_of_lt (by omega)
      refine Or.inr ⟨p, { w with
        liveDataBuffer := table
        liveDataPtr := ptrs
        dashboard.liveDataCount := (w.dashboard.liveDataCount + 1) % 2 ^ 16 }, rfl, ?_,
        ⟨?_, ?_⟩, ?_⟩
      · rw [dashboardRegisterLiveData, if_neg (by simpa using hfull), hget]
        simp only [Option.bind_eq_bind, Option.bind_some, hset, hset']
      · show (w.dashboard.liveDataCount + 1) % 2 ^ 16 = _
        rw [hnext, hcount, List.length_append, List.length_singleton]
      · -- the rows in use are the old ones and the new one
        have hrows : (table.data.zip ptrs.data).take (w.dashboard.liveDataCount + 1) =
            w.rows ++ [({ entry with packetID := key, valueType := type.bits 16 }, some p)] := by
          rw [htable', hptr', List.zip_append (by rw [hidx, hidx']), List.zip_cons_cons,
            List.append_cons, List.zip_map', List.map_id',
            List.take_left' (by rw [List.length_append, hlen, hcount, List.length_singleton])]
        show ((table.data.zip ptrs.data).take
          ((w.dashboard.liveDataCount + 1) % 2 ^ 16)).map Row.tag = _
        rw [hnext, hrows, List.map_append, List.map_append, h.table.rows]
        rfl
      · exact h.header

/-- **One step**: whatever may happen does happen, and keeps the invariant. The
table only grows. -/
theorem Sound.run (h : Sound w es) {op : Op} (ha : op.Allowed) :
    ∃ w' es', op.run w = some w' ∧ Sound w' es' ∧ es <+: es' := by
  cases op with
  | register key data type =>
    rcases register_eq h key data type with hrun | ⟨p, w', -, hrun, hsound⟩
    · exact ⟨w, es, by rw [Op.run, hrun]; rfl, h, List.prefix_refl es⟩
    · exact ⟨w', _, by rw [Op.run, hrun]; rfl, hsound, List.prefix_append es _⟩
  | update io =>
    obtain ⟨status, hrun⟩ := dashboardUpdate_eq io h
    exact ⟨w.update io, es, by rw [Op.run, hrun]; rfl, h.update io, List.prefix_refl es⟩
  | send io call =>
    have hrun := call.run_of_fits io ha w
    exact ⟨w.send call, es, by rw [Op.run, hrun]; rfl, h.send call, List.prefix_refl es⟩
  | arrive bytes => exact ⟨_, es, rfl, h.feed bytes, List.prefix_refl es⟩
  | assign ptr value =>
    exact ⟨_, es, rfl, ⟨⟨h.table.count, h.table.rows⟩, h.header⟩, List.prefix_refl es⟩

/-- **Every run** keeps the invariant. -/
theorem Reachable.sound (h : Reachable w) : ∃ es, Sound w es := by
  induction h with
  | init hinit =>
    rw [dashboardInit, if_neg (by simp)] at hinit
    obtain rfl := (Prod.mk.inj hinit).2
    exact ⟨[], Sound.of_waiting ⟨rfl, rfl⟩ rfl⟩
  | step h ha hrun ih =>
    obtain ⟨es, hsound⟩ := ih
    obtain ⟨w', es', hrun', hsound', -⟩ := hsound.run ha
    obtain rfl := Option.some.inj (hrun.symm.trans hrun')
    exact ⟨es', hsound'⟩

/-- **No run leaves a buffer.** In every reachable state the table is within bounds, an
accepted header is sealed and announces a packet that fits, and neither an update, nor
processing a packet, nor anything else that may happen goes wrong. -/
theorem receive_safe (h : Reachable w) :
    w.dashboard.liveDataCount ≤ kLiveDataBufSize ∧
    (w.dashboard.packetStatus = .headerReceived →
      crc16 (w.rxBuffer.data.take 10) 0 = w.header.checksum ∧
      16 + w.header.payloadKeySize.toNat + w.header.payloadValueSize.toNat ≤ kAlertBufSize) ∧
    (∀ io, ∃ r, dashboardUpdate io .ref w = some r) ∧
    (∀ io, ∃ r, processPacket io w = some r) ∧
    ∀ op : Op, op.Allowed → ∃ w', op.run w = some w' := by
  obtain ⟨es, hsound⟩ := h.sound
  refine ⟨?_, fun hstatus => ?_, fun io => ?_, fun io => ?_, fun op ha => ?_⟩
  · rw [hsound.table.count]
    exact hsound.table.length_le
  · obtain ⟨hsealed, hsize⟩ := hsound.header hstatus
    refine ⟨hsealed, ?_⟩
    have hpayload : payloadSize w.rxBuffer.data =
      w.header.payloadKeySize.toNat + w.header.payloadValueSize.toNat := rfl
    rw [hpayload] at hsize
    calc 16 + w.header.payloadKeySize.toNat + w.header.payloadValueSize.toNat
        = 12 + (w.header.payloadKeySize.toNat + w.header.payloadValueSize.toNat) + 4 := by omega
      _ ≤ kAlertBufSize := hsize
  · obtain ⟨status, hrun⟩ := dashboardUpdate_eq io hsound
    exact ⟨_, hrun⟩
  · obtain ⟨status, hrun⟩ := processPacket_eq io hsound.table
    exact ⟨_, hrun⟩
  · obtain ⟨w', -, hrun, -⟩ := hsound.run ha
    exact ⟨w', hrun⟩

theorem Reachable.after (h : Reachable w) (op : Op) (ha : op.Allowed) {w' : Firmware}
    (hrun : op.run w = some w') : Reachable w' := h.step ha hrun

/-- Bytes arrive at a reachable firmware. -/
theorem Reachable.arrive (h : Reachable w) (bytes : List Byte) :
    Reachable (w.feed bytes) :=
  h.after (.arrive bytes) trivial rfl

/-- A reachable firmware makes an update. -/
theorem Reachable.update (h : Reachable w) (io : Transport) : Reachable (w.update io) := by
  obtain ⟨es, hsound⟩ := h.sound
  obtain ⟨status, hrun⟩ := dashboardUpdate_eq io hsound
  exact h.after (.update io) trivial (by rw [Op.run, hrun]; rfl)

theorem Reachable.boot (vars : Ptr → BitVec 32) : Reachable (.boot vars) := .init rfl

/-- A transport that reports and takes everything. -/
def openTransport : Transport := .exact fun _ _ => true

/-- One variable, registered under key 0, with value 7. -/
def oneVariable : Firmware :=
  ((Op.register 0 (some 0) .uint32).run (.boot fun _ => 7)).getD (.boot fun _ => 7)

theorem reachable_oneVariable : Reachable oneVariable :=
  (Reachable.boot fun _ => 7).after (.register 0 (some 0) .uint32) trivial rfl

theorem registered_oneVariable : Registered oneVariable [⟨0, .uint32, 0⟩] :=
  ⟨by decide +kernel, by decide +kernel⟩

/-- All but the last three bytes of a request have arrived, and its header was accepted. -/
def headerAccepted : Firmware := (oneVariable.feed (request.bytes.take 13)).update openTransport

theorem reachable_headerAccepted : Reachable headerAccepted :=
  (reachable_oneVariable.arrive _).update _

/-- The state in between the two reads of a request is safe. -/
theorem receive_safe_header :
    headerAccepted.dashboard.packetStatus = .headerReceived ∧
      headerAccepted.dashboard.liveDataCount ≤ kLiveDataBufSize ∧
      crc16 (headerAccepted.rxBuffer.data.take 10) 0 = headerAccepted.header.checksum ∧
      16 + headerAccepted.header.payloadKeySize.toNat +
        headerAccepted.header.payloadValueSize.toNat ≤ kAlertBufSize ∧
      (∀ io, ∃ r, dashboardUpdate io .ref headerAccepted = some r) ∧
      (∀ io, ∃ r, processPacket io headerAccepted = some r) ∧
      ∀ op : Op, op.Allowed → ∃ w', op.run headerAccepted = some w' := by
  obtain ⟨hcount, hheader, hupdate, hprocess, hop⟩ := receive_safe reachable_headerAccepted
  have hstatus : headerAccepted.dashboard.packetStatus = .headerReceived := by decide +kernel
  exact ⟨hstatus, hcount, (hheader hstatus).1, (hheader hstatus).2, hupdate, hprocess, hop⟩

end Houston
