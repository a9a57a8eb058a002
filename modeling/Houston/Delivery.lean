import Houston.Chunking
import Houston.Modify
import Mathlib.Data.List.Nodup
import Mathlib.Data.List.TakeWhile

/-!
# A packet arrives

What the firmware makes of the bytes of one packet when it waits for one: it accepts
the header, reads the rest, finds both checksums right, and processes the packet. By
the confluence of the receiver this is so for every schedule of arrivals and updates.

* `deliver` — any schedule that delivers the packet and comes to an end has processed
  it.
* `deliver_modify` — a modify packet that carries a record of a registered variable
  sets this variable, and no other.
-/

namespace Houston

open Relation Polling

variable {w v : Firmware} {es : List Entry} {p : Packet}

/-! ## Reading a packet -/

/-- A read of bytes that have arrived. -/
theorem rxBuffer_read {off n : ℕ} (h : off + n ≤ 101) (hn : n ≤ w.incoming.length) :
    (w.read off n).rxBuffer.data.take off = w.rxBuffer.data.take off ∧
      ((w.read off n).rxBuffer.data.drop off).take n = w.incoming.take n := by
  have hlen : (w.incoming.take n).length = n := List.length_take_of_le hn
  have hfits : off + (w.incoming.take n).length ≤ 101 := by rwa [hlen]
  have hcopy : w.rxBuffer.memcpy off (w.incoming.take n) = some _ := Buffer.memcpy_eq_some hfits
  have hbuf : (w.read off n).rxBuffer = w.rxBuffer.overwrite off (w.incoming.take n) hfits := by
    rw [Firmware.read, hcopy]
    rfl
  rw [hbuf]
  refine ⟨Buffer.take_overwrite_of_le _ hfits (le_refl off), ?_⟩
  have hread := Buffer.read?_of_memcpy hcopy
  rw [hlen, Buffer.read?_eq_some h] at hread
  exact Option.some.inj hread

/-- The read of a header. -/
theorem take_read (hlen : 12 ≤ w.incoming.length) :
    (w.read 0 12).rxBuffer.data.take 12 = w.incoming.take 12 :=
  (rxBuffer_read (by decide : 0 + 12 ≤ 101) hlen).2

/-- The header of a packet is in `rxBuffer`. -/
def HasHeader (p : Packet) (w : Firmware) : Prop := w.rxBuffer.data.take 12 = p.bytes.take 12

theorem HasHeader.ofBytes (h : HasHeader p w) :
    DashboardPacketHeader.ofBytes w.rxBuffer.data = p.header := by
  rw [DashboardPacketHeader.ofBytes_congr h, ← List.append_nil p.bytes, p.ofBytes_bytes]

theorem HasHeader.payloadSize (h : HasHeader p w) :
    Houston.payloadSize w.rxBuffer.data = p.key.length + p.value.length := by
  rw [Houston.payloadSize, h.ofBytes, p.keySize_header, p.valueSize_header]

theorem HasHeader.sealed (h : HasHeader p w) : HeaderSealed w.rxBuffer.data :=
  (headerSealed_congr h).mpr p.headerSealed_bytes

/-- **The header of a packet that fits is accepted.** -/
theorem takeHeader_packet (hincoming : w.incoming = p.bytes) (hlen : p.bytes.length ≤ 100) :
    w.takeHeader = ((w.read 0 12).send (.alert (literal "Received packet header"))).setStatus
        .headerReceived ∧ HasHeader p w.takeHeader := by
  have hbytes := p.length_bytes
  have hheader : HasHeader p (w.read 0 12) := by
    have hlong : 12 ≤ w.incoming.length := by
      rw [hincoming]
      omega
    rw [HasHeader, take_read hlong, hincoming]
  have hsmall : 12 + payloadSize (w.read 0 12).rxBuffer.data + 4 < kAlertBufCOBSize := by
    rw [hheader.payloadSize]
    show _ < 101
    omega
  rw [Firmware.takeHeader, if_pos hheader.sealed, if_pos hsmall]
  exact ⟨rfl, hheader⟩

/-- The rest of a packet stands behind its header. -/
theorem rxBuffer_loadPayload (hheader : HasHeader p w) (hincoming : w.incoming = p.bytes.drop 12)
    (hlen : p.bytes.length ≤ 100) :
    ∃ rest, w.loadPayload.rxBuffer.data = p.bytes ++ rest := by
  have hbytes := p.length_bytes
  have hrest : (p.bytes.drop 12).length = p.key.length + p.value.length + 4 := by
    rw [List.length_drop]
    omega
  have hlong : p.key.length + p.value.length + 4 ≤ w.incoming.length := by
    rw [hincoming, hrest]
  obtain ⟨hfront, hback⟩ :=
    rxBuffer_read (show 12 + (p.key.length + p.value.length + 4) ≤ 101 by omega) hlong
  have hload : w.loadPayload.rxBuffer =
      (w.read 12 (p.key.length + p.value.length + 4)).rxBuffer := by
    rw [Firmware.loadPayload, hheader.payloadSize]
    rfl
  have hpacket : w.loadPayload.rxBuffer.data.take (12 + (p.key.length + p.value.length + 4)) =
      p.bytes := by
    rw [hload, List.take_add, hfront, hback, hheader, hincoming, ← hrest, List.take_length,
      List.take_append_drop]
  refine ⟨w.loadPayload.rxBuffer.data.drop (12 + (p.key.length + p.value.length + 4)), ?_⟩
  have hcut := List.take_append_drop (12 + (p.key.length + p.value.length + 4))
    w.loadPayload.rxBuffer.data
  rw [hpacket] at hcut
  exact hcut.symm

/-- Both checksums of a packet are the same. -/
theorem checksum_packet (p : Packet) (rest : List Byte) :
    payloadChecksum (p.bytes ++ rest) = receivedChecksum (p.bytes ++ rest) := by
  have hsealed := p.sealed_bytes
  have hlen := hsealed.length
  have hsize : payloadSize (p.bytes ++ rest) = payloadSize p.bytes := by
    rw [p.payloadSize_bytes, payloadSize, p.ofBytes_bytes, p.keySize_header, p.valueSize_header]
  have hdrop : ((p.bytes ++ rest).drop 12).take (payloadSize p.bytes) =
      (p.bytes.drop 12).take (payloadSize p.bytes) := by
    rw [List.drop_append_of_le_length (by omega),
      List.take_append_of_le_length (by rw [List.length_drop]; omega)]
  have hword : wordAt 32 4 (p.bytes ++ rest) (12 + payloadSize p.bytes) =
      wordAt 32 4 p.bytes (12 + payloadSize p.bytes) := by
    rw [← wordAt_take (le_of_eq hlen.symm), List.take_left]
  rw [payloadChecksum, receivedChecksum, hsize, hdrop, hword]
  exact hsealed.payload

/-- **The rest of a packet is accepted.** -/
theorem takePayload_packet (hheader : HasHeader p w) (hincoming : w.incoming = p.bytes.drop 12)
    (hlen : p.bytes.length ≤ 100) :
    w.takePayload = w.received.2.process ∧
      ∃ rest, w.received.2.rxBuffer.data = p.bytes ++ rest := by
  obtain ⟨rest, hload⟩ := rxBuffer_loadPayload hheader hincoming hlen
  have haccepted : w.received.1 = true := by
    have hsum := checksum_packet p rest
    rw [← hload] at hsum
    rw [Firmware.received, Firmware.check, if_pos hsum]
  refine ⟨if_pos haccepted, rest, ?_⟩
  rw [rxBuffer_received, hload]

/-! ## Any schedule -/

/-- **A packet that arrives is processed**, however it arrives: `u` is the state in
which `processPacket` is called. -/
theorem deliver (h : Sound w es) (hstatus : w.dashboard.packetStatus = .waiting)
    (hempty : w.incoming = []) (hlen : p.bytes.length ≤ 100) :
    ∃ u : Firmware, (∃ rest, u.rxBuffer.data = p.bytes ++ rest) ∧ u.rows = w.rows ∧
      u.vars = w.vars ∧ ∀ slots, stream slots = p.bytes →
        ∃ v, runSchedule slots w = some v ∧ (Quiet v → v = u.process) := by
  have hbytes := p.length_bytes
  have hfed : (w.feed p.bytes).incoming = p.bytes := by
    rw [Firmware.feed, hempty, List.nil_append]
  obtain ⟨htake, hheader⟩ := takeHeader_packet hfed hlen
  have hstatus' : (w.feed p.bytes).takeHeader.dashboard.packetStatus = .headerReceived := by
    rw [htake]
    rfl
  have hincoming := incoming_takeHeader (w.feed p.bytes)
  obtain ⟨hrows, hvars⟩ := frame_takeHeader (w.feed p.bytes)
  set t := (w.feed p.bytes).takeHeader
  rw [hfed] at hincoming
  obtain ⟨hpayload, hpacket⟩ := takePayload_packet hheader hincoming hlen
  obtain ⟨hrows', hvars'⟩ := frame_received t
  refine ⟨t.received.2, hpacket, hrows'.trans hrows, hvars'.trans hvars, fun slots hstream => ?_⟩
  -- the two reads, after which nothing is left
  have hfirst : ReadStep (w.feed p.bytes) t := .header hstatus (by rw [hfed]; omega)
  have hsecond : ReadStep t t.takePayload := by
    refine .payload hstatus' ?_
    rw [hheader.payloadSize, hincoming, List.length_drop]
    omega
  have hstuck : receiver.Stuck t.takePayload := by
    have hnone : t.takePayload.incoming = [] := by
      rw [incoming_takePayload, hheader.payloadSize, hincoming, List.drop_drop]
      apply List.drop_eq_nil_of_le
      omega
    have hwaiting := status_takePayload t
    intro v hstep
    cases hstep with
    | header _ hlong =>
      rw [hnone] at hlong
      cases hlong
    | payload hreceived _ => cases hwaiting.symm.trans hreceived
  obtain ⟨v, hrun, hsound, hsteps⟩ := schedule_run slots h
  refine ⟨v, hrun, fun hquiet => ?_⟩
  have hreach := hsteps.steps
  rw [hstream] at hreach
  rw [← hpayload]
  exact stuck_unique ((quiet_iff hsound).mp hquiet) hstuck hreach
    ((ReflTransGen.single hfirst).tail hsecond)

/-! ## A modify packet -/

/-- The rows that a scan for a registered variable writes through are those of this
variable, if the keys are pairwise distinct. -/
theorem mem_hits_iff (h : Registered w es) (hkeys : (es.map Entry.key).Nodup) {e : Entry}
    (he : e ∈ es) {packet : LiveDataPacket} (hid : packet.packetID = e.key)
    (htype : packet.valueType = e.type.bits 16) {r : Row} :
    r ∈ hits packet w.rows ↔ r ∈ w.rows ∧ r.tag = e.tag := by
  -- a row with this key is the row of this variable
  have hunique : ∀ r ∈ w.rows, r.1.packetID = packet.packetID → r.tag = e.tag := by
    intro r hr hkey
    have hmem : r.tag ∈ es.map Entry.tag := by
      rw [← h.rows]
      exact List.mem_map_of_mem hr
    obtain ⟨e', he', htag⟩ := List.mem_map.mp hmem
    have hsame : e'.key = e.key := by
      rw [← hid, ← hkey]
      exact congrArg Prod.fst htag
    rw [← htag, List.inj_on_of_nodup_map hkeys he' he hsame]
  have hall : hits packet w.rows = w.rows.filter fun r => r.1.packetID = packet.packetID := by
    rw [hits, List.takeWhile_eq_self_iff]
    intro r hr
    obtain ⟨hr, hkey⟩ := List.mem_filter.mp hr
    have htag := hunique r hr (of_decide_eq_true hkey)
    rw [decide_eq_true_eq, htype]
    exact congrArg (fun t => t.2.1) htag
  rw [hall, List.mem_filter, decide_eq_true_eq]
  constructor
  · exact fun hr => ⟨hr.1, hunique r hr.1 hr.2⟩
  · rintro ⟨hr, htag⟩
    refine ⟨hr, ?_⟩
    rw [hid]
    exact congrArg Prod.fst htag

/-- A variable has the given value: its low byte for a `bool`, its 32 bits for the
other types. -/
def Entry.HasValue (e : Entry) (vars : Ptr → BitVec 32) (value : BitVec 32) : Prop :=
  if e.type = .bool then boolByte (vars e.ptr) = boolByte value else vars e.ptr = value

/-- **A modify packet sets the variable of its record** and no other, if the record
names a registered variable and its type. -/
theorem deliver_modify (h : Sound w es) (hstatus : w.dashboard.packetStatus = .waiting)
    (hempty : w.incoming = []) (hkeys : (es.map Entry.key).Nodup) {e : Entry} (he : e ∈ es)
    (hstring : e.type ≠ .string) {packet : LiveDataPacket} (hid : packet.packetID = e.key)
    (htype : packet.valueType = e.type.bits 16)
    (hp : p.packetType = PacketID.modify.code) (hkey : p.key = packet.toBytes)
    (hvalue : p.value = []) {slots : List Slot} (hstream : stream slots = p.bytes) :
    ∃ v, runSchedule slots w = some v ∧
      (Quiet v → e.HasValue v.vars packet.value ∧ ∀ q, q ≠ e.ptr → v.vars q = w.vars q) := by
  have hlen : p.bytes.length ≤ 100 := by
    rw [p.length_bytes, hkey, hvalue, LiveDataPacket.length_toBytes, List.length_nil]
    decide
  obtain ⟨u, ⟨rest, hrx⟩, hrows, hvars, hrun⟩ := deliver h hstatus hempty hlen
  obtain ⟨v, hv, hend⟩ := hrun slots hstream
  refine ⟨v, hv, fun hquiet => ?_⟩
  -- the record that is read is the one in the packet
  have hheader : u.header.packetType = PacketID.modify.code := by
    rw [Firmware.header, hrx, p.ofBytes_bytes, ← hp]
    rfl
  have hrecord : u.record = packet := by
    rw [Firmware.record, hrx, List.drop_append_of_le_length (by rw [p.length_bytes]; omega),
      p.drop_bytes, hkey, List.append_assoc, List.append_assoc, LiveDataPacket.ofBytes_toBytes]
  have hfinal : v.vars = stored packet w.rows w.vars := by
    rw [hend hquiet, vars_process hheader, hrecord, hrows, hvars]
  have hmem := fun r => mem_hits_iff h.table hkeys he hid htype (r := r)
  rw [hfinal]
  constructor
  · obtain ⟨r, hr, htag⟩ : ∃ r ∈ w.rows, Row.tag r = e.tag := by
      have hmem : e.tag ∈ w.rows.map Row.tag := by
        rw [h.table.rows]
        exact List.mem_map_of_mem he
      exact List.mem_map.mp hmem
    have hptr : r.2 = some e.ptr := congrArg (fun t => t.2.2) htag
    have hholds : packet.HeldBy (stored packet w.rows w.vars e.ptr) :=
      stored_holds r ((hmem r).mpr ⟨hr, htag⟩) e.ptr hptr
    simp only [LiveDataPacket.HeldBy, htype, ValueType.bits_inj] at hholds
    rw [Entry.HasValue]
    split_ifs at hholds ⊢ with hbool
    · exact hholds
    · apply hholds
      cases ht : e.type with
      | string => exact absurd ht hstring
      | bool => exact absurd ht hbool
      | _ => decide
  · intro q hq
    refine stored_frame fun r hr hptr => hq ?_
    have htag := ((hmem r).mp hr).2
    exact Option.some.inj (hptr.symm.trans (congrArg (fun t => t.2.2) htag))

end Houston
