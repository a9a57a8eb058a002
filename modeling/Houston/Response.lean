import Houston.Dispatcher
import Houston.Receiving

/-!
# The live data response

The response to a request is a packet whose value is the table, record by record. The
host decodes it to the records that were sent, and these say what the registered
variables are.

* `Entry.ReportedBy` — what a record has to say of a variable.
* `reported_fresh` — the records of a response say it of the variables in the order of
  their registration.
* `dispatchData_response` — the host decodes exactly the records that were sent.
* `response_round_trip` — from a request to the queue of the live data consumer.
-/

namespace Houston

open Stuffing

variable {w : Firmware} {es : List Entry}

/-! ## The records -/

/-- A record reports a variable: its key, its type, and its value, which is the low
byte for a `bool` and 32 bits otherwise. -/
structure Entry.ReportedBy (vars : Ptr → BitVec 32) (e : Entry) (r : LiveDataPacket) : Prop where
  key : r.packetID = e.key
  type : r.valueType = e.type.bits 16
  value : if e.type = .bool then boolByte r.value = boolByte (vars e.ptr)
    else r.value = vars e.ptr

/-- A row of the table that is brought up to date reports its variable. -/
theorem reported_of_tag (vars : Ptr → BitVec 32) {r : Row} {e : Entry} (htag : r.tag = e.tag)
    (hstring : e.type ≠ .string) : e.ReportedBy vars (r.fresh vars) := by
  obtain ⟨hid, htype⟩ := Prod.mk.inj (r.tag_fresh vars)
  obtain ⟨entry, ptr⟩ := r
  obtain ⟨key, type, p⟩ := e
  obtain ⟨hkey, htag⟩ := Prod.mk.inj htag
  obtain ⟨hbits, hptr⟩ := Prod.mk.inj htag
  obtain rfl : ptr = some p := hptr
  have hvalue : entry.valueType = type.bits 16 := hbits
  refine ⟨hid.trans hkey, htype.trans hbits, ?_⟩
  rw [Row.fresh, loadValue, hvalue]
  cases type with
  | string => exact absurd rfl hstring
  | bool => exact boolByte_setBoolByte _ _
  | _ => rfl

/-- **The records of a response** report the registered variables, in order. -/
theorem reported_fresh (h : Registered w es) (hstring : ∀ e ∈ es, e.type ≠ .string) :
    List.Forall₂ (Entry.ReportedBy w.vars) es w.fresh := by
  have hpairs : List.Forall₂ (fun e r => Row.tag r = Entry.tag e) es w.rows := by
    have htags : List.Forall₂ (· = ·) (w.rows.map Row.tag) (es.map Entry.tag) := by
      rw [List.forall₂_eq_eq_eq]
      exact h.rows
    rw [List.forall₂_map_left_iff, List.forall₂_map_right_iff] at htags
    exact htags.flip
  have hall := (List.forall₂_and_left es w.rows).mpr ⟨hstring, hpairs⟩
  rw [Firmware.fresh, List.forall₂_map_right_iff]
  exact hall.imp fun _ _ hrow => reported_of_tag w.vars hrow.2 hrow.1

/-! ## The packet -/

/-- The response with the given records, as the protocol intends it. -/
def responseOf (records : List LiveDataPacket) (h : records.length ≤ 5) : Packet where
  packetType := PacketID.responseLiveData.code
  contentType := ValueType.uint32.bits 8
  timestamp := 0
  key := []
  value := payloadBytes records
  key_lt := Packet.length_nil_lt
  value_lt := by
    rw [length_payloadBytes]
    omega

theorem bytes_responseOf (records : List LiveDataPacket) (h : records.length ≤ 5) :
    (responseOf records h).bytes = responsePacket records := by
  have hlen : (payloadBytes records).length = records.length * 8 := by
    rw [length_payloadBytes, Nat.mul_comm]
  have hheader : (responseOf records h).header = responseHeader records.length := by
    rw [Packet.header, responseHeader, ← hlen]
    rfl
  rw [Packet.bytes, hheader]
  rfl

/-- **The host decodes the records that were sent**, whatever handler of the right kind
is registered for responses. -/
theorem dispatchData_response {records : List LiveDataPacket} (hlen : records.length ≤ 5)
    {h : Host} {c : ConsumerPtr} {queue : List (List LiveDataPacket)}
    (hc : h.dispatcher.getHandler PacketID.responseLiveData.code = some c)
    (hqueue : h.consumers c = .liveData queue) :
    dispatchData (stuff (responsePacket records)) h =
      some (h.setConsumer c (.liveData (queue ++ [records]))) := by
  rw [← bytes_responseOf records hlen]
  refine dispatchData_stuff ?_ hc fun rest => ?_
  · rw [bytes_responseOf, length_responsePacket]
    omega
  · rw [hqueue, DataConsumer.consume, LiveDataConsumer.decode_bytes _ rest rfl rfl]
    rfl

/-! ## The round trip -/

/-- What a request for the live data makes the firmware send. -/
theorem trace_respond (w : Firmware) :
    w.log.respond.trace = w.trace ++ [.processed w.packet,
      .sent (stuff (Call.alert (literal "Live Data Requested")).packet),
      .sent (stuff (responsePacket w.fresh))] := by
  rw [Firmware.respond, Firmware.trace_emit]
  show (w.trace ++ [_]) ++ [_] ++ [_] = _
  rw [List.append_assoc, List.append_assoc]
  rfl

/-- **The live data round trip**: a request to a firmware with registered variables, in
whatever state, is answered with an alert and a frame; and any host with a consumer of
live data for such responses decodes that frame to one record for each variable, in
order, which reports its key, its type and its value. -/
theorem response_round_trip (io : Transport) (h : Registered w es)
    (hstring : ∀ e ∈ es, e.type ≠ .string)
    (hrequest : w.header.packetType = PacketID.requestLiveData.code) :
    ∃ (status : DashboardStatus) (w' : Firmware) (frame : List Byte)
      (records : List LiveDataPacket),
      processPacket io w = some (status, w') ∧
      w'.trace = w.trace ++ [.processed w.packet,
        .sent (stuff (Call.alert (literal "Live Data Requested")).packet), .sent frame] ∧
      List.Forall₂ (Entry.ReportedBy w.vars) es records ∧
      ∀ (host : Host) (c : ConsumerPtr) (queue : List (List LiveDataPacket)),
        host.dispatcher.getHandler PacketID.responseLiveData.code = some c →
        host.consumers c = .liveData queue →
        dispatchData frame host =
          some (host.setConsumer c (.liveData (queue ++ [records]))) := by
  obtain ⟨status, hprocess⟩ := processPacket_request io h hrequest
  exact ⟨status, w.log.respond, stuff (responsePacket w.fresh), w.fresh, hprocess,
    trace_respond w, reported_fresh h hstring,
    fun host c queue hc hqueue => dispatchData_response h.length_fresh hc hqueue⟩

/-- One registered variable, and a request that was received. -/
def requested : Firmware :=
  ((oneVariable.feed (Packet.blank PacketID.requestLiveData.code).bytes).afterHeader
    openTransport).received.2

/-- The round trip of one variable. -/
theorem response_round_trip_one :
    ∃ (status : DashboardStatus) (w' : Firmware) (frame : List Byte)
      (records : List LiveDataPacket),
      processPacket openTransport requested = some (status, w') ∧
      w'.trace = requested.trace ++ [.processed requested.packet,
        .sent (stuff (Call.alert (literal "Live Data Requested")).packet), .sent frame] ∧
      List.Forall₂ (Entry.ReportedBy requested.vars) [⟨0, .uint32, 0⟩] records ∧
      ∀ (host : Host) (c : ConsumerPtr) (queue : List (List LiveDataPacket)),
        host.dispatcher.getHandler PacketID.responseLiveData.code = some c →
        host.consumers c = .liveData queue →
        dispatchData frame host =
          some (host.setConsumer c (.liveData (queue ++ [records]))) :=
  response_round_trip openTransport ⟨by decide +kernel, by decide +kernel⟩ (by decide)
    (by decide +kernel)

end Houston
