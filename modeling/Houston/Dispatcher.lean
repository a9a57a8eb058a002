import Houston.Cobs
import Houston.Consumers
import Mathlib.Logic.Function.Basic

/-!
# The dispatcher: `Dispatcher.h`

The dispatcher decodes a frame in place, checks what came out, and hands it to the
consumer registered for its packet type. Each check prints a message and drops the
frame; the lookup behind the checks is not checked.

* `dispatchChecks_eq` — the checks let a frame through exactly when it decodes to a
  sealed packet.
* `dispatchChecks_iff` — on short delimited frames that is the packet grammar: the
  frames let through are the encodings of packets.
* `dispatchData_cases` — what the dispatcher does with a frame.
* `dispatchesSafely_iff` — when a frame is dispatched without a call through a null
  pointer.
-/

namespace Houston

open Stuffing

/-! ## The model -/

/-- A consumer of the application, as a pointer to it names it. -/
abbrev ConsumerPtr : Type := ℕ

/-- `Dispatcher`. A handler may be registered as a null pointer. -/
structure Dispatcher where
  /-- `handlerMap`: no entry, a null pointer, or a consumer -/
  handlerMap : Byte → Option (Option ConsumerPtr)
  txData : List (List Byte)

namespace Dispatcher

/-- A dispatcher without handlers. -/
def empty : Dispatcher where
  handlerMap _ := none
  txData := []

/-- `Dispatcher::registerHandler` -/
def registerHandler (id : Byte) (handler : Option ConsumerPtr) (d : Dispatcher) : Dispatcher :=
  { d with handlerMap := Function.update d.handlerMap id (some handler) }

/-- `Dispatcher::getHandler`: null if there is no entry. -/
def getHandler (key : Byte) (d : Dispatcher) : Option ConsumerPtr :=
  match d.handlerMap key with
  | some handler => handler
  | none => none

/-- `Dispatcher::sendData` -/
def sendData (data : List Byte) (d : Dispatcher) : Dispatcher :=
  { d with txData := d.txData ++ [data] }

end Dispatcher

/-- The host: its dispatcher, its consumers, and what it printed to `std::cerr`. -/
structure Host where
  dispatcher : Dispatcher
  consumers : ConsumerPtr → DataConsumer
  cerr : List String

/-- The checks of `Dispatcher::dispatchData` behind the decoder: the message of the
check that failed, or the header and the decoded buffer. -/
def decodedChecks {n : ℕ} (buf : Buffer Byte n) (decodeSize : ℕ) :
    Option (Except String (DashboardPacketHeader × List Byte)) :=
  if decodeSize < 12 + 4 then some (.error "Decoded data too small to contain header and tail")
  else do
    let bytes ← buf.read? 0 12
    let header := DashboardPacketHeader.ofBytes bytes
    if crc16 (bytes.take 10) 0 ≠ header.checksum then some (.error "Checksum mismatch")
    else
      let payloadSize := header.payloadKeySize.toNat + header.payloadValueSize.toNat
      if decodeSize ≠ 12 + payloadSize + 4 then some (.error "Decoded data size mismatch")
      else do
        let tail ← buf.read? (12 + payloadSize) 4
        let payload ← buf.read? 12 payloadSize
        if crc32 payload 0 ≠ wordAt 32 4 tail 0 then some (.error "Payload checksum mismatch")
        else some (.ok (header, buf.data))

/-- `Dispatcher::dispatchData` up to the lookup. `decodeSize` is not initialised; it is
read only after the decoder has set it. -/
def dispatchChecks (data : List Byte) :
    Option (Except String (DashboardPacketHeader × List Byte)) :=
  if data.length < 12 then some (.error "Data too small to contain header")
  else do
    let (status, buf, decodeSize) ← cobsDecode (Buffer.ofList data) (u32 data.length) 0
    if status ≠ .ok then some (.error "COBS decoding failed")
    else decodedChecks buf decodeSize

/-- `Dispatcher::dispatchData` -/
def dispatchData (data : List Byte) (h : Host) : Option Host := do
  match ← dispatchChecks data with
  | .error message => some { h with cerr := h.cerr ++ [message] }
  | .ok (header, data) =>
    match h.dispatcher.getHandler header.packetType with
    | none => none
    | some handler => do
      let consumer ← (h.consumers handler).consume data
      some { h with consumers := Function.update h.consumers handler consumer }

/-! ## The checks -/

variable {data : List Byte}

/-- The checks behind the decoder are those of the packet grammar, in an order in which
none of them reads what was not decoded. -/
theorem decodedChecks_eq {n : ℕ} {buf : Buffer Byte n} {y rest : List Byte}
    (hdata : buf.data = y ++ rest) :
    (Sealed y ∧ decodedChecks buf y.length =
        some (.ok (DashboardPacketHeader.ofBytes y, y ++ rest))) ∨
      (¬ Sealed y ∧ ∃ message, decodedChecks buf y.length = some (.error message)) := by
  have hn := Buffer.length_eq_of_eq hdata
  rw [List.length_append] at hn
  rcases Nat.lt_or_ge y.length (12 + 4) with hshort | hlong
  · refine Or.inr ⟨fun hsealed => ?_, _, if_pos hshort⟩
    have := hsealed.length
    omega
  · have hread : buf.read? 0 12 = some (y.take 12) := by
      rw [Buffer.read?_eq_some (by omega), hdata, List.drop_zero,
        List.take_append_of_le_length (by omega)]
    have hheader : DashboardPacketHeader.ofBytes (y.take 12) = DashboardPacketHeader.ofBytes y :=
      DashboardPacketHeader.ofBytes_take (le_refl 12)
    have hfront : (y.take 12).take 10 = y.take 10 := by
      rw [List.take_take]
      rfl
    have hpayload : (DashboardPacketHeader.ofBytes y).payloadKeySize.toNat +
      (DashboardPacketHeader.ofBytes y).payloadValueSize.toNat = payloadSize y := rfl
    rw [decodedChecks, if_neg (Nat.not_lt_of_le hlong), hread, Option.bind_eq_bind,
      Option.bind_some, hheader, hfront]
    simp only [hpayload]
    by_cases hsum : crc16 (y.take 10) 0 = (DashboardPacketHeader.ofBytes y).checksum
    · rw [if_neg (not_not_intro hsum)]
      by_cases hsize : y.length = 12 + payloadSize y + 4
      · -- the tail and the payload lie within what was decoded
        have htail : buf.read? (12 + payloadSize y) 4 =
            some ((y.drop (12 + payloadSize y)).take 4) := by
          rw [Buffer.read?_eq_some (by omega), hdata, List.drop_append_of_le_length (by omega),
            List.take_append_of_le_length (by rw [List.length_drop]; omega)]
        have hbody : buf.read? 12 (payloadSize y) = some ((y.drop 12).take (payloadSize y)) := by
          rw [Buffer.read?_eq_some (by omega), hdata, List.drop_append_of_le_length (by omega),
            List.take_append_of_le_length (by rw [List.length_drop]; omega)]
        rw [if_neg (not_not_intro hsize), htail, hbody, Option.bind_some, Option.bind_some,
          wordAt_cut, hdata]
        by_cases hcrc : crc32 ((y.drop 12).take (payloadSize y)) 0 =
            wordAt 32 4 y (12 + payloadSize y)
        · exact Or.inl ⟨⟨hsum, hsize, hcrc⟩, if_neg (not_not_intro hcrc)⟩
        · exact Or.inr ⟨fun hsealed => hcrc hsealed.payload, _, if_pos hcrc⟩
      · exact Or.inr ⟨fun hsealed => hsize hsealed.length, _, if_pos hsize⟩
    · exact Or.inr ⟨fun hsealed => hsum hsealed.header, _, if_pos hsum⟩

/-- **The checks accept the sealed packets**: they terminate inside the buffer, and let
a frame through exactly when it decodes to a sealed packet. -/
theorem dispatchChecks_eq (hn : data.length < 2 ^ 31) :
    (∃ y rest, unstuff data = some y ∧ Sealed y ∧
        dispatchChecks data = some (.ok (DashboardPacketHeader.ofBytes y, y ++ rest))) ∨
      ((∀ y, unstuff data = some y → ¬ Sealed y) ∧
        ∃ message, dispatchChecks data = some (.error message)) := by
  have hsize : u32 data.length = data.length := u32_of_lt (by omega)
  by_cases hshort : data.length < 12
  · refine Or.inr ⟨fun y hy hsealed => ?_, _, if_pos hshort⟩
    have hlen := hsealed.length
    have := length_unstuffFrom hy
    omega
  · rw [dispatchChecks, if_neg hshort, hsize]
    rcases cobsDecode_eq hn (Buffer.ofList data) 0 with
      ⟨y, buf, rest, hy, -, hdec, hdata, -⟩ | ⟨hnone, status, buf, hdec, hstatus⟩
    · rw [hdec]
      rcases decodedChecks_eq hdata with ⟨hsealed, hchecks⟩ | ⟨hsealed, message, hchecks⟩
      · exact Or.inl ⟨y, rest, hy, hsealed, hchecks⟩
      · refine Or.inr ⟨fun y' hy' => ?_, message, hchecks⟩
        obtain rfl := Option.some.inj (hy.symm.trans hy')
        exact hsealed
    · refine Or.inr ⟨fun y hy => ?_, "COBS decoding failed", ?_⟩
      · rcases hnone with hnone | hone
        · cases hnone.symm.trans hy
        · omega
      · rw [hdec, Option.bind_eq_bind, Option.bind_some]
        exact if_pos hstatus

/-! ## The packet grammar -/

/-- `f` is what `cobs_encode` makes of `x`, given room for it. -/
def CobsOutput (x f : List Byte) : Prop :=
  ∃ (n destSize : ℕ) (dest dest' : Buffer Byte n), Room destSize n ∧
    cobsEncode x dest destSize = some (.ok, dest', f.length) ∧ dest'.data.take f.length = f

/-- What `cobs_encode` makes of a string of bytes is its stuffing. -/
theorem CobsOutput.eq_stuff {x f : List Byte} (h : CobsOutput x f) (hx : x ≠ []) : f = stuff x := by
  obtain ⟨n, destSize, dest, dest', hr, henc, htake⟩ := h
  rcases Nat.eq_zero_or_pos destSize with rfl | hpos
  · rw [cobsEncode, if_pos (Or.inl Nat.zero_lt_one)] at henc
    simp at henc
  · rcases cobsEncode_eq hx dest hr hpos with ⟨-, dest'', hfull⟩ | ⟨-, dest'', hok, hcopy⟩
    · rw [hfull] at henc
      simp at henc
    · rw [hok] at henc
      obtain ⟨rfl, hlen⟩ : dest'' = dest' ∧ (stuff x).length = f.length := by simpa using henc
      rw [← htake, ← hlen]
      exact Buffer.take_of_memcpy hcopy

theorem cobsOutput_iff {x f : List Byte} (hx : x ≠ []) (hf : f.length < 2 ^ 32) :
    CobsOutput x f ↔ f = stuff x := by
  constructor
  · exact fun h => h.eq_stuff hx
  · rintro rfl
    have hpos : 0 < (stuff x).length := by
      rw [length_stuff]
      omega
    have hr : Room (stuff x).length (stuff x).length := ⟨le_refl _, hf⟩
    rcases cobsEncode_eq hx (Buffer.replicate (stuff x).length 0) hr hpos with
      ⟨hlt, -⟩ | ⟨-, dest', hok, hcopy⟩
    · exact absurd hlt (Nat.lt_irrefl _)
    · exact ⟨_, _, _, dest', hr, hok, Buffer.take_of_memcpy hcopy⟩

/-- **The dispatcher accepts its packet grammar**: a frame of at most 255 bytes whose
last byte is its only zero gets past the checks if and only if it is the encoding of
a packet. -/
theorem dispatchChecks_iff (hlen : data.length ≤ 255) (hd : Delimited data) :
    (∃ r, dispatchChecks data = some (.ok r)) ↔ ∃ p : Packet, CobsOutput p.bytes data := by
  have hne : ∀ p : Packet, p.bytes ≠ [] := fun p => List.ne_nil_of_length_pos (by simp)
  constructor
  · rintro ⟨r, hr⟩
    rcases dispatchChecks_eq (show data.length < 2 ^ 31 by omega) with
      ⟨y, rest, hy, hsealed, -⟩ | ⟨-, message, herror⟩
    · -- a short frame is the encoding of what it decodes to
      obtain ⟨p, rfl⟩ := sealed_iff.mp hsealed
      have hone : data ≠ [0] := by
        rintro rfl
        have hshort := length_unstuffFrom hy
        rw [Packet.length_bytes, List.length_singleton] at hshort
        omega
      exact ⟨p, (cobsOutput_iff (hne p) (by omega)).mpr
        (stuff_unstuff hd (by rw [cap_eq]; exact hlen) hy hone).symm⟩
    · cases hr.symm.trans herror
  · rintro ⟨p, hp⟩
    have hframe : data = stuff p.bytes := (cobsOutput_iff (hne p) (by omega)).mp hp
    have hy : unstuff data = some p.bytes := by
      have hstuff := length_stuff p.bytes
      rw [← hframe] at hstuff
      rw [hframe]
      apply unstuff_stuff_short
      rw [cap_eq]
      omega
    rcases dispatchChecks_eq (show data.length < 2 ^ 31 by omega) with
      ⟨y, rest, -, -, hok⟩ | ⟨hnone, -⟩
    · exact ⟨_, hok⟩
    · exact absurd p.sealed_bytes (hnone _ hy)

/-- The criterion on the frame of a reading. -/
theorem dispatchChecks_iff_reading :
    (∃ r, dispatchChecks (stuff reading.bytes) = some (.ok r)) ↔
      ∃ p : Packet, CobsOutput p.bytes (stuff reading.bytes) := by
  have hlen : reading.bytes.length = 21 := Packet.length_bytes _
  have hcap : reading.bytes.length ≤ Alphabet.cap Byte := by
    rw [hlen, cap_eq]
    decide
  refine dispatchChecks_iff ?_ (delimited_stuff _)
  rw [length_stuff_short hcap, hlen]
  decide

/-! ## Dispatching -/

/-- The host after a failed check. -/
def Host.print (message : String) (h : Host) : Host := { h with cerr := h.cerr ++ [message] }

/-- The host with another consumer behind a pointer. -/
def Host.setConsumer (c : ConsumerPtr) (consumer : DataConsumer) (h : Host) : Host :=
  { h with consumers := Function.update h.consumers c consumer }

@[simp] theorem Host.consumers_setConsumer_self (c : ConsumerPtr) (consumer : DataConsumer)
    (h : Host) : (h.setConsumer c consumer).consumers c = consumer := Function.update_self ..

theorem Host.consumers_setConsumer_of_ne {c c' : ConsumerPtr} (hne : c' ≠ c)
    (consumer : DataConsumer) (h : Host) :
    (h.setConsumer c consumer).consumers c' = h.consumers c' := Function.update_of_ne hne ..

/-- The packet type of a decoded frame. -/
def packetTypeOf (y : List Byte) : Byte := (DashboardPacketHeader.ofBytes y).packetType

theorem packetTypeOf_bytes (p : Packet) : packetTypeOf p.bytes = p.packetType := by
  rw [packetTypeOf, ← List.append_nil p.bytes, p.ofBytes_bytes]
  rfl

/-- **What the dispatcher does with a frame**: it drops a frame that a check rejects,
calls through a null pointer where no handler is registered, and has the registered
consumer decode the packet elsewhere. -/
theorem dispatchData_cases (hn : data.length < 2 ^ 31) (h : Host) :
    ((∀ y, unstuff data = some y → ¬ Sealed y) ∧
        ∃ message, dispatchData data h = some (h.print message)) ∨
      ∃ (p : Packet) (rest : List Byte), unstuff data = some p.bytes ∧
        ((h.dispatcher.getHandler p.packetType = none ∧ dispatchData data h = none) ∨
          ∃ c consumer, h.dispatcher.getHandler p.packetType = some c ∧
            (h.consumers c).consume (p.bytes ++ rest) = some consumer ∧
            (h.consumers c).Pushed consumer ∧
            dispatchData data h = some (h.setConsumer c consumer)) := by
  rcases dispatchChecks_eq hn with ⟨y, rest, hy, hsealed, hok⟩ | ⟨hnone, message, herror⟩
  · obtain ⟨p, rfl⟩ := sealed_iff.mp hsealed
    have htype : (DashboardPacketHeader.ofBytes p.bytes).packetType = p.packetType :=
      packetTypeOf_bytes p
    refine Or.inr ⟨p, rest, hy, ?_⟩
    rw [dispatchData, hok, Option.bind_eq_bind, Option.bind_some]
    simp only [htype]
    cases hhandler : h.dispatcher.getHandler p.packetType with
    | none => exact Or.inl ⟨rfl, rfl⟩
    | some c =>
      obtain ⟨consumer, hconsume, hpushed⟩ :=
        DataConsumer.consume_eq_some p rest (h.consumers c)
      refine Or.inr ⟨c, consumer, rfl, hconsume, hpushed, ?_⟩
      simp only [hconsume]
      rfl
  · refine Or.inl ⟨hnone, message, ?_⟩
    rw [dispatchData, herror, Option.bind_eq_bind, Option.bind_some]
    rfl

/-- The frame of a short packet, with a handler for its type. -/
theorem dispatchData_stuff {p : Packet} (hlen : p.bytes.length ≤ 254) {h : Host} {c : ConsumerPtr}
    {consumer : DataConsumer} (hc : h.dispatcher.getHandler p.packetType = some c)
    (hconsume : ∀ rest, (h.consumers c).consume (p.bytes ++ rest) = some consumer) :
    dispatchData (stuff p.bytes) h = some (h.setConsumer c consumer) := by
  have hcap : p.bytes.length ≤ Alphabet.cap Byte := hlen
  have hframe : (stuff p.bytes).length = p.bytes.length + 2 := length_stuff_short hcap
  have hy : unstuff (stuff p.bytes) = some p.bytes := unstuff_stuff_short hcap
  rcases dispatchData_cases (show (stuff p.bytes).length < 2 ^ 31 by omega) h with
    ⟨hnone, -⟩ | ⟨p', rest, hy', hcase⟩
  · exact absurd p.sealed_bytes (hnone _ hy)
  · -- the packet that was decoded is the one that was sent
    have hbytes : p'.bytes = p.bytes := Option.some.inj (hy'.symm.trans hy)
    have htype : p'.packetType = p.packetType := by
      rw [← packetTypeOf_bytes, hbytes, packetTypeOf_bytes]
    rw [htype, hc, hbytes] at hcase
    rcases hcase with ⟨hnull, -⟩ | ⟨c', consumer', hc', hconsume', -, hrun⟩
    · cases hnull
    · cases hc'
      obtain rfl := Option.some.inj ((hconsume rest).symm.trans hconsume')
      exact hrun

/-- A frame is dispatched as it should be: the call returns, and either no queue
changes or the queue behind the handler for the decoded packet type grows by one
element. A frame that passes the checks without having a handler is dropped. -/
def DispatchesSafely (data : List Byte) (h : Host) : Prop :=
  ∃ h', dispatchData data h = some h' ∧ h'.dispatcher = h.dispatcher ∧
    (h'.consumers = h.consumers ∨
      ∃ y c consumer, unstuff data = some y ∧
        h.dispatcher.getHandler (packetTypeOf y) = some c ∧
        (h.consumers c).Pushed consumer ∧
        h'.consumers = Function.update h.consumers c consumer) ∧
    ∀ y, unstuff data = some y → Sealed y →
      h.dispatcher.getHandler (packetTypeOf y) = none → h'.consumers = h.consumers

/-- **When a frame is dispatched safely**: unless it decodes to a sealed packet whose
type has no handler. -/
theorem dispatchesSafely_iff (hn : data.length < 2 ^ 31) (h : Host) :
    DispatchesSafely data h ↔
      ∀ y, unstuff data = some y → Sealed y →
        ∃ c, h.dispatcher.getHandler (packetTypeOf y) = some c := by
  rcases dispatchData_cases hn h with
    ⟨hnone, message, hdrop⟩ | ⟨p, rest, hy, ⟨hnull, hcrash⟩ | ⟨c, consumer, hc, -, hpushed, hrun⟩⟩
  · -- a check fails
    refine iff_of_true ?_ fun y hy hsealed => absurd hsealed (hnone y hy)
    exact ⟨_, hdrop, rfl, Or.inl rfl, fun y hy hsealed => absurd hsealed (hnone y hy)⟩
  · -- the lookup yields a null pointer
    refine iff_of_false ?_ fun hhandler => ?_
    · rintro ⟨h', hrun, -⟩
      cases hcrash.symm.trans hrun
    · obtain ⟨c, hc⟩ := hhandler p.bytes hy p.sealed_bytes
      rw [packetTypeOf_bytes, hnull] at hc
      cases hc
  · refine iff_of_true ?_ fun y hy' hsealed => ?_
    · refine ⟨_, hrun, rfl, Or.inr ⟨p.bytes, c, consumer, hy, ?_, hpushed, rfl⟩, ?_⟩
      · rw [packetTypeOf_bytes, hc]
      · intro y hy' _ hnull
        obtain rfl := Option.some.inj (hy.symm.trans hy')
        rw [packetTypeOf_bytes, hc] at hnull
        cases hnull
    · obtain rfl := Option.some.inj (hy.symm.trans hy')
      exact ⟨c, by rw [packetTypeOf_bytes, hc]⟩

/-- The host as `main` starts it: three handlers, and empty queues. -/
def Host.main : Host where
  dispatcher := ((Dispatcher.empty.registerHandler PacketID.alert.code (some 0)).registerHandler
    PacketID.telemetry.code (some 1)).registerHandler PacketID.responseLiveData.code (some 2)
  consumers
    | 0 => .alert []
    | 1 => .telemetry []
    | _ => .liveData []
  cerr := []

/-- **A null pointer is called**: a modify packet comes back to the host, which has no
handler for it. -/
theorem not_dispatchesSafely_modify :
    (stuff (Packet.blank PacketID.modify.code).bytes).length < 2 ^ 31 ∧
      (∃ r, dispatchChecks (stuff (Packet.blank PacketID.modify.code).bytes) = some (.ok r) ∧
        Host.main.dispatcher.getHandler r.1.packetType = none) ∧
      dispatchData (stuff (Packet.blank PacketID.modify.code).bytes) Host.main = none ∧
      ¬ DispatchesSafely (stuff (Packet.blank PacketID.modify.code).bytes) Host.main := by
  have hlen : (stuff (Packet.blank PacketID.modify.code).bytes).length < 2 ^ 31 := by
    decide +kernel
  have hy : unstuff (stuff (Packet.blank PacketID.modify.code).bytes) =
      some (Packet.blank PacketID.modify.code).bytes := by decide +kernel
  have hnull : Host.main.dispatcher.getHandler PacketID.modify.code = none := by decide
  have hrun : dispatchData (stuff (Packet.blank PacketID.modify.code).bytes) Host.main = none := by
    decide +kernel
  refine ⟨hlen, ?_, hrun, ?_⟩
  · rcases dispatchChecks_eq hlen with ⟨y, rest, hy', -, hok⟩ | ⟨hnone, -⟩
    · obtain rfl := Option.some.inj (hy.symm.trans hy')
      exact ⟨_, hok, (congrArg Host.main.dispatcher.getHandler (packetTypeOf_bytes _)).trans hnull⟩
    · exact absurd (Packet.sealed_bytes _) (hnone _ hy)
  · rintro ⟨h', hsome, -⟩
    cases hrun.symm.trans hsome

/-- The criterion on that frame. -/
theorem dispatchesSafely_iff_modify :
    DispatchesSafely (stuff (Packet.blank PacketID.modify.code).bytes) Host.main ↔
      ∀ y, unstuff (stuff (Packet.blank PacketID.modify.code).bytes) = some y → Sealed y →
        ∃ c, Host.main.dispatcher.getHandler (packetTypeOf y) = some c :=
  dispatchesSafely_iff (by decide +kernel) Host.main

end Houston
