import Houston.Dispatcher
import Houston.Sending

/-!
# From calls to queues

The wire between the two sides: `SerialProducer.h` cuts the stream at its zeros and
puts them back, and every piece goes through the dispatcher.

* `readPackets_flatten` — the cuts fall between the frames.
* `Host.Holds.dispatch` — a frame that a sender passes on puts one element into the
  right queue.
* `delivery` — any sequence of telemetry and alert calls arrives in the queues, complete
  and in order.
-/

namespace Houston

open Stuffing

/-! ## The model -/

/-- The packets that `SerialProducer` queues, `s` being what was read since the last
zero: up to each zero, and none of an empty line. -/
def readPackets (s : List Byte) : List Byte → List (List Byte)
  | [] => []
  | b :: stream =>
    if b = 0 then
      if s = [] then readPackets [] stream else (s ++ [0]) :: readPackets [] stream
    else readPackets (s ++ [b]) stream

/-- `SerialProducer::produce` -/
def produce (batch : List (List Byte)) (h : Host) : Option Host :=
  batch.foldlM (fun h packet => dispatchData packet h) h

/-- Calls of the senders, one after another, and the statuses they return. -/
def runCalls (io : Transport) : List Call → Firmware → Option (List DashboardStatus × Firmware)
  | [], w => some ([], w)
  | c :: calls, w => do
    let (status, w) ← c.run io w
    let (statuses, w) ← runCalls io calls w
    some (status :: statuses, w)

/-- The queue element that a telemetry call stands for. -/
def Call.telemetry : Call → Option (List Byte × List Byte)
  | .telemetryStr key value => some (key.bytes, value.bytes)
  | .telemetryInt32 key value => some (key.bytes, intText value)
  | .telemetryUint32 key value => some (key.bytes, uintText value)
  | .telemetryFloat key value => some (key.bytes, floatText value)
  | .alert _ => none

/-- The queue element that an alert call stands for. -/
def Call.alertText : Call → Option (List Byte)
  | .alert str => some str.bytes
  | _ => none

/-! ## Cutting -/

/-- Reading up to the next zero. -/
theorem readPackets_append (stream : List Byte) : ∀ t s : List Byte, (0 : Byte) ∉ t → s ++ t ≠ [] →
    readPackets s (t ++ 0 :: stream) = (s ++ t ++ [0]) :: readPackets [] stream := by
  intro t
  induction t with
  | nil =>
    intro s _ hne
    rw [List.append_nil] at hne
    rw [List.nil_append, readPackets, if_pos rfl, if_neg hne, List.append_nil]
  | cons b t ih =>
    intro s hz hne
    rw [List.mem_cons, not_or] at hz
    rw [List.cons_append, readPackets, if_neg (Ne.symm hz.1), ih (s ++ [b]) hz.2 (by simp),
      List.append_assoc s, List.singleton_append]

/-- **The cuts fall between the frames.** -/
theorem readPackets_flatten : ∀ frames : List (List Byte),
    (∀ f ∈ frames, Delimited f ∧ f ≠ [0]) → readPackets [] frames.flatten = frames := by
  intro frames
  induction frames with
  | nil => exact fun _ => rfl
  | cons f frames ih =>
    intro hframes
    obtain ⟨⟨t, rfl, hz⟩, hne⟩ := hframes f List.mem_cons_self
    have ht : [] ++ t ≠ [] := by
      rintro hnil
      rw [List.nil_append] at hnil
      exact hne (by rw [hnil]; rfl)
    rw [List.flatten_cons, List.append_assoc, List.singleton_append, zero_eq,
      readPackets_append _ t [] hz ht, ih fun f hf => hframes f (List.mem_cons_of_mem _ hf)]
    rfl

theorem stuff_ne_zero (xs : List Byte) : stuff xs ≠ [0] := by
  intro h
  have hlen := length_stuff xs
  rw [h, List.length_singleton] at hlen
  omega

/-! ## One call -/

/-- The host that `main` sets up, with these queues. -/
structure Host.Holds (h : Host) (telemetry : List (List Byte × List Byte))
    (alerts : List (List Byte)) (responses : List (List LiveDataPacket)) : Prop where
  dispatcher : h.dispatcher = Host.main.dispatcher
  alert : h.consumers 0 = .alert alerts
  telemetry : h.consumers 1 = .telemetry telemetry
  liveData : h.consumers 2 = .liveData responses

theorem Host.holds_main : Host.main.Holds [] [] [] := ⟨rfl, rfl, rfl, rfl⟩

variable {c : Call}

theorem wordAt_wordBytes (v : BitVec 32) : wordAt 32 4 (wordBytes 4 v) 0 = v := by
  have hread := wordAt_append (k := 4) (by decide) v [] []
  rwa [List.nil_append, List.append_nil, List.length_nil] at hread

/-- What is decoded of a telemetry packet is what was sent. -/
theorem telemetryOf_toPacket (hsize : c.size ≤ 100) {entry : List Byte × List Byte}
    (hentry : c.telemetry = some entry) : telemetryOf (c.toPacket hsize) = entry := by
  cases c with
  | telemetryStr key value => exact Option.some.inj hentry
  | telemetryInt32 key value =>
    rw [← Option.some.inj hentry]
    exact congrArg (fun v => (key.bytes, intText v)) (wordAt_wordBytes value)
  | telemetryUint32 key value =>
    rw [← Option.some.inj hentry]
    exact congrArg (fun v => (key.bytes, uintText v)) (wordAt_wordBytes value)
  | telemetryFloat key value =>
    rw [← Option.some.inj hentry]
    exact congrArg (fun v => (key.bytes, floatText v)) (wordAt_wordBytes value)
  | alert str => cases hentry

/-- **One call, one element**: the frame of a call puts what the call says into the
queue of its kind. -/
theorem Host.Holds.dispatch {h : Host} {telemetry : List (List Byte × List Byte)}
    {alerts : List (List Byte)} {responses : List (List LiveDataPacket)}
    (hq : h.Holds telemetry alerts responses) (hsize : c.size ≤ 99) :
    ∃ h', dispatchData (stuff c.packet) h = some h' ∧
      h'.Holds (telemetry ++ c.telemetry.toList) (alerts ++ c.alertText.toList) responses := by
  have hfits : c.size ≤ 100 := Nat.le_succ_of_le hsize
  have hbytes : (c.toPacket hfits).bytes = c.packet := Call.bytes_toPacket hfits
  have hlen : (c.toPacket hfits).bytes.length ≤ 254 := by
    have hpacket : (c.toPacket hfits).bytes.length = c.size := Packet.length_bytes _
    omega
  rw [← hbytes]
  cases hentry : c.telemetry with
  | none =>
    obtain ⟨str, rfl⟩ : ∃ str, c = .alert str := by
      cases c with
      | alert str => exact ⟨str, rfl⟩
      | _ => cases hentry
    have hhandler : h.dispatcher.getHandler PacketID.alert.code = some 0 := by
      rw [hq.dispatcher]
      rfl
    have hrun : dispatchData (stuff (Call.toPacket (.alert str) hfits).bytes) h =
        some (h.setConsumer 0 (.alert (alerts ++ [str.bytes]))) := by
      refine dispatchData_stuff hlen hhandler fun rest => ?_
      rw [hq.alert, DataConsumer.consume, AlertConsumer.decode_bytes _ rest rfl]
      rfl
    refine ⟨_, hrun, hq.dispatcher, Host.consumers_setConsumer_self .., ?_, ?_⟩
    · rw [Host.consumers_setConsumer_of_ne (by decide), hq.telemetry, Option.toList_none,
        List.append_nil]
    · rw [Host.consumers_setConsumer_of_ne (by decide), hq.liveData]
  | some entry =>
    have htype : c.packetType = .telemetry ∧ c.alertText = none := by
      cases c with
      | alert str => cases hentry
      | _ => exact ⟨rfl, rfl⟩
    have hhandler : h.dispatcher.getHandler (c.toPacket hfits).packetType = some 1 := by
      rw [Call.toPacket, htype.1, hq.dispatcher]
      rfl
    have hrun : dispatchData (stuff (c.toPacket hfits).bytes) h =
        some (h.setConsumer 1 (.telemetry (telemetry ++ [entry]))) := by
      refine dispatchData_stuff hlen hhandler fun rest => ?_
      rw [hq.telemetry, DataConsumer.consume, TelemetryConsumer.decode_bytes,
        telemetryOf_toPacket hfits hentry]
      rfl
    refine ⟨_, hrun, hq.dispatcher, ?_, Host.consumers_setConsumer_self .., ?_⟩
    · rw [Host.consumers_setConsumer_of_ne (by decide), hq.alert, htype.2, Option.toList_none,
        List.append_nil]
    · rw [Host.consumers_setConsumer_of_ne (by decide), hq.liveData]

/-! ## Sequences of calls -/

/-- **Every call returns `DASHBOARD_OK`** and passes on its frame. -/
theorem runCalls_eq {io : Transport} (hsend : ∀ trace frame, io.sendData trace frame = true) :
    ∀ (calls : List Call) (w : Firmware), (∀ c ∈ calls, c.size ≤ 99) →
      ∃ w', runCalls io calls w = some (List.replicate calls.length .ok, w') ∧
        w'.trace = w.trace ++ (calls.map fun c => stuff c.packet).map Event.sent := by
  intro calls
  induction calls with
  | nil => exact fun w _ => ⟨w, rfl, (List.append_nil _).symm⟩
  | cons c calls ih =>
    intro w hsizes
    obtain ⟨w', hrun, htrace⟩ :=
      ih (w.emit c.packet) fun c hc => hsizes c (List.mem_cons_of_mem _ hc)
    have hstatus : sendStatus io c.packet w = .ok := if_pos (hsend _ _)
    refine ⟨w', ?_, ?_⟩
    · rw [runCalls, Call.run_of_fits io (hsizes c List.mem_cons_self), hstatus]
      simp only [Option.bind_eq_bind, Option.bind_some, hrun]
      rfl
    · rw [htrace, Firmware.trace_emit, List.append_assoc]
      rfl

/-- The frames of the calls, dispatched one after another. -/
theorem produce_frames : ∀ (calls : List Call) {h : Host}
    {telemetry : List (List Byte × List Byte)} {alerts : List (List Byte)}
    {responses : List (List LiveDataPacket)}, (∀ c ∈ calls, c.size ≤ 99) →
    h.Holds telemetry alerts responses →
    ∃ h', produce (calls.map fun c => stuff c.packet) h = some h' ∧
      h'.Holds (telemetry ++ calls.filterMap Call.telemetry)
        (alerts ++ calls.filterMap Call.alertText) responses := by
  intro calls
  induction calls with
  | nil =>
    intro h telemetry alerts responses _ hq
    refine ⟨h, rfl, ?_⟩
    rwa [List.filterMap_nil, List.filterMap_nil, List.append_nil, List.append_nil]
  | cons c calls ih =>
    intro h telemetry alerts responses hsizes hq
    obtain ⟨h₁, hrun, hq₁⟩ := hq.dispatch (hsizes c List.mem_cons_self)
    obtain ⟨h₂, hrest, hq₂⟩ := ih (fun c hc => hsizes c (List.mem_cons_of_mem _ hc)) hq₁
    refine ⟨h₂, ?_, ?_⟩
    · rw [List.map_cons, produce, List.foldlM_cons, hrun]
      exact hrest
    · have hcons : ∀ {β : Type} (f : Call → Option β),
          (c :: calls).filterMap f = (f c).toList ++ calls.filterMap f := by
        intro β f
        rw [List.filterMap_cons]
        cases f c <;> rfl
      rwa [hcons, hcons, ← List.append_assoc, ← List.append_assoc]

/-- **Delivery**: calls whose packets take at most 99 bytes, on a firmware in any state,
all return `DASHBOARD_OK`; and when what they passed to `sendData` is cut into packets
and dispatched by the host that `main` sets up, its queues hold exactly what the calls
said, in their order. -/
theorem delivery {io : Transport} (hsend : ∀ trace frame, io.sendData trace frame = true)
    {calls : List Call} (hsizes : ∀ c ∈ calls, c.size ≤ 99) (w : Firmware) :
    ∃ (w' : Firmware) (frames : List (List Byte)) (h' : Host),
      runCalls io calls w = some (List.replicate calls.length .ok, w') ∧
      w'.trace = w.trace ++ frames.map .sent ∧
      produce (readPackets [] frames.flatten) Host.main = some h' ∧
      h'.Holds (calls.filterMap Call.telemetry) (calls.filterMap Call.alertText) [] := by
  obtain ⟨w', hrun, htrace⟩ := runCalls_eq hsend calls w hsizes
  obtain ⟨h', hproduce, hq⟩ := produce_frames calls hsizes Host.holds_main
  refine ⟨w', _, h', hrun, htrace, ?_, hq⟩
  rw [readPackets_flatten, hproduce]
  intro f hf
  obtain ⟨c, -, rfl⟩ := List.mem_map.mp hf
  exact ⟨delimited_stuff _, stuff_ne_zero _⟩

/-- A number and an alert are delivered. -/
theorem delivery_two_calls :
    ∃ (w' : Firmware) (frames : List (List Byte)) (h' : Host),
      runCalls (.exact fun _ _ => true)
          [.telemetryInt32 (literal "t") (-5), .alert (literal "hot")] (.boot fun _ => 0) =
        some (List.replicate 2 .ok, w') ∧
      w'.trace = (Firmware.boot fun _ => 0).trace ++ frames.map .sent ∧
      produce (readPackets [] frames.flatten) Host.main = some h' ∧
      h'.Holds [(ascii "t", ascii "-5")] [ascii "hot"] [] :=
  delivery (fun _ _ => rfl) (by decide) _

end Houston
