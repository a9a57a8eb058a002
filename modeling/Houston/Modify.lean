import Houston.Receiving

/-!
# What a modify packet acts on

The record of a modify packet is read right behind the header, 8 bytes of it,
whatever sizes the header announces. If the payload is shorter, the rest of the
record comes from the checksum behind it and from whatever `rxBuffer` held before.

* `stored_holds`, `stored_frame` — after a scan every row that was written through
  holds the record's value, and no other variable has changed.
* `stored_eq_self_iff` — when a scan changes nothing.
* `modify_iff` — when a modify packet acts through its own payload only.
-/

namespace Houston

variable {w v : Firmware} {es : List Entry} {packet : LiveDataPacket}
  {vars : Ptr → BitVec 32} {rows : List Row}

/-! ## What a scan writes -/

/-- A variable after the record's value was written over it. -/
def LiveDataPacket.over (packet : LiveDataPacket) (old : BitVec 32) : BitVec 32 :=
  if packet.valueType = ValueType.bool.bits 16 then setBoolByte old (boolByte packet.value)
  else if packet.valueType = ValueType.float.bits 16 ∨ packet.valueType = ValueType.int32.bits 16 ∨
      packet.valueType = ValueType.uint32.bits 16 then packet.value
  else old

/-- A variable holds the record's value already: its low byte for a `bool`, its four
bytes for the other types; there is nothing to hold for a type that is not written. -/
def LiveDataPacket.HeldBy (packet : LiveDataPacket) (old : BitVec 32) : Prop :=
  if packet.valueType = ValueType.bool.bits 16 then boolByte old = boolByte packet.value
  else packet.valueType = ValueType.float.bits 16 ∨ packet.valueType = ValueType.int32.bits 16 ∨
      packet.valueType = ValueType.uint32.bits 16 → old = packet.value

theorem over_eq_self_iff (old : BitVec 32) : packet.over old = old ↔ packet.HeldBy old := by
  rw [LiveDataPacket.over, LiveDataPacket.HeldBy]
  split_ifs with hbool htype
  · rw [setBoolByte_eq_self, eq_comm]
  · exact ⟨fun h _ => h.symm, fun h => (h htype).symm⟩
  · exact iff_of_true rfl fun h => absurd h htype

/-- Writing twice is writing once. -/
theorem heldBy_over (old : BitVec 32) : packet.HeldBy (packet.over old) := by
  rw [LiveDataPacket.over, LiveDataPacket.HeldBy]
  split_ifs with hbool htype
  · rw [boolByte_setBoolByte]
  · exact fun _ => rfl
  · exact fun h => absurd h htype

theorem store_eq {r : Row} {p : Ptr} (hr : r.2 = some p) :
    r.store packet vars = Function.update vars p (packet.over (vars p)) := by
  rw [Row.store, storeValue, hr, LiveDataPacket.over]
  have hne : ValueType.float.bits 16 ≠ ValueType.bool.bits 16 ∧
      ValueType.int32.bits 16 ≠ ValueType.bool.bits 16 ∧
      ValueType.uint32.bits 16 ≠ ValueType.bool.bits 16 := by decide
  split_ifs <;> simp_all

theorem store_null {r : Row} (hr : r.2 = none) : r.store packet vars = vars := by
  rw [Row.store, storeValue, hr]
  split_ifs <;> rfl

/-- The variable behind a row holds the record's value. -/
def Row.Holds (packet : LiveDataPacket) (vars : Ptr → BitVec 32) (r : Row) : Prop :=
  ∀ p, r.2 = some p → packet.HeldBy (vars p)

theorem store_eq_self_iff (r : Row) : r.store packet vars = vars ↔ r.Holds packet vars := by
  rcases hr : r.2 with - | p
  · exact iff_of_true (store_null hr) fun p hp => by rw [hr] at hp; cases hp
  · rw [store_eq hr, Function.update_eq_self_iff, over_eq_self_iff]
    constructor
    · intro h q hq
      obtain rfl : p = q := Option.some.inj (hr.symm.trans hq)
      exact h
    · exact fun h => h p hr

/-- Further writes of the record do no harm. -/
theorem Row.Holds.store {r : Row} (h : r.Holds packet vars) (r' : Row) :
    r.Holds packet (r'.store packet vars) := by
  intro p hp
  rcases hr' : r'.2 with - | q
  · rw [store_null hr']
    exact h p hp
  · rw [store_eq hr', Function.update_apply]
    split_ifs with hpq
    · exact heldBy_over _
    · exact h p hp

theorem holds_store (r : Row) : r.Holds packet (r.store packet vars) := by
  intro p hp
  rw [store_eq hp, Function.update_self]
  exact heldBy_over _

theorem foldl_store_holds {r : Row} (rows : List Row) :
    r.Holds packet vars → r.Holds packet (rows.foldl (Row.store packet) vars) := by
  induction rows generalizing vars with
  | nil => exact id
  | cons r' rows ih => exact fun h => ih (h.store r')

/-- **Every row that was written through holds the value** after the scan. -/
theorem stored_holds : ∀ r ∈ hits packet rows, r.Holds packet (stored packet rows vars) := by
  rw [stored]
  generalize hits packet rows = written
  induction written generalizing vars with
  | nil => exact fun r hr => absurd hr List.not_mem_nil
  | cons r written ih =>
    intro r' hr'
    rcases List.mem_cons.mp hr' with rfl | hr'
    · exact foldl_store_holds written (holds_store r')
    · exact ih r' hr'

/-- **No other variable changes** in a scan. -/
theorem stored_frame {p : Ptr} (h : ∀ r ∈ hits packet rows, r.2 ≠ some p) :
    stored packet rows vars p = vars p := by
  rw [stored]
  generalize hits packet rows = written at h
  induction written generalizing vars with
  | nil => rfl
  | cons r written ih =>
    rw [List.foldl_cons, ih fun r' hr' => h r' (List.mem_cons_of_mem r hr')]
    rcases hr : r.2 with - | q
    · rw [store_null hr]
    · rw [store_eq hr, Function.update_of_ne]
      rintro rfl
      exact h r List.mem_cons_self hr

/-- **When a scan changes nothing**: every row that it writes through holds the value
already. -/
theorem stored_eq_self_iff :
    stored packet rows vars = vars ↔ ∀ r ∈ hits packet rows, r.Holds packet vars := by
  constructor
  · intro h r hr
    have hheld : r.Holds packet (stored packet rows vars) := stored_holds r hr
    rwa [h] at hheld
  · rw [stored]
    generalize hits packet rows = written
    intro h
    induction written with
    | nil => rfl
    | cons r written ih =>
      rw [List.foldl_cons, (store_eq_self_iff r).mpr (h r List.mem_cons_self)]
      exact ih fun r' hr' => h r' (List.mem_cons_of_mem r hr')

/-- A scan depends on the keys, types and pointers of the rows only. -/
theorem stored_eq_tags (packet : LiveDataPacket) (rows : List Row) (vars : Ptr → BitVec 32) :
    stored packet rows vars =
      (((rows.map Row.tag).filter fun t => t.1 = packet.packetID).takeWhile fun t =>
        t.2.1 = packet.valueType).foldl (fun vars t => (storeValue vars t.2.2 packet).getD vars)
        vars := by
  rw [List.filter_map, List.takeWhile_map, List.foldl_map]
  rfl

/-! ## A call of `processPacket` -/

/-- The states in which `Dashboard_Update` calls `processPacket`. -/
def AtCall (w : Firmware) : Prop :=
  ∃ w₀ io, Reachable w₀ ∧ dashboardReceive io w₀ = some (true, w)

/-- The payload of the packet in `rxBuffer`. -/
def Firmware.payload (w : Firmware) : List Byte :=
  (w.rxBuffer.data.drop 12).take (payloadSize w.rxBuffer.data)

/-- How a call comes about. -/
theorem AtCall.exists_received (h : AtCall w) :
    ∃ u es, Sound u es ∧ u.dashboard.packetStatus = .headerReceived ∧ u.received = (true, w) := by
  obtain ⟨w₀, io, hreach, hrun⟩ := h
  obtain ⟨es, hsound⟩ := hreach.sound
  rw [dashboardReceive_eq io hsound] at hrun
  split_ifs at hrun with hready
  · exact ⟨_, es, hsound.afterHeader io, hready.1, Option.some.inj hrun⟩
  · cases hrun

theorem AtCall.fits (h : AtCall w) : 12 + payloadSize w.rxBuffer.data + 4 ≤ 100 := by
  obtain ⟨u, es, hsound, hstatus, hreceived⟩ := h.exists_received
  have hrx := rxBuffer_received u
  rw [hreceived] at hrx
  rw [hrx, payloadSize_loadPayload]
  exact (hsound.header hstatus).2

/-- The header of the packet. -/
theorem Firmware.take_packet (w : Firmware) : w.packet.take 12 = w.rxBuffer.data.take 12 := by
  rw [Firmware.packet, List.take_take, Nat.min_eq_left (by omega)]

/-- **Only packets are processed**: the bytes in `rxBuffer` pass the tests of the
packet grammar. -/
theorem AtCall.sealed (h : AtCall w) : Sealed w.packet := by
  have hfits := h.fits
  obtain ⟨u, es, hsound, hstatus, hreceived⟩ := h.exists_received
  have hrx : w.rxBuffer = u.loadPayload.rxBuffer := by
    rw [← rxBuffer_received, hreceived]
  have hlen := w.rxBuffer.length_data
  have hfront := w.take_packet
  have hpacket : payloadSize w.packet = payloadSize w.rxBuffer.data := payloadSize_congr hfront
  refine ⟨?_, ?_, ?_⟩
  · have hheader : w.packet.take 12 = u.rxBuffer.data.take 12 := by
      rw [hfront, hrx, take_loadPayload]
    exact (headerSealed_congr hheader).mpr (hsound.header hstatus).1
  · rw [hpacket, Firmware.packet, List.length_take, hlen]
    exact Nat.min_eq_left (show _ ≤ 101 by omega)
  · rw [hpacket, Firmware.packet, List.drop_take, List.take_take, Nat.min_eq_left (by omega),
      wordAt_take (by omega)]
    -- the two checksums were compared
    rw [Firmware.received, Firmware.check] at hreceived
    split_ifs at hreceived with hsum
    · rw [← hrx] at hsum
      exact hsum
    · cases (Prod.mk.inj hreceived).1

theorem AtCall.length_payload (h : AtCall w) :
    w.payload.length = payloadSize w.rxBuffer.data := by
  have hfits := h.fits
  rw [Firmware.payload, List.length_take, List.length_drop, w.rxBuffer.length_data]
  exact Nat.min_eq_left (show _ ≤ 101 - 12 by omega)

theorem AtCall.registered (h : AtCall w) : ∃ es, Registered w es := by
  obtain ⟨u, es, hsound, -, hreceived⟩ := h.exists_received
  have htable := hsound.table.received
  rw [hreceived] at htable
  exact ⟨es, htable⟩

/-- The record lies in a payload of 8 bytes and more. -/
theorem record_eq (h : 8 ≤ payloadSize w.rxBuffer.data) :
    w.record = LiveDataPacket.ofBytes w.payload :=
  (LiveDataPacket.ofBytes_take h).symm

/-- The variables after a modify packet. -/
theorem vars_process (h : w.header.packetType = PacketID.modify.code) :
    w.process.vars = stored w.record w.rows w.vars := by
  have hne : ¬ w.header.packetType = PacketID.requestLiveData.code := by
    rw [h]
    decide
  have hscan : ∀ (packet : LiveDataPacket) (rows : List Row) (v : Firmware),
      (v.scan packet rows).vars = stored packet rows v.vars := by
    intro packet rows v
    rw [Firmware.scan]
    split_ifs <;> rfl
  rw [Firmware.process, if_neg hne, if_pos h, Firmware.modify, hscan]
  rfl

/-- Only a modify packet changes variables. -/
theorem vars_process_of_ne (h : w.header.packetType ≠ PacketID.modify.code) :
    w.process.vars = w.vars := by
  rw [Firmware.process, if_neg h]
  split_ifs <;> rfl

/-! ## Two runs -/

/-- Two calls with the same variables, the same table, and the same payload. What else
`rxBuffer` holds, and so what was received earlier, may differ. -/
structure SameCall (w v : Firmware) : Prop where
  vars : w.vars = v.vars
  table : w.rows.map Row.tag = v.rows.map Row.tag
  payload : w.payload = v.payload

/-- What is expected of two such calls: they leave the same values in the variables,
and change none if the payload is shorter than a record. -/
def ActAlike (io io' : Transport) (w v : Firmware) : Prop :=
  ∃ status status' w' v', processPacket io w = some (status, w') ∧
    processPacket io' v = some (status', v') ∧ w'.vars = v'.vars ∧
    (w.payload.length < 8 → w'.vars = w.vars ∧ v'.vars = v.vars)

/-- Every row that the scan writes through holds already what is read as the record's
value. -/
def Settled (w : Firmware) : Prop := ∀ r ∈ hits w.record w.rows, r.Holds w.record w.vars

/-- A call goes through. -/
theorem AtCall.exists_process (h : AtCall w) (io : Transport) :
    ∃ status, processPacket io w = some (status, w.process) := by
  obtain ⟨es, htable⟩ := h.registered
  exact processPacket_eq io htable

/-- A payload that is shorter than a record acts alike only where nothing is written. -/
theorem ActAlike.settled {io io' : Transport} (h : ActAlike io io' w v) (hw : AtCall w)
    (hv : AtCall v) (htype : w.header.packetType = PacketID.modify.code)
    (htype' : v.header.packetType = PacketID.modify.code) (hlt : w.payload.length < 8) :
    Settled w ∧ Settled v := by
  obtain ⟨_, _, w', v', hrun, hrun', -, hshort⟩ := h
  obtain ⟨status, hprocess⟩ := hw.exists_process io
  obtain ⟨status', hprocess'⟩ := hv.exists_process io'
  obtain rfl := (Prod.mk.inj (Option.some.inj (hprocess.symm.trans hrun))).2
  obtain rfl := (Prod.mk.inj (Option.some.inj (hprocess'.symm.trans hrun'))).2
  obtain ⟨hsame, hsame'⟩ := hshort hlt
  rw [vars_process htype] at hsame
  rw [vars_process htype'] at hsame'
  exact ⟨stored_eq_self_iff.mp hsame, stored_eq_self_iff.mp hsame'⟩

theorem actAlike_of (hw : AtCall w) (hv : AtCall v)
    (htype : w.header.packetType = PacketID.modify.code)
    (htype' : v.header.packetType = PacketID.modify.code) (hs : SameCall w v) (io io' : Transport)
    (h : 8 ≤ w.payload.length ∨ Settled w ∧ Settled v) : ActAlike io io' w v := by
  obtain ⟨status, hrun⟩ := hw.exists_process io
  obtain ⟨status', hrun'⟩ := hv.exists_process io'
  have hvars := vars_process htype
  have hvars' := vars_process htype'
  rcases h with hlong | ⟨hsettled, hsettled'⟩
  · -- the record is the same in both runs, and so are the writes
    have hrecord : w.record = v.record := by
      have hlong' := hlong
      rw [hw.length_payload] at hlong
      rw [hs.payload, hv.length_payload] at hlong'
      rw [record_eq hlong, record_eq hlong', hs.payload]
    refine ⟨status, status', _, _, hrun, hrun', ?_,
      fun hlt => absurd hlong (Nat.not_le_of_lt hlt)⟩
    rw [hvars, hvars', hrecord, hs.vars, stored_eq_tags, stored_eq_tags, hs.table]
  · have hsame := hvars.trans (stored_eq_self_iff.mpr hsettled)
    have hsame' := hvars'.trans (stored_eq_self_iff.mpr hsettled')
    exact ⟨status, status', _, _, hrun, hrun', by rw [hsame, hsame', hs.vars],
      fun _ => ⟨hsame, hsame'⟩⟩

/-- **When a modify packet acts through its own payload only**: if the payload is at
least as long as a record, or if what is read in its place happens to change nothing
in either run. -/
theorem modify_iff (hw : AtCall w) (hv : AtCall v)
    (htype : w.header.packetType = PacketID.modify.code)
    (htype' : v.header.packetType = PacketID.modify.code) (hs : SameCall w v)
    (io io' : Transport) :
    ActAlike io io' w v ↔ 8 ≤ w.payload.length ∨ (Settled w ∧ Settled v) := by
  constructor
  · intro halike
    rcases Nat.lt_or_ge w.payload.length 8 with hlt | hge
    · exact Or.inr (halike.settled hw hv htype htype' hlt)
    · exact Or.inl hge
  · exact actAlike_of hw hv htype htype' hs io io'

/-! ### Two runs that differ -/

/-- How to come to a call. -/
theorem Reachable.atCall (h : Reachable w) (io : Transport)
    (hready : (w.afterHeader io).payloadReady io) (hcheck : (w.afterHeader io).received.1 = true) :
    AtCall (w.afterHeader io).received.2 := by
  obtain ⟨es, hsound⟩ := h.sound
  refine ⟨w, io, h, ?_⟩
  rw [dashboardReceive_eq io hsound, if_pos hready, ← hcheck]

theorem vars_feed (w : Firmware) (bytes : List Byte) : (w.feed bytes).vars = w.vars := rfl

theorem vars_call (w : Firmware) (io : Transport) :
    (w.afterHeader io).received.2.vars = w.vars := by
  rw [(frame_received _).2, Firmware.afterHeader]
  split_ifs
  · exact (frame_takeHeader w).2
  · rfl

/-- A modify packet without a payload. -/
def emptyModify : Packet := .blank PacketID.modify.code

/-- A packet that asks for nothing, with 8 bytes of payload. -/
def strayPacket : Packet where
  packetType := 0
  contentType := 0
  timestamp := 0
  key := []
  value := [0, 0, 0, 0, 5, 0, 0, 0]
  key_lt := Packet.length_nil_lt
  value_lt := by decide

/-- The empty modify packet is the first to arrive. -/
def firstPacket : Firmware := oneVariable.feed emptyModify.bytes

/-- The empty modify packet arrives after another packet. -/
def secondPacket : Firmware :=
  ((oneVariable.feed strayPacket.bytes).update openTransport).feed emptyModify.bytes

/-- The two calls. -/
def firstCall : Firmware := (firstPacket.afterHeader openTransport).received.2

@[inherit_doc firstCall]
def secondCall : Firmware := (secondPacket.afterHeader openTransport).received.2

theorem atCall_firstCall : AtCall firstCall :=
  (reachable_oneVariable.arrive emptyModify.bytes).atCall openTransport (by decide +kernel)
    (by decide +kernel)

theorem atCall_secondCall : AtCall secondCall :=
  (((reachable_oneVariable.arrive strayPacket.bytes).update openTransport).arrive
    emptyModify.bytes).atCall openTransport (by decide +kernel) (by decide +kernel)

theorem sameCall : SameCall firstCall secondCall where
  vars := by
    have hupdate : ((oneVariable.feed strayPacket.bytes).update openTransport).vars =
        oneVariable.vars := by
      have hstray : ((oneVariable.feed strayPacket.bytes).afterHeader
          openTransport).received.2.header.packetType ≠ PacketID.modify.code := by decide +kernel
      rw [Firmware.update, if_pos (by decide +kernel), Firmware.takePayload,
        if_pos (by decide +kernel), vars_process_of_ne hstray, vars_call, vars_feed]
    rw [firstCall, secondCall, vars_call, vars_call, firstPacket, secondPacket, vars_feed,
      vars_feed, hupdate]
  table := by decide +kernel
  payload := by decide +kernel

/-- **Bytes of an earlier packet are written**: the same empty modify packet sets the
variable to 0 in one run and to 5 in the other. -/
theorem not_actAlike :
    ∃ w v, AtCall w ∧ AtCall v ∧ w.header.packetType = PacketID.modify.code ∧
      v.header.packetType = PacketID.modify.code ∧ SameCall w v ∧
      ¬ ActAlike openTransport openTransport w v := by
  refine ⟨firstCall, secondCall, atCall_firstCall, atCall_secondCall, by decide +kernel,
    by decide +kernel, sameCall, ?_⟩
  rintro ⟨status, status', w', v', hrun, hrun', hvars, -⟩
  obtain ⟨es, htable⟩ := atCall_firstCall.registered
  obtain ⟨es', htable'⟩ := atCall_secondCall.registered
  obtain ⟨_, hprocess⟩ := processPacket_eq openTransport htable
  obtain ⟨_, hprocess'⟩ := processPacket_eq openTransport htable'
  obtain rfl := (Prod.mk.inj (Option.some.inj (hprocess.symm.trans hrun))).2
  obtain rfl := (Prod.mk.inj (Option.some.inj (hprocess'.symm.trans hrun'))).2
  have hdiffer : firstCall.process.vars 0 ≠ secondCall.process.vars 0 := by decide +kernel
  exact hdiffer (congrFun hvars 0)

/-- The condition at the two calls. -/
theorem modify_iff_calls :
    ActAlike openTransport openTransport firstCall secondCall ↔
      8 ≤ firstCall.payload.length ∨ (Settled firstCall ∧ Settled secondCall) :=
  modify_iff atCall_firstCall atCall_secondCall (by decide +kernel) (by decide +kernel) sameCall
    openTransport openTransport

end Houston
