import Houston.Modify

/-!
# A modify packet that is refused

The scan of a modify packet writes through the rows of its key one by one, and stops
with an alert at the first of them that has another type. What it has written by then
stays written.

* `AllOrNothing` — what is expected: every variable of the key receives the value, or
  the alert is sent and none has changed.
* `allOrNothing_iff` — when that is so: if there was nothing to undo at the alert.
-/

namespace Houston

open Stuffing

variable {w w' : Firmware} {es : List Entry} {packet : LiveDataPacket} {vars : Ptr → BitVec 32}

/-! ## The registered variables of a key -/

/-- A registered variable goes by the record's key. -/
def Entry.Addressed (packet : LiveDataPacket) (e : Entry) : Prop := e.key = packet.packetID

/-- A registered variable has the record's type. -/
def Entry.Fits (packet : LiveDataPacket) (e : Entry) : Prop := e.type.bits 16 = packet.valueType

instance (packet : LiveDataPacket) : DecidablePred (Entry.Addressed packet) :=
  fun e => inferInstanceAs (Decidable (e.key = packet.packetID))

instance (packet : LiveDataPacket) : DecidablePred (Entry.Fits packet) :=
  fun e => inferInstanceAs (Decidable (e.type.bits 16 = packet.valueType))

/-- One of the variables of the record's key has another type. -/
def Refused (packet : LiveDataPacket) (es : List Entry) : Prop :=
  ∃ e ∈ es, e.Addressed packet ∧ ¬ e.Fits packet

/-- The variables of the record's key that were registered in front of the first one with
another type. -/
def writtenTo (packet : LiveDataPacket) (es : List Entry) : List Entry :=
  (es.filter fun e => e.Addressed packet).takeWhile fun e => e.Fits packet

/-- The rows that a scan writes through, by their tags. -/
theorem Registered.map_hits (h : Registered w es) (packet : LiveDataPacket) :
    (hits packet w.rows).map Row.tag = (writtenTo packet es).map Entry.tag := by
  have htags : ∀ tags : List (BitVec 16 × BitVec 16 × Option Ptr),
      (tags = w.rows.map Row.tag → (hits packet w.rows).map Row.tag =
        (tags.filter fun t => t.1 = packet.packetID).takeWhile fun t =>
          t.2.1 = packet.valueType) := by
    rintro _ rfl
    rw [List.filter_map, List.takeWhile_map]
    rfl
  rw [htags _ h.rows.symm, List.filter_map, List.takeWhile_map]
  rfl

/-- The scan reports a mismatch if and only if the record is refused. -/
theorem Registered.mismatch_iff (h : Registered w es) (packet : LiveDataPacket) :
    mismatch packet w.rows = true ↔ Refused packet es := by
  have htags : mismatch packet w.rows = true ↔
      ∃ t ∈ w.rows.map Row.tag, t.1 = packet.packetID ∧ t.2.1 ≠ packet.valueType := by
    simp only [mismatch, List.any_eq_true, List.mem_filter, List.mem_map, decide_eq_true_eq,
      exists_exists_and_eq_and, and_assoc]
    rfl
  rw [htags, h.rows]
  simp [Refused, Entry.Addressed, Entry.Fits, Entry.tag]

/-- A record that is not refused is written to all variables of its key. -/
theorem writtenTo_of_not_refused (h : ¬ Refused packet es) :
    writtenTo packet es = es.filter fun e => e.Addressed packet := by
  rw [writtenTo, List.takeWhile_eq_self_iff]
  intro e he
  obtain ⟨hmem, hkey⟩ := List.mem_filter.mp he
  rw [decide_eq_true_eq]
  by_contra hfits
  exact h ⟨e, hmem, of_decide_eq_true hkey, hfits⟩

/-- The variables that a scan writes to, through the rows of the table. -/
theorem Registered.forall_hits (h : Registered w es) :
    (∀ r ∈ hits packet w.rows, r.Holds packet vars) ↔
      ∀ e ∈ writtenTo packet es, packet.HeldBy (vars e.ptr) := by
  have hrow : (∀ r ∈ hits packet w.rows, r.Holds packet vars) ↔
      ∀ t ∈ (hits packet w.rows).map Row.tag, ∀ p, t.2.2 = some p → packet.HeldBy (vars p) := by
    rw [List.forall_mem_map]
    rfl
  rw [hrow, h.map_hits, List.forall_mem_map]
  simp [Entry.tag]

/-- Only registered variables are written to. -/
theorem Registered.stored_eq_self_iff (h : Registered w es) :
    (∀ e ∈ es, stored packet w.rows vars e.ptr = vars e.ptr) ↔
      stored packet w.rows vars = vars := by
  constructor
  · intro hsame
    funext p
    by_cases hp : ∃ r ∈ hits packet w.rows, r.2 = some p
    · obtain ⟨r, hr, hptr⟩ := hp
      have hrow : r ∈ w.rows := (List.mem_filter.mp (List.takeWhile_subset _ hr)).1
      have htag : r.tag ∈ es.map Entry.tag := by
        rw [← h.rows]
        exact List.mem_map_of_mem hrow
      obtain ⟨e, he, htag⟩ := List.mem_map.mp htag
      have hentry : some e.ptr = some p := (congrArg (fun t => t.2.2) htag).trans hptr
      rw [← Option.some.inj hentry]
      exact hsame e he
    · refine stored_frame fun r hr hptr => hp ⟨r, hr, hptr⟩
  · intro hsame e _
    rw [hsame]

/-! ## All or nothing -/

/-- The frame of the alert about a type mismatch. -/
def mismatchFrame : List Byte := stuff (Call.alert (literal "Live Data Type Mismatch")).packet

/-- The frame of the alert about a modify packet. -/
def modifyFrame : List Byte := stuff (Call.alert (literal "Live Data Modify Received")).packet

/-- On the way from `w` to `w'` a type mismatch was reported. -/
def Reports (w w' : Firmware) : Prop := Event.sent mismatchFrame ∈ w'.trace.drop w.trace.length

/-- What is expected of a modify packet with a record for payload: no mismatch is reported,
and all variables of its key have its type and hold its value afterwards; or one is
reported, and no variable has changed. -/
def AllOrNothing (io : Transport) (w : Firmware) (es : List Entry) : Prop :=
  ∃ status w', processPacket io w = some (status, w') ∧
    ((¬ Reports w w' ∧ ∀ e ∈ es, e.Addressed (.ofBytes w.payload) →
        e.Fits (.ofBytes w.payload) ∧
        (LiveDataPacket.ofBytes w.payload).HeldBy (w'.vars e.ptr)) ∨
      (Reports w w' ∧ ∀ e ∈ es, w'.vars e.ptr = w.vars e.ptr))

theorem modifyFrame_ne : modifyFrame ≠ mismatchFrame := by
  intro h
  have hlen := congrArg List.length h
  have hlong : (Call.alert (literal "Live Data Modify Received")).packet.length = 41 := by decide
  have hshort : (Call.alert (literal "Live Data Type Mismatch")).packet.length = 39 := by decide
  rw [modifyFrame, mismatchFrame, length_stuff_short (by rw [hlong, cap_eq]; decide),
    length_stuff_short (by rw [hshort, cap_eq]; decide), hlong, hshort] at hlen
  omega

/-- What a modify packet adds to the trace. -/
theorem trace_process (h : w.header.packetType = PacketID.modify.code) :
    w.process.trace = w.trace ++ (.processed w.packet :: .sent modifyFrame ::
      if mismatch w.record w.rows = true then [.sent mismatchFrame] else []) := by
  have hne : ¬ w.header.packetType = PacketID.requestLiveData.code := by
    rw [h]
    decide
  rw [Firmware.process, if_neg hne, if_pos h, Firmware.modify, Firmware.scan]
  by_cases hmismatch : mismatch w.record w.rows = true
  · rw [if_pos (show mismatch w.log.record w.log.rows = true from hmismatch), if_pos hmismatch]
    simp [Firmware.send, Firmware.setVars, Firmware.log, modifyFrame, mismatchFrame]
  · rw [if_neg (show ¬ mismatch w.log.record w.log.rows = true from hmismatch),
      if_neg hmismatch]
    simp [Firmware.send, Firmware.setVars, Firmware.log, modifyFrame]

/-- A mismatch is reported if and only if the scan meets one. -/
theorem reports_process (h : w.header.packetType = PacketID.modify.code) :
    Reports w w.process ↔ mismatch w.record w.rows = true := by
  rw [Reports, trace_process h, List.drop_left]
  by_cases hmismatch : mismatch w.record w.rows = true <;>
    simp [hmismatch, modifyFrame_ne.symm]

/-- **When a modify packet acts on all or nothing**: if it is not refused, or if every
variable that is written to before it is refused holds the value already. -/
theorem allOrNothing_iff (io : Transport) (h : Registered w es)
    (htype : w.header.packetType = PacketID.modify.code) (hpayload : w.payload.length = 8) :
    AllOrNothing io w es ↔ (Refused (.ofBytes w.payload) es →
      ∀ e ∈ writtenTo (.ofBytes w.payload) es,
        (LiveDataPacket.ofBytes w.payload).HeldBy (w.vars e.ptr)) := by
  have hsize : 8 ≤ payloadSize w.rxBuffer.data := by
    rw [← hpayload, Firmware.payload, List.length_take]
    exact min_le_left _ _
  have hrecord := record_eq hsize
  obtain ⟨status, hrun⟩ := processPacket_eq io h
  have hvars := vars_process htype
  have hreports := (reports_process htype).trans (h.mismatch_iff w.record)
  have hkept : (∀ e ∈ es, w.process.vars e.ptr = w.vars e.ptr) ↔
      ∀ e ∈ writtenTo w.record es, w.record.HeldBy (w.vars e.ptr) := by
    rw [hvars, h.stored_eq_self_iff, stored_eq_self_iff, h.forall_hits]
  rw [AllOrNothing, ← hrecord]
  constructor
  · rintro ⟨status', w', hrun', hcase⟩ hrefused
    obtain rfl := (Prod.mk.inj (Option.some.inj (hrun.symm.trans hrun'))).2
    rcases hcase with ⟨hquiet, -⟩ | ⟨-, hsame⟩
    · exact absurd (hreports.mpr hrefused) hquiet
    · exact hkept.mp hsame
  · intro hundo
    refine ⟨status, w.process, hrun, ?_⟩
    by_cases hrefused : Refused w.record es
    · exact Or.inr ⟨hreports.mpr hrefused, hkept.mpr (hundo hrefused)⟩
    · -- the scan goes through, and writes to all variables of the key
      refine Or.inl ⟨mt hreports.mp hrefused, fun e he hkey => ⟨?_, ?_⟩⟩
      · by_contra hfits
        exact hrefused ⟨e, he, hkey, hfits⟩
      · have hall : ∀ e ∈ writtenTo w.record es, w.record.HeldBy (w.process.vars e.ptr) := by
          rw [hvars]
          exact h.forall_hits.mp stored_holds
        refine hall e ?_
        rw [writtenTo_of_not_refused hrefused]
        exact List.mem_filter.mpr ⟨he, decide_eq_true hkey⟩

/-! ### A partial write -/

/-- Two variables under key 1, an unsigned one and a floating-point one, both 7. -/
def sharedKey : Firmware :=
  (((Op.register 1 (some 0) .uint32).run (.boot fun _ => 7)).bind
    (Op.register 1 (some 1) .float).run).getD (.boot fun _ => 7)

/-- A modify packet for key 1 with an unsigned 5. -/
def modifyShared : Packet where
  packetType := PacketID.modify.code
  contentType := 0
  timestamp := 0
  key := []
  value := (⟨1, ValueType.uint32.bits 16, 5⟩ : LiveDataPacket).toBytes
  key_lt := Packet.length_nil_lt
  value_lt := by decide

/-- The call in which it is processed. -/
def sharedCall : Firmware :=
  ((sharedKey.feed modifyShared.bytes).afterHeader openTransport).received.2

/-- The two variables. -/
def sharedEntries : List Entry := [⟨1, .uint32, 0⟩, ⟨1, .float, 1⟩]

theorem atCall_sharedCall : AtCall sharedCall := by
  have hfirst := (Reachable.boot fun _ => 7).after (.register 1 (some 0) .uint32) trivial rfl
  have hboth : Reachable sharedKey := hfirst.after (.register 1 (some 1) .float) trivial rfl
  exact (hboth.arrive modifyShared.bytes).atCall openTransport (by decide +kernel)
    (by decide +kernel)

theorem registered_sharedCall : Registered sharedCall sharedEntries :=
  ⟨by decide +kernel, by decide +kernel⟩

/-- The condition at this call. -/
theorem allOrNothing_iff_sharedCall :
    AllOrNothing openTransport sharedCall sharedEntries ↔
      (Refused (.ofBytes sharedCall.payload) sharedEntries →
        ∀ e ∈ writtenTo (.ofBytes sharedCall.payload) sharedEntries,
          (LiveDataPacket.ofBytes sharedCall.payload).HeldBy (sharedCall.vars e.ptr)) :=
  allOrNothing_iff openTransport registered_sharedCall (by decide +kernel) (by decide +kernel)

/-- **A partial write**: the unsigned variable becomes 5 before the floating-point one
stops the scan. -/
theorem not_allOrNothing_sharedCall :
    AtCall sharedCall ∧ Registered sharedCall sharedEntries ∧
      (∀ e ∈ sharedEntries, e.type ≠ .string) ∧
      sharedCall.header.packetType = PacketID.modify.code ∧ sharedCall.payload.length = 8 ∧
      ¬ AllOrNothing openTransport sharedCall sharedEntries := by
  refine ⟨atCall_sharedCall, registered_sharedCall, by decide, by decide +kernel,
    by decide +kernel, ?_⟩
  rintro ⟨status, w', hrun, hcase⟩
  obtain ⟨_, hprocess⟩ := processPacket_eq openTransport registered_sharedCall
  obtain rfl := (Prod.mk.inj (Option.some.inj (hprocess.symm.trans hrun))).2
  rcases hcase with ⟨-, hall⟩ | ⟨-, hsame⟩
  · -- the floating-point variable does not fit
    have hfits := (hall ⟨1, .float, 1⟩ (by simp [sharedEntries]) (by decide +kernel)).1
    exact absurd hfits (by decide +kernel)
  · -- the unsigned one has changed
    have hdiffer : sharedCall.process.vars 0 ≠ sharedCall.vars 0 := by decide +kernel
    have hkept := hsame ⟨1, .uint32, 0⟩ List.mem_cons_self
    dsimp only at hkept
    exact hdiffer hkept

end Houston
