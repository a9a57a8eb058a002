import Houston.Refusal

/-!
# What came in before a modify packet

`modify_iff` is about two calls of `processPacket`, and its condition looks at what lies in
`rxBuffer` and in the variables. Here the packet and the table are given, and whatever else
may be the case at a call of them.

* `AtCall.assign` — there may be any value in a variable at a call.
* `actAlike_all_iff` — a packet acts through its payload in all histories if it carries a
  record, or if no variable is written to under the key and the type that are read of it.
-/

namespace Houston

variable {w v : Firmware} {es : List Entry} {e : Entry} {packet packet' : LiveDataPacket}
  {P : List Byte}

/-! ## Other values in the variables -/

theorem send_setVars (c : Call) (w : Firmware) (vars : Ptr → BitVec 32) :
    (w.setVars vars).send c = (w.send c).setVars vars := by
  have hemit : (w.setVars vars).emit c.packet = (w.emit c.packet).setVars vars := rfl
  rw [Firmware.send, hemit, ← Firmware.send]

theorem takeHeader_setVars (w : Firmware) (vars : Ptr → BitVec 32) :
    (w.setVars vars).takeHeader = w.takeHeader.setVars vars := by
  have hread : (w.setVars vars).read 0 12 = (w.read 0 12).setVars vars := rfl
  have hrx : ((w.read 0 12).setVars vars).rxBuffer = (w.read 0 12).rxBuffer := rfl
  simp only [Firmware.takeHeader, hread, hrx, send_setVars]
  split_ifs <;> rfl

theorem afterHeader_setVars (io : Transport) (w : Firmware) (vars : Ptr → BitVec 32) :
    (w.setVars vars).afterHeader io = (w.afterHeader io).setVars vars := by
  have hsame : (w.setVars vars).headerReady io ↔ w.headerReady io := Iff.rfl
  simp only [Firmware.afterHeader, takeHeader_setVars, hsame]
  split_ifs <;> rfl

theorem received_setVars (w : Firmware) (vars : Ptr → BitVec 32) :
    (w.setVars vars).received = (w.received.1, w.received.2.setVars vars) := by
  have hload : (w.setVars vars).loadPayload = w.loadPayload.setVars vars := rfl
  have hrx : (w.loadPayload.setVars vars).rxBuffer = w.loadPayload.rxBuffer := rfl
  simp only [Firmware.received, Firmware.check, Firmware.report, hload, hrx, send_setVars]
  split_ifs <;> rfl

/-- **A variable may have any value at a call**: the program has written it before. -/
theorem AtCall.assign (h : AtCall w) (ptr : Ptr) (value : BitVec 32) :
    AtCall (w.setVars (Function.update w.vars ptr value)) := by
  obtain ⟨w₀, io, hreach, hrun⟩ := h
  obtain ⟨es, hsound⟩ := hreach.sound
  have hassigned : Reachable (w₀.setVars (Function.update w₀.vars ptr value)) :=
    hreach.after (.assign ptr value) trivial rfl
  obtain ⟨es', hsound'⟩ := hassigned.sound
  refine ⟨_, io, hassigned, ?_⟩
  rw [dashboardReceive_eq io hsound] at hrun
  rw [dashboardReceive_eq io hsound', afterHeader_setVars]
  split_ifs at hrun with hready
  · have hready' : ((w₀.afterHeader io).setVars
        (Function.update w₀.vars ptr value)).payloadReady io := hready
    have hreceived : (w₀.afterHeader io).received = (true, w) := Option.some.inj hrun
    have hvars : w.vars = w₀.vars := by rw [← vars_call w₀ io, hreceived]
    rw [if_pos hready', received_setVars, hreceived, hvars]
  · cases hrun

/-! ## What a packet writes to -/

/-- What is written to is up to the key and the type of a record. -/
theorem writtenTo_congr (hkey : packet.packetID = packet'.packetID)
    (htype : packet.valueType = packet'.valueType) (es : List Entry) :
    writtenTo packet es = writtenTo packet' es := by
  have haddressed : ∀ e : Entry, decide (e.Addressed packet) = decide (e.Addressed packet') :=
    fun e => decide_eq_decide.mpr (by rw [Entry.Addressed, Entry.Addressed, hkey])
  have hfits : ∀ e : Entry, decide (e.Fits packet) = decide (e.Fits packet') :=
    fun e => decide_eq_decide.mpr (by rw [Entry.Fits, Entry.Fits, htype])
  rw [writtenTo, writtenTo, funext haddressed, funext hfits]

/-- These two are read of the payload and the checksum behind it. -/
theorem writtenTo_packet (w : Firmware) (es : List Entry) :
    writtenTo (.ofBytes (w.packet.drop 12)) es = writtenTo w.record es := by
  have hcut : w.packet.drop 12 =
      (w.rxBuffer.data.drop 12).take (payloadSize w.rxBuffer.data + 4) := by
    rw [Firmware.packet, List.drop_take]
    congr 1
    omega
  rw [hcut]
  exact writtenTo_congr (wordAt_take (by omega)) (wordAt_take (by omega)) es

theorem fits_of_mem_writtenTo (he : e ∈ writtenTo packet es) : e.Fits packet :=
  of_decide_eq_true (List.mem_takeWhile_imp (p := fun e : Entry => decide (e.Fits packet)) he)

/-- Nothing is written to a string. -/
theorem Entry.Fits.heldBy (h : e.Fits packet) (hstring : e.type = .string) (old : BitVec 32) :
    packet.HeldBy old := by
  rw [Entry.Fits, hstring] at h
  rw [LiveDataPacket.HeldBy, ← h, if_neg (by decide)]
  exact fun hwritten => absurd hwritten (by decide)

/-- All other variables may have another value. -/
theorem Entry.Fits.not_heldBy (h : e.Fits packet) (hstring : e.type ≠ .string) :
    ¬ packet.HeldBy (~~~packet.value) := by
  have hbyte : boolByte (~~~packet.value) ≠ boolByte packet.value := by
    intro hsame
    have hbit := congrArg (fun b => b.getLsbD 0) hsame
    simp [boolByte] at hbit
  have hword : ~~~packet.value ≠ packet.value := fun hsame => hbyte (congrArg boolByte hsame)
  rw [Entry.Fits] at h
  rw [LiveDataPacket.HeldBy, ← h]
  cases htype : e.type with
  | bool => simpa using hbyte
  | string => exact absurd htype hstring
  | float | int32 | uint32 =>
    rw [if_neg (by decide)]
    exact fun hheld => hword (hheld (by decide))

/-! ## All histories -/

/-- **Over all histories**: the calls for a modify packet, at a table of registered variables,
act through its payload only, whatever came in before it and whatever is in the variables,
if and only if the payload is at least as long as a record, or no variable but strings is
written to under the key and the type that are read of the payload and the checksum. -/
theorem actAlike_all_iff (hcall : ∃ w, AtCall w ∧ Registered w es ∧ w.packet = P)
    (htype : (DashboardPacketHeader.ofBytes P).packetType = PacketID.modify.code) :
    (∀ w v io io', AtCall w → AtCall v → Registered w es → Registered v es → w.packet = P →
        v.packet = P → w.vars = v.vars → ActAlike io io' w v) ↔
      8 ≤ payloadSize P ∨ ∀ e ∈ writtenTo (.ofBytes (P.drop 12)) es, e.type = .string := by
  have hmodify : ∀ {w : Firmware}, w.packet = P → w.header.packetType = PacketID.modify.code := by
    rintro w rfl
    rw [← htype, DashboardPacketHeader.ofBytes_congr w.take_packet]
    rfl
  have hlen : ∀ {w : Firmware}, AtCall w → w.packet = P → w.payload.length = payloadSize P := by
    rintro w hw rfl
    rw [hw.length_payload, payloadSize_congr w.take_packet]
  constructor
  · intro hall
    refine or_iff_not_imp_left.mpr fun hshort e he => ?_
    obtain ⟨w, hw, htable, rfl⟩ := hcall
    rw [writtenTo_packet] at he
    by_contra hstring
    -- the program has written another value to the variable
    set u := w.setVars (Function.update w.vars e.ptr (~~~w.record.value))
    have hcalled : AtCall u := hw.assign _ _
    have hregistered : Registered u es := ⟨htable.count, htable.rows⟩
    have halike := hall u u openTransport openTransport hcalled hcalled hregistered hregistered
      rfl rfl rfl
    have hlt : u.payload.length < 8 := by
      rw [hlen hcalled rfl]
      exact Nat.lt_of_not_le hshort
    have hsettled := (halike.settled hcalled hcalled (hmodify rfl) (hmodify rfl) hlt).1
    have hheld := hregistered.forall_hits.mp hsettled e he
    have hvalue : u.vars e.ptr = ~~~w.record.value := Function.update_self _ _ _
    rw [hvalue] at hheld
    exact (fits_of_mem_writtenTo he).not_heldBy hstring hheld
  · intro hcond w v io io' hw hv htable htable' hpacket hpacket' hvars
    have hpayload : w.payload = v.payload := by
      have hread : ∀ w : Firmware, w.payload = (w.packet.drop 12).take (payloadSize w.packet) := by
        intro w
        rw [Firmware.payload, payloadSize_congr w.take_packet, Firmware.packet, List.drop_take,
          List.take_take, Nat.min_eq_left (by omega)]
      rw [hread, hread, hpacket, hpacket']
    have hsettled : ∀ {w : Firmware}, Registered w es → w.packet = P →
        (∀ e ∈ writtenTo (.ofBytes (P.drop 12)) es, e.type = .string) → Settled w := by
      rintro w htable rfl hstrings
      rw [writtenTo_packet] at hstrings
      exact htable.forall_hits.mpr fun e he =>
        (fits_of_mem_writtenTo he).heldBy (hstrings e he) _
    refine actAlike_of hw hv (hmodify hpacket) (hmodify hpacket')
      ⟨hvars, htable.rows.trans htable'.rows.symm, hpayload⟩ io io' ?_
    rw [hlen hw hpacket]
    exact hcond.imp_right fun hstrings =>
      ⟨hsettled htable hpacket hstrings, hsettled htable' hpacket' hstrings⟩

/-- An empty modify packet at a table with a number under key 0: the checksum of nothing is
read as this key and the type of the number. -/
theorem actAlike_all_iff_emptyModify :
    ¬ ∀ w v io io', AtCall w → AtCall v → Registered w [⟨0, .uint32, 0⟩] →
        Registered v [⟨0, .uint32, 0⟩] → w.packet = emptyModify.bytes →
        v.packet = emptyModify.bytes → w.vars = v.vars → ActAlike io io' w v := by
  intro hall
  have hregistered : Registered firstCall [⟨0, .uint32, 0⟩] :=
    ⟨by decide +kernel, by decide +kernel⟩
  have hcond := (actAlike_all_iff ⟨firstCall, atCall_firstCall, hregistered, by decide +kernel⟩
    (by decide +kernel)).mp hall
  exact absurd hcond (by decide +kernel)

end Houston
