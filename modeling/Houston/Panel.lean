import Houston.Delivery
import Houston.Response

/-!
# The live data panel: `components/LiveDataPanel.cpp`

The panel lists the variables that a response reports, lets the user edit their values,
and sends a modify packet for an entry when the user applies it. Everything is looked up
by the 16-bit key of the variable; but `sendModifyPacket` takes the key as a `uint8_t`.

* `Shows` — the panel has an entry for a variable, with a value to edit.
* `shows_foldl` — it has one for every variable that a response reports.
* `Shows.press`, `press_of_le` — what applying an edited value sends, for a key that fits
  a byte and for any other.
* `remote_modify_iff` — an edited value reaches its variable for exactly these keys.
-/

namespace Houston

open Stuffing

/-! ## The model -/

/-- `LiveDataPanel`. The two maps to pointers hold what the pointers point to; no entry
and a null pointer are the same, as looking up either ends in a null pointer that is
dereferenced. -/
structure LiveDataPanel where
  liveDataMap : BitVec 16 → Option LiveDataPacket
  intMap : BitVec 16 → Option (BitVec 32)
  floatMap : BitVec 16 → Option (BitVec 32)

namespace LiveDataPanel

/-- `LiveDataPanel::refreshPackets`: the cleared panel, and the request. -/
def refreshPackets (d : Dispatcher) : LiveDataPanel × Dispatcher :=
  let header := craftDashboardHeaderPacket PacketID.requestLiveData.code 0 0 0
  let payloadChecksum : BitVec 32 := 0
  (⟨fun _ => none, fun _ => none, fun _ => none⟩,
    d.sendData (header.toBytes ++ wordBytes 4 payloadChecksum))

/-- `LiveDataPanel::render`, one record of a response. -/
def takeRecord (panel : LiveDataPanel) (it : LiveDataPacket) : LiveDataPanel :=
  match panel.liveDataMap it.packetID with
  | some _ => panel
  | none =>
    let liveDataMap := Function.update panel.liveDataMap it.packetID (some it)
    if it.valueType = ValueType.float.bits 16 then
      { panel with
        liveDataMap := liveDataMap
        floatMap := Function.update panel.floatMap it.packetID (some it.value) }
    else
      { panel with
        liveDataMap := liveDataMap
        intMap := Function.update panel.intMap it.packetID (some it.value) }

/-- `LiveDataPanel::render` up to the widgets. The consumer behind the handler is taken
to be one of live data. -/
def takeIn (h : Host) (panel : LiveDataPanel) : Option (LiveDataPanel × Host) :=
  match h.dispatcher.getHandler PacketID.responseLiveData.code with
  | none => some (panel, h)
  | some c =>
    match h.consumers c with
    | .liveData queue =>
      some (queue.flatten.foldl takeRecord panel, h.setConsumer c (.liveData []))
    | _ => none

/-- `LiveDataPanel::render`, the widget of an entry: it writes the user's value through
the entry's pointer. -/
def edit (key : BitVec 16) (value : BitVec 32) (panel : LiveDataPanel) : Option LiveDataPanel := do
  let it ← panel.liveDataMap key
  if it.valueType = ValueType.bool.bits 16 then
    let cell ← panel.intMap key
    some { panel with
      intMap := Function.update panel.intMap key (some (setBoolByte cell (boolByte value))) }
  else if it.valueType = ValueType.float.bits 16 then
    let _ ← panel.floatMap key
    some { panel with floatMap := Function.update panel.floatMap key (some value) }
  else
    let _ ← panel.intMap key
    some { panel with intMap := Function.update panel.intMap key (some value) }

/-- `LiveDataPanel::sendModifyPacket`. The union of `payload` is not initialised: `junk`
is what it holds. -/
def sendModifyPacket (packetID : Byte) (valueType : BitVec 16) (junk : BitVec 32)
    (panel : LiveDataPanel) (d : Dispatcher) : Option Dispatcher := do
  let header := craftDashboardHeaderPacket PacketID.modify.code (valueType.setWidth 8) 8 0
  let key := packetID.setWidth 16
  let value ←
    if valueType = ValueType.float.bits 16 then panel.floatMap key
    else if valueType = ValueType.bool.bits 16 then do
      let cell ← panel.intMap key
      some (setBoolByte junk (boolByte cell))
    else panel.intMap key
  let payload : LiveDataPacket := { packetID := key, valueType := valueType, value := value }
  let payloadChecksum := crc32 payload.toBytes 0
  some (d.sendData (header.toBytes ++ (payload.toBytes ++ wordBytes 4 payloadChecksum)))

/-- `LiveDataPanel::render`, an entry whose value the user edits and applies. -/
def press (key : BitVec 16) (value junk : BitVec 32) (d : Dispatcher) (panel : LiveDataPanel) :
    Option (LiveDataPanel × Dispatcher) := do
  let panel ← panel.edit key value
  let it ← panel.liveDataMap key
  let d ← panel.sendModifyPacket (key.setWidth 8) it.valueType junk d
  some (panel, d)

/-! ## Values behind pointers -/

/-- The value behind the pointer of an entry. -/
def cell (key valueType : BitVec 16) (panel : LiveDataPanel) : Option (BitVec 32) :=
  if valueType = ValueType.float.bits 16 then panel.floatMap key else panel.intMap key

/-- Another value behind the pointer of an entry. -/
def setCell (key valueType : BitVec 16) (value : BitVec 32) (panel : LiveDataPanel) :
    LiveDataPanel :=
  if valueType = ValueType.float.bits 16 then
    { panel with floatMap := Function.update panel.floatMap key (some value) }
  else { panel with intMap := Function.update panel.intMap key (some value) }

/-- The panel lists a record. -/
def list (it : LiveDataPacket) (panel : LiveDataPanel) : LiveDataPanel :=
  { panel with liveDataMap := Function.update panel.liveDataMap it.packetID (some it) }

variable {panel panel' : LiveDataPanel} {key k valueType t : BitVec 16} {value : BitVec 32}

@[simp] theorem liveDataMap_setCell :
    (panel.setCell key valueType value).liveDataMap = panel.liveDataMap := by
  rw [setCell]
  split_ifs <;> rfl

@[simp] theorem cell_setCell_self :
    (panel.setCell key valueType value).cell key valueType = some value := by
  rw [cell, setCell]
  split_ifs <;> exact Function.update_self ..

theorem cell_setCell_of_ne (h : k ≠ key) :
    (panel.setCell key valueType value).cell k t = panel.cell k t := by
  rw [cell, cell, setCell]
  split_ifs
  · exact Function.update_of_ne h ..
  · rfl
  · rfl
  · exact Function.update_of_ne h ..

/-- A record of a response makes an entry, unless there is one with its key. -/
theorem takeRecord_eq (it : LiveDataPacket) :
    panel.takeRecord it = if panel.liveDataMap it.packetID = none
      then (panel.list it).setCell it.packetID it.valueType it.value else panel := by
  rw [takeRecord]
  cases panel.liveDataMap it.packetID with
  | none =>
    rw [if_pos rfl, setCell]
    rfl
  | some _ => rfl

/-- An edit sets the value behind the pointer, of which a `bool` is the low byte. -/
theorem edit_eq {it : LiveDataPacket} (hit : panel.liveDataMap key = some it) :
    panel.edit key value = (panel.cell key it.valueType).map fun old =>
      panel.setCell key it.valueType (if it.valueType = ValueType.bool.bits 16
        then setBoolByte old (boolByte value) else value) := by
  have hne : ValueType.bool.bits 16 ≠ ValueType.float.bits 16 := by decide
  rw [edit, hit, Option.bind_eq_bind, Option.bind_some, cell]
  split_ifs with hbool hfloat hfloat
  · exact absurd (hbool.symm.trans hfloat) hne
  · cases panel.intMap key with
    | none => rfl
    | some old => exact congrArg some (if_neg hfloat).symm
  · cases panel.floatMap key with
    | none => rfl
    | some old => exact congrArg some (if_pos hfloat).symm
  · cases panel.intMap key with
    | none => rfl
    | some old => exact congrArg some (if_neg hfloat).symm

/-! ## Entries -/

/-- The panel has an entry for a variable, with a value to edit. -/
structure Shows (panel : LiveDataPanel) (e : Entry) : Prop where
  listed : ∃ it, panel.liveDataMap e.key = some it ∧ it.valueType = e.type.bits 16
  cell : ∃ old, panel.cell e.key (e.type.bits 16) = some old

variable {e : Entry} {es : List Entry}

/-- Further records do not take an entry away. -/
theorem Shows.takeRecord (h : panel.Shows e) (it : LiveDataPacket) :
    (panel.takeRecord it).Shows e := by
  obtain ⟨⟨it', hit', htype⟩, old, hold⟩ := h
  rw [takeRecord_eq]
  split_ifs with hnone
  · have hne : e.key ≠ it.packetID := by
      rintro hkey
      rw [← hkey, hit'] at hnone
      cases hnone
    refine ⟨⟨it', ?_, htype⟩, old, ?_⟩
    · rw [liveDataMap_setCell]
      exact (Function.update_of_ne hne ..).trans hit'
    · rw [cell_setCell_of_ne hne]
      exact hold
  · exact ⟨⟨it', hit', htype⟩, old, hold⟩

theorem Shows.foldl (records : List LiveDataPacket) :
    ∀ {panel : LiveDataPanel}, panel.Shows e →
      (records.foldl LiveDataPanel.takeRecord panel).Shows e := by
  induction records with
  | nil => exact id
  | cons it records ih => exact fun h => ih (h.takeRecord it)

/-- A record makes an entry. -/
theorem shows_takeRecord {it : LiveDataPacket} (hnone : panel.liveDataMap it.packetID = none)
    (hkey : it.packetID = e.key) (htype : it.valueType = e.type.bits 16) :
    (panel.takeRecord it).Shows e := by
  rw [takeRecord_eq, if_pos hnone]
  constructor
  · refine ⟨it, ?_, htype⟩
    rw [liveDataMap_setCell, list, ← hkey]
    exact Function.update_self ..
  · rw [← hkey, ← htype]
    exact ⟨it.value, cell_setCell_self⟩

/-- **A response makes an entry for every variable** that it reports, if no entries with
their keys were there. -/
theorem shows_foldl {vars : Ptr → BitVec 32} {records : List LiveDataPacket}
    (hreported : List.Forall₂ (Entry.ReportedBy vars) es records) :
    ∀ {panel : LiveDataPanel}, (es.map Entry.key).Nodup →
      (∀ e ∈ es, panel.liveDataMap e.key = none) →
      ∀ e ∈ es, (records.foldl LiveDataPanel.takeRecord panel).Shows e := by
  induction hreported with
  | nil => exact fun _ _ e he => absurd he List.not_mem_nil
  | @cons e it es records hit _ ih =>
    intro panel hkeys hnone e' he'
    rw [List.map_cons, List.nodup_cons] at hkeys
    obtain ⟨hfresh, hkeys⟩ := hkeys
    have hnone' : panel.liveDataMap it.packetID = none := by
      rw [hit.key]
      exact hnone e List.mem_cons_self
    rcases List.mem_cons.mp he' with rfl | he'
    · exact (shows_takeRecord hnone' hit.key hit.type).foldl records
    · refine ih hkeys (fun e' he' => ?_) e' he'
      -- the entry that was made has another key
      have hne : e'.key ≠ it.packetID := by
        rw [hit.key]
        rintro hkey
        exact hfresh (hkey ▸ List.mem_map_of_mem he')
      rw [takeRecord_eq, if_pos hnone', liveDataMap_setCell]
      exact (Function.update_of_ne hne ..).trans (hnone e' (List.mem_cons_of_mem e he'))

/-! ## Edits -/

/-- What an edit leaves alone: the list of entries, and the values of the others. -/
theorem frame_edit (h : panel.edit key value = some panel') :
    panel'.liveDataMap = panel.liveDataMap ∧
      ∀ k t, k ≠ key → panel'.cell k t = panel.cell k t := by
  cases hit : panel.liveDataMap key with
  | none =>
    rw [edit, hit] at h
    cases h
  | some it =>
    rw [edit_eq hit, Option.map_eq_some_iff] at h
    obtain ⟨old, -, rfl⟩ := h
    exact ⟨liveDataMap_setCell, fun k t hk => cell_setCell_of_ne hk⟩

/-- **An edit succeeds** where there is an entry, and sets its value. -/
theorem Shows.exists_edit (h : panel.Shows e) (value : BitVec 32) :
    ∃ panel' new, panel.edit e.key value = some panel' ∧
      panel'.cell e.key (e.type.bits 16) = some new ∧
      if e.type = .bool then boolByte new = boolByte value else new = value := by
  obtain ⟨⟨it, hit, htype⟩, old, hold⟩ := h
  rw [edit_eq hit, htype, hold]
  refine ⟨_, _, rfl, cell_setCell_self, ?_⟩
  simp only [ValueType.bits_inj]
  split_ifs
  · exact boolByte_setBoolByte ..
  · rfl

/-- An edit does not take an entry away. -/
theorem Shows.edit (h : panel.Shows e) (hedit : panel.edit key value = some panel') :
    panel'.Shows e := by
  obtain ⟨hlist, hframe⟩ := frame_edit hedit
  obtain ⟨it, hit, htype⟩ := h.listed
  refine ⟨⟨it, by rw [hlist, hit], htype⟩, ?_⟩
  by_cases hkey : e.key = key
  · obtain ⟨panel'', new, hedit', hnew, -⟩ := h.exists_edit value
    rw [hkey, hedit] at hedit'
    cases hedit'
    exact ⟨new, hnew⟩
  · rw [hframe e.key _ hkey]
    exact h.cell

/-! ## Modify packets -/

/-- The modify packet that carries a record. -/
def modifyPacket (record : LiveDataPacket) : Packet where
  packetType := PacketID.modify.code
  contentType := record.valueType.setWidth 8
  timestamp := 0
  key := record.toBytes
  value := []
  key_lt := by
    rw [LiveDataPacket.length_toBytes]
    decide
  value_lt := Packet.length_nil_lt

theorem bytes_modifyPacket (record : LiveDataPacket) :
    (modifyPacket record).bytes =
      (craftDashboardHeaderPacket PacketID.modify.code (record.valueType.setWidth 8) 8 0).toBytes ++
        (record.toBytes ++ wordBytes 4 (crc32 record.toBytes 0)) := by
  have hheader : (modifyPacket record).header =
      craftDashboardHeaderPacket PacketID.modify.code (record.valueType.setWidth 8) 8 0 := by
    have hsize : (modifyPacket record).key.length = 8 := record.length_toBytes
    rw [Packet.header, hsize]
    rfl
  have hpayload : (modifyPacket record).key ++ (modifyPacket record).value = record.toBytes :=
    List.append_nil _
  rw [Packet.bytes, hheader, hpayload]
  rfl

/-- **What is sent** is a modify packet with the value behind the pointer of the entry
that the `uint8_t` names. -/
theorem sendModifyPacket_eq (packetID : Byte) (valueType : BitVec 16) (junk : BitVec 32)
    (d : Dispatcher) :
    panel.sendModifyPacket packetID valueType junk d =
      (panel.cell (packetID.setWidth 16) valueType).map fun value => d.sendData
        (modifyPacket ⟨packetID.setWidth 16, valueType,
          if valueType = ValueType.bool.bits 16 then setBoolByte junk (boolByte value)
          else value⟩).bytes := by
  have hne : ValueType.bool.bits 16 ≠ ValueType.float.bits 16 := by decide
  simp only [bytes_modifyPacket]
  rw [sendModifyPacket, cell]
  split_ifs with hfloat hbool hbool
  · exact absurd (hbool.symm.trans hfloat) hne
  · cases panel.floatMap (packetID.setWidth 16) <;> rfl
  · cases panel.intMap (packetID.setWidth 16) <;> rfl
  · cases panel.intMap (packetID.setWidth 16) <;> rfl

/-- A key that fits a byte survives the call of `sendModifyPacket`. -/
theorem setWidth_setWidth_eq_iff (key : BitVec 16) :
    (key.setWidth 8).setWidth 16 = key ↔ key.toNat < 256 := by
  rw [← BitVec.toNat_inj, BitVec.toNat_setWidth, BitVec.toNat_setWidth]
  have := key.isLt
  omega

/-- **Applying an edit, for a key that fits a byte**: the packet carries the entry's key
and type and the edited value. -/
theorem Shows.press (h : panel.Shows e) (hkey : e.key.toNat < 256) (value junk : BitVec 32)
    (d : Dispatcher) :
    ∃ panel' record, panel.press e.key value junk d =
        some (panel', d.sendData (modifyPacket record).bytes) ∧
      record.packetID = e.key ∧ record.valueType = e.type.bits 16 ∧
      if e.type = .bool then boolByte record.value = boolByte value else record.value = value := by
  obtain ⟨panel', new, hedit, hnew, hvalue⟩ := h.exists_edit value
  obtain ⟨it, hit, htype⟩ := (h.edit hedit).listed
  refine ⟨panel', ⟨e.key, e.type.bits 16,
    if e.type = .bool then setBoolByte junk (boolByte new) else new⟩, ?_, rfl, rfl, ?_⟩
  · rw [LiveDataPanel.press, hedit, Option.bind_eq_bind, Option.bind_some, hit, Option.bind_eq_bind,
      Option.bind_some, htype, sendModifyPacket_eq, (setWidth_setWidth_eq_iff e.key).mpr hkey, hnew]
    simp only [ValueType.bits_inj]
    rfl
  · split_ifs at hvalue ⊢ with hbool
    · rw [boolByte_setBoolByte, hvalue]
    · exact hvalue

/-- What happens when an edit is applied. -/
theorem press_inv {junk : BitVec 32} {d d' : Dispatcher}
    (h : panel.press key value junk d = some (panel', d')) :
    ∃ it, panel.edit key value = some panel' ∧ panel.liveDataMap key = some it ∧
      panel'.sendModifyPacket (key.setWidth 8) it.valueType junk d = some d' := by
  cases hedit : panel.edit key value with
  | none =>
    rw [press, hedit] at h
    cases h
  | some panel₁ =>
    obtain ⟨hlist, -⟩ := frame_edit hedit
    cases hit : panel.liveDataMap key with
    | none =>
      rw [press, hedit, Option.bind_eq_bind, Option.bind_some, hlist, hit] at h
      cases h
    | some it =>
      rw [press, hedit, Option.bind_eq_bind, Option.bind_some, hlist, hit, Option.bind_eq_bind,
        Option.bind_some] at h
      obtain ⟨d₁, hsend, heq⟩ := Option.bind_eq_some_iff.mp h
      cases heq
      exact ⟨it, rfl, rfl, hsend⟩

/-- **Applying an edit, for any other key**: what is sent has nothing to do with the
edited value. -/
theorem press_of_le (hkey : 256 ≤ key.toNat) {value value' junk : BitVec 32} {d : Dispatcher}
    {panel₁ panel₂ : LiveDataPanel} {bytes bytes' : List Byte}
    (h : panel.press key value junk d = some (panel₁, d.sendData bytes))
    (h' : panel.press key value' junk d = some (panel₂, d.sendData bytes')) : bytes = bytes' := by
  have hne : (key.setWidth 8).setWidth 16 ≠ key := fun hsame =>
    absurd ((setWidth_setWidth_eq_iff key).mp hsame) (Nat.not_lt_of_le hkey)
  obtain ⟨it, hedit, hit, hsend⟩ := press_inv h
  obtain ⟨it', hedit', hit', hsend'⟩ := press_inv h'
  cases hit.symm.trans hit'
  -- both read the value of another entry, which neither edit has touched
  have hcell := (frame_edit hedit).2 _ it.valueType hne
  have hcell' := (frame_edit hedit').2 _ it.valueType hne
  rw [sendModifyPacket_eq, hcell] at hsend
  rw [sendModifyPacket_eq, hcell', hsend] at hsend'
  have htx := congrArg Dispatcher.txData (Option.some.inj hsend')
  simpa [Dispatcher.sendData] using htx

/-! ## From the panel to the variable -/

/-- The values that the widget for a type lets the user enter. -/
def Enters (type : ValueType) (value : BitVec 32) : Prop := type = .bool → value = 0 ∨ value = 1

/-- An edit of a variable's entry, applied, reaches the variable: no null pointer is
dereferenced on the way, and the bytes that are sent, however they arrive at the
firmware, have set the variable and no other once a further update changes nothing. -/
def Reaches (panel : LiveDataPanel) (w : Firmware) (e : Entry) : Prop :=
  ∀ value junk d, Enters e.type value →
    ∃ panel' bytes, panel.press e.key value junk d = some (panel', d.sendData bytes) ∧
      ∀ slots, stream slots = bytes → ∃ v, runSchedule slots w = some v ∧
        (Quiet v → e.HasValue v.vars value ∧ ∀ q, q ≠ e.ptr → v.vars q = w.vars q)

variable {w : Firmware}

/-- **A key that fits a byte**: the edited value reaches its variable. -/
theorem Shows.reaches (hshows : panel.Shows e) (h : Sound w es)
    (hstatus : w.dashboard.packetStatus = .waiting) (hempty : w.incoming = [])
    (hkeys : (es.map Entry.key).Nodup) (he : e ∈ es) (hstring : e.type ≠ .string)
    (hkey : e.key.toNat < 256) : panel.Reaches w e := by
  intro value junk d _
  obtain ⟨panel', record, hpress, hid, htype, hvalue⟩ := hshows.press hkey value junk d
  refine ⟨panel', _, hpress, fun slots hstream => ?_⟩
  obtain ⟨v, hrun, hend⟩ := deliver_modify h hstatus hempty hkeys he hstring hid htype
    (p := modifyPacket record) rfl rfl rfl hstream
  refine ⟨v, hrun, fun hquiet => ?_⟩
  obtain ⟨hset, hframe⟩ := hend hquiet
  refine ⟨?_, hframe⟩
  rw [Entry.HasValue] at hset ⊢
  split_ifs at hset hvalue ⊢
  · rw [hset, hvalue]
  · rw [hset, hvalue]

/-- **Any other key**: of two different values at least one does not reach the variable. -/
theorem not_reaches_of_le (h : Sound w es) (hkey : 256 ≤ e.key.toNat) : ¬ panel.Reaches w e := by
  intro hreaches
  obtain ⟨panel₁, bytes, hpress, hrun⟩ := hreaches 0 0 Dispatcher.empty fun _ => Or.inl rfl
  obtain ⟨panel₂, bytes', hpress', hrun'⟩ := hreaches 1 0 Dispatcher.empty fun _ => Or.inr rfl
  obtain rfl := press_of_le hkey hpress hpress'
  -- a schedule that delivers the bytes and comes to an end
  obtain ⟨slots, v, hstream, hend, hquiet⟩ := exists_schedule h bytes
  obtain ⟨v₁, hv₁, hset₁⟩ := hrun _ hstream
  obtain ⟨v₂, hv₂, hset₂⟩ := hrun' _ hstream
  cases hv₁.symm.trans hend
  cases hv₂.symm.trans hend
  have hzero := (hset₁ hquiet).1
  have hone := (hset₂ hquiet).1
  rw [Entry.HasValue] at hzero hone
  split_ifs at hzero hone
  · exact absurd (hzero.symm.trans hone) (by decide)
  · exact absurd (hzero.symm.trans hone) (by decide)

/-! ## The whole way -/

/-- The user edits entries, one after another. -/
def editAll (edits : List (BitVec 16 × BitVec 32)) (panel : LiveDataPanel) :
    Option LiveDataPanel :=
  edits.foldlM (fun panel edit => panel.edit edit.1 edit.2) panel

theorem Shows.editAll : ∀ {edits : List (BitVec 16 × BitVec 32)} {panel : LiveDataPanel},
    panel.Shows e → panel.editAll edits = some panel' → panel'.Shows e := by
  intro edits
  induction edits with
  | nil =>
    intro panel h hedits
    cases hedits
    exact h
  | cons edit edits ih =>
    intro panel h hedits
    rw [LiveDataPanel.editAll, List.foldlM_cons] at hedits
    obtain ⟨panel₁, hedit, hrest⟩ := Option.bind_eq_some_iff.mp hedits
    exact ih (h.edit hedit) hrest

/-- A response, from the firmware to the panel. -/
theorem exists_takeIn (io : Transport) (h : Registered w es)
    (hrequest : w.header.packetType = PacketID.requestLiveData.code) {host : Host}
    {c : ConsumerPtr} (hc : host.dispatcher.getHandler PacketID.responseLiveData.code = some c)
    (hqueue : host.consumers c = .liveData []) :
    ∃ (status : DashboardStatus) (w' : Firmware) (frame : List Byte) (host₁ host₂ : Host),
      processPacket io w = some (status, w') ∧ w'.trace.getLast? = some (.sent frame) ∧
      dispatchData frame host = some host₁ ∧
      (refreshPackets host.dispatcher).1.takeIn host₁ = some
        (w.fresh.foldl takeRecord (refreshPackets host.dispatcher).1, host₂) := by
  obtain ⟨status, hprocess⟩ := processPacket_request io h hrequest
  set host₁ := host.setConsumer c (.liveData ([] ++ [w.fresh]))
  refine ⟨status, w.log.respond, stuff (responsePacket w.fresh), host₁,
    host₁.setConsumer c (.liveData []), hprocess, ?_,
    dispatchData_response h.length_fresh hc hqueue, ?_⟩
  · rw [trace_respond, List.getLast?_append]
    rfl
  · have hc₁ : host₁.dispatcher.getHandler PacketID.responseLiveData.code = some c := hc
    have hqueue₁ : host₁.consumers c = .liveData [w.fresh] :=
      Host.consumers_setConsumer_self ..
    rw [takeIn, hc₁]
    simp only [hqueue₁, List.flatten_singleton]

/-- **Which variables a panel can modify.** A firmware with variables under pairwise
distinct keys answers a request, and the panel takes the response in. From then on,
whatever was edited before, an edit of a variable's entry that is applied reaches the
variable if and only if the variable's key is below 256. -/
theorem remote_modify_iff (io : Transport) (h : Registered w es)
    (hstring : ∀ e ∈ es, e.type ≠ .string) (hkeys : (es.map Entry.key).Nodup)
    (hrequest : w.header.packetType = PacketID.requestLiveData.code) {host : Host}
    {c : ConsumerPtr} (hc : host.dispatcher.getHandler PacketID.responseLiveData.code = some c)
    (hqueue : host.consumers c = .liveData []) :
    ∃ (status : DashboardStatus) (w' : Firmware) (frame : List Byte) (host₁ host₂ : Host)
      (panel : LiveDataPanel),
      processPacket io w = some (status, w') ∧ w'.trace.getLast? = some (.sent frame) ∧
      dispatchData frame host = some host₁ ∧
      (refreshPackets host.dispatcher).1.takeIn host₁ = some (panel, host₂) ∧
      ∀ (edits : List (BitVec 16 × BitVec 32)) (panel' : LiveDataPanel),
        panel.editAll edits = some panel' →
        ∀ e ∈ es, ∀ v : Firmware, Sound v es → v.dashboard.packetStatus = .waiting →
          v.incoming = [] → (panel'.Reaches v e ↔ e.key.toNat < 256) := by
  obtain ⟨status, w', frame, host₁, host₂, hprocess, hframe, hdispatch, htake⟩ :=
    exists_takeIn io h hrequest hc hqueue
  refine ⟨status, w', frame, host₁, host₂, _, hprocess, hframe, hdispatch, htake,
    fun edits panel' hedits e he v hv hstatus hempty => ?_⟩
  have hshows := (shows_foldl (reported_fresh h hstring) hkeys (fun _ _ => rfl) e he).editAll hedits
  constructor
  · intro hreaches
    by_contra hkey
    exact not_reaches_of_le hv (Nat.le_of_not_lt hkey) hreaches
  · exact hshows.reaches hv hstatus hempty hkeys he (hstring e he)

/-- The key below 256 of one variable. -/
theorem remote_modify_iff_one :
    ∃ (status : DashboardStatus) (w' : Firmware) (frame : List Byte) (host₁ host₂ : Host)
      (panel : LiveDataPanel),
      processPacket openTransport requested = some (status, w') ∧
      w'.trace.getLast? = some (.sent frame) ∧ dispatchData frame Host.main = some host₁ ∧
      (refreshPackets Host.main.dispatcher).1.takeIn host₁ = some (panel, host₂) ∧
      ∀ (edits : List (BitVec 16 × BitVec 32)) (panel' : LiveDataPanel),
        panel.editAll edits = some panel' →
        ∀ e ∈ [(⟨0, .uint32, 0⟩ : Entry)], ∀ v : Firmware, Sound v [⟨0, .uint32, 0⟩] →
          v.dashboard.packetStatus = .waiting → v.incoming = [] →
          (panel'.Reaches v e ↔ e.key.toNat < 256) :=
  remote_modify_iff openTransport ⟨by decide +kernel, by decide +kernel⟩ (by decide) (by decide)
    (by decide +kernel) rfl rfl

/-- A variable under key 256. -/
def wideEntry : Entry := ⟨256, .uint32, 0⟩

/-- A firmware with this variable, of value 7. -/
def wideVariable : Firmware :=
  ((Op.register 256 (some 0) .uint32).run (.boot fun _ => 7)).getD (.boot fun _ => 7)

theorem reachable_wideVariable : Reachable wideVariable :=
  (Reachable.boot fun _ => 7).after (.register 256 (some 0) .uint32) trivial rfl

/-- The call for a request. -/
def wideCall : Firmware :=
  ((wideVariable.feed (Packet.blank PacketID.requestLiveData.code).bytes).afterHeader
    openTransport).received.2

/-- **A null pointer is dereferenced**: key 256 is cut to 0, for which the panel has no
entry. The edit cannot be applied, whatever the value. -/
theorem not_reaches_wide :
    ∃ (status : DashboardStatus) (w' : Firmware) (frame : List Byte) (host₁ host₂ : Host)
      (panel : LiveDataPanel),
      AtCall wideCall ∧ wideCall.header.packetType = PacketID.requestLiveData.code ∧
      processPacket openTransport wideCall = some (status, w') ∧
      w'.trace.getLast? = some (.sent frame) ∧ dispatchData frame Host.main = some host₁ ∧
      (refreshPackets Host.main.dispatcher).1.takeIn host₁ = some (panel, host₂) ∧
      Reachable wideVariable ∧ Sound wideVariable [wideEntry] ∧
      wideVariable.dashboard.packetStatus = .waiting ∧ wideVariable.incoming = [] ∧
      (∀ value junk d, panel.press wideEntry.key value junk d = none) ∧
      ¬ panel.Reaches wideVariable wideEntry := by
  have htable : Registered wideCall [wideEntry] := ⟨by decide +kernel, by decide +kernel⟩
  have hrequest : wideCall.header.packetType = PacketID.requestLiveData.code := by decide +kernel
  have hcall : AtCall wideCall :=
    (reachable_wideVariable.arrive (Packet.blank PacketID.requestLiveData.code).bytes).atCall
      openTransport (by decide +kernel) (by decide +kernel)
  have hsound : Sound wideVariable [wideEntry] :=
    Sound.of_waiting ⟨by decide +kernel, by decide +kernel⟩ (by decide +kernel)
  obtain ⟨status, w', frame, host₁, host₂, hprocess, hframe, hdispatch, htake⟩ :=
    exists_takeIn openTransport htable hrequest
      (rfl : Host.main.dispatcher.getHandler PacketID.responseLiveData.code = some 2) rfl
  refine ⟨status, w', frame, host₁, host₂, _, hcall, hrequest, hprocess, hframe, hdispatch, htake,
    reachable_wideVariable, hsound, by decide +kernel, by decide +kernel, ?_,
    not_reaches_of_le hsound (by decide)⟩
  have hfresh : wideCall.fresh = [⟨256, 0, 7⟩] := by decide +kernel
  intro value junk d
  rw [hfresh]
  rfl

end LiveDataPanel

end Houston
