import Houston.Sending

/-!
# Processing a packet

`processPacket` walks the live data table: the response to a request brings every
record up to date and sends them all, a modify packet is compared with every record
and written through the pointers that go with those that match.

* `Registered` — what the table holds, as a list of entries.
* `processRequestLiveData_eq`, `processModify_eq` — the two branches, on a table of
  registered variables, as total functions of the state: `Firmware.respond` and
  `Firmware.modify`. The transport has no influence on them.
* `processPacket_eq` — the whole of `processPacket`.
-/

namespace Houston

open Stuffing

/-! ## The table -/

/-- A record and the pointer that goes with it. -/
abbrev Row : Type := LiveDataPacket × Option Ptr

/-- The part of the table in use, as the loops walk it. -/
def Firmware.rows (w : Firmware) : List Row :=
  (w.liveDataBuffer.data.zip w.liveDataPtr.data).take w.dashboard.liveDataCount

/-- A registered variable. -/
structure Entry where
  key : BitVec 16
  type : ValueType
  ptr : Ptr

/-- What registering writes to the table. -/
def Entry.tag (e : Entry) : BitVec 16 × BitVec 16 × Option Ptr :=
  (e.key, e.type.bits 16, some e.ptr)

/-- What a row keeps as long as it is registered: all but the value. -/
def Row.tag (r : Row) : BitVec 16 × BitVec 16 × Option Ptr := (r.1.packetID, r.1.valueType, r.2)

/-- The table holds the given variables, in the order of their registration. -/
structure Registered (w : Firmware) (es : List Entry) : Prop where
  count : w.dashboard.liveDataCount = es.length
  rows : w.rows.map Row.tag = es.map Entry.tag

variable {w : Firmware} {es : List Entry}

theorem length_rows (w : Firmware) : w.rows.length = min w.dashboard.liveDataCount 5 := by
  simp [Firmware.rows, w.liveDataBuffer.length_data, w.liveDataPtr.length_data]

/-- The rows in use, and what lies behind them in the two arrays. -/
theorem split_table (w : Firmware) :
    w.liveDataBuffer.data = w.rows.map Prod.fst ++
        w.liveDataBuffer.data.drop w.dashboard.liveDataCount ∧
      w.liveDataPtr.data = w.rows.map Prod.snd ++
        w.liveDataPtr.data.drop w.dashboard.liveDataCount := by
  have hlen : w.liveDataBuffer.data.length = w.liveDataPtr.data.length := by
    rw [w.liveDataBuffer.length_data, w.liveDataPtr.length_data]
  constructor
  · rw [Firmware.rows, List.map_take, List.map_fst_zip (le_of_eq hlen), List.take_append_drop]
  · rw [Firmware.rows, List.map_take, List.map_snd_zip (le_of_eq hlen.symm),
      List.take_append_drop]

namespace Registered

theorem length_rows (h : Registered w es) : w.rows.length = es.length := by
  rw [← List.length_map (f := Row.tag), h.rows, List.length_map]

theorem length_le (h : Registered w es) : es.length ≤ 5 := by
  rw [← h.length_rows, Houston.length_rows]
  exact min_le_right _ _

/-- No pointer in use is null. -/
theorem ne_null (h : Registered w es) : ∀ r ∈ w.rows, r.2 ≠ none := by
  intro r hr hnull
  have hmem : r.tag ∈ w.rows.map Row.tag := List.mem_map_of_mem hr
  rw [h.rows] at hmem
  obtain ⟨e, -, he⟩ := List.mem_map.mp hmem
  have hptr : some e.ptr = r.2 := congrArg (fun t => t.2.2) he
  rw [hnull] at hptr
  cases hptr

end Registered

/-! ## The response -/

/-- The record of a row, brought up to date. -/
def Row.fresh (vars : Ptr → BitVec 32) (r : Row) : LiveDataPacket :=
  (loadValue vars r.2 r.1).getD r.1

theorem loadValue_eq (vars : Ptr → BitVec 32) {r : Row} (hr : r.2 ≠ none) :
    loadValue vars r.2 r.1 = some (r.fresh vars) := by
  obtain ⟨entry, _ | p⟩ := r
  · exact absurd rfl hr
  · rw [Row.fresh, loadValue]
    split_ifs <;> rfl

/-- Bringing a record up to date changes its value only. -/
theorem Row.tag_fresh (vars : Ptr → BitVec 32) (r : Row) :
    ((r.fresh vars).packetID, (r.fresh vars).valueType) = (r.1.packetID, r.1.valueType) := by
  obtain ⟨entry, _ | p⟩ := r <;> rw [Row.fresh, loadValue] <;> split_ifs <;> rfl

theorem map_tag_fresh (vars : Ptr → BitVec 32) (rows : List Row) :
    (rows.map fun r => (r.fresh vars, r.2)).map Row.tag = rows.map Row.tag := by
  rw [List.map_map]
  refine List.map_congr_left fun r _ => ?_
  have htag := r.tag_fresh vars
  simp only [Prod.mk.injEq] at htag
  simp only [Function.comp_apply, Row.tag, htag]

/-- A row is read from the two arrays. -/
theorem get?_row {r : Row} {pre rest : List LiveDataPacket} {pre' rest' : List (Option Ptr)}
    (hbuf : w.liveDataBuffer.data = pre ++ r.1 :: rest)
    (hptr : w.liveDataPtr.data = pre' ++ r.2 :: rest') (hlen : pre'.length = pre.length) :
    w.liveDataBuffer.get? pre.length = some r.1 ∧ w.liveDataPtr.get? pre.length = some r.2 := by
  refine ⟨Buffer.get?_of_eq hbuf, ?_⟩
  rw [← hlen]
  exact Buffer.get?_of_eq hptr

/-- The response loop, over the rows that are left: `pre` and `pre'` are what was
passed of the two arrays. -/
theorem liveDataLoop_eq :
    ∀ (rows : List Row) (w : Firmware) (pre rest : List LiveDataPacket)
      (pre' rest' : List (Option Ptr)) (off : ℕ),
      w.liveDataBuffer.data = pre ++ (rows.map Prod.fst ++ rest) →
      w.liveDataPtr.data = pre' ++ (rows.map Prod.snd ++ rest') →
      pre'.length = pre.length → (∀ r ∈ rows, r.2 ≠ none) → off + 8 * rows.length ≤ 100 →
      ∃ table buf, liveDataLoop rows.length pre.length off w =
          some (off + 8 * rows.length, { w with liveDataBuffer := table, alertBuffer := buf }) ∧
        table.data = pre ++ (rows.map (Row.fresh w.vars) ++ rest) ∧
        w.alertBuffer.memcpy off (payloadBytes (rows.map (Row.fresh w.vars))) = some buf := by
  intro rows
  induction rows with
  | nil =>
    intro w pre rest pre' rest' off hbuf hptr hlen hnull hoff
    refine ⟨w.liveDataBuffer, w.alertBuffer, rfl, hbuf, ?_⟩
    refine Buffer.memcpy_eq_of_data (show off ≤ 100 by simpa using hoff) ?_
    simp [payloadBytes]
  | cons r rows ih =>
    intro w pre rest pre' rest' off hbuf hptr hlen hnull hoff
    rw [List.length_cons] at hoff
    -- the row at hand is read, brought up to date, and written back
    obtain ⟨hentry, hp⟩ := get?_row hbuf hptr hlen
    have hload := loadValue_eq w.vars (hnull r List.mem_cons_self)
    obtain ⟨table, hset, htable⟩ := Buffer.exists_set? hbuf (r.fresh w.vars)
    obtain ⟨buf, hcopy⟩ : ∃ buf, w.alertBuffer.memcpy off (r.fresh w.vars).toBytes = some buf :=
      ⟨_, Buffer.memcpy_eq_some (show _ ≤ 100 by rw [LiveDataPacket.length_toBytes]; omega)⟩
    obtain ⟨table', buf', hloop, htable', hcopy'⟩ :=
      ih { w with liveDataBuffer := table, alertBuffer := buf } (pre ++ [r.fresh w.vars]) rest
        (pre' ++ [r.2]) rest' (off + 8) (by simpa using htable) (by simpa using hptr)
        (by simp [hlen]) (fun r' hr' => hnull r' (List.mem_cons_of_mem r hr')) (by omega)
    refine ⟨table', buf', ?_, by simpa using htable', ?_⟩
    · have hnext : (pre ++ [r.fresh w.vars]).length = pre.length + 1 := by simp
      have hsize : off + 8 + 8 * rows.length = off + 8 * (rows.length + 1) := by omega
      rw [hnext, hsize] at hloop
      simp only [List.length_cons, liveDataLoop, hentry, hp, hload, hset, hcopy,
        Option.bind_eq_bind, Option.bind_some, hloop]
    · rw [List.map_cons, payloadBytes_cons, ← Buffer.memcpy_memcpy, hcopy, Option.bind_some,
        LiveDataPacket.length_toBytes]
      exact hcopy'

/-- The header of the response to a request, for `n` variables. -/
def responseHeader (n : ℕ) : DashboardPacketHeader :=
  craftDashboardHeaderPacket PacketID.responseLiveData.code (ValueType.uint32.bits 8) 0
    (BitVec.ofNat 16 (n * 8))

/-- The response to a request. -/
def responsePacket (records : List LiveDataPacket) : List Byte :=
  assemble (responseHeader records.length) [] (payloadBytes records)

theorem length_responsePacket (records : List LiveDataPacket) :
    (responsePacket records).length = 12 + 8 * records.length + 4 := by
  rw [responsePacket, length_assemble, length_payloadBytes, List.length_nil]

/-- The records of the table, brought up to date. -/
def Firmware.fresh (w : Firmware) : List LiveDataPacket := w.rows.map (Row.fresh w.vars)

theorem Registered.length_fresh (h : Registered w es) : w.fresh.length ≤ 5 := by
  rw [Firmware.fresh, List.length_map, h.length_rows]
  exact h.length_le

/-- The table with its records brought up to date. -/
def Firmware.freshTable (w : Firmware) : Buffer LiveDataPacket kLiveDataBufSize where
  data := w.fresh ++ w.liveDataBuffer.data.drop w.dashboard.liveDataCount
  length_data := by
    rw [Firmware.fresh, List.length_append, List.length_map, length_rows, List.length_drop,
      w.liveDataBuffer.length_data]
    show min w.dashboard.liveDataCount 5 + (5 - w.dashboard.liveDataCount) = 5
    omega

/-- Make a call whose packet is at most 99 bytes. -/
def Firmware.send (c : Call) (w : Firmware) : Firmware := w.emit c.packet

/-- The firmware with another table. -/
def Firmware.setTable (table : Buffer LiveDataPacket kLiveDataBufSize) (w : Firmware) : Firmware :=
  { w with liveDataBuffer := table }

/-- The firmware after it has answered a request. -/
def Firmware.respond (w : Firmware) : Firmware :=
  ((w.send (.alert (literal "Live Data Requested"))).setTable w.freshTable).emit
    (responsePacket w.fresh)

/-- An alert with a literal of the source that fits. -/
theorem dashboardAlert_of_fits (io : Transport) {str : CString} (h : (Call.alert str).size ≤ 99)
    (w : Firmware) :
    dashboardAlert io .ref str w =
      some (sendStatus io (Call.alert str).packet w, w.send (.alert str)) :=
  Call.run_of_fits io h w

/-- **The answer to a request** on a table of registered variables. -/
theorem processRequestLiveData_eq (io : Transport) (h : Registered w es) :
    ∃ status, processRequestLiveData io w = some (status, w.respond) := by
  have hle := h.length_le
  have hrows := h.length_rows
  obtain ⟨htable, hptr⟩ := split_table w
  set w₁ := w.send (.alert (literal "Live Data Requested")) with hw₁
  have halert : dashboardAlert io .ref (some (literal "Live Data Requested")) w = some (_, w₁) :=
    dashboardAlert_of_fits io (by decide) w
  have hcount : w₁.dashboard.liveDataCount = w.rows.length := by
    rw [hrows, ← h.count]
    rfl
  have hfresh : w.fresh.length = w.rows.length := List.length_map _
  have hpayload : (payloadBytes w.fresh).length = 8 * w.rows.length := by
    rw [length_payloadBytes, hfresh]
  -- header, records and checksum are copied one by one
  obtain ⟨buf, hbuf⟩ : ∃ buf, w₁.alertBuffer.memcpy 0 (responseHeader w.rows.length).toBytes =
      some buf :=
    ⟨_, Buffer.memcpy_eq_some (show _ ≤ 100 by rw [DashboardPacketHeader.length_toBytes]; omega)⟩
  obtain ⟨table, buf', hloop, htable', hcopy⟩ :=
    liveDataLoop_eq w.rows { w₁ with alertBuffer := buf } [] _ [] _ 12 htable hptr rfl h.ne_null
      (by omega)
  obtain rfl : table = w.freshTable := Buffer.ext htable'
  obtain ⟨buf'', hsum⟩ : ∃ buf'', buf'.memcpy (12 + 8 * w.rows.length)
      (wordBytes 4 (crc32 (payloadBytes w.fresh) 0)) = some buf'' :=
    ⟨_, Buffer.memcpy_eq_some (show _ ≤ 100 by rw [length_wordBytes]; omega)⟩
  have hread : buf'.read? 12 (w.rows.length * 8) = some (payloadBytes w.fresh) := by
    rw [Nat.mul_comm, ← hpayload]
    exact Buffer.read?_of_memcpy hcopy
  -- together they are the response
  have hall : w₁.alertBuffer.memcpy 0 (responsePacket w.fresh) = some buf'' := by
    rw [responsePacket, hfresh, assemble, List.nil_append, List.nil_append,
      ← Buffer.memcpy_memcpy, hbuf, Option.bind_some, DashboardPacketHeader.length_toBytes,
      ← Buffer.memcpy_memcpy, hpayload]
    exact (congrArg (Option.bind · _) hcopy).trans hsum
  have hsize : (responsePacket w.fresh).length = 12 + 8 * w.rows.length + 4 := by
    rw [length_responsePacket, hfresh]
  have hsend := encodeAndSend_eq
    (w := { w₁ with liveDataBuffer := w.freshTable, alertBuffer := buf'' }) io
    (by omega : 0 < (responsePacket w.fresh).length) (by omega) (Buffer.read?_of_memcpy hall)
  refine ⟨sendStatus io (responsePacket w.fresh)
    { w₁ with liveDataBuffer := w.freshTable, alertBuffer := buf'' }, ?_⟩
  rw [hsize] at hsend
  rw [responseHeader] at hbuf
  simp only [List.length_nil] at hloop
  simp only [processRequestLiveData, halert, Option.bind_eq_bind, Option.bind_some, hcount, hbuf,
    hloop, hread, hsum, hsend]
  simp only [Firmware.respond, ← hw₁, Firmware.emit, Firmware.setTable, hall, Option.getD_some]

/-! ## The modify scan -/

/-- The rows a modify scan writes through: those with the record's key, up to the
first whose type differs. -/
def hits (packet : LiveDataPacket) (rows : List Row) : List Row :=
  (rows.filter fun r => r.1.packetID = packet.packetID).takeWhile fun r =>
    r.1.valueType = packet.valueType

/-- The scan stops at a row whose type differs. -/
def mismatch (packet : LiveDataPacket) (rows : List Row) : Bool :=
  (rows.filter fun r => r.1.packetID = packet.packetID).any fun r =>
    r.1.valueType ≠ packet.valueType

/-- What a write through the pointer of a row leaves of the variables. -/
def Row.store (packet : LiveDataPacket) (vars : Ptr → BitVec 32) (r : Row) : Ptr → BitVec 32 :=
  (storeValue vars r.2 packet).getD vars

/-- What a modify scan leaves of the variables. -/
def stored (packet : LiveDataPacket) (rows : List Row) (vars : Ptr → BitVec 32) :
    Ptr → BitVec 32 :=
  (hits packet rows).foldl (Row.store packet) vars

theorem storeValue_eq (packet : LiveDataPacket) (vars : Ptr → BitVec 32) {r : Row}
    (hr : r.2 ≠ none) : storeValue vars r.2 packet = some (r.store packet vars) := by
  obtain ⟨entry, _ | p⟩ := r
  · exact absurd rfl hr
  · rw [Row.store, storeValue]
    split_ifs <;> rfl

/-- The firmware with other values of the application's variables. -/
def Firmware.setVars (vars : Ptr → BitVec 32) (w : Firmware) : Firmware := { w with vars := vars }

/-- What a modify scan leaves of the firmware. -/
def Firmware.scan (packet : LiveDataPacket) (rows : List Row) (w : Firmware) : Firmware :=
  if mismatch packet rows then
    (w.setVars (stored packet rows w.vars)).send (.alert (literal "Live Data Type Mismatch"))
  else w.setVars (stored packet rows w.vars)

theorem scan_skip {packet : LiveDataPacket} {r : Row} (hid : r.1.packetID ≠ packet.packetID)
    (rows : List Row) (w : Firmware) : w.scan packet (r :: rows) = w.scan packet rows := by
  have hfilter : (r :: rows).filter (fun r => r.1.packetID = packet.packetID) =
      rows.filter fun r => r.1.packetID = packet.packetID :=
    List.filter_cons_of_neg (by simpa using hid)
  rw [Firmware.scan, Firmware.scan, mismatch, mismatch, stored, stored, hits, hits, hfilter]

theorem scan_hit {packet : LiveDataPacket} {r : Row} (hid : r.1.packetID = packet.packetID)
    (htype : r.1.valueType = packet.valueType) (rows : List Row) (w : Firmware) :
    w.scan packet (r :: rows) =
      (w.setVars (r.store packet w.vars)).scan packet rows := by
  have hfilter : (r :: rows).filter (fun r => r.1.packetID = packet.packetID) =
      r :: rows.filter fun r => r.1.packetID = packet.packetID :=
    List.filter_cons_of_pos (by simpa using hid)
  rw [Firmware.scan, Firmware.scan, mismatch, mismatch, stored, stored, hits, hits, hfilter,
    List.any_cons, List.takeWhile_cons_of_pos (by simpa using htype),
    decide_eq_false (not_not_intro htype), Bool.false_or, List.foldl_cons]
  rfl

theorem scan_mismatch {packet : LiveDataPacket} {r : Row} (hid : r.1.packetID = packet.packetID)
    (htype : r.1.valueType ≠ packet.valueType) (rows : List Row) (w : Firmware) :
    w.scan packet (r :: rows) = w.send (.alert (literal "Live Data Type Mismatch")) := by
  have hvars : w.setVars w.vars = w := rfl
  simp [Firmware.scan, mismatch, stored, hits, hid, htype, hvars]

/-- The modify loop, over the rows that are left: `pre` and `pre'` are what was
passed of the two arrays. -/
theorem modifyLoop_eq (io : Transport) (packet : LiveDataPacket) :
    ∀ (rows : List Row) (w : Firmware) (pre rest : List LiveDataPacket)
      (pre' rest' : List (Option Ptr)),
      w.liveDataBuffer.data = pre ++ (rows.map Prod.fst ++ rest) →
      w.liveDataPtr.data = pre' ++ (rows.map Prod.snd ++ rest') →
      pre'.length = pre.length → (∀ r ∈ rows, r.2 ≠ none) →
      modifyLoop io packet rows.length pre.length w = some (w.scan packet rows) := by
  intro rows
  induction rows with
  | nil => exact fun _ _ _ _ _ _ _ _ _ => rfl
  | cons r rows ih =>
    intro w pre rest pre' rest' hbuf hptr hlen hnull
    obtain ⟨hentry, hp⟩ := get?_row hbuf hptr hlen
    have hstore := storeValue_eq packet w.vars (hnull r List.mem_cons_self)
    have hnext : ∀ vars, modifyLoop io packet rows.length (pre.length + 1)
        { w with vars := vars } = some ((w.setVars vars).scan packet rows) := by
      intro vars
      have hrest := ih (w.setVars vars) (pre ++ [r.1]) rest (pre' ++ [r.2]) rest'
        (by rw [List.append_assoc]; exact hbuf) (by rw [List.append_assoc]; exact hptr)
        (by simp [hlen]) fun r' hr' => hnull r' (List.mem_cons_of_mem r hr')
      rwa [List.length_append] at hrest
    rw [List.length_cons, modifyLoop, hentry, Option.bind_eq_bind, Option.bind_some]
    by_cases hid : r.1.packetID = packet.packetID
    · by_cases htype : r.1.valueType = packet.valueType
      · -- the value is written, and the scan goes on
        simp only [if_pos hid, if_neg (not_not_intro htype), hp, hstore, Option.bind_eq_bind,
          Option.bind_some, hnext, scan_hit hid htype]
      · -- a type mismatch ends the scan
        have halert := dashboardAlert_of_fits io
          (by decide : (Call.alert (literal "Live Data Type Mismatch")).size ≤ 99) w
        rw [if_pos hid, if_pos htype, halert, scan_mismatch hid htype]
        rfl
    · rw [if_neg hid, scan_skip hid]
      exact hnext w.vars

/-- The record that a modify packet is taken to carry. -/
def Firmware.record (w : Firmware) : LiveDataPacket :=
  LiveDataPacket.ofBytes (w.rxBuffer.data.drop 12)

/-- The firmware after it has processed a modify packet. -/
def Firmware.modify (w : Firmware) : Firmware :=
  (w.send (.alert (literal "Live Data Modify Received"))).scan w.record w.rows

/-- **The effect of a modify packet** on a table of registered variables. -/
theorem processModify_eq (io : Transport) (h : Registered w es) :
    processModify io w = some (.ok, w.modify) := by
  obtain ⟨htable, hptr⟩ := split_table w
  have halert := dashboardAlert_of_fits io
    (by decide : (Call.alert (literal "Live Data Modify Received")).size ≤ 99) w
  have hread : w.rxBuffer.read? 12 8 = some ((w.rxBuffer.data.drop 12).take 8) :=
    Buffer.read?_eq_some (by decide)
  have hrecord : LiveDataPacket.ofBytes ((w.rxBuffer.data.drop 12).take 8) = w.record :=
    LiveDataPacket.ofBytes_take (le_refl 8)
  have hcount : w.dashboard.liveDataCount = w.rows.length := h.count.trans h.length_rows.symm
  have hloop := modifyLoop_eq io w.record w.rows
    (w.send (.alert (literal "Live Data Modify Received"))) [] _ [] _ htable hptr rfl h.ne_null
  rw [processModify, halert, Option.bind_eq_bind, Option.bind_some]
  simp only [Firmware.send, Firmware.rxBuffer_emit, Firmware.dashboard_emit, hread, hrecord, hcount,
    Option.bind_eq_bind, Option.bind_some]
  rw [Firmware.send, List.length_nil] at hloop
  rw [hloop]
  rfl

/-! ## The whole of it -/

/-- The header in `rxBuffer`. -/
def Firmware.header (w : Firmware) : DashboardPacketHeader :=
  DashboardPacketHeader.ofBytes w.rxBuffer.data

/-- The firmware with the packet in `rxBuffer` on record. -/
def Firmware.log (w : Firmware) : Firmware :=
  { w with trace := w.trace ++ [.processed w.packet] }

/-- The firmware after `processPacket`. -/
def Firmware.process (w : Firmware) : Firmware :=
  if w.header.packetType = PacketID.requestLiveData.code then w.log.respond
  else if w.header.packetType = PacketID.modify.code then w.log.modify
  else w.log

/-- **Processing never goes wrong** on a table of registered variables, and does not
depend on the transport. -/
theorem processPacket_eq (io : Transport) (h : Registered w es) :
    ∃ status, processPacket io w = some (status, w.process) := by
  have hread : w.rxBuffer.read? 0 12 = some (w.rxBuffer.data.take 12) :=
    Buffer.read?_eq_some (by decide)
  have hheader : DashboardPacketHeader.ofBytes (w.rxBuffer.data.take 12) = w.header :=
    DashboardPacketHeader.ofBytes_take (le_refl 12)
  have hlog : Registered w.log es := ⟨h.count, h.rows⟩
  simp only [processPacket, hread, hheader, Firmware.process, Option.bind_eq_bind, Option.bind_some]
  split_ifs with hrequest hmodify
  · exact processRequestLiveData_eq io hlog
  · exact ⟨.ok, processModify_eq io hlog⟩
  · exact ⟨.ok, rfl⟩

/-- A request is answered. -/
theorem processPacket_request (io : Transport) (h : Registered w es)
    (hrequest : w.header.packetType = PacketID.requestLiveData.code) :
    ∃ status, processPacket io w = some (status, w.log.respond) := by
  obtain ⟨status, hprocess⟩ := processPacket_eq io h
  have hrespond : w.process = w.log.respond := if_pos hrequest
  rw [hrespond] at hprocess
  exact ⟨status, hprocess⟩

/-! ### The table survives -/

/-- A response brings the records of the table up to date. -/
theorem rows_respond (h : Registered w es) :
    w.respond.rows = w.rows.map fun r => (r.fresh w.vars, r.2) := by
  obtain ⟨htable, hptr⟩ := split_table w
  have hcount : w.dashboard.liveDataCount = w.rows.length := h.count.trans h.length_rows.symm
  have hrows : w.respond.rows =
      (w.freshTable.data.zip w.liveDataPtr.data).take w.dashboard.liveDataCount := rfl
  have hlen : w.fresh.length = (w.rows.map Prod.snd).length := by
    rw [Firmware.fresh, List.length_map, List.length_map]
  rw [hrows, Firmware.freshTable, hptr, List.zip_append hlen, List.take_left' ?_]
  · rw [Firmware.fresh, List.zip_map']
  · rw [List.length_zip, ← hlen, min_self, Firmware.fresh, List.length_map, hcount]

theorem Registered.respond (h : Registered w es) : Registered w.respond es := by
  refine ⟨h.count, ?_⟩
  rw [rows_respond h, map_tag_fresh, h.rows]

theorem Registered.modify (h : Registered w es) : Registered w.modify es := by
  rw [Firmware.modify, Firmware.scan]
  split_ifs
  · exact ⟨h.count, h.rows⟩
  · exact ⟨h.count, h.rows⟩

theorem Registered.process (h : Registered w es) : Registered w.process es := by
  have hlog : Registered w.log es := ⟨h.count, h.rows⟩
  simp only [Firmware.process]
  split_ifs
  · exact hlog.respond
  · exact hlog.modify
  · exact hlog

/-- Processing a packet changes neither the receiver's state nor its buffer, and reads
nothing. -/
theorem process_frame (w : Firmware) :
    w.process.dashboard = w.dashboard ∧ w.process.rxBuffer = w.rxBuffer ∧
      w.process.incoming = w.incoming := by
  simp only [Firmware.process, Firmware.modify, Firmware.scan]
  split_ifs <;> exact ⟨rfl, rfl, rfl⟩

end Houston
