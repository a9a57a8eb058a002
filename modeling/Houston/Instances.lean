import Houston.Runs
import Houston.Streaming
import Mathlib.Data.Fintype.Basic

/-!
# Several instances: the statics of `dashboard/Dashboard.c`

An application may have several `Dashboard_t`, each with a transport of its own. How many
variables are registered and whether a header was received is kept in the instance; the
table of the variables, the header and the other buffers are statics of the file.

* `Board.step` — what may happen to the instances, in any order.
* `Alike.update` — what an instance does depends on its own state, on its part of the table
  and on the header it waits with, and on nothing else.
* `alone_of_harmless` — an instance does what it would do alone, if no other one registers a
  variable in its part of the table or reads a header while it waits with one.
* `interference` — an instance reports the variable of another one, and takes the header of
  another one for its own.
-/

namespace Houston

open Runs

/-- The statics of the file, and the variables of the application. -/
structure Statics where
  alertBuffer : Buffer Byte kAlertBufSize
  alertBufferCOBS : Buffer Byte kAlertBufCOBSize
  liveDataBuffer : Buffer LiveDataPacket kLiveDataBufSize
  rxBuffer : Buffer Byte kAlertBufCOBSize
  liveDataPtr : Buffer (Option Ptr) kLiveDataBufSize
  vars : Ptr → BitVec 32

/-- The statics when the program starts. -/
def Statics.zero (vars : Ptr → BitVec 32) : Statics where
  alertBuffer := .replicate kAlertBufSize 0
  alertBufferCOBS := .replicate kAlertBufCOBSize 0
  liveDataBuffer := .replicate kLiveDataBufSize ⟨0, 0, 0⟩
  rxBuffer := .replicate kAlertBufCOBSize 0
  liveDataPtr := .replicate kLiveDataBufSize none
  vars := vars

/-- Key, type and pointer of an entry of the table. -/
abbrev Tag : Type := BitVec 16 × BitVec 16 × Option Ptr

/-- A packet that an instance has processed, and the entries that it has reported or
modified because of it. -/
structure Deed where
  packet : List Byte
  reported : List Tag
  modified : List Tag
  deriving DecidableEq

/-- An instance, what has arrived for it and was not read, what it has sent and processed,
and what an observer notes down. -/
structure Instance where
  dashboard : Dashboard
  incoming : List Byte
  trace : List Event
  deeds : List Deed
  /-- how many bytes were read into `rxBuffer` -/
  bytesRead : ℕ

/-- Instances, by their names, that share the statics. -/
structure Board (ι : Type) where
  statics : Statics
  instances : ι → Instance

variable {ι : Type} [DecidableEq ι]

namespace Board

/-! ## The model -/

/-- The firmware, as the functions see it when they are called with an instance. -/
def focus (i : ι) (s : Board ι) : Firmware where
  alertBuffer := s.statics.alertBuffer
  alertBufferCOBS := s.statics.alertBufferCOBS
  liveDataBuffer := s.statics.liveDataBuffer
  rxBuffer := s.statics.rxBuffer
  liveDataPtr := s.statics.liveDataPtr
  dashboard := (s.instances i).dashboard
  vars := s.statics.vars
  incoming := (s.instances i).incoming
  trace := (s.instances i).trace

/-- What an observer notes of a packet that an instance processes: the entries that a
response goes through, and those that a modify packet is written through. -/
def deed (w : Firmware) (packet : List Byte) : Deed where
  packet := packet
  reported :=
    if packetTypeOf packet = PacketID.requestLiveData.code then w.rows.map Row.tag else []
  modified :=
    if packetTypeOf packet = PacketID.modify.code then
      (hits (LiveDataPacket.ofBytes (packet.drop 12)) w.rows).map Row.tag
    else []

/-- A function was called with an instance, and has left the firmware as `w`. -/
def leave (i : ι) (w : Firmware) (s : Board ι) : Board ι where
  statics :=
    { alertBuffer := w.alertBuffer
      alertBufferCOBS := w.alertBufferCOBS
      liveDataBuffer := w.liveDataBuffer
      rxBuffer := w.rxBuffer
      liveDataPtr := w.liveDataPtr
      vars := w.vars }
  instances := Function.update s.instances i
    { dashboard := w.dashboard
      incoming := w.incoming
      trace := w.trace
      deeds := (s.instances i).deeds ++
        ((processedPackets w.trace).drop (processedPackets (s.instances i).trace).length).map
          (deed (s.focus i))
      bytesRead := (s.instances i).bytesRead + ((s.instances i).incoming.length - w.incoming.length) }

/-- The instances after `Dashboard_Init`, each with its own transport functions. -/
def start (statics : Statics) (sendData readData hasData : ι → FnPtr) : Board ι where
  statics := statics
  instances i :=
    { dashboard := (dashboardInit .ref (some (sendData i)) (some (readData i))
        (some (hasData i)) (.start .zero statics.vars)).2.dashboard
      incoming := []
      trace := []
      deeds := []
      bytesRead := 0 }

/-- What may happen: `Dashboard_Register_LiveData` or `Dashboard_Update` is called with an
instance, or bytes arrive for it. -/
inductive Step (ι : Type) where
  | register (i : ι) (key : BitVec 16) (data : Option Ptr) (type : ValueType)
  | update (i : ι) (io : Transport)
  | arrive (i : ι) (bytes : List Byte)

/-- The instance that a step is about. -/
def Step.who : Step ι → ι
  | .register i _ _ _ => i
  | .update i _ => i
  | .arrive i _ => i

/-- What happens to it. -/
def Step.op : Step ι → Op
  | .register _ key data type => .register key data type
  | .update _ io => .update io
  | .arrive _ bytes => .arrive bytes

/-- Let it happen. -/
def step (e : Step ι) (s : Board ι) : Option (Board ι) :=
  (e.op.run (s.focus e.who)).map fun w => s.leave e.who w

end Board

/-! ## The table as a whole -/

/-- Keys, types and pointers of all entries of the table, in use or not. -/
def Firmware.tags (w : Firmware) : List Tag :=
  (w.liveDataBuffer.data.zip w.liveDataPtr.data).map Row.tag

variable {w v : Firmware} {es : List Entry}

theorem tags_rows (w : Firmware) : w.rows.map Row.tag = w.tags.take w.dashboard.liveDataCount := by
  rw [Firmware.rows, Firmware.tags, List.map_take]

theorem tags_of_data {rows : List Row} {rest : List LiveDataPacket} {rest' : List (Option Ptr)}
    (hbuf : w.liveDataBuffer.data = rows.map Prod.fst ++ rest)
    (hptr : w.liveDataPtr.data = rows.map Prod.snd ++ rest') :
    w.tags = rows.map Row.tag ++ (rest.zip rest').map Row.tag := by
  rw [Firmware.tags, hbuf, hptr, List.zip_append (by rw [List.length_map, List.length_map]),
    List.zip_map', List.map_id', List.map_append]

/-- A response brings values up to date, and nothing else. -/
theorem tags_respond (w : Firmware) : w.respond.tags = w.tags := by
  obtain ⟨hbuf, hptr⟩ := split_table w
  rw [tags_of_data hbuf hptr, ← map_tag_fresh w.vars]
  refine tags_of_data ?_ ?_
  · rw [List.map_map]
    rfl
  · rw [List.map_map]
    exact hptr

theorem tags_process (w : Firmware) : w.process.tags = w.tags := by
  have hmodify : w.log.modify.tags = w.tags := by
    rw [Firmware.modify, Firmware.scan]
    split_ifs <;> rfl
  rw [Firmware.process]
  split_ifs
  · exact tags_respond w.log
  · exact hmodify
  · rfl

/-- Reading changes neither keys nor types nor pointers. -/
theorem tags_takeHeader (w : Firmware) : w.takeHeader.tags = w.tags := by
  rw [Firmware.takeHeader]
  split_ifs <;> rfl

theorem tags_takePayload (w : Firmware) : w.takePayload.tags = w.tags := by
  have hreceived : w.received.2.tags = w.tags := by
    rw [Firmware.received, Firmware.check]
    split_ifs <;> rfl
  rw [Firmware.takePayload]
  split_ifs
  · rw [tags_process, hreceived]
  · exact hreceived

theorem tags_update (w : Firmware) (io : Transport) : (w.update io).tags = w.tags := by
  have hheader : (w.afterHeader io).tags = w.tags := by
    rw [Firmware.afterHeader]
    split_ifs
    · exact tags_takeHeader w
    · rfl
  rw [Firmware.update, ← hheader]
  split_ifs
  · exact tags_takePayload _
  · rfl

theorem data_set {α : Type} {n i : ℕ} {b b' : Buffer α n} {a : α} (h : b.set? i a = some b') :
    b'.data = b.data.set i a := by
  obtain ⟨hlen, rfl⟩ := Buffer.of_memcpy h
  have hi : i < b.data.length := by
    rw [b.length_data]
    exact hlen
  rw [Buffer.data_overwrite, List.set_eq_take_append_cons_drop, if_pos hi, List.append_assoc]
  rfl

theorem zip_set {α β : Type} (l : List α) (m : List β) (i : ℕ) (a : α) (b : β) :
    (l.set i a).zip (m.set i b) = (l.zip m).set i (a, b) := by
  induction l generalizing m i with
  | nil => rfl
  | cons x l ih =>
    cases m with
    | nil => cases i <;> rfl
    | cons y m =>
      cases i with
      | zero => rfl
      | succ i => exact congrArg _ (ih m i)

/-- Registering a variable sets one entry. -/
theorem tags_register {key : BitVec 16} {data : Option Ptr} {type : ValueType}
    {status : DashboardStatus} (hrun : dashboardRegisterLiveData .ref key data type w = some (status, v)) :
    (data = none ∨ 5 ≤ w.dashboard.liveDataCount) ∧ v = w ∨
      data ≠ none ∧ w.dashboard.liveDataCount < 5 ∧
      v.tags = w.tags.set w.dashboard.liveDataCount (key, type.bits 16, data) ∧
      v.dashboard = { w.dashboard with liveDataCount := w.dashboard.liveDataCount + 1 } ∧
      v.rxBuffer = w.rxBuffer ∧ v.incoming = w.incoming ∧ v.trace = w.trace := by
  by_cases hrefused : data = none ∨ w.dashboard.liveDataCount ≥ kLiveDataBufSize
  · rw [dashboardRegisterLiveData, if_pos (Or.inr hrefused)] at hrun
    cases hrun
    exact Or.inl ⟨hrefused, rfl⟩
  · rw [dashboardRegisterLiveData, if_neg (not_or.mpr ⟨by decide, hrefused⟩)] at hrun
    obtain ⟨hdata, hroom⟩ := not_or.mp hrefused
    obtain ⟨entry, hentry, hrun⟩ := Option.bind_eq_some_iff.mp hrun
    obtain ⟨buf, hbuf, hrun⟩ := Option.bind_eq_some_iff.mp hrun
    obtain ⟨ptr, hptr, hrun⟩ := Option.bind_eq_some_iff.mp hrun
    cases hrun
    have hlt : w.dashboard.liveDataCount < 5 := Nat.lt_of_not_le hroom
    refine Or.inr ⟨hdata, hlt, ?_, ?_, rfl, rfl, rfl⟩
    · rw [Firmware.tags, data_set hbuf, data_set hptr, zip_set, List.map_set]
      rfl
    · have hmod : (w.dashboard.liveDataCount + 1) % 2 ^ 16 = w.dashboard.liveDataCount + 1 :=
        Nat.mod_eq_of_lt (by omega)
      rw [hmod]

/-! ## What an instance depends on -/

theorem length_tags (w : Firmware) : w.tags.length = 5 := by
  rw [Firmware.tags, List.length_map, List.length_zip, w.liveDataBuffer.length_data,
    w.liveDataPtr.length_data]
  rfl

theorem take_set_succ {α : Type} {l : List α} {i : ℕ} (hi : i < l.length) (a : α) :
    (l.set i a).take (i + 1) = l.take i ++ [a] := by
  rw [List.take_add_one, List.take_set_of_le (Nat.le_refl i), List.getElem?_set_self hi]
  rfl

theorem pending_eq (hstatus : w.dashboard.packetStatus = v.dashboard.packetStatus)
    (hincoming : w.incoming = v.incoming)
    (hfront : v.dashboard.packetStatus = .headerReceived →
      w.rxBuffer.data.take 12 = v.rxBuffer.data.take 12) : w.pending = v.pending := by
  rw [Firmware.pending, Firmware.pending, hstatus, hincoming]
  split_ifs with h
  · rw [hfront h]
  · rfl

/-- Two states of the firmware in which an instance does the same: it is in the same state
itself, it has the same entries, and the same bytes to read. -/
structure Alike (w v : Firmware) : Prop where
  dashboard : w.dashboard = v.dashboard
  incoming : w.incoming = v.incoming
  rows : w.rows.map Row.tag = v.rows.map Row.tag
  pending : w.pending = v.pending
  processed : processedPackets w.trace = processedPackets v.trace

namespace Alike

/-- A header that both wait with is the same. -/
theorem front (h : Alike w v) (hstatus : w.dashboard.packetStatus = .headerReceived) :
    w.rxBuffer.data.take 12 = v.rxBuffer.data.take 12 := by
  have hstatus' : v.dashboard.packetStatus = .headerReceived := by rwa [← h.dashboard]
  rw [← take_pending hstatus, ← take_pending hstatus', h.pending]

theorem sound (h : Alike w v) (hw : Sound w es) : Sound v es := by
  refine ⟨⟨h.dashboard ▸ hw.table.count, h.rows ▸ hw.table.rows⟩, fun hstatus => ?_⟩
  have hstatus' : w.dashboard.packetStatus = .headerReceived := by rwa [h.dashboard]
  exact (admits_congr (h.front hstatus')).mp (hw.header hstatus')

theorem headerReady (h : Alike w v) (io : Transport) : w.headerReady io ↔ v.headerReady io := by
  rw [Firmware.headerReady, Firmware.headerReady, h.dashboard, h.incoming]

theorem payloadReady (h : Alike w v) (io : Transport) : w.payloadReady io ↔ v.payloadReady io := by
  rw [Firmware.payloadReady, Firmware.payloadReady, ← h.dashboard, ← h.incoming]
  refine and_congr_right fun hstatus => ?_
  rw [payloadSize_congr (h.front hstatus)]

end Alike

theorem incoming_of_headerReady {io : Transport} (hready : w.headerReady io) :
    12 < w.incoming.length :=
  Nat.lt_of_lt_of_le hready.2.2 (io.hasData_le _ _ hready.2.1)

theorem incoming_of_payloadReady {io : Transport} (hready : w.payloadReady io) :
    payloadSize w.rxBuffer.data + 4 ≤ w.incoming.length :=
  hready.2.2.trans (io.hasData_le _ _ hready.2.1)

/-- Whether a header is accepted depends on its bytes only. -/
theorem dashboard_takeHeader (hlen : 12 < w.incoming.length) :
    w.takeHeader.dashboard = if Admits w.incoming
      then { w.dashboard with packetStatus := .headerReceived } else w.dashboard := by
  have hread := take_read (Nat.le_of_lt hlen)
  rw [Firmware.takeHeader]
  simp only [← admits_congr hread]
  split_ifs with hsealed hsmall hadmits hadmits hadmits
  · rfl
  · exact absurd ⟨hsealed, Nat.le_of_lt_succ hsmall⟩ hadmits
  · exact absurd (Nat.lt_succ_of_le hadmits.2) hsmall
  · rfl
  · exact absurd hadmits.1 hsealed
  · rfl

namespace Alike

theorem takeHeader (h : Alike w v) (hstatus : w.dashboard.packetStatus = .waiting)
    (hlen : 12 < w.incoming.length) : Alike w.takeHeader v.takeHeader := by
  have hstatus' : v.dashboard.packetStatus = .waiting := by rwa [← h.dashboard]
  have hlen' : 12 < v.incoming.length := by rwa [← h.incoming]
  obtain ⟨hpending, hprocessed⟩ := pending_takeHeader hstatus hlen
  obtain ⟨hpending', hprocessed'⟩ := pending_takeHeader hstatus' hlen'
  rw [← h.pending] at hpending'
  refine ⟨?_, ?_, ?_, ?_, ?_⟩
  · rw [dashboard_takeHeader hlen, dashboard_takeHeader hlen', h.dashboard, h.incoming]
  · rw [incoming_takeHeader, incoming_takeHeader, h.incoming]
  · rw [(frame_takeHeader w).1, (frame_takeHeader v).1, h.rows]
  · rcases hpending with ⟨hadmits, hw⟩ | ⟨hrefused, hw⟩
    · rcases hpending' with ⟨-, hv⟩ | ⟨hrefused, -⟩
      · rw [hw, hv]
      · exact absurd hadmits hrefused
    · rcases hpending' with ⟨hadmits, -⟩ | ⟨-, hv⟩
      · exact absurd hadmits hrefused
      · rw [hw, hv]
  · rw [hprocessed, hprocessed', h.processed]

theorem takePayload (h : Alike w v) (hw : Sound w es)
    (hstatus : w.dashboard.packetStatus = .headerReceived)
    (hlen : payloadSize w.rxBuffer.data + 4 ≤ w.incoming.length) :
    Alike w.takePayload v.takePayload := by
  have hstatus' : v.dashboard.packetStatus = .headerReceived := by rwa [← h.dashboard]
  have hsize : payloadSize w.rxBuffer.data = payloadSize v.rxBuffer.data :=
    payloadSize_congr (h.front hstatus)
  have hlen' : payloadSize v.rxBuffer.data + 4 ≤ v.incoming.length := by rwa [← hsize, ← h.incoming]
  obtain ⟨-, -, hpending, hprocessed⟩ := pending_takePayload hw hstatus hlen
  obtain ⟨-, -, hpending', hprocessed'⟩ := pending_takePayload (h.sound hw) hstatus' hlen'
  have hdashboard : w.takePayload.dashboard = v.takePayload.dashboard := by
    rw [dashboard_takePayload, dashboard_takePayload, h.dashboard]
  refine ⟨hdashboard, ?_, ?_, ?_, ?_⟩
  · rw [incoming_takePayload, incoming_takePayload, hsize, h.incoming]
  · have hrows := h.rows
    rw [tags_rows, tags_rows] at hrows
    rw [tags_rows, tags_rows, tags_takePayload, tags_takePayload, dashboard_takePayload,
      dashboard_takePayload]
    exact hrows
  · rw [hpending, hpending', h.pending]
  · rw [hprocessed, hprocessed', h.processed, h.pending]

/-- **What an instance does in an update** depends on its own state, its entries and the
bytes it has to read. -/
theorem update (h : Alike w v) (hw : Sound w es) (io : Transport) :
    Alike (w.update io) (v.update io) := by
  have hheader : Alike (w.afterHeader io) (v.afterHeader io) := by
    rw [Firmware.afterHeader, Firmware.afterHeader]
    by_cases hready : w.headerReady io
    · rw [if_pos hready, if_pos ((h.headerReady io).mp hready)]
      exact h.takeHeader hready.1 (incoming_of_headerReady hready)
    · rw [if_neg hready, if_neg fun hready' => hready ((h.headerReady io).mpr hready')]
      exact h
  rw [Firmware.update, Firmware.update]
  by_cases hready : (w.afterHeader io).payloadReady io
  · rw [if_pos hready, if_pos ((hheader.payloadReady io).mp hready)]
    exact hheader.takePayload (hw.afterHeader io) hready.1 (incoming_of_payloadReady hready)
  · rw [if_neg hready, if_neg fun hready' => hready ((hheader.payloadReady io).mpr hready')]
    exact hheader

theorem symm (h : Alike w v) : Alike v w :=
  ⟨h.dashboard.symm, h.incoming.symm, h.rows.symm, h.pending.symm, h.processed.symm⟩

theorem trans {u : Firmware} (h : Alike w v) (h' : Alike v u) : Alike w u :=
  ⟨h.dashboard.trans h'.dashboard, h.incoming.trans h'.incoming, h.rows.trans h'.rows,
    h.pending.trans h'.pending, h.processed.trans h'.processed⟩

theorem feed (h : Alike w v) (bytes : List Byte) : Alike (w.feed bytes) (v.feed bytes) :=
  ⟨h.dashboard, congrArg (· ++ bytes) h.incoming, h.rows, by
    rw [pending_feed, pending_feed, h.pending], h.processed⟩

/-- Registering a variable adds the same entry to both. -/
theorem register (h : Alike w v) {key : BitVec 16} {data : Option Ptr} {type : ValueType}
    {w' v' : Firmware} {status status' : DashboardStatus}
    (hrun : dashboardRegisterLiveData .ref key data type w = some (status, w'))
    (hrun' : dashboardRegisterLiveData .ref key data type v = some (status', v')) :
    Alike w' v' := by
  rcases tags_register hrun with ⟨hrefused, rfl⟩ | ⟨hdata, hroom, htags, hdashboard, hrx, hin, htrace⟩
  · rcases tags_register hrun' with ⟨-, rfl⟩ | ⟨hdata, hroom, -⟩
    · exact h
    · rw [← h.dashboard] at hroom
      exact absurd hrefused (not_or.mpr ⟨hdata, Nat.not_le_of_lt hroom⟩)
  · rcases tags_register hrun' with ⟨hrefused, -⟩ | ⟨-, -, htags', hdashboard', hrx', hin', htrace'⟩
    · rw [← h.dashboard] at hrefused
      exact absurd hrefused (not_or.mpr ⟨hdata, Nat.not_le_of_lt hroom⟩)
    · refine ⟨?_, ?_, ?_, ?_, ?_⟩
      · rw [hdashboard, hdashboard', h.dashboard]
      · rw [hin, hin', h.incoming]
      · have hrows := h.rows
        rw [tags_rows, tags_rows, ← h.dashboard] at hrows
        rw [tags_rows, tags_rows, htags, htags', hdashboard, hdashboard', ← h.dashboard,
          take_set_succ (by rwa [length_tags]), take_set_succ (by rwa [length_tags]), hrows]
      · have hw : w'.pending = w.pending :=
          pending_eq (by rw [hdashboard]) hin fun _ => by rw [hrx]
        have hv : v'.pending = v.pending :=
          pending_eq (by rw [hdashboard']) hin' fun _ => by rw [hrx']
        rw [hw, hv, h.pending]
      · rw [htrace, htrace', h.processed]

end Alike

/-- The header at the front of `rxBuffer` is the one that was read last. -/
theorem front_update (w : Firmware) (io : Transport) :
    (w.update io).rxBuffer.data.take 12 =
      if w.headerReady io then w.incoming.take 12 else w.rxBuffer.data.take 12 := by
  have hheader : (w.afterHeader io).rxBuffer.data.take 12 =
      if w.headerReady io then w.incoming.take 12 else w.rxBuffer.data.take 12 := by
    rw [Firmware.afterHeader]
    split_ifs with hready
    · rw [← take_read (Nat.le_of_lt (incoming_of_headerReady hready)), Firmware.takeHeader]
      split_ifs <;> rfl
    · rfl
  have hpayload : ∀ u : Firmware, u.takePayload.rxBuffer.data.take 12 = u.rxBuffer.data.take 12 := by
    intro u
    rw [Firmware.takePayload]
    split_ifs
    · rw [(process_frame _).2.1, rxBuffer_received, take_loadPayload]
    · rw [rxBuffer_received, take_loadPayload]
  rw [Firmware.update, ← hheader]
  split_ifs
  · exact hpayload _
  · rfl

namespace Board

/-! ## Runs -/

/-- A step of one instance that does no harm to the other ones: it registers no variable in
their parts of the table, unless the same entry is there already, and reads no header while
one of them waits with another header. -/
def Harmless : Step ι → Board ι → Prop
  | .register i key data type, s => ∀ k, k ≠ i → data ≠ none →
      (s.instances i).dashboard.liveDataCount < (s.instances k).dashboard.liveDataCount →
      (s.focus i).tags[(s.instances i).dashboard.liveDataCount]? = some (key, type.bits 16, data)
  | .update i io, s => ∀ k, k ≠ i → (s.focus i).headerReady io →
      (s.instances k).dashboard.packetStatus = .headerReceived →
      s.statics.rxBuffer.data.take 12 = (s.instances i).incoming.take 12
  | .arrive _ _, _ => True

instance [Fintype ι] : ∀ (e : Step ι) (s : Board ι), Decidable (Harmless e s)
  | .register .., _ => inferInstanceAs (Decidable (∀ _, _))
  | .update .., _ => inferInstanceAs (Decidable (∀ _, _))
  | .arrive .., _ => isTrue trivial

variable {s t : Board ι} {e : Step ι} {i k : ι}

/-- All instances are as they should be. -/
def Good (s : Board ι) : Prop := ∀ k, ∃ es, Sound (s.focus k) es

theorem focus_leave (i : ι) (w : Firmware) (s : Board ι) : (s.leave i w).focus i = w := by
  rw [focus, leave]
  simp only [Function.update_self]

theorem instances_leave_of_ne (hk : k ≠ i) (w : Firmware) (s : Board ι) :
    (s.leave i w).instances k = s.instances k := Function.update_of_ne hk ..

/-- **A harmless step** of another instance changes nothing that an instance depends on. -/
theorem alike_of_harmless (hgood : s.Good) (hharmless : Harmless e s) (hstep : step e s = some t)
    (hk : k ≠ e.who) : Alike (s.focus k) (t.focus k) := by
  obtain ⟨w, hrun, rfl⟩ := Option.map_eq_some_iff.mp hstep
  obtain ⟨es, hsound⟩ := hgood e.who
  have hinstance := instances_leave_of_ne hk w s
  have hshared : ((s.leave e.who w).focus k).tags = w.tags := rfl
  have hcount : ((s.leave e.who w).focus k).dashboard = (s.focus k).dashboard := by
    rw [focus, hinstance]
    rfl
  -- what has to be shown of the statics
  have halike : w.tags.take (s.instances k).dashboard.liveDataCount =
        (s.focus e.who).tags.take (s.instances k).dashboard.liveDataCount →
      ((s.instances k).dashboard.packetStatus = .headerReceived →
        w.rxBuffer.data.take 12 = s.statics.rxBuffer.data.take 12) →
      Alike (s.focus k) ((s.leave e.who w).focus k) := by
    intro htags hfront
    refine ⟨hcount.symm, ?_, ?_, ?_, ?_⟩
    · rw [focus, focus, hinstance]
    · rw [tags_rows, tags_rows, hcount]
      exact htags.symm
    · refine (pending_eq ?_ ?_ hfront).symm
      · rw [hcount]
      · rw [focus, focus, hinstance]
    · rw [focus, focus, hinstance]
  cases e with
  | register i key data type =>
    obtain ⟨⟨status, w'⟩, hregister, rfl⟩ := Option.map_eq_some_iff.mp hrun
    rcases tags_register hregister with ⟨-, rfl⟩ | ⟨hdata, -, htags, -, hrx, -, -⟩
    · exact halike rfl fun _ => rfl
    · refine halike ?_ fun _ => congrArg (fun b => b.data.take 12) hrx
      show w'.tags.take _ = _
      rw [htags]
      by_cases hlt : (s.instances i).dashboard.liveDataCount < (s.instances k).dashboard.liveDataCount
      · obtain ⟨hi, hentry⟩ := List.getElem?_eq_some_iff.mp (hharmless k hk hdata hlt)
        rw [← hentry]
        exact congrArg (List.take _) (List.set_getElem_self hi)
      · exact List.take_set_of_le (Nat.le_of_not_lt hlt)
  | update i io =>
    obtain ⟨status, hupdate⟩ := dashboardUpdate_eq io hsound
    obtain rfl : (s.focus i).update io = w :=
      Option.some.inj ((congrArg (Option.map Prod.snd) hupdate).symm.trans hrun)
    refine halike (by rw [tags_update]; rfl) fun hstatus => ?_
    rw [front_update]
    split_ifs with hready
    · exact (hharmless k hk hready hstatus).symm
    · rfl
  | arrive i bytes =>
    cases hrun
    exact halike rfl fun _ => rfl

omit [DecidableEq ι] in
/-- A step with an instance is the same step in an alike state. -/
theorem run_alike {w v w' : Firmware} {es : List Entry} (h : Alike w v) (hsound : Sound w es)
    (e : Step ι) (hrun : e.op.run w = some w') : ∃ v', e.op.run v = some v' ∧ Alike w' v' := by
  cases e with
  | register i key data type =>
    obtain ⟨⟨status, w'⟩, hregister, rfl⟩ := Option.map_eq_some_iff.mp hrun
    have hallowed : (Op.register key data type).Allowed := trivial
    obtain ⟨v', -, hrun', -, -⟩ := (h.sound hsound).run hallowed
    obtain ⟨⟨status', v'⟩, hregister', rfl⟩ := Option.map_eq_some_iff.mp hrun'
    exact ⟨v', hrun', h.register hregister hregister'⟩
  | update i io =>
    obtain ⟨status, hupdate⟩ := dashboardUpdate_eq io hsound
    obtain ⟨status', hupdate'⟩ := dashboardUpdate_eq io (h.sound hsound)
    obtain rfl : w.update io = w' :=
      Option.some.inj ((congrArg (Option.map Prod.snd) hupdate).symm.trans hrun)
    exact ⟨_, congrArg (Option.map Prod.snd) hupdate', h.update hsound io⟩
  | arrive i bytes =>
    cases hrun
    exact ⟨_, rfl, h.feed bytes⟩

/-- **A harmless step** keeps all instances as they should be. -/
theorem Good.step (hgood : s.Good) (hharmless : Harmless e s) (hstep : step e s = some t) :
    t.Good := by
  intro k
  by_cases hk : k = e.who
  · obtain ⟨w, hrun, rfl⟩ := Option.map_eq_some_iff.mp hstep
    obtain ⟨es, hsound⟩ := hgood e.who
    have hallowed : e.op.Allowed := by
      cases e <;> trivial
    obtain ⟨w', es', hrun', hsound', -⟩ := hsound.run hallowed
    obtain rfl := Option.some.inj (hrun'.symm.trans hrun)
    rw [hk, focus_leave]
    exact ⟨es', hsound'⟩
  · obtain ⟨es, hsound⟩ := hgood k
    exact ⟨es, (alike_of_harmless hgood hharmless hstep hk).sound hsound⟩

/-- An instance among others, and alone: it is in a state that is alike, and has done the
same. -/
structure SameDeeds (i : ι) (s s' : Board ι) : Prop where
  good : s.Good
  alike : Alike (s.focus i) (s'.focus i)
  deeds : (s.instances i).deeds = (s'.instances i).deeds
  bytesRead : (s.instances i).bytesRead = (s'.instances i).bytesRead

/-- A modify scan looks at keys and types. -/
theorem tags_hits (packet : LiveDataPacket) (rows : List Row) :
    (hits packet rows).map Row.tag =
      ((rows.map Row.tag).filter fun tag => tag.1 = packet.packetID).takeWhile fun tag =>
        tag.2.1 = packet.valueType := by
  rw [List.filter_map, List.takeWhile_map]
  rfl

/-- What an observer notes depends on the packet and on the entries. -/
theorem deed_congr {w v : Firmware} (h : w.rows.map Row.tag = v.rows.map Row.tag) :
    deed w = deed v := by
  funext packet
  rw [deed, deed, tags_hits, tags_hits, h]

theorem SameDeeds.mine {s' : Board ι} (h : SameDeeds i s s') (hharmless : Harmless e s)
    (hwho : e.who = i) (hstep : step e s = some t) : ∃ t', step e s' = some t' ∧ SameDeeds i t t' := by
  have hgood := h.good.step hharmless hstep
  obtain ⟨w, hrun, rfl⟩ := Option.map_eq_some_iff.mp hstep
  obtain ⟨es, hsound⟩ := h.good e.who
  subst hwho
  obtain ⟨v, hrun', halike⟩ := run_alike h.alike hsound e hrun
  refine ⟨s'.leave e.who v, congrArg (Option.map _) hrun', hgood, ?_, ?_, ?_⟩
  · rw [focus_leave, focus_leave]
    exact halike
  · have hprocessed : processedPackets (s.instances e.who).trace =
      processedPackets (s'.instances e.who).trace := h.alike.processed
    simp only [leave, Function.update_self]
    rw [h.deeds, halike.processed, hprocessed, deed_congr h.alike.rows]
  · have hincoming : (s.instances e.who).incoming = (s'.instances e.who).incoming :=
      h.alike.incoming
    simp only [leave, Function.update_self]
    rw [h.bytesRead, halike.incoming, hincoming]

theorem SameDeeds.other {s' : Board ι} (h : SameDeeds i s s') (hharmless : Harmless e s)
    (hwho : i ≠ e.who) (hstep : step e s = some t) : SameDeeds i t s' := by
  have hinstance : t.instances i = s.instances i := by
    obtain ⟨w, -, rfl⟩ := Option.map_eq_some_iff.mp hstep
    exact instances_leave_of_ne hwho w s
  refine ⟨h.good.step hharmless hstep, ?_, ?_, ?_⟩
  · exact (alike_of_harmless h.good hharmless hstep hwho).symm.trans h.alike
  · rw [hinstance, h.deeds]
  · rw [hinstance, h.bytesRead]

omit [DecidableEq ι] in
theorem good_start (statics : Statics) (sendData readData hasData : ι → FnPtr) :
    (start statics sendData readData hasData).Good :=
  fun _ => ⟨[], Sound.of_waiting ⟨rfl, rfl⟩ rfl⟩

variable {es : List (Step ι)} {statics : Statics} {sendData readData hasData : ι → FnPtr}

/-- **Alone among others**: in a run in which every step of the other instances is harmless,
an instance processes the packets, reports and modifies the entries, and reads the bytes
that it does in the run without them; and the header that it waits with is the same. -/
theorem alone_of_harmless (hrun : run step es (start statics sendData readData hasData) = some s)
    (hharmless : Meets step Harmless es (start statics sendData readData hasData)) (i : ι) :
    ∃ s', run step (es.filter fun e => e.who = i) (start statics sendData readData hasData) =
        some s' ∧
      (s.instances i).deeds = (s'.instances i).deeds ∧
      (s.instances i).bytesRead = (s'.instances i).bytesRead ∧
      ((s.instances i).dashboard.packetStatus = .headerReceived →
        s.statics.rxBuffer.data.take 12 = s'.statics.rxBuffer.data.take 12) := by
  have hstart : SameDeeds i (start statics sendData readData hasData)
      (start statics sendData readData hasData) :=
    ⟨good_start statics sendData readData hasData, ⟨rfl, rfl, rfl, rfl, rfl⟩, rfl, rfl⟩
  have hmine : ∀ {e : Step ι} {s t s' : Board ι}, Harmless e s → SameDeeds i s s' →
      decide (e.who = i) = true → step e s = some t → ∃ t', step e s' = some t' ∧ SameDeeds i t t' :=
    fun hharmless h hwho hstep => h.mine hharmless (of_decide_eq_true hwho) hstep
  have hother : ∀ {e : Step ι} {s t s' : Board ι}, Harmless e s → SameDeeds i s s' →
      ¬ decide (e.who = i) = true → step e s = some t → SameDeeds i t s' :=
    fun hharmless h hwho hstep =>
      h.other hharmless (fun heq => hwho (decide_eq_true heq.symm)) hstep
  obtain ⟨s', hrun', hsame⟩ := run_filter hmine hother hharmless hstart hrun
  exact ⟨s', hrun', hsame.deeds, hsame.bytesRead, hsame.alike.front⟩

/-! ### Two instances -/

/-- Two instances after `Dashboard_Init`. -/
def two : Board Bool := start (.zero fun _ => 0) (fun _ => 0) (fun _ => 1) fun _ => 2

/-- One instance has a variable; both are requested for theirs, and a second request begins to
come in at this one. -/
def bothRequested : List (Step Bool) :=
  [.register false 1 (some 0) .uint32, .arrive true request.bytes, .update true openTransport,
    .arrive false request.bytes, .update false openTransport,
    .arrive false (request.bytes.take 13), .update false openTransport]

/-- Both instances answer as if they were alone. -/
theorem alone_of_harmless_two :
    ∃ s, run step bothRequested two = some s ∧ Meets step Harmless bothRequested two ∧
      (s.instances false).dashboard.packetStatus = .headerReceived ∧
      ∃ s', run step (bothRequested.filter fun e => e.who = false) two = some s' ∧
        (s.instances false).deeds = (s'.instances false).deeds ∧
        (s.instances false).bytesRead = (s'.instances false).bytesRead ∧
        s.statics.rxBuffer.data.take 12 = s'.statics.rxBuffer.data.take 12 := by
  have hharmless : Meets step Harmless bothRequested two := by decide +kernel
  have hreceived : ((run step bothRequested two).map fun s =>
      (s.instances false).dashboard.packetStatus) = some .headerReceived := by decide +kernel
  obtain ⟨s, hrun, hstatus⟩ := Option.map_eq_some_iff.mp hreceived
  obtain ⟨s', hrun', hdeeds, hread, hheader⟩ := alone_of_harmless hrun hharmless false
  exact ⟨s, hrun, hharmless, hstatus, s', hrun', hdeeds, hread, hheader hstatus⟩

/-- Each instance registers a variable, and the first one is requested for its own. -/
def bothRegister : List (Step Bool) :=
  [.register false 1 (some 0) .uint32, .register true 2 (some 1) .float,
    .arrive false request.bytes, .update false openTransport]

/-- The first instance waits with the header of a request while the second one reads an
alert. -/
def bothRead : List (Step Bool) :=
  [.arrive false (request.bytes.take 13), .update false openTransport,
    .arrive true (Packet.blank PacketID.alert.code).bytes, .update true openTransport,
    .arrive false (request.bytes.drop 13), .update false openTransport]

/-- What the first instance has done after a run. -/
def firstDeeds (es : List (Step Bool)) : Option (List Deed) :=
  (run step es two).map fun s => (s.instances false).deeds

/-- **Instances interfere**: the first instance reports the variable of the second one under
its own, and it takes the header of the second one for that of its own packet. -/
theorem interference :
    (∃ s s', run step bothRegister two = some s ∧
      run step (bothRegister.filter fun e => e.who = false) two = some s' ∧
      (s.instances false).deeds = [⟨request.bytes, [(2, ValueType.float.bits 16, some 1)], []⟩] ∧
      (s'.instances false).deeds = [⟨request.bytes, [(1, ValueType.uint32.bits 16, some 0)], []⟩]) ∧
    ∃ s s', run step bothRead two = some s ∧
      run step (bothRead.filter fun e => e.who = false) two = some s' ∧
      (s.instances false).deeds = [⟨(Packet.blank PacketID.alert.code).bytes, [], []⟩] ∧
      (s'.instances false).deeds = [⟨request.bytes, [], []⟩] := by
  constructor
  · have hdeeds : firstDeeds bothRegister =
        some [⟨request.bytes, [(2, ValueType.float.bits 16, some 1)], []⟩] := by decide +kernel
    have hdeeds' : firstDeeds (bothRegister.filter fun e => e.who = false) =
        some [⟨request.bytes, [(1, ValueType.uint32.bits 16, some 0)], []⟩] := by decide +kernel
    obtain ⟨s, hrun, hs⟩ := Option.map_eq_some_iff.mp hdeeds
    obtain ⟨s', hrun', hs'⟩ := Option.map_eq_some_iff.mp hdeeds'
    exact ⟨s, s', hrun, hrun', hs, hs'⟩
  · have hdeeds : firstDeeds bothRead =
        some [⟨(Packet.blank PacketID.alert.code).bytes, [], []⟩] := by decide +kernel
    have hdeeds' : firstDeeds (bothRead.filter fun e => e.who = false) =
        some [⟨request.bytes, [], []⟩] := by decide +kernel
    obtain ⟨s, hrun, hs⟩ := Option.map_eq_some_iff.mp hdeeds
    obtain ⟨s', hrun', hs'⟩ := Option.map_eq_some_iff.mp hdeeds'
    exact ⟨s, s', hrun, hrun', hs, hs'⟩

end Board

end Houston
