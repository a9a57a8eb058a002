import Houston.Dashboard

/-!
# What is sent

The five senders of the firmware share two assembly routines. Both come down to
`sendPacket`: put a packet into `alertBuffer`, encode it, hand it over.

* `Call.run_eq` — every sender is `sendPacket` of the packet it assembles, whatever
  the lengths of its strings; where a copy would leave the buffer both are undefined.
* `sendPacket_eq` — what `sendPacket` does to a packet that fits: `Firmware.emit`,
  whether the transport takes the frame or not.
* `Call.safe_iff` — when a sender keeps inside its buffers and either reports that
  the packet does not fit or sends the true sizes. There is no check for space: the
  packet has to fit.
-/

namespace Houston

open Stuffing

/-! ## Assembling a packet -/

/-- Header, key, value, and the checksum of both. -/
def assemble (header : DashboardPacketHeader) (key value : List Byte) : List Byte :=
  header.toBytes ++ (key ++ (value ++ wordBytes 4 (crc32 (key ++ value) 0)))

@[simp] theorem length_assemble (header : DashboardPacketHeader) (key value : List Byte) :
    (assemble header key value).length = 12 + key.length + value.length + 4 := by
  simp [assemble]
  omega

/-- Put a packet into `alertBuffer`, encode it and hand it over. -/
def sendPacket (io : Transport) (packet : List Byte) (w : Firmware) :
    Option (DashboardStatus × Firmware) := do
  let buf ← w.alertBuffer.memcpy 0 packet
  encodeAndSend io packet.length { w with alertBuffer := buf }

/-- The four copies of an assembly routine are one. -/
theorem memcpy_assemble (b : Buffer Byte kAlertBufSize) (header : DashboardPacketHeader)
    (key value : List Byte) (f : Buffer Byte kAlertBufSize → Option (DashboardStatus × Firmware)) :
    ((b.memcpy 0 header.toBytes).bind fun b => (b.memcpy 12 key).bind fun b =>
        (b.memcpy (12 + key.length) value).bind fun b =>
          (b.memcpy (12 + key.length + value.length)
            (wordBytes 4 (crc32 (key ++ value) 0))).bind f) =
      (b.memcpy 0 (assemble header key value)).bind f := by
  have hheader : 0 + header.toBytes.length = 12 := by simp
  rw [assemble, ← Buffer.memcpy_memcpy, hheader, Option.bind_assoc]
  congr 1
  funext b
  rw [← Buffer.memcpy_memcpy, Option.bind_assoc]
  congr 1
  funext b
  rw [← Buffer.memcpy_memcpy, Option.bind_assoc]

/-- `copyData` sends the packet of the two pieces it copies. -/
theorem copyData_eq (io : Transport) (header : DashboardPacketHeader) {key value : List Byte}
    {keySize valueSize : BitVec 16} (hkey : keySize.toNat ≤ key.length)
    (hvalue : valueSize.toNat ≤ value.length) (w : Firmware) :
    copyData io header key value keySize valueSize w =
      sendPacket io (assemble header (key.take keySize.toNat) (value.take valueSize.toNat)) w := by
  have hkeyLen : (key.take keySize.toNat).length = keySize.toNat := List.length_take_of_le hkey
  have hvalueLen : (value.take valueSize.toNat).length = valueSize.toNat :=
    List.length_take_of_le hvalue
  have hcopy := memcpy_assemble w.alertBuffer header (key.take keySize.toNat)
    (value.take valueSize.toNat) fun buf =>
      encodeAndSend io (12 + keySize.toNat + valueSize.toNat + 4) { w with alertBuffer := buf }
  rw [hkeyLen, hvalueLen, crc32_append] at hcopy
  rw [sendPacket, length_assemble, hkeyLen, hvalueLen]
  exact hcopy

/-! ## The five senders -/

/-- A call of one of the five senders, with no null argument. -/
inductive Call where
  | telemetryStr (key value : CString)
  | telemetryInt32 (key : CString) (value : BitVec 32)
  | telemetryUint32 (key : CString) (value : BitVec 32)
  | telemetryFloat (key : CString) (value : BitVec 32)
  | alert (str : CString)

namespace Call

/-- Make the call. -/
def run (io : Transport) : Call → Firmware → Option (DashboardStatus × Firmware)
  | .telemetryStr key value => dashboardTelemetryStr io .ref key value
  | .telemetryInt32 key value => dashboardTelemetryInt32 io .ref key value
  | .telemetryUint32 key value => dashboardTelemetryUint32 io .ref key value
  | .telemetryFloat key value => dashboardTelemetryFloat io .ref key value
  | .alert str => dashboardAlert io .ref str

/-- The packet type that goes with a call. -/
def packetType : Call → PacketID
  | .alert _ => .alert
  | _ => .telemetry

/-- The content type that goes with a call. -/
def contentType : Call → ValueType
  | .telemetryStr _ _ => .string
  | .telemetryInt32 _ _ => .int32
  | .telemetryUint32 _ _ => .uint32
  | .telemetryFloat _ _ => .float
  | .alert _ => .string

/-- The key to be sent. -/
def key : Call → List Byte
  | .telemetryStr key _ => key.bytes
  | .telemetryInt32 key _ => key.bytes
  | .telemetryUint32 key _ => key.bytes
  | .telemetryFloat key _ => key.bytes
  | .alert _ => []

/-- The value to be sent. -/
def value : Call → List Byte
  | .telemetryStr _ value => value.bytes
  | .telemetryInt32 _ value => wordBytes 4 value
  | .telemetryUint32 _ value => wordBytes 4 value
  | .telemetryFloat _ value => wordBytes 4 value
  | .alert str => str.bytes

/-- The size of the packet that ought to be assembled. -/
def size (c : Call) : ℕ := 12 + c.key.length + c.value.length + 4

/-- `keyLen`: a `uint16_t` in the telemetry functions. -/
def keyLen (c : Call) : ℕ := c.key.length % 2 ^ 16

/-- `valueLen`, a `uint16_t`, or `strLen`, a `uint32_t`. -/
def valueLen : Call → ℕ
  | .alert str => u32 str.strlen
  | c => c.value.length % 2 ^ 16

/-- The header that is sent. -/
def header (c : Call) : DashboardPacketHeader :=
  craftDashboardHeaderPacket c.packetType.code (c.contentType.bits 8) (BitVec.ofNat 16 c.keyLen)
    (BitVec.ofNat 16 c.valueLen)

/-- The packet that is assembled. -/
def packet (c : Call) : List Byte :=
  assemble c.header (c.key.take c.keyLen) (c.value.take c.valueLen)

theorem keyLen_le (c : Call) : c.keyLen ≤ c.key.length := Nat.mod_le _ _

theorem valueLen_le (c : Call) : c.valueLen ≤ c.value.length := by
  cases c <;> exact Nat.mod_le _ _

@[simp] theorem length_packet (c : Call) : c.packet.length = 12 + c.keyLen + c.valueLen + 4 := by
  rw [packet, length_assemble, List.length_take_of_le c.keyLen_le,
    List.length_take_of_le c.valueLen_le]

/-- The telemetry functions behind their argument checks. -/
theorem dashboardTelemetry_eq (io : Transport) (contentType : ValueType) (key : CString)
    (value : List Byte) (w : Firmware) :
    dashboardTelemetry io contentType key value (BitVec.ofNat 16 value.length) w =
      sendPacket io (assemble
        (craftDashboardHeaderPacket PacketID.telemetry.code (contentType.bits 8)
          (BitVec.ofNat 16 (key.bytes.length % 2 ^ 16))
          (BitVec.ofNat 16 (value.length % 2 ^ 16)))
        (key.bytes.take (key.bytes.length % 2 ^ 16)) (value.take (value.length % 2 ^ 16))) w := by
  have hmod : ∀ n : ℕ, BitVec.ofNat 16 (n % 2 ^ 16) = BitVec.ofNat 16 n := by
    intro n
    apply BitVec.eq_of_toNat_eq
    rw [BitVec.toNat_ofNat, BitVec.toNat_ofNat, Nat.mod_mod]
  rw [dashboardTelemetry, copyData_eq io _ (Nat.mod_le _ _) (Nat.mod_le _ _), hmod, hmod]
  rfl

/-- `Dashboard_Alert`, whose lengths are wider than its header's fields. -/
theorem dashboardAlert_eq (io : Transport) (str : CString) (w : Firmware) :
    dashboardAlert io .ref (some str) w = sendPacket io (Call.alert str).packet w := by
  have hpacket : (Call.alert str).packet = (Call.alert str).header.toBytes ++
      (str.bytes.take (u32 str.strlen) ++
        wordBytes 4 (crc32 (str.bytes.take (u32 str.strlen)) 0)) := rfl
  have hlen : (str.bytes.take (u32 str.strlen)).length = u32 str.strlen :=
    List.length_take_of_le (Nat.mod_le _ _)
  have hheader : 0 + (Call.alert str).header.toBytes.length = 12 := by simp
  have hsize : (Call.alert str).packet.length = 12 + u32 str.strlen + 4 := length_packet _
  have hcraft : craftDashboardHeaderPacket PacketID.alert.code (ValueType.string.bits 8) 0
      (BitVec.ofNat 16 (u32 str.strlen)) = (Call.alert str).header := rfl
  rw [sendPacket, hsize, hpacket, ← Buffer.memcpy_memcpy, hheader]
  simp only [dashboardAlert, hcraft, Option.bind_eq_bind]
  cases w.alertBuffer.memcpy 0 (Call.alert str).header.toBytes with
  | none => rfl
  | some buf =>
    -- the sums below can only wrap around when the string does not fit
    rcases Nat.lt_or_ge 100 (12 + u32 str.strlen) with hlong | hfit
    · have hnone : ∀ t, buf.memcpy 12 (str.bytes.take (u32 str.strlen) ++ t) = none :=
        fun t => Buffer.memcpy_eq_none
          (show ¬ _ ≤ 100 by rw [List.length_append, hlen]; omega)
      have hnone' := hnone []
      rw [List.append_nil] at hnone'
      simp only [Option.bind_some, hnone, hnone', Option.bind_none]
    · have hwrite : u32 (12 + u32 str.strlen) = 12 + u32 str.strlen := u32_of_lt (by omega)
      have htotal : u32 (12 + u32 str.strlen + 4) = 12 + u32 str.strlen + 4 := u32_of_lt (by omega)
      simp only [Option.bind_some, hwrite, htotal, ← Buffer.memcpy_memcpy, hlen,
        Option.bind_assoc]

/-- **Every sender is `sendPacket`** of the packet it assembles. -/
theorem run_eq (io : Transport) (c : Call) (w : Firmware) :
    c.run io w = sendPacket io c.packet w := by
  cases c with
  | telemetryStr key value => exact dashboardTelemetry_eq io .string key value.bytes w
  | telemetryInt32 key value => exact dashboardTelemetry_eq io .int32 key (wordBytes 4 value) w
  | telemetryUint32 key value => exact dashboardTelemetry_eq io .uint32 key (wordBytes 4 value) w
  | telemetryFloat key value => exact dashboardTelemetry_eq io .float key (wordBytes 4 value) w
  | alert str => exact dashboardAlert_eq io str w

/-! ### Packets that fit -/

variable {c : Call}

theorem keyLen_of_fits (h : c.size ≤ 100) : c.keyLen = c.key.length :=
  Nat.mod_eq_of_lt (by rw [size] at h; omega)

theorem valueLen_of_fits (h : c.size ≤ 100) : c.valueLen = c.value.length := by
  rw [size] at h
  have hlt : c.value.length < 2 ^ 16 := by omega
  cases c with
  | alert str => exact Nat.mod_eq_of_lt (Nat.lt_trans hlt (by decide))
  | _ => exact Nat.mod_eq_of_lt hlt

/-- A packet that fits, as the protocol intends it. -/
def toPacket (c : Call) (h : c.size ≤ 100) : Packet where
  packetType := c.packetType.code
  contentType := c.contentType.bits 8
  timestamp := 0
  key := c.key
  value := c.value
  key_lt := by rw [size] at h; omega
  value_lt := by rw [size] at h; omega

theorem bytes_toPacket (h : c.size ≤ 100) : (c.toPacket h).bytes = c.packet := by
  rw [packet, header, keyLen_of_fits h, valueLen_of_fits h, List.take_length, List.take_length]
  rfl

end Call

/-! ## What `sendPacket` does -/

/-- The firmware after a packet of at most 99 bytes was sent. -/
def Firmware.emit (packet : List Byte) (w : Firmware) : Firmware :=
  { w with
    alertBuffer := (w.alertBuffer.memcpy 0 packet).getD w.alertBuffer
    alertBufferCOBS := (w.alertBufferCOBS.memcpy 0 (stuff packet)).getD w.alertBufferCOBS
    trace := w.trace ++ [.sent (stuff packet)] }

namespace Firmware

variable (packet : List Byte) (w : Firmware)

@[simp] theorem rxBuffer_emit : (w.emit packet).rxBuffer = w.rxBuffer := rfl

@[simp] theorem dashboard_emit : (w.emit packet).dashboard = w.dashboard := rfl

@[simp] theorem trace_emit : (w.emit packet).trace = w.trace ++ [.sent (stuff packet)] := rfl

end Firmware

/-- What a sender returns when the packet fits. -/
def sendStatus (io : Transport) (packet : List Byte) (w : Firmware) : DashboardStatus :=
  if io.sendData w.trace (stuff packet) then .ok else .errSendFail

variable {packet : List Byte} {w : Firmware}

/-- A packet that fits is copied into `alertBuffer`. -/
theorem exists_copy (w : Firmware) (hlen : packet.length ≤ 100) :
    ∃ buf, w.alertBuffer.memcpy 0 packet = some buf := by
  refine ⟨_, Buffer.memcpy_eq_some ?_⟩
  rwa [Nat.zero_add]

/-- The end of every sender, when the packet in `alertBuffer` is short enough. -/
theorem encodeAndSend_eq (io : Transport) (hpos : 0 < packet.length) (hlen : packet.length ≤ 99)
    (hread : w.alertBuffer.read? 0 packet.length = some packet) :
    encodeAndSend io packet.length w = some (sendStatus io packet w, { w with
      alertBufferCOBS := (w.alertBufferCOBS.memcpy 0 (stuff packet)).getD w.alertBufferCOBS
      trace := w.trace ++ [.sent (stuff packet)] }) := by
  have hframe : (stuff packet).length = packet.length + 2 :=
    length_stuff_short (by rw [cap_eq]; omega)
  rcases cobsEncode_eq (List.ne_nil_of_length_pos hpos) w.alertBufferCOBS
    (⟨le_refl 101, by decide⟩ : Room 101 101) (by decide) with
    ⟨hlong, -⟩ | ⟨-, dest, hok, hdest⟩
  · rw [hframe] at hlong
    omega
  · have hsent := Buffer.read?_of_memcpy hdest
    simp only [encodeAndSend, hread, hok, hsent, hdest, Option.bind_eq_bind, Option.bind_some,
      ne_eq, not_true_eq_false, if_false, Option.getD_some, sendStatus]
    cases io.sendData w.trace (stuff packet) <;> rfl

/-- **A packet that fits is sent**, whatever the transport says to it. -/
theorem sendPacket_eq (io : Transport) (hpos : 0 < packet.length) (hlen : packet.length ≤ 99) :
    sendPacket io packet w = some (sendStatus io packet w, w.emit packet) := by
  obtain ⟨buf, hcopy⟩ := exists_copy w (Nat.le_succ_of_le hlen)
  have hread := Buffer.read?_of_memcpy hcopy
  rw [sendPacket, hcopy, Option.bind_eq_bind, Option.bind_some, encodeAndSend_eq io hpos hlen hread,
    Firmware.emit, hcopy]
  rfl

/-- A packet that fills `alertBuffer` is not sent: its frame needs a byte more than
`alertBufferCOBS` has. -/
theorem sendPacket_full (io : Transport) (hlen : packet.length = 100) :
    ∃ w', sendPacket io packet w = some (.errCobsFailed, w') ∧ w'.trace = w.trace := by
  obtain ⟨buf, hcopy⟩ := exists_copy w (le_of_eq hlen)
  have hread := Buffer.read?_of_memcpy hcopy
  have hframe : (stuff packet).length = packet.length + 2 :=
    length_stuff_short (by rw [cap_eq]; omega)
  rcases cobsEncode_eq (List.ne_nil_of_length_pos (by omega : 0 < packet.length))
    w.alertBufferCOBS (⟨le_refl 101, by decide⟩ : Room 101 101)
    (by decide) with ⟨-, dest, hfull⟩ | ⟨hshort, -⟩
  · refine ⟨{ w with alertBuffer := buf, alertBufferCOBS := dest }, ?_, rfl⟩
    simp only [sendPacket, hcopy, encodeAndSend, hread, hfull, Option.bind_eq_bind,
      Option.bind_some]
    rfl
  · rw [hframe] at hshort
    omega

/-- A packet that is too long leaves `alertBuffer`. -/
theorem sendPacket_overrun (io : Transport) (hlen : 100 < packet.length) :
    sendPacket io packet w = none := by
  rw [sendPacket, Buffer.memcpy_eq_none (show ¬ _ ≤ 100 by omega)]
  rfl

/-! ## Room for the packet

The packet size is the sum of lengths that come from `strlen`. Nothing compares it
with `kAlertBufSize`, and `DASHBOARD_ERR_NO_SPACE` is never returned. -/

namespace Call

variable {c : Call}

/-- A call whose packet is at most 99 bytes. -/
theorem run_of_fits (io : Transport) (h : c.size ≤ 99) (w : Firmware) :
    c.run io w = some (sendStatus io c.packet w, w.emit c.packet) := by
  have hlen : c.packet.length = c.size := by
    rw [length_packet, keyLen_of_fits (by omega), valueLen_of_fits (by omega), size]
  rw [run_eq, sendPacket_eq io (by rw [length_packet]; omega) (by omega)]

/-- What is expected of a sender: it stays inside its buffers; if the packet does
not fit in `alertBuffer` it returns an error and sends nothing; and the packet in a
frame that it sends announces the true lengths. -/
def Safe (io : Transport) (w : Firmware) (c : Call) : Prop :=
  ∃ status w', c.run io w = some (status, w') ∧
    (kAlertBufSize < c.size → status ≠ .ok ∧ w'.trace = w.trace) ∧
    (w'.trace ≠ w.trace → ∃ frame packet, w'.trace = w.trace ++ [.sent frame] ∧
      unstuff frame = some packet ∧
      (DashboardPacketHeader.ofBytes packet).payloadKeySize.toNat = c.key.length ∧
      (DashboardPacketHeader.ofBytes packet).payloadValueSize.toNat = c.value.length)

/-- **When a sender is safe**: if the packet fits, or if its lengths wrap around so
that what is left of them fills `alertBuffer` to the last byte. -/
theorem safe_iff (io : Transport) (w : Firmware) (c : Call) :
    c.Safe io w ↔ c.size ≤ kAlertBufSize ∨ 12 + c.keyLen + c.valueLen + 4 = kAlertBufSize := by
  have hlen : c.packet.length = 12 + c.keyLen + c.valueLen + 4 := c.length_packet
  have hsent : ∀ p : List Byte, w.trace ++ [.sent (stuff p)] ≠ w.trace := by simp
  rcases Nat.lt_trichotomy c.packet.length 100 with hshort | hfull | hlong
  · -- the packet is sent, so it had better be the true one
    have hrun : c.run io w = some (sendStatus io c.packet w, w.emit c.packet) := by
      rw [run_eq, sendPacket_eq io (by omega) (by omega)]
    constructor
    · rintro ⟨status, w', hrun', hspace, -⟩
      obtain ⟨-, rfl⟩ : sendStatus io c.packet w = status ∧ w.emit c.packet = w' := by
        simpa using hrun.symm.trans hrun'
      refine Or.inl (Nat.le_of_not_lt fun hsize => ?_)
      exact hsent _ (hspace hsize).2
    · rintro (hsize | hsize)
      · have hsize' : c.size ≤ 100 := hsize
        refine ⟨_, _, hrun, fun h => absurd hsize (Nat.not_le_of_lt h), fun _ => ?_⟩
        refine ⟨_, c.packet, w.trace_emit c.packet, ?_, ?_⟩
        · apply unstuff_stuff_short
          rw [cap_eq]
          omega
        · rw [← bytes_toPacket hsize', ← List.append_nil (Packet.bytes _), Packet.ofBytes_bytes]
          exact ⟨Nat.mod_eq_of_lt (c.toPacket hsize').key_lt,
            Nat.mod_eq_of_lt (c.toPacket hsize').value_lt⟩
      · exact absurd (hlen.trans hsize) (Nat.ne_of_lt hshort)
  · -- the frame is a byte too long for `alertBufferCOBS`, and the encoder says so
    obtain ⟨w', hrun, htrace⟩ := sendPacket_full (w := w) io hfull
    refine iff_of_true ⟨_, w', (run_eq io c w).trans hrun, fun _ => ⟨by decide, htrace⟩,
      fun h => absurd htrace h⟩ (Or.inr (hlen.symm.trans hfull))
  · -- the copies run over the end of `alertBuffer`
    refine iff_of_false ?_ ?_
    · rintro ⟨status, w', hrun, -⟩
      rw [run_eq, sendPacket_overrun io hlong] at hrun
      cases hrun
    · rintro (hsize | hsize)
      · have hsize' : c.size ≤ 100 := hsize
        rw [size] at hsize'
        have := c.keyLen_le
        have := c.valueLen_le
        omega
      · exact absurd (hlen.trans hsize) (Nat.ne_of_gt hlong)

/-- An alert of 85 characters. -/
def longAlert : Call := .alert ⟨List.replicate 85 0x41, by decide⟩

/-- **An overrun**: the packet of an alert of 85 characters takes 101 bytes. -/
theorem not_safe_longAlert :
    ¬ longAlert.Safe (.exact fun _ _ => true) (.boot fun _ => 0) := by
  rintro ⟨status, w', hrun, -⟩
  rw [run_eq, sendPacket_overrun _ (by decide)] at hrun
  cases hrun

/-! ## Room for the frame

`kAlertBufCOBSize` counts the code bytes of a frame and not its delimiter. -/

/-- What is expected of a sender whose packet fits: it is sent. -/
def Sends (io : Transport) (w : Firmware) (c : Call) : Prop :=
  ∃ w', c.run io w = some (.ok, w')

/-- **When a packet that fits can be sent**: if it leaves a byte of `alertBuffer` free. The
frame takes two bytes more than the packet, `alertBufferCOBS` is one byte longer. -/
theorem sends_iff {io : Transport} {w : Firmware} {c : Call}
    (hfits : c.packet.length ≤ kAlertBufSize)
    (hsend : io.sendData w.trace (stuff c.packet) = true) :
    c.Sends io w ↔ c.packet.length < kAlertBufSize := by
  rcases Nat.lt_or_eq_of_le hfits with hshort | hfull
  · have hstatus : sendStatus io c.packet w = .ok := if_pos hsend
    have hrun := sendPacket_eq (w := w) io (by rw [length_packet]; omega)
      (Nat.le_of_lt_succ hshort)
    rw [hstatus, ← run_eq] at hrun
    exact iff_of_true ⟨_, hrun⟩ hshort
  · obtain ⟨w', hrun, -⟩ := sendPacket_full (w := w) io hfull
    refine iff_of_false ?_ (Nat.not_lt_of_le hfull.ge)
    rintro ⟨w'', hok⟩
    rw [run_eq, hrun] at hok
    simp at hok

/-- The alert "ab" is sent. -/
theorem sends_iff_ab :
    (Call.alert ⟨ascii "ab", by decide⟩).Sends (.exact fun _ _ => true) (.boot fun _ => 0) ↔
      (Call.alert ⟨ascii "ab", by decide⟩).packet.length < kAlertBufSize :=
  sends_iff (by decide) rfl

/-- An alert of 84 characters. -/
def fullAlert : Call := .alert ⟨List.replicate 84 0x41, by decide⟩

/-- **A packet that fits and is refused**: that of an alert of 84 characters fills
`alertBuffer`. -/
theorem not_sends_fullAlert :
    fullAlert.packet.length ≤ kAlertBufSize ∧
      ¬ fullAlert.Sends (.exact fun _ _ => true) (.boot fun _ => 0) := by
  have hfull : fullAlert.packet.length = 100 := by decide
  refine ⟨hfull.le, ?_⟩
  rintro ⟨w', hok⟩
  obtain ⟨w'', hrun, -⟩ := sendPacket_full (.exact fun _ _ => true) hfull
  rw [run_eq, hrun] at hok
  simp at hok

end Call

end Houston
