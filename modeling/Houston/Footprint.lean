import Houston.Dispatcher
import Houston.Reads

/-!
# What is read of a decoded frame

The decoder works in place, so the vector that the dispatcher passes on is as long as the
frame was, and behind the decoded bytes it holds what is left of the encoded ones. Here
the checks of the dispatcher and the consumers are programs that read (`Reads.Prog`), and
what they read is compared with what was decoded.

* `decodedChecks_run`, `DataConsumer.consume_run` — the programs do what the model does.
* `reads_decoded` — nothing behind the decoded bytes is ever read.
-/

namespace Houston

open Reads Reads.Prog Stuffing

variable {data : List Byte} {size : ℕ}

/-! ## The programs -/

/-- The reads of `Dispatcher::dispatchData` behind the decoder. -/
def checksReads (decodeSize : ℕ) : Prog Byte (Except String DashboardPacketHeader) :=
  if decodeSize < 12 + 4 then .done (.error "Decoded data too small to contain header and tail")
  else .read 0 12 fun bytes =>
    let header := DashboardPacketHeader.ofBytes bytes
    .read 0 10 fun front =>
      if crc16 front 0 ≠ header.checksum then .done (.error "Checksum mismatch")
      else
        let payloadSize := header.payloadKeySize.toNat + header.payloadValueSize.toNat
        if decodeSize ≠ 12 + payloadSize + 4 then .done (.error "Decoded data size mismatch")
        else .read (12 + payloadSize) 4 fun tail =>
          .read 12 payloadSize fun payload =>
            if crc32 payload 0 ≠ wordAt 32 4 tail 0 then .done (.error "Payload checksum mismatch")
            else .done (.ok header)

/-- The reads of a four-byte value of a telemetry packet. -/
def wordReads (valueSize startOfValue : ℕ) (key : List Byte) (text : BitVec 32 → List Byte) :
    Prog Byte (List Byte × List Byte) :=
  if valueSize ≠ 4 then .done (ascii "ERROR", ascii "Invalid Telemetry Value Size")
  else .read startOfValue 4 fun value => .done (key, text (wordAt 32 4 value 0))

/-- The reads of `TelemetryConsumer::decode` in a vector of `size` bytes. -/
def telemetryReads (size : ℕ) : Prog Byte (List Byte × List Byte) :=
  if size < 12 then .done (ascii "ERROR", ascii "Incomplete Telemetry Data")
  else .read 0 12 fun bytes =>
    let header := DashboardPacketHeader.ofBytes bytes
    let startOfValue := 12 + header.payloadKeySize.toNat
    let valueSize := header.payloadValueSize.toNat
    .read 12 header.payloadKeySize.toNat fun key =>
      if header.packetContentType = ValueType.uint32.bits 8 then
        wordReads valueSize startOfValue key uintText
      else if header.packetContentType = ValueType.int32.bits 8 then
        wordReads valueSize startOfValue key intText
      else if header.packetContentType = ValueType.float.bits 8 then
        wordReads valueSize startOfValue key floatText
      else .read startOfValue valueSize fun strValue => .done (key, strValue)

/-- The reads of `AlertConsumer::decode` in a vector of `size` bytes. -/
def alertReads (size : ℕ) : Prog Byte (List Byte) :=
  if size < 12 then .done (ascii "ERROR: Incomplete Alert")
  else .read 0 12 fun bytes =>
    let header := DashboardPacketHeader.ofBytes bytes
    if size < 12 + header.payloadValueSize.toNat then .done (ascii "ERROR: Incomplete Alert")
    else .read 12 header.payloadValueSize.toNat .done

/-- The reads of the loop of `LiveDataConsumer::decode`. -/
def recordsReads : ℕ → ℕ → Prog Byte (List LiveDataPacket)
  | 0, _ => .done []
  | k + 1, i => .read (12 + i * 8) 8 fun bytes =>
    (recordsReads k (i + 1)).map fun packets => LiveDataPacket.ofBytes bytes :: packets

/-- The reads of `LiveDataConsumer::decode` in a vector of `size` bytes. -/
def liveDataReads (size : ℕ) : Prog Byte (List LiveDataPacket) :=
  if size < 12 then .done []
  else .read 0 12 fun bytes =>
    recordsReads ((DashboardPacketHeader.ofBytes bytes).payloadValueSize.toNat / 8) 0

/-- The reads of `TypedConsumer::consume` in a vector of `size` bytes. -/
def DataConsumer.reads (size : ℕ) : DataConsumer → Prog Byte DataConsumer
  | .telemetry queue => (telemetryReads size).map fun value => .telemetry (queue ++ [value])
  | .alert queue => (alertReads size).map fun value => .alert (queue ++ [value])
  | .liveData queue => (liveDataReads size).map fun value => .liveData (queue ++ [value])

/-! ## They do what the model does -/

theorem run_read_buffer {α : Type} {n : ℕ} (buf : Buffer Byte n) (first len : ℕ)
    (next : List Byte → Prog Byte α) :
    (Prog.read first len next).run buf.data =
      (buf.read? first len).bind fun bytes => (next bytes).run buf.data := by
  rw [run_read, Buffer.read?, buf.length_data]
  split_ifs <;> rfl

theorem run_read_bytesAt {α : Type} (data : List Byte) (first len : ℕ)
    (next : List Byte → Prog Byte α) :
    (Prog.read first len next).run data =
      (bytesAt data first len).bind fun bytes => (next bytes).run data :=
  run_read_buffer (Buffer.ofList data) first len next

/-- A shorter stretch at the same place. -/
theorem read?_take {n first len k : ℕ} {buf : Buffer Byte n} {bytes : List Byte}
    (h : buf.read? first len = some bytes) (hk : k ≤ len) :
    buf.read? first k = some (bytes.take k) := by
  rw [Buffer.read?] at h
  split_ifs at h with hin
  rw [Buffer.read?_eq_some (by omega), ← Option.some.inj h, List.take_take, Nat.min_eq_left hk]

/-- The checks of the dispatcher are their program. -/
theorem decodedChecks_run {n : ℕ} (buf : Buffer Byte n) (decodeSize : ℕ) :
    decodedChecks buf decodeSize =
      ((checksReads decodeSize).run buf.data).map fun r => r.map fun header =>
        (header, buf.data) := by
  rw [decodedChecks, checksReads]
  by_cases hsmall : decodeSize < 12 + 4
  · rw [if_pos hsmall, if_pos hsmall]
    rfl
  · rw [if_neg hsmall, if_neg hsmall, run_read_buffer]
    cases hbytes : buf.read? 0 12 with
    | none => rfl
    | some bytes =>
      simp only [Option.bind_eq_bind, Option.bind_some, run_read_buffer,
        read?_take hbytes (show 10 ≤ 12 by decide)]
      split_ifs with hsum hsize
      · rfl
      · rfl
      · rw [run_read_buffer]
        cases buf.read? (12 + ((DashboardPacketHeader.ofBytes bytes).payloadKeySize.toNat +
            (DashboardPacketHeader.ofBytes bytes).payloadValueSize.toNat)) 4 with
        | none => rfl
        | some tail =>
          rw [Option.bind_some, Option.bind_some, run_read_buffer]
          cases buf.read? 12 ((DashboardPacketHeader.ofBytes bytes).payloadKeySize.toNat +
              (DashboardPacketHeader.ofBytes bytes).payloadValueSize.toNat) with
          | none => rfl
          | some payload =>
            rw [Option.bind_some, Option.bind_some]
            split_ifs <;> rfl

theorem wordReads_run (data : List Byte) (valueSize startOfValue : ℕ) (key : List Byte)
    (text : BitVec 32 → List Byte) :
    (wordReads valueSize startOfValue key text).run data =
      decodeWord data valueSize startOfValue key text := by
  rw [wordReads, decodeWord]
  split_ifs
  · rfl
  · rw [run_read_bytesAt]
    rfl

theorem telemetryReads_run (data : List Byte) :
    (telemetryReads data.length).run data = TelemetryConsumer.decode data := by
  rw [telemetryReads, TelemetryConsumer.decode, headerOf]
  split_ifs with hsmall
  · rfl
  · rw [run_read_bytesAt]
    cases bytesAt data 0 12 with
    | none => rfl
    | some bytes =>
      simp only [Option.map_some, Option.bind_eq_bind, Option.bind_some, run_read_bytesAt]
      cases bytesAt data 12 (DashboardPacketHeader.ofBytes bytes).payloadKeySize.toNat with
      | none => rfl
      | some key =>
        rw [Option.bind_some, Option.bind_some]
        split_ifs
        · exact wordReads_run ..
        · exact wordReads_run ..
        · exact wordReads_run ..
        · exact run_read_bytesAt ..

theorem alertReads_run (data : List Byte) :
    (alertReads data.length).run data = AlertConsumer.decode data := by
  rw [alertReads, AlertConsumer.decode, headerOf]
  split_ifs with hsmall
  · rfl
  · rw [run_read_bytesAt]
    cases bytesAt data 0 12 with
    | none => rfl
    | some bytes =>
      simp only [Option.map_some, Option.bind_eq_bind, Option.bind_some]
      split_ifs
      · rfl
      · rw [run_read_bytesAt]
        cases bytesAt data 12 (DashboardPacketHeader.ofBytes bytes).payloadValueSize.toNat <;> rfl

theorem recordsReads_run (data : List Byte) : ∀ k i : ℕ,
    (recordsReads k i).run data = decodeRecords data k i := by
  intro k
  induction k with
  | zero => exact fun _ => rfl
  | succ k ih =>
    intro i
    rw [recordsReads, decodeRecords, run_read_bytesAt]
    simp only [run_map, ih]
    cases bytesAt data (12 + i * 8) 8 with
    | none => rfl
    | some bytes => cases decodeRecords data k (i + 1) <;> rfl

theorem liveDataReads_run (data : List Byte) :
    (liveDataReads data.length).run data = LiveDataConsumer.decode data := by
  rw [liveDataReads, LiveDataConsumer.decode, headerOf]
  split_ifs with hsmall
  · rfl
  · rw [run_read_bytesAt]
    cases bytesAt data 0 12 with
    | none => rfl
    | some bytes => exact recordsReads_run data _ 0

/-- A consumer is its program. -/
theorem DataConsumer.consume_run (c : DataConsumer) (data : List Byte) :
    c.consume data = (c.reads data.length).run data := by
  cases c with
  | telemetry queue =>
    rw [DataConsumer.consume, DataConsumer.reads, run_map, telemetryReads_run]
    cases TelemetryConsumer.decode data <;> rfl
  | alert queue =>
    rw [DataConsumer.consume, DataConsumer.reads, run_map, alertReads_run]
    cases AlertConsumer.decode data <;> rfl
  | liveData queue =>
    rw [DataConsumer.consume, DataConsumer.reads, run_map, liveDataReads_run]
    cases LiveDataConsumer.decode data <;> rfl

/-! ## They stay within what was decoded -/

/-- The checks compare sizes before they read. -/
theorem checksReads_within (h : size ≤ data.length) : Within size data (checksReads size) := by
  rw [checksReads]
  refine within_ite (fun _ => within_done _) fun hsmall => ?_
  refine within_read (by omega) h (within_read (by omega) h ?_)
  refine within_ite (fun _ => within_done _) fun _ => ?_
  refine within_ite (fun _ => within_done _) fun hsize => ?_
  rw [not_not] at hsize
  exact within_read (by omega) h (within_read (by omega) h
    (within_ite (fun _ => within_done _) fun _ => within_done _))

/-- The header in front of `data` announces a packet of `size` bytes, which is there. -/
structure Announced (size : ℕ) (data : List Byte) : Prop where
  size_eq : 12 + payloadSize data + 4 = size
  size_le : size ≤ data.length

/-- The header as a consumer reads it. -/
theorem payloadSize_read (data : List Byte) :
    (DashboardPacketHeader.ofBytes ((data.drop 0).take 12)).payloadKeySize.toNat +
      (DashboardPacketHeader.ofBytes ((data.drop 0).take 12)).payloadValueSize.toNat =
        payloadSize data := by
  rw [List.drop_zero, DashboardPacketHeader.ofBytes_take (le_refl 12)]
  rfl

theorem wordReads_within (h : size ≤ data.length) {valueSize startOfValue : ℕ}
    (hin : startOfValue + valueSize ≤ size) (key : List Byte) (text : BitVec 32 → List Byte) :
    Within size data (wordReads valueSize startOfValue key text) := by
  rw [wordReads]
  refine within_ite (fun _ => within_done _) fun hword => ?_
  rw [not_not] at hword
  exact within_read (by omega) h (within_done _)

theorem telemetryReads_within (h : Announced size data) (n : ℕ) :
    Within size data (telemetryReads n) := by
  have hle := h.size_le
  have hsum := payloadSize_read data
  have hsize := h.size_eq
  rw [telemetryReads]
  refine within_ite (fun _ => within_done _) fun _ => within_read (by omega) hle ?_
  refine within_read (by omega) hle ?_
  refine within_ite (fun _ => wordReads_within hle (by omega) _ _) fun _ => ?_
  refine within_ite (fun _ => wordReads_within hle (by omega) _ _) fun _ => ?_
  refine within_ite (fun _ => wordReads_within hle (by omega) _ _) fun _ => ?_
  exact within_read (by omega) hle (within_done _)

theorem alertReads_within (h : Announced size data) (n : ℕ) :
    Within size data (alertReads n) := by
  have hle := h.size_le
  have hsum := payloadSize_read data
  have hsize := h.size_eq
  rw [alertReads]
  refine within_ite (fun _ => within_done _) fun _ => within_read (by omega) hle ?_
  refine within_ite (fun _ => within_done _) fun _ => ?_
  exact within_read (by omega) hle (within_done _)

theorem recordsReads_within (h : size ≤ data.length) : ∀ k i : ℕ, 12 + (i + k) * 8 ≤ size →
    Within size data (recordsReads k i) := by
  intro k
  induction k with
  | zero => exact fun _ _ => within_done _
  | succ k ih =>
    intro i hin
    rw [recordsReads]
    exact within_read (by omega) h (within_map _ (ih (i + 1) (by omega)))

theorem liveDataReads_within (h : Announced size data) (n : ℕ) :
    Within size data (liveDataReads n) := by
  have hle := h.size_le
  have hsum := payloadSize_read data
  have hsize := h.size_eq
  rw [liveDataReads]
  refine within_ite (fun _ => within_done _) fun _ => within_read (by omega) hle ?_
  exact recordsReads_within hle _ 0 (by omega)

/-- The consumers trust the header, and it has been checked. -/
theorem DataConsumer.reads_within (h : Announced size data) (n : ℕ) (c : DataConsumer) :
    Within size data (c.reads n) := by
  cases c with
  | telemetry queue => exact within_map _ (telemetryReads_within h n)
  | alert queue => exact within_map _ (alertReads_within h n)
  | liveData queue => exact within_map _ (liveDataReads_within h n)

/-! ## Nothing else is read -/

/-- How a frame gets past the checks. -/
theorem dispatchChecks_ok (hn : data.length < 2 ^ 31) {header : DashboardPacketHeader}
    {bytes : List Byte} (h : dispatchChecks data = some (.ok (header, bytes))) :
    ∃ (buf : Buffer Byte data.length) (size : ℕ),
      cobsDecode (Buffer.ofList data) (u32 data.length) 0 = some (.ok, buf, size) ∧
        bytes = buf.data ∧ Announced size bytes := by
  have hlen : u32 data.length = data.length := u32_of_lt (by omega)
  by_cases hshort : data.length < 12
  · rw [dispatchChecks, if_pos hshort] at h
    cases h
  rw [dispatchChecks, if_neg hshort, hlen] at h
  rcases cobsDecode_eq hn (Buffer.ofList data) 0 with
    ⟨y, buf, rest, -, -, hdec, hdata, -⟩ | ⟨-, status, buf, hdec, hstatus⟩
  · rw [hdec, Option.bind_eq_bind, Option.bind_some] at h
    simp only [ne_eq, not_true_eq_false, if_false] at h
    rcases decodedChecks_eq hdata with ⟨hsealed, hok⟩ | ⟨-, message, herror⟩
    · rw [hok, Option.some.injEq, Except.ok.injEq, Prod.mk.injEq] at h
      obtain ⟨-, rfl⟩ := h
      refine ⟨buf, y.length, by rw [hlen, hdec], hdata.symm, ?_, ?_⟩
      · -- the header lies within the decoded bytes
        have hfront : (y ++ rest).take 12 = y.take 12 := by
          rw [List.take_append_of_le_length]
          have := hsealed.length
          omega
        rw [payloadSize_congr hfront, ← hsealed.length]
      · rw [List.length_append]
        omega
    · rw [herror] at h
      cases h
  · rw [hdec, Option.bind_eq_bind, Option.bind_some] at h
    simp only [if_pos hstatus] at h
    cases h

/-- **Consumers never read outside the frame**: of a vector that gets past the checks, the
dispatcher and any consumer read decoded bytes only, and what the consumer makes of it
would be the same with any other bytes left behind them. -/
theorem reads_decoded (hn : data.length < 2 ^ 31) {header : DashboardPacketHeader}
    {bytes : List Byte} (h : dispatchChecks data = some (.ok (header, bytes))) :
    ∃ (buf : Buffer Byte data.length) (size : ℕ),
      cobsDecode (Buffer.ofList data) (u32 data.length) 0 = some (.ok, buf, size) ∧
      bytes = buf.data ∧ Within size bytes (checksReads size) ∧
      ∀ c : DataConsumer, Within size bytes (c.reads bytes.length) ∧
        ∀ stale : List Byte, stale.length = (bytes.drop size).length →
          c.consume (bytes.take size ++ stale) = c.consume bytes := by
  obtain ⟨buf, size, hdec, hbytes, hannounced⟩ := dispatchChecks_ok hn h
  refine ⟨buf, size, hdec, hbytes, checksReads_within hannounced.size_le, fun c => ⟨?_, ?_⟩⟩
  · exact c.reads_within hannounced bytes.length
  · intro stale hstale
    have hle := hannounced.size_le
    have hsize : (bytes.take size).length = size := List.length_take_of_le hle
    have hlen : (bytes.take size ++ stale).length = bytes.length := by
      rw [List.length_append, hsize, hstale, List.length_drop]
      omega
    have hsame : bytes.take size = (bytes.take size ++ stale).take size :=
      (List.take_left' hsize).symm
    rw [c.consume_run, c.consume_run, hlen]
    exact (run_congr hle (by omega) hsame _ (c.reads_within hannounced bytes.length)).symm

/-- The frame of a reading. -/
def readingFrame : List Byte := stuff reading.bytes

/-- It gets past the checks, and is read as it should be. -/
theorem reads_decoded_reading :
    ∃ (header : DashboardPacketHeader) (bytes : List Byte),
      dispatchChecks readingFrame = some (.ok (header, bytes)) ∧
      ∃ (buf : Buffer Byte readingFrame.length) (size : ℕ),
        cobsDecode (Buffer.ofList readingFrame) (u32 readingFrame.length) 0 = some (.ok, buf, size) ∧
        bytes = buf.data ∧ Within size bytes (checksReads size) ∧
        ∀ c : DataConsumer, Within size bytes (c.reads bytes.length) ∧
          ∀ stale : List Byte, stale.length = (bytes.drop size).length →
            c.consume (bytes.take size ++ stale) = c.consume bytes := by
  have hlen : readingFrame.length < 2 ^ 31 := by decide +kernel
  have hy : unstuff readingFrame = some reading.bytes := by
    decide +kernel
  rcases dispatchChecks_eq hlen with ⟨y, rest, -, -, hok⟩ | ⟨hnone, -⟩
  · exact ⟨_, _, hok, reads_decoded hlen hok⟩
  · exact absurd (Packet.sealed_bytes _) (hnone _ hy)

end Houston
