import Houston.Packet

/-!
# The consumers: `consumer/`

What the host makes of a packet that the dispatcher lets through. A consumer decodes
the packet and appends the result to its queue. A `std::string` is a list of bytes;
`none` stands for an iterator or a copy that leaves the packet.

* `DataConsumer.consume_eq_some` — on a buffer that holds a packet, decoding stays
  inside it, and exactly one element is appended.
* `TelemetryConsumer.decode_bytes`, `AlertConsumer.decode_bytes`,
  `LiveDataConsumer.decode_bytes` — what is decoded of a packet.
-/

namespace Houston

/-! ## Numbers as text -/

/-- The text of a `uint32_t`. -/
def uintText (v : BitVec 32) : List Byte := ascii (toString v.toNat)

/-- The text of an `int32_t`. -/
def intText (v : BitVec 32) : List Byte := ascii (toString v.toInt)

/-- A natural number divided by a positive one, rounded to the nearest, ties to even. -/
def roundDiv (n d : ℕ) : ℕ :=
  if 2 * (n % d) > d ∨ (2 * (n % d) = d ∧ n / d % 2 = 1) then n / d + 1 else n / d

/-- The text of a non-negative number of millionths, with six decimals. -/
def millionthsText (n : ℕ) : String :=
  toString (n / 10 ^ 6) ++ "." ++ String.ofList ((Nat.toDigits 10 (n % 10 ^ 6 + 10 ^ 6)).tail)

/-- The text of a `float` with the given 32 bits, as the format `%f` prints it. -/
def floatText (v : BitVec 32) : List Byte :=
  let exponent := v.toNat / 2 ^ 23 % 2 ^ 8
  let fraction := v.toNat % 2 ^ 23
  let magnitude :=
    if exponent = 255 then if fraction = 0 then "inf" else "nan"
    else if exponent = 0 then millionthsText (roundDiv (fraction * 10 ^ 6) (2 ^ 149))
    else if exponent < 150 then
      millionthsText (roundDiv ((2 ^ 23 + fraction) * 10 ^ 6) (2 ^ (150 - exponent)))
    else millionthsText ((2 ^ 23 + fraction) * 10 ^ 6 * 2 ^ (exponent - 150))
  ascii (if v.msb then "-" ++ magnitude else magnitude)

example : floatText 0xC0200000 = ascii "-2.500000" := by decide +kernel

/-! ## Decoding -/

/-- The bytes from `first` on, `len` of them. -/
def bytesAt (data : List Byte) (first len : ℕ) : Option (List Byte) :=
  (Buffer.ofList data).read? first len

/-- The header that is copied from the front of `data`. -/
def headerOf (data : List Byte) : Option DashboardPacketHeader :=
  (bytesAt data 0 12).map DashboardPacketHeader.ofBytes

/-- A four-byte value of a telemetry packet and its text. -/
def decodeWord (data : List Byte) (valueSize startOfValue : ℕ) (key : List Byte)
    (text : BitVec 32 → List Byte) : Option (List Byte × List Byte) :=
  if valueSize ≠ 4 then some (ascii "ERROR", ascii "Invalid Telemetry Value Size")
  else do
    let value ← bytesAt data startOfValue 4
    some (key, text (wordAt 32 4 value 0))

/-- `TelemetryConsumer::decode` -/
def TelemetryConsumer.decode (data : List Byte) : Option (List Byte × List Byte) :=
  if data.length < 12 then some (ascii "ERROR", ascii "Incomplete Telemetry Data")
  else do
    let header ← headerOf data
    let startOfValue := 12 + header.payloadKeySize.toNat
    let valueSize := header.payloadValueSize.toNat
    let key ← bytesAt data 12 header.payloadKeySize.toNat
    if header.packetContentType = ValueType.uint32.bits 8 then
      decodeWord data valueSize startOfValue key uintText
    else if header.packetContentType = ValueType.int32.bits 8 then
      decodeWord data valueSize startOfValue key intText
    else if header.packetContentType = ValueType.float.bits 8 then
      decodeWord data valueSize startOfValue key floatText
    else do
      let strValue ← bytesAt data startOfValue valueSize
      some (key, strValue)

/-- `AlertConsumer::decode` -/
def AlertConsumer.decode (data : List Byte) : Option (List Byte) :=
  if data.length < 12 then some (ascii "ERROR: Incomplete Alert")
  else do
    let header ← headerOf data
    let expectedEnd := 12 + header.payloadValueSize.toNat
    if data.length < expectedEnd then some (ascii "ERROR: Incomplete Alert")
    else bytesAt data 12 header.payloadValueSize.toNat

/-- The loop of `LiveDataConsumer::decode` from record `i` on, with `k` turns left. -/
def decodeRecords (data : List Byte) : ℕ → ℕ → Option (List LiveDataPacket)
  | 0, _ => some []
  | k + 1, i => do
    let bytes ← bytesAt data (12 + i * 8) 8
    let packets ← decodeRecords data k (i + 1)
    some (LiveDataPacket.ofBytes bytes :: packets)

/-- `LiveDataConsumer::decode` -/
def LiveDataConsumer.decode (data : List Byte) : Option (List LiveDataPacket) :=
  if data.length < 12 then some []
  else do
    let header ← headerOf data
    decodeRecords data (header.payloadValueSize.toNat / 8) 0

/-! ## Queues -/

/-- The three consumers, with their queues, first element first. -/
inductive DataConsumer where
  | telemetry (queue : List (List Byte × List Byte))
  | alert (queue : List (List Byte))
  | liveData (queue : List (List LiveDataPacket))
  deriving DecidableEq

/-- `TypedConsumer::consume` -/
def DataConsumer.consume (data : List Byte) : DataConsumer → Option DataConsumer
  | .telemetry queue => do
    let decodedVal ← TelemetryConsumer.decode data
    some (.telemetry (queue ++ [decodedVal]))
  | .alert queue => do
    let decodedVal ← AlertConsumer.decode data
    some (.alert (queue ++ [decodedVal]))
  | .liveData queue => do
    let decodedVal ← LiveDataConsumer.decode data
    some (.liveData (queue ++ [decodedVal]))

/-! ## What is decoded of a packet

The buffer that a consumer is given is as long as the frame was: some bytes are left
behind the packet. -/

theorem bytesAt_append (pre mid post : List Byte) :
    bytesAt (pre ++ (mid ++ post)) pre.length mid.length = some mid := by
  have hlen : pre.length + mid.length ≤ (pre ++ (mid ++ post)).length := by
    rw [List.length_append, List.length_append]
    omega
  rw [bytesAt, Buffer.read?_eq_some hlen]
  exact congrArg some (by rw [Buffer.ofList, List.drop_left, List.take_left])

theorem exists_bytesAt {data : List Byte} {first len : ℕ} (h : first + len ≤ data.length) :
    ∃ bytes, bytesAt data first len = some bytes := ⟨_, Buffer.read?_eq_some h⟩

section Packets

variable (p : Packet) (rest : List Byte)

theorem headerOf_bytes : headerOf (p.bytes ++ rest) = some p.header := by
  have hlen : 0 + 12 ≤ (p.bytes ++ rest).length := by
    rw [List.length_append, Packet.length_bytes]
    omega
  rw [headerOf, bytesAt, Buffer.read?_eq_some hlen, Option.map_some, List.drop_zero,
    DashboardPacketHeader.ofBytes_take (le_refl 12)]
  exact congrArg some (p.ofBytes_bytes rest)

/-- The buffer, cut at the ends of the key and of the value. -/
theorem bytes_eq : p.bytes ++ rest = p.header.toBytes ++ (p.key ++ (p.value ++
    (wordBytes 4 (crc32 (p.key ++ p.value) 0) ++ rest))) := by
  rw [Packet.bytes, List.append_assoc, List.append_assoc, List.append_assoc]

theorem bytesAt_key : bytesAt (p.bytes ++ rest) 12 p.key.length = some p.key := by
  have hkey := bytesAt_append p.header.toBytes p.key
    (p.value ++ (wordBytes 4 (crc32 (p.key ++ p.value) 0) ++ rest))
  rwa [DashboardPacketHeader.length_toBytes, ← bytes_eq] at hkey

theorem bytesAt_value :
    bytesAt (p.bytes ++ rest) (12 + p.key.length) p.value.length = some p.value := by
  have hvalue := bytesAt_append (p.header.toBytes ++ p.key) p.value
    (wordBytes 4 (crc32 (p.key ++ p.value) 0) ++ rest)
  rwa [List.length_append, DashboardPacketHeader.length_toBytes, List.append_assoc,
    ← bytes_eq] at hvalue

theorem not_length_lt : ¬ (p.bytes ++ rest).length < 12 := by
  rw [List.length_append, Packet.length_bytes]
  omega

/-- What a telemetry packet says: its key, and its value as a text. A number of a
wrong size is an error. -/
def telemetryOf (p : Packet) : List Byte × List Byte :=
  let word (text : BitVec 32 → List Byte) : List Byte × List Byte :=
    if p.value.length ≠ 4 then (ascii "ERROR", ascii "Invalid Telemetry Value Size")
    else (p.key, text (wordAt 32 4 p.value 0))
  if p.contentType = ValueType.uint32.bits 8 then word uintText
  else if p.contentType = ValueType.int32.bits 8 then word intText
  else if p.contentType = ValueType.float.bits 8 then word floatText
  else (p.key, p.value)

theorem TelemetryConsumer.decode_bytes :
    TelemetryConsumer.decode (p.bytes ++ rest) = some (telemetryOf p) := by
  have hword : ∀ text, decodeWord (p.bytes ++ rest) p.value.length (12 + p.key.length) p.key text =
      some (if p.value.length ≠ 4 then (ascii "ERROR", ascii "Invalid Telemetry Value Size")
        else (p.key, text (wordAt 32 4 p.value 0))) := by
    intro text
    rw [decodeWord]
    split_ifs with hsize
    · rfl
    · have hvalue := bytesAt_value p rest
      rw [not_not.mp hsize] at hvalue
      rw [hvalue]
      rfl
  have hcontent : p.header.packetContentType = p.contentType := rfl
  rw [TelemetryConsumer.decode, if_neg (not_length_lt p rest), headerOf_bytes]
  simp only [Option.bind_eq_bind, Option.bind_some, p.keySize_header, p.valueSize_header,
    bytesAt_key, bytesAt_value, hword, hcontent, telemetryOf]
  split_ifs <;> rfl

theorem AlertConsumer.decode_bytes (hkey : p.key = []) :
    AlertConsumer.decode (p.bytes ++ rest) = some p.value := by
  have hlen : ¬ (p.bytes ++ rest).length < 12 + p.value.length := by
    rw [List.length_append, Packet.length_bytes]
    omega
  have hvalue := bytesAt_value p rest
  rw [hkey] at hvalue
  rw [AlertConsumer.decode, if_neg (not_length_lt p rest), headerOf_bytes, Option.bind_eq_bind,
    Option.bind_some, p.valueSize_header, if_neg hlen]
  exact hvalue

/-- Decoding records, `pre` being what stands in front of those that are left. -/
theorem decodeRecords_eq (post : List Byte) :
    ∀ (records : List LiveDataPacket) (pre : List Byte) (i : ℕ), pre.length = 12 + i * 8 →
      decodeRecords (pre ++ (payloadBytes records ++ post)) records.length i = some records := by
  intro records
  induction records with
  | nil => exact fun _ _ _ => rfl
  | cons r records ih =>
    intro pre i hpre
    have hbytes := bytesAt_append pre r.toBytes (payloadBytes records ++ post)
    have hrest := ih (pre ++ r.toBytes) (i + 1) (by
      rw [List.length_append, LiveDataPacket.length_toBytes, hpre]
      omega)
    rw [hpre, LiveDataPacket.length_toBytes] at hbytes
    rw [List.append_assoc] at hrest
    have hrecord : LiveDataPacket.ofBytes r.toBytes = r := by
      rw [← List.append_nil r.toBytes, LiveDataPacket.ofBytes_toBytes]
    rw [payloadBytes_cons, List.append_assoc, List.length_cons, decodeRecords, hbytes,
      Option.bind_eq_bind, Option.bind_some, hrest, hrecord]
    rfl

theorem LiveDataConsumer.decode_bytes (hkey : p.key = []) {records : List LiveDataPacket}
    (hvalue : p.value = payloadBytes records) :
    LiveDataConsumer.decode (p.bytes ++ rest) = some records := by
  have hcount : p.value.length / 8 = records.length := by
    rw [hvalue, length_payloadBytes]
    omega
  rw [LiveDataConsumer.decode, if_neg (not_length_lt p rest), headerOf_bytes, Option.bind_eq_bind,
    Option.bind_some, p.valueSize_header, hcount, bytes_eq, hkey, hvalue, List.nil_append]
  exact decodeRecords_eq _ records _ 0 p.header.length_toBytes

theorem exists_decodeRecords {data : List Byte} :
    ∀ (k i : ℕ), 12 + (i + k) * 8 ≤ data.length →
      ∃ records, decodeRecords data k i = some records := by
  intro k
  induction k with
  | zero => exact fun _ _ => ⟨[], rfl⟩
  | succ k ih =>
    intro i hlen
    obtain ⟨bytes, hbytes⟩ := exists_bytesAt (show 12 + i * 8 + 8 ≤ data.length by omega)
    obtain ⟨records, hrecords⟩ := ih (i + 1) (by omega)
    exact ⟨_, by rw [decodeRecords, hbytes, Option.bind_eq_bind, Option.bind_some, hrecords]; rfl⟩

/-- Exactly one element is appended to the queue. -/
def DataConsumer.Pushed : DataConsumer → DataConsumer → Prop
  | .telemetry queue, .telemetry queue' => ∃ decodedVal, queue' = queue ++ [decodedVal]
  | .alert queue, .alert queue' => ∃ decodedVal, queue' = queue ++ [decodedVal]
  | .liveData queue, .liveData queue' => ∃ decodedVal, queue' = queue ++ [decodedVal]
  | _, _ => False

/-- **Any consumer takes any packet**: decoding stays inside the buffer. -/
theorem DataConsumer.consume_eq_some (c : DataConsumer) :
    ∃ c', c.consume (p.bytes ++ rest) = some c' ∧ c.Pushed c' := by
  have hlen : 12 + p.key.length + p.value.length + 4 ≤ (p.bytes ++ rest).length := by
    rw [List.length_append, Packet.length_bytes]
    omega
  cases c with
  | telemetry queue =>
    refine ⟨.telemetry (queue ++ [telemetryOf p]), ?_, telemetryOf p, rfl⟩
    rw [DataConsumer.consume, TelemetryConsumer.decode_bytes]
    rfl
  | alert queue =>
    obtain ⟨value, hvalue⟩ := exists_bytesAt
      (show 12 + p.value.length ≤ (p.bytes ++ rest).length by omega)
    refine ⟨.alert (queue ++ [value]), ?_, value, rfl⟩
    rw [DataConsumer.consume, AlertConsumer.decode, if_neg (not_length_lt p rest), headerOf_bytes,
      Option.bind_eq_bind, Option.bind_eq_bind, Option.bind_some, p.valueSize_header,
      if_neg (by omega), hvalue]
    rfl
  | liveData queue =>
    have hdiv := Nat.div_mul_le_self p.value.length 8
    obtain ⟨records, hrecords⟩ :
        ∃ records, decodeRecords (p.bytes ++ rest) (p.value.length / 8) 0 = some records :=
      exists_decodeRecords _ 0 (by omega)
    refine ⟨.liveData (queue ++ [records]), ?_, records, rfl⟩
    rw [DataConsumer.consume, LiveDataConsumer.decode, if_neg (not_length_lt p rest),
      headerOf_bytes, Option.bind_eq_bind, Option.bind_eq_bind, Option.bind_some,
      p.valueSize_header, hrecords]
    rfl

end Packets

end Houston
