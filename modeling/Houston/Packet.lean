import Houston.Crc

/-!
# Packets

The packed structures both sides share (`dashboard/Dashboard.h`), as the bytes
they occupy on a little-endian machine, and the packet grammar they are meant to
spell: a header sealed with `crc16`, a key, a value, and the `crc32` of both.

* `Packet` — a packet as the protocol intends it; its sizes fit their fields by
  construction.
* `Sealed` — the tests a receiver makes on a string of bytes.
* `sealed_iff` — the tests accept exactly the bytes of packets.
-/

namespace Houston

/-- `PacketID_t` -/
inductive PacketID where
  | telemetry
  | alert
  | modify
  | requestLiveData
  | responseLiveData
  deriving DecidableEq, Repr

/-- The numbers of the packet types. -/
def PacketID.code : PacketID → Byte
  | .telemetry => 0x30
  | .alert => 0x31
  | .modify => 0x32
  | .requestLiveData => 0x33
  | .responseLiveData => 0x34

/-- `ValueType_t` -/
inductive ValueType where
  | uint32
  | int32
  | float
  | bool
  | string
  deriving DecidableEq, Repr

/-- The numbers of the value types. -/
def ValueType.code : ValueType → ℕ
  | .uint32 => 0x00
  | .int32 => 0x01
  | .float => 0x02
  | .bool => 0x03
  | .string => 0x04

/-- A value type in a field of `w` bits. -/
def ValueType.bits (w : ℕ) (t : ValueType) : BitVec w := BitVec.ofNat w t.code

/-- A 16-bit field tells the value types apart. -/
theorem ValueType.bits_inj {t t' : ValueType} : t.bits 16 = t'.bits 16 ↔ t = t' := by
  cases t <;> cases t' <;> decide

/-! ## The packet header -/

/-- `DashboardPacketHeader_t`, 12 bytes -/
@[ext] structure DashboardPacketHeader where
  packetType : Byte
  packetContentType : Byte
  payloadKeySize : BitVec 16
  payloadValueSize : BitVec 16
  timestamp : BitVec 32
  checksum : BitVec 16

namespace DashboardPacketHeader

/-- The bytes in front of the checksum. -/
def front (h : DashboardPacketHeader) : List Byte :=
  wordBytes 1 h.packetType ++ (wordBytes 1 h.packetContentType ++ (wordBytes 2 h.payloadKeySize ++
    (wordBytes 2 h.payloadValueSize ++ wordBytes 4 h.timestamp)))

/-- The header in memory. -/
def toBytes (h : DashboardPacketHeader) : List Byte := h.front ++ wordBytes 2 h.checksum

/-- The header that a stretch of memory holds. -/
def ofBytes (bs : List Byte) : DashboardPacketHeader where
  packetType := wordAt 8 1 bs 0
  packetContentType := wordAt 8 1 bs 1
  payloadKeySize := wordAt 16 2 bs 2
  payloadValueSize := wordAt 16 2 bs 4
  timestamp := wordAt 32 4 bs 6
  checksum := wordAt 16 2 bs 10

@[simp] theorem length_front (h : DashboardPacketHeader) : h.front.length = 10 := by
  simp [front]

@[simp] theorem length_toBytes (h : DashboardPacketHeader) : h.toBytes.length = 12 := by
  simp [toBytes]

theorem take_toBytes (h : DashboardPacketHeader) : h.toBytes.take 10 = h.front :=
  List.take_left' h.length_front

/-- Reading back a header in memory. -/
theorem ofBytes_toBytes (h : DashboardPacketHeader) (rest : List Byte) :
    ofBytes (h.toBytes ++ rest) = h := by
  have h1 : 2 ^ 8 = 256 ^ 1 := by decide
  have h2 : 2 ^ 16 = 256 ^ 2 := by decide
  have h4 : 2 ^ 32 = 256 ^ 4 := by decide
  obtain ⟨t, c, k, v, ts, sum⟩ := h
  simp only [ofBytes, toBytes, front, List.append_assoc, mk.injEq]
  refine ⟨wordAt_append h1 t [] _, wordAt_append h1 c (wordBytes 1 t) _, ?_, ?_, ?_, ?_⟩
  · simpa using wordAt_append h2 k (wordBytes 1 t ++ wordBytes 1 c) _
  · simpa using wordAt_append h2 v (wordBytes 1 t ++ (wordBytes 1 c ++ wordBytes 2 k)) _
  · simpa using wordAt_append h4 ts
      (wordBytes 1 t ++ (wordBytes 1 c ++ (wordBytes 2 k ++ wordBytes 2 v))) _
  · simpa using wordAt_append h2 sum
      (wordBytes 1 t ++ (wordBytes 1 c ++ (wordBytes 2 k ++ (wordBytes 2 v ++ wordBytes 4 ts))))
      rest

/-- Storing a header that was read gives the bytes back. -/
theorem toBytes_ofBytes {bs : List Byte} (h : 12 ≤ bs.length) :
    (ofBytes bs).toBytes = bs.take 12 := by
  have h1 : 2 ^ 8 = 256 ^ 1 := by decide
  have h2 : 2 ^ 16 = 256 ^ 2 := by decide
  have h4 : 2 ^ 32 = 256 ^ 4 := by decide
  rw [toBytes, front, ofBytes, wordBytes_wordAt h1 (by omega), wordBytes_wordAt h1 (by omega),
    wordBytes_wordAt h2 (by omega), wordBytes_wordAt h2 (by omega), wordBytes_wordAt h4 (by omega),
    wordBytes_wordAt h2 (by omega)]
  simp only [← List.append_assoc, List.drop_zero, ← List.take_add, Nat.reduceAdd]

/-- Reading a header looks at its own bytes only. -/
theorem ofBytes_take {bs : List Byte} {n : ℕ} (hn : 12 ≤ n) :
    ofBytes (bs.take n) = ofBytes bs := by
  simp only [ofBytes]
  rw [wordAt_take (by omega), wordAt_take (by omega), wordAt_take (by omega),
    wordAt_take (by omega), wordAt_take (by omega), wordAt_take (by omega)]

/-- The header with the right checksum for its other fields. -/
def withChecksum (h : DashboardPacketHeader) : DashboardPacketHeader :=
  { h with checksum := crc16 h.front 0 }

end DashboardPacketHeader

/-- `craftDashboardHeaderPacket`; the checksum field is still uninitialised when
`crc16` runs over the bytes in front of it. -/
def craftDashboardHeaderPacket (packetType contentType : Byte) (keyLen valueSize : BitVec 16) :
    DashboardPacketHeader :=
  DashboardPacketHeader.withChecksum {
    packetType := packetType
    packetContentType := contentType
    payloadKeySize := keyLen
    payloadValueSize := valueSize
    timestamp := 0
    checksum := 0 }

/-! ## Live data records -/

/-- `LiveDataPacket_t`, 8 bytes. The union is its 32 bits; as a `bool` it is the lowest
byte of them. -/
@[ext] structure LiveDataPacket where
  packetID : BitVec 16
  valueType : BitVec 16
  /-- `uint32Value`, `int32Value` and `floatValue` -/
  value : BitVec 32
  deriving DecidableEq

/-- The low byte of a word: a `bool` in the union, or at the address of a variable. -/
def boolByte (v : BitVec 32) : Byte := v.setWidth 8

/-- Writing a `bool` over a word leaves its other three bytes alone. -/
def setBoolByte (v : BitVec 32) (b : Byte) : BitVec 32 := (v.extractLsb' 8 24) ++ b

@[simp] theorem boolByte_setBoolByte (v : BitVec 32) (b : Byte) :
    boolByte (setBoolByte v b) = b := by
  rw [boolByte, setBoolByte]
  exact BitVec.setWidth_append_eq_right

theorem setBoolByte_eq_self {v : BitVec 32} {b : Byte} : setBoolByte v b = v ↔ b = boolByte v := by
  constructor
  · intro h
    rw [← h, boolByte_setBoolByte]
  · rintro rfl
    apply BitVec.eq_of_getLsbD_eq
    intro i hi
    rw [setBoolByte, boolByte, BitVec.getLsbD_append, BitVec.getLsbD_setWidth,
      BitVec.getLsbD_extractLsb']
    by_cases h8 : i < 8
    · simp [h8]
    · simp [h8, show i - 8 < 24 by omega, show 8 + (i - 8) = i by omega]

namespace LiveDataPacket

/-- The record in memory. -/
def toBytes (p : LiveDataPacket) : List Byte :=
  wordBytes 2 p.packetID ++ (wordBytes 2 p.valueType ++ wordBytes 4 p.value)

/-- The record that a stretch of memory holds. -/
def ofBytes (bs : List Byte) : LiveDataPacket where
  packetID := wordAt 16 2 bs 0
  valueType := wordAt 16 2 bs 2
  value := wordAt 32 4 bs 4

@[simp] theorem length_toBytes (p : LiveDataPacket) : p.toBytes.length = 8 := by
  simp [toBytes]

/-- Reading back a record in memory. -/
theorem ofBytes_toBytes (p : LiveDataPacket) (rest : List Byte) :
    ofBytes (p.toBytes ++ rest) = p := by
  have h2 : 2 ^ 16 = 256 ^ 2 := by decide
  have h4 : 2 ^ 32 = 256 ^ 4 := by decide
  obtain ⟨id, t, v⟩ := p
  simp only [ofBytes, toBytes, List.append_assoc, mk.injEq]
  refine ⟨wordAt_append h2 id [] _, ?_, ?_⟩
  · simpa using wordAt_append h2 t (wordBytes 2 id) _
  · simpa using wordAt_append h4 v (wordBytes 2 id ++ wordBytes 2 t) rest

/-- Reading a record looks at its own bytes only. -/
theorem ofBytes_take {bs : List Byte} {n : ℕ} (hn : 8 ≤ n) :
    ofBytes (bs.take n) = ofBytes bs := by
  simp only [ofBytes]
  rw [wordAt_take (by omega), wordAt_take (by omega), wordAt_take (by omega)]

end LiveDataPacket

/-- The bytes of a sequence of records. -/
def payloadBytes (records : List LiveDataPacket) : List Byte :=
  records.flatMap LiveDataPacket.toBytes

theorem payloadBytes_cons (r : LiveDataPacket) (records : List LiveDataPacket) :
    payloadBytes (r :: records) = r.toBytes ++ payloadBytes records := List.flatMap_cons

theorem length_payloadBytes (records : List LiveDataPacket) :
    (payloadBytes records).length = 8 * records.length := by
  induction records with
  | nil => rfl
  | cons r records ih =>
    rw [payloadBytes_cons, List.length_append, LiveDataPacket.length_toBytes, ih, List.length_cons]
    omega

/-! ## The packet grammar -/

/-- A packet of the protocol. The two sizes fit their 16-bit fields. -/
structure Packet where
  packetType : Byte
  contentType : Byte
  timestamp : BitVec 32
  key : List Byte
  value : List Byte
  key_lt : key.length < 2 ^ 16
  value_lt : value.length < 2 ^ 16

namespace Packet

/-- No bytes are not too many. -/
theorem length_nil_lt : ([] : List Byte).length < 2 ^ 16 := Nat.two_pow_pos 16

/-- The header of a packet. -/
def header (p : Packet) : DashboardPacketHeader :=
  DashboardPacketHeader.withChecksum {
    packetType := p.packetType
    packetContentType := p.contentType
    payloadKeySize := BitVec.ofNat 16 p.key.length
    payloadValueSize := BitVec.ofNat 16 p.value.length
    timestamp := p.timestamp
    checksum := 0 }

/-- A packet without a payload. -/
def blank (packetType : Byte) : Packet where
  packetType := packetType
  contentType := 0
  timestamp := 0
  key := []
  value := []
  key_lt := length_nil_lt
  value_lt := length_nil_lt

/-- The bytes of a packet: header, key, value, and the checksum of both. -/
def bytes (p : Packet) : List Byte :=
  p.header.toBytes ++ (p.key ++ (p.value ++ wordBytes 4 (crc32 (p.key ++ p.value) 0)))

@[simp] theorem length_bytes (p : Packet) :
    p.bytes.length = 12 + p.key.length + p.value.length + 4 := by
  simp [bytes]
  omega

end Packet

/-- The request for the live data, as a packet. -/
def request : Packet := Packet.blank PacketID.requestLiveData.code

/-- A reading: the number 7 under the key "t". -/
def reading : Packet where
  packetType := PacketID.telemetry.code
  contentType := ValueType.uint32.bits 8
  timestamp := 0
  key := [0x74]
  value := [7, 0, 0, 0]
  key_lt := by decide
  value_lt := by decide

/-- The payload size that the header in `bs` announces. -/
def payloadSize (bs : List Byte) : ℕ :=
  (DashboardPacketHeader.ofBytes bs).payloadKeySize.toNat +
    (DashboardPacketHeader.ofBytes bs).payloadValueSize.toNat

/-- The checksum field of the header in `bs` is right. -/
def HeaderSealed (bs : List Byte) : Prop :=
  crc16 (bs.take 10) 0 = (DashboardPacketHeader.ofBytes bs).checksum

instance (bs : List Byte) : Decidable (HeaderSealed bs) := inferInstanceAs (Decidable (_ = _))

section Front

variable {bs cs : List Byte} (h : bs.take 12 = cs.take 12)

include h

/-- A header is read from the first twelve bytes. -/
theorem DashboardPacketHeader.ofBytes_congr : ofBytes bs = ofBytes cs := by
  rw [← ofBytes_take (le_refl 12), h, ofBytes_take (le_refl 12)]

theorem payloadSize_congr : payloadSize bs = payloadSize cs := by
  rw [payloadSize, payloadSize, DashboardPacketHeader.ofBytes_congr h]

theorem headerSealed_congr : HeaderSealed bs ↔ HeaderSealed cs := by
  have hfront : bs.take 10 = cs.take 10 := by
    have htake := congrArg (List.take 10) h
    rwa [List.take_take, List.take_take] at htake
  rw [HeaderSealed, HeaderSealed, hfront, DashboardPacketHeader.ofBytes_congr h]

end Front

/-- The tests of a receiver: a sealed header, the announced length, and the right
checksum behind the payload. -/
structure Sealed (bs : List Byte) : Prop where
  header : HeaderSealed bs
  length : bs.length = 12 + payloadSize bs + 4
  payload : crc32 ((bs.drop 12).take (payloadSize bs)) 0 =
    wordAt 32 4 bs (12 + payloadSize bs)

/-! ### The tests accept exactly the packets -/

namespace Packet

theorem ofBytes_bytes (p : Packet) (rest : List Byte) :
    DashboardPacketHeader.ofBytes (p.bytes ++ rest) = p.header := by
  rw [bytes, List.append_assoc, DashboardPacketHeader.ofBytes_toBytes]

theorem keySize_header (p : Packet) : p.header.payloadKeySize.toNat = p.key.length :=
  Nat.mod_eq_of_lt p.key_lt

theorem valueSize_header (p : Packet) : p.header.payloadValueSize.toNat = p.value.length :=
  Nat.mod_eq_of_lt p.value_lt

theorem payloadSize_bytes (p : Packet) :
    payloadSize p.bytes = p.key.length + p.value.length := by
  rw [payloadSize, ← List.append_nil p.bytes, ofBytes_bytes, keySize_header, valueSize_header]

theorem headerSealed_bytes (p : Packet) : HeaderSealed p.bytes := by
  have hfront : p.bytes.take 10 = p.header.front := by
    rw [bytes, List.take_append_of_le_length (by simp), DashboardPacketHeader.take_toBytes]
  rw [HeaderSealed, hfront, ← List.append_nil p.bytes, ofBytes_bytes]
  rfl

/-- What stands behind the header of a packet. -/
theorem drop_bytes (p : Packet) :
    p.bytes.drop 12 = (p.key ++ p.value) ++ wordBytes 4 (crc32 (p.key ++ p.value) 0) := by
  rw [bytes, List.drop_left' p.header.length_toBytes, List.append_assoc]

/-- Every packet passes the tests. -/
theorem sealed_bytes (p : Packet) : Sealed p.bytes where
  header := p.headerSealed_bytes
  length := by
    rw [length_bytes, payloadSize_bytes]
    omega
  payload := by
    have hlen : (p.key ++ p.value).length = p.key.length + p.value.length := List.length_append
    have hsum : wordAt 32 4 p.bytes (12 + (p.key.length + p.value.length)) =
        crc32 (p.key ++ p.value) 0 := by
      have hread := wordAt_append (k := 4) (by decide) (crc32 (p.key ++ p.value) 0)
        (p.header.toBytes ++ (p.key ++ p.value)) []
      simpa [bytes] using hread
    rw [payloadSize_bytes, drop_bytes, List.take_left' hlen, hsum]

end Packet

/-- The packet that a string of bytes spells. -/
def packetOf (bs : List Byte) : Packet where
  packetType := (DashboardPacketHeader.ofBytes bs).packetType
  contentType := (DashboardPacketHeader.ofBytes bs).packetContentType
  timestamp := (DashboardPacketHeader.ofBytes bs).timestamp
  key := (bs.drop 12).take (DashboardPacketHeader.ofBytes bs).payloadKeySize.toNat
  value := (bs.drop (12 + (DashboardPacketHeader.ofBytes bs).payloadKeySize.toNat)).take
    (DashboardPacketHeader.ofBytes bs).payloadValueSize.toNat
  key_lt := Nat.lt_of_le_of_lt (List.length_take_le _ _) (BitVec.isLt _)
  value_lt := Nat.lt_of_le_of_lt (List.length_take_le _ _) (BitVec.isLt _)

/-- Bytes that pass the tests are those of the packet they spell. -/
theorem bytes_packetOf {bs : List Byte} (h : Sealed bs) : (packetOf bs).bytes = bs := by
  have hlen := h.length
  have hsum := h.payload
  rw [payloadSize] at hlen hsum
  set hd := DashboardPacketHeader.ofBytes bs with hhd
  have hkey : (packetOf bs).key.length = hd.payloadKeySize.toNat := by
    simp only [packetOf, List.length_take, List.length_drop, ← hhd]
    omega
  have hvalue : (packetOf bs).value.length = hd.payloadValueSize.toNat := by
    simp only [packetOf, List.length_take, List.length_drop, ← hhd]
    omega
  have hpayload : (packetOf bs).key ++ (packetOf bs).value =
      (bs.drop 12).take (hd.payloadKeySize.toNat + hd.payloadValueSize.toNat) := by
    rw [List.take_add, List.drop_drop]
    rfl
  have htop : hd.toBytes = bs.take 12 := DashboardPacketHeader.toBytes_ofBytes (by omega)
  have hheader : (packetOf bs).header = hd := by
    have hfront : hd.front = bs.take 10 := by
      rw [← DashboardPacketHeader.take_toBytes, htop, List.take_take]
      rfl
    have hsealed : hd.withChecksum = hd := by
      rw [DashboardPacketHeader.withChecksum, hfront, h.header]
    rw [← hsealed, Packet.header, hkey, hvalue, BitVec.ofNat_toNat, BitVec.ofNat_toNat,
      BitVec.setWidth_eq, BitVec.setWidth_eq]
    rfl
  rw [Packet.bytes, hheader, ← List.append_assoc (packetOf bs).key, hpayload, hsum,
    wordBytes_wordAt (by decide) (by omega), htop, ← List.drop_drop, ← List.take_add,
    ← List.take_add, List.take_of_length_le (by omega)]

/-- **The packet grammar**: the receiver's tests accept exactly the packets. -/
theorem sealed_iff {bs : List Byte} : Sealed bs ↔ ∃ p : Packet, p.bytes = bs := by
  constructor
  · exact fun h => ⟨packetOf bs, bytes_packetOf h⟩
  · rintro ⟨p, rfl⟩
    exact p.sealed_bytes

end Houston
