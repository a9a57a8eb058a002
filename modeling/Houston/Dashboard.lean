import Houston.Cobs
import Houston.Packet
import Mathlib.Data.List.TakeWhile
import Mathlib.Logic.Function.Basic

/-!
# The firmware: `dashboard/Dashboard.c`

The firmware side of the link, function by function. The state `Firmware` holds
the file-level statics, the `Dashboard_t` instance, and what lies outside the
program: the application's variables, the bytes that have arrived but were not
read, and the trace of what was sent and processed.

Every function returns `none` where the C code would access a buffer outside its
bounds or dereference a null pointer. The transport functions are code of the
application: a `Transport` says how they behave during one call, and the results
of the development hold for every transport. They are called through the three
pointers of an instance, which are null until `Dashboard_Init` has set them: where the
model sends or polls, it is the model of an instance that was initialised, as every
instance in use is (`Reachable.initialised`).
-/

namespace Houston

/-! ## C strings -/

/-- A NUL-terminated string: its bytes in front of the terminator. -/
structure CString where
  /-- the bytes in front of the NUL -/
  bytes : List Byte
  /-- none of them is NUL -/
  nul_free : 0 ∉ bytes

/-- `strlen` -/
def CString.strlen (s : CString) : ℕ := s.bytes.length

/-- A string literal, as a C string: it ends at its first NUL. -/
def literal (s : String) : CString where
  bytes := (ascii s).takeWhile (· ≠ 0)
  nul_free h := by simpa using List.mem_takeWhile_imp h

/-! ## The state -/

/-- `Dashboard_Status_t` -/
inductive DashboardStatus where
  | ok
  | errInvalidArg
  | errSendFail
  | errNoSpace
  | errCobsFailed
  deriving DecidableEq, Repr

/-- `Dashboard_Packet_Status_t` -/
inductive DashboardPacketStatus where
  | waiting
  | headerReceived
  | receivingPayload
  | tailReceived
  deriving DecidableEq, Repr

/-- A variable of the application, as a pointer to it names it. -/
abbrev Ptr : Type := ℕ

/-- A function of the application, as a pointer to it names it. -/
abbrev FnPtr : Type := ℕ

/-- `Dashboard_t` -/
structure Dashboard where
  liveDataCount : ℕ
  sendData : Option FnPtr
  readData : Option FnPtr
  hasData : Option FnPtr
  packetStatus : DashboardPacketStatus

/-- An instance that `Dashboard_Init` has not seen. -/
def Dashboard.zero : Dashboard where
  liveDataCount := 0
  sendData := none
  readData := none
  hasData := none
  packetStatus := .waiting

/-- A pointer to a `Dashboard_t`. -/
inductive DashboardPtr where
  | null
  | ref
  deriving DecidableEq

/-- What an observer of the firmware sees: a buffer handed to `sendData`, or a call
of `processPacket` on a packet. -/
inductive Event where
  | sent (frame : List Byte)
  | processed (packet : List Byte)
  deriving DecidableEq

/-- `kAlertBufSize` -/
abbrev kAlertBufSize : ℕ := 100

/-- `kAlertBufCOBSize` -/
abbrev kAlertBufCOBSize : ℕ := 101

/-- `kLiveDataBufSize` -/
abbrev kLiveDataBufSize : ℕ := 5

/-- The statics of the file, one instance, and the world outside. -/
structure Firmware where
  alertBuffer : Buffer Byte kAlertBufSize
  alertBufferCOBS : Buffer Byte kAlertBufCOBSize
  liveDataBuffer : Buffer LiveDataPacket kLiveDataBufSize
  rxBuffer : Buffer Byte kAlertBufCOBSize
  liveDataPtr : Buffer (Option Ptr) kLiveDataBufSize
  dashboard : Dashboard
  /-- the 32 bits at each variable's address -/
  vars : Ptr → BitVec 32
  /-- the bytes that have arrived and were not read -/
  incoming : List Byte
  /-- what was sent and processed so far -/
  trace : List Event

/-- How the application's transport functions behave during one call. What
`sendData` answers may depend on everything that happened before; each of the two
polls of `hasData` answers a status and a count, and never promises a byte that
has not arrived. -/
structure Transport where
  sendData : List Event → List Byte → Bool
  /-- the first or second poll, and the number of unread bytes -/
  hasData : Bool → ℕ → Bool × BitVec 32
  hasData_le : ∀ second unread, (hasData second unread).1 = true →
    (hasData second unread).2.toNat ≤ unread

/-- The transport that reports every byte that has arrived, as far as a `uint32_t`
can. -/
def Transport.exact (sendData : List Event → List Byte → Bool) : Transport where
  sendData := sendData
  hasData _ unread := (true, BitVec.ofNat 32 (min unread (2 ^ 32 - 1)))
  hasData_le := by
    intro _ unread _
    rw [BitVec.toNat_ofNat, Nat.mod_eq_of_lt (by omega)]
    exact min_le_left _ _

/-- The statics as the program starts with them. -/
def Firmware.start (dashboard : Dashboard) (vars : Ptr → BitVec 32) : Firmware where
  alertBuffer := Buffer.replicate kAlertBufSize 0
  alertBufferCOBS := Buffer.replicate kAlertBufCOBSize 0
  liveDataBuffer := Buffer.replicate kLiveDataBufSize ⟨0, 0, 0⟩
  rxBuffer := Buffer.replicate kAlertBufCOBSize 0
  liveDataPtr := Buffer.replicate kLiveDataBufSize none
  dashboard := dashboard
  vars := vars
  incoming := []
  trace := []

/-! ## Sending -/

/-- The end of every sender: encode the first `writeSize` bytes of `alertBuffer`
and hand the frame to `sendData`. -/
def encodeAndSend (io : Transport) (writeSize : ℕ) (w : Firmware) :
    Option (DashboardStatus × Firmware) := do
  let buf ← w.alertBuffer.read? 0 writeSize
  let (status, dest, encodeSize) ← cobsEncode buf w.alertBufferCOBS kAlertBufCOBSize
  let w := { w with alertBufferCOBS := dest }
  if status ≠ .ok then some (.errCobsFailed, w)
  else
    let frame ← w.alertBufferCOBS.read? 0 encodeSize
    let sent := io.sendData w.trace frame
    let w := { w with trace := w.trace ++ [.sent frame] }
    if sent then some (.ok, w) else some (.errSendFail, w)

/-- `copyData` -/
def copyData (io : Transport) (packetHeader : DashboardPacketHeader) (key value : List Byte)
    (keySize valueSize : BitVec 16) (w : Firmware) : Option (DashboardStatus × Firmware) := do
  let buf ← w.alertBuffer.memcpy 0 packetHeader.toBytes
  let buf ← buf.memcpy 12 (key.take keySize.toNat)
  let writeSize := 12 + keySize.toNat
  let buf ← buf.memcpy writeSize (value.take valueSize.toNat)
  let writeSize := writeSize + valueSize.toNat
  let payloadChecksum := crc32 (key.take keySize.toNat) 0
  let payloadChecksum := crc32 (value.take valueSize.toNat) payloadChecksum
  let buf ← buf.memcpy writeSize (wordBytes 4 payloadChecksum)
  encodeAndSend io (writeSize + 4) { w with alertBuffer := buf }

/-- `Dashboard_Alert` -/
def dashboardAlert (io : Transport) (dashboard : DashboardPtr) (str : Option CString)
    (w : Firmware) : Option (DashboardStatus × Firmware) :=
  match str, dashboard with
  | some str, .ref => do
    let strLen := u32 str.strlen
    let header := craftDashboardHeaderPacket PacketID.alert.code (ValueType.string.bits 8) 0
      (BitVec.ofNat 16 strLen)
    let buf ← w.alertBuffer.memcpy 0 header.toBytes
    let buf ← buf.memcpy 12 (str.bytes.take strLen)
    let writeSize := u32 (12 + strLen)
    let payloadChecksum := crc32 (str.bytes.take strLen) 0
    let buf ← buf.memcpy writeSize (wordBytes 4 payloadChecksum)
    encodeAndSend io (u32 (writeSize + 4)) { w with alertBuffer := buf }
  | _, _ => some (.errInvalidArg, w)

/-- What the four `Dashboard_Telemetry_*` functions share behind their argument
checks: the value's bytes go out under its content type. -/
def dashboardTelemetry (io : Transport) (contentType : ValueType) (key : CString)
    (value : List Byte) (valueLen : BitVec 16) (w : Firmware) :
    Option (DashboardStatus × Firmware) :=
  let keyLen := BitVec.ofNat 16 key.strlen
  let header := craftDashboardHeaderPacket PacketID.telemetry.code (contentType.bits 8) keyLen
    valueLen
  copyData io header key.bytes value keyLen valueLen w

/-- `Dashboard_Telemetry_Str` -/
def dashboardTelemetryStr (io : Transport) (dashboard : DashboardPtr) (key value : Option CString)
    (w : Firmware) : Option (DashboardStatus × Firmware) :=
  match key, value, dashboard with
  | some key, some value, .ref =>
    dashboardTelemetry io .string key value.bytes (BitVec.ofNat 16 value.strlen) w
  | _, _, _ => some (.errInvalidArg, w)

/-- `Dashboard_Telemetry_Int32` -/
def dashboardTelemetryInt32 (io : Transport) (dashboard : DashboardPtr) (key : Option CString)
    (value : BitVec 32) (w : Firmware) : Option (DashboardStatus × Firmware) :=
  match key, dashboard with
  | some key, .ref => dashboardTelemetry io .int32 key (wordBytes 4 value) 4 w
  | _, _ => some (.errInvalidArg, w)

/-- `Dashboard_Telemetry_Uint32` -/
def dashboardTelemetryUint32 (io : Transport) (dashboard : DashboardPtr) (key : Option CString)
    (value : BitVec 32) (w : Firmware) : Option (DashboardStatus × Firmware) :=
  match key, dashboard with
  | some key, .ref => dashboardTelemetry io .uint32 key (wordBytes 4 value) 4 w
  | _, _ => some (.errInvalidArg, w)

/-- `Dashboard_Telemetry_Float`; `value` stands for the 32 bits of the `float`. -/
def dashboardTelemetryFloat (io : Transport) (dashboard : DashboardPtr) (key : Option CString)
    (value : BitVec 32) (w : Firmware) : Option (DashboardStatus × Firmware) :=
  match key, dashboard with
  | some key, .ref => dashboardTelemetry io .float key (wordBytes 4 value) 4 w
  | _, _ => some (.errInvalidArg, w)

/-! ## The live data table -/

/-- `Dashboard_Init` -/
def dashboardInit (dashboard : DashboardPtr) (sendData readData hasData : Option FnPtr)
    (w : Firmware) : DashboardStatus × Firmware :=
  if dashboard = .null ∨ sendData = none ∨ readData = none ∨ hasData = none then
    (.errInvalidArg, w)
  else
    (.ok, { w with
      dashboard.sendData := sendData
      dashboard.readData := readData
      dashboard.hasData := hasData
      dashboard.liveDataCount := 0
      dashboard.packetStatus := .waiting })

/-- A firmware after a successful `Dashboard_Init`. -/
def Firmware.boot (vars : Ptr → BitVec 32) : Firmware :=
  (dashboardInit .ref (some 0) (some 1) (some 2) (.start .zero vars)).2

/-- `Dashboard_Register_LiveData` -/
def dashboardRegisterLiveData (dashboard : DashboardPtr) (key : BitVec 16) (data : Option Ptr)
    (type : ValueType) (w : Firmware) : Option (DashboardStatus × Firmware) :=
  let count := w.dashboard.liveDataCount
  if dashboard = .null ∨ data = none ∨ count ≥ kLiveDataBufSize then some (.errInvalidArg, w)
  else do
    let entry ← w.liveDataBuffer.get? count
    let buf ← w.liveDataBuffer.set? count
      { entry with packetID := key, valueType := type.bits 16 }
    let ptr ← w.liveDataPtr.set? count data
    some (.ok, { w with
      liveDataBuffer := buf
      liveDataPtr := ptr
      dashboard.liveDataCount := (count + 1) % 2 ^ 16 })

/-- The branches of the response loop: bring a record's value up to date. -/
def loadValue (vars : Ptr → BitVec 32) (ptr : Option Ptr) (entry : LiveDataPacket) :
    Option LiveDataPacket :=
  if entry.valueType = ValueType.float.bits 16 then
    ptr.map fun p => { entry with value := vars p }
  else if entry.valueType = ValueType.bool.bits 16 then
    ptr.map fun p => { entry with value := setBoolByte entry.value (boolByte (vars p)) }
  else if entry.valueType = ValueType.int32.bits 16 then
    ptr.map fun p => { entry with value := vars p }
  else if entry.valueType = ValueType.uint32.bits 16 then
    ptr.map fun p => { entry with value := vars p }
  else some entry

/-- The branches of the modify loop: write a record's value to a variable. -/
def storeValue (vars : Ptr → BitVec 32) (ptr : Option Ptr) (packet : LiveDataPacket) :
    Option (Ptr → BitVec 32) :=
  if packet.valueType = ValueType.float.bits 16 then
    ptr.map fun p => Function.update vars p packet.value
  else if packet.valueType = ValueType.bool.bits 16 then
    ptr.map fun p => Function.update vars p (setBoolByte (vars p) (boolByte packet.value))
  else if packet.valueType = ValueType.int32.bits 16 then
    ptr.map fun p => Function.update vars p packet.value
  else if packet.valueType = ValueType.uint32.bits 16 then
    ptr.map fun p => Function.update vars p packet.value
  else some vars

/-! ## Processing a packet -/

/-- The response loop from entry `i` on, with `k` turns left. -/
def liveDataLoop : ℕ → ℕ → ℕ → Firmware → Option (ℕ × Firmware)
  | 0, _, writeSize, w => some (writeSize, w)
  | k + 1, i, writeSize, w => do
    let entry ← w.liveDataBuffer.get? i
    let ptr ← w.liveDataPtr.get? i
    let entry ← loadValue w.vars ptr entry
    let table ← w.liveDataBuffer.set? i entry
    let buf ← w.alertBuffer.memcpy writeSize entry.toBytes
    liveDataLoop k (i + 1) (writeSize + 8) { w with liveDataBuffer := table, alertBuffer := buf }

/-- `processPacket`, the branch of `ID_Request_LiveData`. -/
def processRequestLiveData (io : Transport) (w : Firmware) :
    Option (DashboardStatus × Firmware) := do
  let (_, w) ← dashboardAlert io .ref (literal "Live Data Requested") w
  let count := w.dashboard.liveDataCount
  let responseHeader := craftDashboardHeaderPacket PacketID.responseLiveData.code
    (ValueType.uint32.bits 8) 0 (BitVec.ofNat 16 (count * 8))
  let buf ← w.alertBuffer.memcpy 0 responseHeader.toBytes
  let (writeSize, w) ← liveDataLoop count 0 12 { w with alertBuffer := buf }
  let payload ← w.alertBuffer.read? 12 (count * 8)
  let buf ← w.alertBuffer.memcpy writeSize (wordBytes 4 (crc32 payload 0))
  encodeAndSend io (writeSize + 4) { w with alertBuffer := buf }

/-- The modify loop from entry `i` on, with `k` turns left. -/
def modifyLoop (io : Transport) (packet : LiveDataPacket) :
    ℕ → ℕ → Firmware → Option Firmware
  | 0, _, w => some w
  | k + 1, i, w => do
    let entry ← w.liveDataBuffer.get? i
    if entry.packetID = packet.packetID then
      if entry.valueType ≠ packet.valueType then
        let (_, w) ← dashboardAlert io .ref (literal "Live Data Type Mismatch") w
        some w
      else
        let ptr ← w.liveDataPtr.get? i
        let vars ← storeValue w.vars ptr packet
        modifyLoop io packet k (i + 1) { w with vars := vars }
    else modifyLoop io packet k (i + 1) w

/-- `processPacket`, the branch of `ID_Modify`. The record is read right behind the
header, whatever sizes the header announces. -/
def processModify (io : Transport) (w : Firmware) : Option (DashboardStatus × Firmware) := do
  let (_, w) ← dashboardAlert io .ref (literal "Live Data Modify Received") w
  let bytes ← w.rxBuffer.read? 12 8
  let w ← modifyLoop io (LiveDataPacket.ofBytes bytes) w.dashboard.liveDataCount 0 w
  some (.ok, w)

/-- The packet that `rxBuffer` holds, by the sizes in its header. -/
def Firmware.packet (w : Firmware) : List Byte :=
  w.rxBuffer.data.take (12 + payloadSize w.rxBuffer.data + 4)

/-- `processPacket` -/
def processPacket (io : Transport) (w : Firmware) : Option (DashboardStatus × Firmware) := do
  let w := { w with trace := w.trace ++ [.processed w.packet] }
  let bytes ← w.rxBuffer.read? 0 12
  let header := DashboardPacketHeader.ofBytes bytes
  if header.packetType = PacketID.requestLiveData.code then processRequestLiveData io w
  else if header.packetType = PacketID.modify.code then processModify io w
  else some (.ok, w)

/-! ## Receiving -/

/-- `readData(&rxBuffer[off], n)`: the next `n` bytes, as far as they have arrived. -/
def readData (off n : ℕ) (w : Firmware) : Option Firmware := do
  let buf ← w.rxBuffer.memcpy off (w.incoming.take n)
  some { w with rxBuffer := buf, incoming := w.incoming.drop n }

/-- `Dashboard_Update` in `WAITING`, with a header to read. -/
def receiveHeader (io : Transport) (w : Firmware) : Option Firmware := do
  let w ← readData 0 12 w
  let bytes ← w.rxBuffer.read? 0 12
  let header := DashboardPacketHeader.ofBytes bytes
  if crc16 (bytes.take 10) 0 = header.checksum then
    let totalPacketSize := 12 + header.payloadKeySize.toNat + header.payloadValueSize.toNat + 4
    if totalPacketSize < kAlertBufCOBSize then
      let (_, w) ← dashboardAlert io .ref (literal "Received packet header") w
      some { w with dashboard.packetStatus := .headerReceived }
    else
      let (_, w) ← dashboardAlert io .ref (literal "Received packet too large") w
      some w
  else some w

/-- `Dashboard_Update` in `HEADER_RECEIVED`, with the rest of the packet to read.
The result says whether to go on to `processPacket`. -/
def receivePayload (io : Transport) (keySize valueSize : ℕ) (w : Firmware) :
    Option (Bool × Firmware) := do
  let w ← readData 12 (keySize + valueSize + 4) w
  let key ← w.rxBuffer.read? 12 keySize
  let value ← w.rxBuffer.read? (12 + keySize) valueSize
  let tail ← w.rxBuffer.read? (12 + (keySize + valueSize)) 4
  let payloadChecksum := crc32 value (crc32 key 0)
  let w := { w with dashboard.packetStatus := .waiting }
  let (_, w) ← dashboardTelemetryUint32 io .ref (literal "CalculuatedCRC") payloadChecksum w
  let (_, w) ← dashboardTelemetryUint32 io .ref (literal "ReceivedCRC") (wordAt 32 4 tail 0) w
  if payloadChecksum = wordAt 32 4 tail 0 then
    let (_, w) ← dashboardAlert io .ref (literal "Processing packet") w
    some (true, w)
  else
    let (_, w) ← dashboardAlert io .ref (literal "Payload checksum mismatch") w
    some (false, w)

/-- The first half of `Dashboard_Update`: the poll for a header. -/
def pollHeader (io : Transport) (w : Firmware) : Option Firmware :=
  let status := (io.hasData false w.incoming.length).1
  let count := (io.hasData false w.incoming.length).2
  if w.dashboard.packetStatus = .waiting ∧ status = true ∧ count.toNat > 12 then
    receiveHeader io w
  else some w

/-- The second half of `Dashboard_Update`: the poll for the rest of the packet. -/
def pollPayload (io : Transport) (w : Firmware) : Option (Bool × Firmware) :=
  if w.dashboard.packetStatus = .headerReceived then do
    let status := (io.hasData true w.incoming.length).1
    let count := (io.hasData true w.incoming.length).2
    let bytes ← w.rxBuffer.read? 0 12
    let header := DashboardPacketHeader.ofBytes bytes
    let expectedSize := header.payloadKeySize.toNat + header.payloadValueSize.toNat + 4
    if status = true ∧ count.toNat ≥ expectedSize then
      receivePayload io header.payloadKeySize.toNat header.payloadValueSize.toNat w
    else some (false, w)
  else some (false, w)

/-- `Dashboard_Update` up to its call of `processPacket`; the result says whether
it comes to that. -/
def dashboardReceive (io : Transport) (w : Firmware) : Option (Bool × Firmware) := do
  let w ← pollHeader io w
  pollPayload io w

/-- `Dashboard_Update` -/
def dashboardUpdate (io : Transport) (dashboard : DashboardPtr) (w : Firmware) :
    Option (DashboardStatus × Firmware) :=
  match dashboard with
  | .null => some (.errInvalidArg, w)
  | .ref => do
    let (process, w) ← dashboardReceive io w
    if process then processPacket io w else some (.ok, w)

end Houston
