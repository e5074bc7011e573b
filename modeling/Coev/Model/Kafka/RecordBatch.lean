import Coev.Model.Kafka.Compression
import Coev.Model.Kafka.PacketDecoder
import Coev.Model.Kafka.PacketEncoder

/-! # `Record` and `RecordHeader`

A record is a section under a variable-length field: an attribute byte, two varints, the key, the
value and the headers. It is decoded in place, so a failing decode leaves what it read behind.
-/

namespace Coev.Kafka

open PacketEncoder PacketDecoder DecodeInto

structure RecordHeader where
  key : Bytes := []
  value : Bytes := []
deriving DecidableEq, Repr, Inhabited

/-- The members of `Record`; the durations are counts of milliseconds. -/
structure Record where
  headers : List RecordHeader := []
  attributes : Int8 := 0
  timestampDelta : Int64 := 0
  offsetDelta : Int64 := 0
  key : Bytes := []
  value : Bytes := []
  length : VariantLengthField := {}
deriving DecidableEq, Repr, Inhabited

/-- `max_size()` of `std::vector<RecordHeader>`, whose elements take 80 bytes. -/
def maxHeaders : ℕ := 0x7FFFFFFFFFFFFFFF / 80

namespace RecordHeader

def encode (h : RecordHeader) : Encode Unit := do
  failWith (-1) (putVariantBytes h.key)
  failWith (-1) (putVariantBytes h.value)

def decode : DecodeInto RecordHeader Unit := do
  let key ← failWith (-1) (read getVariantBytes)
  update ({ · with key })
  let value ← failWith (-1) (read getVariantBytes)
  update ({ · with value })

end RecordHeader

namespace Record

/-- The section under the length field. -/
def encodeBody (r : Record) : Encode Unit := do
  putInt8 r.attributes
  putVariant r.timestampDelta
  putVariant r.offsetDelta
  failWith (-1) (putVariantBytes r.key)
  failWith (-1) (putVariantBytes r.value)
  putVariant (Int64.ofNat r.headers.length)
  r.headers.forM fun h => failWith (-1) h.encode

/-- `Record::encode`; `m_length` is mutable and comes back with the record. -/
def encode (r : Record) : Encode Record := do
  let (field, _) ← enclose (.variantLength r.length) r.encodeBody
  return match field with
    | .variantLength length => { r with length }
    | _ => r

/-- `m_headers.resize(numHeaders)` and the loop over the headers. -/
def decodeHeaders (numHeaders : Int64) : DecodeInto Record Unit :=
  if numHeaders.toInt > maxHeaders then faultWith (.thrown .lengthError)
  else do
    update fun r => { r with headers := resize numHeaders.toInt.toNat {} r.headers }
    part headers (fun headers r => { r with headers })
      (fun (headers, pd) => each (failWith (-1) RecordHeader.decode) headers pd)

/-- What is read between `push` and `pop`. -/
def decodeBody : DecodeInto Record Unit := do
  let attributes ← failWith (-1) (readOr ({ · with attributes := -1 }) getInt8)
  update ({ · with attributes })
  let timestampDelta ← failWith (-1) (read getVariant)
  update ({ · with timestampDelta })
  let offsetDelta ← failWith (-1) (readOr ({ · with offsetDelta := -1 }) getVariant)
  update ({ · with offsetDelta })
  let key ← failWith (-1) (read getVariantBytes)
  update ({ · with key })
  let value ← failWith (-1) (read getVariantBytes)
  update ({ · with value })
  let numHeaders ← failWith (-1) (read getVariant)
  if 0 ≤ numHeaders then decodeHeaders numHeaders

def decode : DecodeInto Record Unit := do
  let field ← failWith (-1) (read (push (.variantLength {})))
  update fun r => match field with
    | .variantLength length => { r with length }
    | _ => r
  decodeBody
  read pop

end Record

end Coev.Kafka

/-! ## `Timestamp` and `RecordBatch`

A batch is a section under a length field that holds a section under a CRC. The records inside are
encoded on their own, concatenated and compressed. Encoding and decoding drop most of the error codes
they meet, and decoding reads both timestamps into temporaries.
-/

namespace Coev.Kafka

open PacketEncoder PacketDecoder DecodeInto

/-- `Timestamp`: a `system_clock` time point, in nanoseconds since the epoch. -/
structure Timestamp where
  time : Int64 := 0
deriving DecidableEq, Repr, Inhabited

namespace Timestamp

def encode (t : Timestamp) : Encode Unit :=
  if 0 ≤ t.time then putInt64 (t.time / 1000000)
  else if t.time ≠ 0 then failCode ErrEncodeError
  else putInt64 (-1)

/-- The time point for a count of milliseconds; its products wrap. -/
def ofMillis (millis : Int64) : Timestamp :=
  ⟨if 0 ≤ millis then millis / 1000 * 1000000000 + millis % 1000 * 1000000 else 0⟩

def decode : DecodeInto Timestamp Unit := do
  let millis ← read getInt64
  update fun _ => ofMillis millis

end Timestamp

/-- The members of `RecordBatch`, without the compression level, which nothing uses. -/
structure RecordBatch where
  version : Int8 := 2
  codec : CompressionCodec := .None
  firstOffset : Int64 := 0
  partitionLeaderEpoch : Int32 := 0
  lastOffsetDelta : Int32 := 0
  firstTimestamp : Timestamp := {}
  maxTimestamp : Timestamp := {}
  producerId : Int64 := -1
  producerEpoch : Int16 := -1
  firstSequence : Int32 := -1
  control : Bool := false
  logAppendTime : Bool := false
  partialTrailingRecord : Bool := false
  isTransactional : Bool := false
  compressedRecords : Bytes := []
  recordsLen : ℕ := 0
  records : List Record := []
deriving DecidableEq, Repr, Inhabited

def recordBatchOverhead : Int32 := 49

namespace RecordBatch

def computeAttributes (b : RecordBatch) : Int16 :=
  (b.codec.toInt8.toInt16 &&& 0x07) ||| (if b.control then 0x20 else 0) ||| (if b.logAppendTime then 0x08 else 0) |||
    (if b.isTransactional then 0x10 else 0)

/-- `coev::kafka::encode(record, raw)` for each record, the results dropped: a record that fails adds
nothing. The records come back with the lengths encoding left in them; a length measured before a
failure is not kept, since the next pass measures it again. -/
def encodeRecords : List Record → Except Failure (Bytes × List Record)
  | [] => .ok ([], [])
  | r :: rest =>
    match Kafka.encode false Record.encode r with
    | .error (.fault f) => .error (.fault f)
    | .error (.code _) => do
      let (others, records) ← encodeRecords rest
      return (others, r :: records)
    | .ok (bytes, r) => do
      let (others, records) ← encodeRecords rest
      return (bytes ++ others, r :: records)

/-- The record section: the cached bytes, or the records encoded and compressed. -/
def section_ (library : CompressionLibrary) (b : RecordBatch) : Except Failure (Bytes × List Record) :=
  if b.compressedRecords.isEmpty then do
    let (plain, records) ← encodeRecords b.records
    return (library.compressed b.codec plain, records)
  else return (b.compressedRecords, b.records)

/-- What the CRC covers, given the record section. -/
def encodeCovered (b : RecordBatch) (section_ : Bytes) : Encode Unit := do
  putInt16 b.computeAttributes
  putInt32 b.lastOffsetDelta
  ignoreCode () b.firstTimestamp.encode
  ignoreCode () b.maxTimestamp.encode
  putInt64 b.producerId
  putInt16 b.producerEpoch
  putInt32 b.firstSequence
  putArrayLength (Int32.ofNat b.records.length)
  ignoreCode () (putRawBytes section_)

/-- `RecordBatch::encode`; the mutable lengths of the records come back with the batch. -/
def encode (library : CompressionLibrary) (b : RecordBatch) : Encode RecordBatch :=
  if b.version ≠ 2 then failCode ErrUnsupportedRecordBatchVersion
  else do
    putInt64 b.firstOffset
    let (_, _, records) ← enclose (.length {}) do
      putInt32 b.partitionLeaderEpoch
      putInt8 b.version
      enclose (.crc32 ⟨.CrcCastagnoli⟩) (match b.section_ library with
        | .error failure => throw failure
        | .ok (section_, records) => do
          b.encodeCovered section_
          return records)
    return { b with records }

/-- `decode(buf, inputs)` over a vector of records; offsets into `buf` are `int`. -/
def decodeRecords (buf : Bytes) : EStateM Failure (List Record) Unit := fun records =>
  if buf.isEmpty then .ok () records
  else if int32Max < buf.length then .error (.fault .overflow) records
  else
    match each Record.decode records { raw := buf } with
    | .error (.code _) (records, _) => .error (.code ErrDecodeError) records
    | .error (.fault f) (records, _) => .error (.fault f) records
    | .ok () (records, pd) =>
      if pd.offset ≠ buf.length then .error (.fault (.thrown .packetError)) records else .ok () records

/-- The loop over `num_record`: every round decodes all the records again and drops the result. -/
def decodeRounds (buf : Bytes) : ℕ → EStateM Failure (List Record) Unit
  | 0 => return ()
  | n + 1 => do
    ignoreCode () (decodeRecords buf)
    decodeRounds buf n

/-- The `try` block: only a `runtime_error` is caught. -/
def decodeSection (buf : Bytes) (numRecord : ℕ) : EStateM Failure RecordBatch Unit := fun b =>
  match decodeRounds buf numRecord b.records with
  | .ok () records => .ok () { b with records }
  | .error (.fault (.thrown (.runtimeError what))) records =>
    if 1 < (what.splitOn "InsufficientData").length then
      .ok () { b with partialTrailingRecord := true, records := [] }
    else .ok () { b with records }
  | .error failure records => .error failure { b with records }

/-- What is read behind the attributes, up to the number of records. -/
def decodeNumRecord : DecodeInto RecordBatch Int32 := do
  let lastOffsetDelta ← ignoreCode (-1) (read getInt32)
  update ({ · with lastOffsetDelta })
  ignoreCode () (part firstTimestamp (fun _ b => b) Timestamp.decode)
  ignoreCode () (part maxTimestamp (fun _ b => b) Timestamp.decode)
  let producerId ← ignoreCode (-1) (read getInt64)
  update ({ · with producerId })
  let producerEpoch ← ignoreCode (-1) (read getInt16)
  update ({ · with producerEpoch })
  let firstSequence ← ignoreCode (-1) (read getInt32)
  update ({ · with firstSequence })
  fun (b, pd) => ignoreCode (if pd.flexible = 0 then -1 else 0) (read getArrayLength) (b, pd)

/-- What is read under the CRC in front of the record section: the number of records. -/
def decodeCovered : DecodeInto RecordBatch Int32 := do
  let attributes ← ignoreCode (-1) (read getInt16)
  update fun b => { b with
    codec := .ofAttributes attributes, control := attributes &&& 0x20 ≠ 0, logAppendTime := attributes &&& 0x08 ≠ 0,
    isTransactional := attributes &&& 0x10 ≠ 0 }
  decodeNumRecord

/-- `m_records.resize(num_record)`, unless the count is negative. -/
def withRoom (numRecord : Int32) (b : RecordBatch) : RecordBatch :=
  if 0 ≤ numRecord then { b with records := resize numRecord.toInt.toNat {} b.records } else b

/-- `getRawBytes(batch_len - RECORD_BATCH_OVERHEAD, view)`; the difference is an `int`. -/
def getRecordSection (batchLen : Int32) : Decode Bytes :=
  if batchLen.toInt - recordBatchOverhead.toInt < -2 ^ 31 then faultWith .overflow
  else getRawBytes (batchLen - recordBatchOverhead)

/-- The record section is decompressed and decoded. -/
def decodeContents (library : CompressionLibrary) (recBuffer : Bytes) (numRecord : Int32) :
    EStateM Failure RecordBatch Unit := fun b =>
  let decompressed := library.decompressed b.codec recBuffer
  decodeSection decompressed numRecord.toInt.toNat { b with recordsLen := decompressed.length }

/-- What is read in front of the CRC: the length of the batch and its version. -/
def decodeFrame : DecodeInto RecordBatch (Int32 × Int8) := do
  let firstOffset ← readOr ({ · with firstOffset := -1 }) getInt64
  update ({ · with firstOffset })
  let batchLen ← read getInt32
  let partitionLeaderEpoch ← readOr ({ · with partitionLeaderEpoch := -1 }) getInt32
  update ({ · with partitionLeaderEpoch })
  let version ← readOr ({ · with version := -1 }) getInt8
  update ({ · with version })
  return (batchLen, version)

/-- The record section is taken, the CRC popped, the section decoded. -/
def decodeRecordSection (library : CompressionLibrary) (batchLen numRecord : Int32) : DecodeInto RecordBatch Unit := do
  let recBuffer ← read (getRecordSection batchLen)
  ignoreCode () (read PacketDecoder.pop)
  onObject (decodeContents library recBuffer numRecord)

/-- What is read from the CRC on. -/
def decodeChecked (library : CompressionLibrary) (batchLen : Int32) : DecodeInto RecordBatch Unit := do
  let _ ← ignoreCode (.crc32 ⟨.CrcCastagnoli⟩) (read (PacketDecoder.push (.crc32 ⟨.CrcCastagnoli⟩)))
  let numRecord ← decodeCovered
  update (withRoom numRecord)
  decodeRecordSection library batchLen numRecord

/-- `RecordBatch::decode`. -/
def decode (library : CompressionLibrary) : DecodeInto RecordBatch Unit := do
  let (batchLen, version) ← decodeFrame
  if version ≠ 2 then faultWith (.thrown (.runtimeError "unsupported record batch version"))
  else decodeChecked library batchLen

end RecordBatch

end Coev.Kafka

/-! ## Legacy messages

A message set is a list of blocks, a block a message with its offset, and a compressed message holds a
message set again.
-/

namespace Coev.Kafka

/-- `MessageBlock`, over the type of its message. -/
structure MessageBlockOf (M : Type) where
  offset : Int64 := 0
  message : M

/-- `MessageSet`, over the type of its messages. -/
structure MessageSetOf (M : Type) where
  partialTrailingMessage : Bool := false
  overflowMessage : Bool := false
  messages : List (MessageBlockOf M) := []

/-- What is read of a `Message` besides its encoding. -/
structure Message where
  codec : CompressionCodec := .None
  logAppendTime : Bool := false
  key : Bytes := []
  value : Bytes := []
  messageSet : Option (MessageSetOf Message) := none
  version : Int8 := 0
  timestamp : Timestamp := {}

abbrev MessageBlock := MessageBlockOf Message
abbrev MessageSet := MessageSetOf Message

def MessageBlock.messages (block : MessageBlock) : List MessageBlock :=
  match block.message.messageSet with
  | some set => set.messages
  | none => [block]

end Coev.Kafka

/-! ## `Records`

Either a message set or a record batch, or neither.
-/

namespace Coev.Kafka

/-- `Records`; a type without its contents is as good as an unknown one everywhere. -/
inductive Records where
  | unknown
  | legacy (messageSet : MessageSet)
  | batch (recordBatch : RecordBatch)

def Records.numRecords : Records → Except KError ℕ
  | .unknown => .error (-1)
  | .legacy messageSet => .ok messageSet.messages.length
  | .batch recordBatch => .ok recordBatch.records.length

/-- The out-parameter of `is_partial`; the only caller drops its code. -/
def Records.isPartial : Records → Bool
  | .unknown => false
  | .legacy messageSet => messageSet.partialTrailingMessage
  | .batch recordBatch => recordBatch.partialTrailingRecord

end Coev.Kafka

/-! ## Control records

The only record of a control batch says by its key how a transaction ended. The value is read when
there is one, and has to repeat the version of the key.
-/

namespace Coev.Kafka

open PacketDecoder ByteString

inductive ControlRecordType where
  | ControlRecordAbort
  | ControlRecordCommit
  | ControlRecordUnknown
deriving DecidableEq, Repr

/-- `ControlRecord`; a value that is not read leaves no epoch. -/
structure ControlRecord where
  version : Int16
  coordinatorEpoch : Option Int32 := none
  type : ControlRecordType
deriving DecidableEq, Repr

namespace ControlRecordType

/-- The `switch` of `decode`. -/
def ofInt16 (recordType : Int16) : ControlRecordType :=
  if recordType = 0 then ControlRecordAbort else if recordType = 1 then ControlRecordCommit else ControlRecordUnknown

/-- The `switch` of `encode`. -/
def toInt16 : ControlRecordType → Int16
  | ControlRecordAbort => 0
  | ControlRecordCommit => 1
  | ControlRecordUnknown => 128

end ControlRecordType

namespace ControlRecord

def decodeKey : Decode ControlRecord := do
  let version ← failWith ErrDecodeError getInt16
  let recordType ← failWith ErrDecodeError getInt16
  return { version, type := .ofInt16 recordType }

def decodeValue (control : ControlRecord) : Decode ControlRecord := do
  let version ← failWith ErrDecodeError getInt16
  if version ≠ control.version then failCode ErrDecodeError
  else
    let coordinatorEpoch ← failWith ErrDecodeError getInt32
    return { control with coordinatorEpoch := some coordinatorEpoch }

/-- What `ControlRecord::encode` writes into the key. -/
def encodeKey (version : Int16) (type : ControlRecordType) : Bytes :=
  bigEndian 2 version.toUInt16.toNat ++ bigEndian 2 type.toInt16.toUInt16.toNat

/-- What `ControlRecord::encode` writes into the value, unless the type is unknown. -/
def encodeValue (version : Int16) (coordinatorEpoch : Int32) : Bytes :=
  bigEndian 2 version.toUInt16.toNat ++ bigEndian 4 coordinatorEpoch.toUInt32.toNat

/-- `ControlRecord::decode`. -/
def decode (key value : Bytes) : EStateM.Result Failure PacketDecoder ControlRecord :=
  match decodeKey { raw := key } with
  | .error e pd => .error e pd
  | .ok control pd =>
    if control.type ≠ .ControlRecordUnknown ∧ 0 < value.length then decodeValue control { raw := value }
    else .ok control pd

end ControlRecord

/-- `Records::get_control_record` of a record batch. -/
def RecordBatch.getControlRecord (batch : RecordBatch) : Except Failure ControlRecord :=
  match batch.records with
  | [] => .error (.code (-1))
  | record :: _ =>
    match ControlRecord.decode record.key record.value with
    | .error e _ => .error e
    | .ok control _ => .ok control

end Coev.Kafka
