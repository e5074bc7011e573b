import Coev.Model.Kafka.ProtocolBody
import Coev.Model.Kafka.RecordBatch
import Mathlib.Data.List.Sort

/-! # Fetch requests -/

namespace Coev.Kafka

open PacketDecoder PacketEncoder DecodeInto

/-- The members of `FetchRequestBlock` but its version, which nothing reads. -/
structure FetchRequestBlock where
  currentLeaderEpoch : Int32 := 0
  fetchOffset : Int64 := 0
  logStartOffset : Int64 := 0
  maxBytes : Int32 := 0
deriving DecidableEq, Repr

namespace FetchRequestBlock

def encode (version : Int16) (block : FetchRequestBlock) : Encode Unit := do
  inVersions (9 ≤ version) (putInt32 block.currentLeaderEpoch)
  putInt64 block.fetchOffset
  inVersions (1 ≤ version) (putInt64 block.logStartOffset)
  putInt32 block.maxBytes

def decode (version : Int16) : DecodeInto FetchRequestBlock Unit := do
  inVersions (9 ≤ version) (intField getInt32 fun currentLeaderEpoch block => { block with currentLeaderEpoch })
  intField getInt64 fun fetchOffset block => { block with fetchOffset }
  inVersions (1 ≤ version) (intField getInt64 fun logStartOffset block => { block with logStartOffset })
  intField getInt32 fun maxBytes block => { block with maxBytes }

end FetchRequestBlock

/-- `FetchRequest`; the isolation level is the number it is sent as. -/
structure FetchRequest where
  version : Int16 := 0
  maxWaitTime : Int32 := 0
  minBytes : Int32 := 0
  maxBytes : Int32 := 0
  isolation : Int8 := 0
  sessionId : Int32 := 0
  sessionEpoch : Int32 := 0
  blocks : Std.ExtTreeMap Bytes (Std.ExtTreeMap Int32 FetchRequestBlock) := ∅
  forgotten : Std.ExtTreeMap Bytes (List Int32) := ∅
  rackId : Bytes := []

namespace FetchRequest

def IsValidVersion (version : Int16) : Prop := 0 ≤ version ∧ version ≤ 11
deriving Decidable

/-! ## Encoding -/

def encodePartition (version : Int16) (entry : Int32 × FetchRequestBlock) : Encode Unit := do
  putInt32 entry.1
  entry.2.encode version

def encodeTopic (version : Int16) (entry : Bytes × Std.ExtTreeMap Int32 FetchRequestBlock) : Encode Unit := do
  putString entry.1
  putArrayLength (Int32.ofNat entry.2.size)
  entry.2.toList.forM (encodePartition version)

def encodeForgottenTopic (entry : Bytes × List Int32) : Encode Unit := do
  putString entry.1
  putArrayLength (Int32.ofNat entry.2.length)
  entry.2.forM putInt32

/-- What stands in front of the topics. -/
def encodeHead (r : FetchRequest) : Encode Unit := do
  putInt32 (-1)
  putInt32 r.maxWaitTime
  putInt32 r.minBytes
  inVersions (3 ≤ r.version) (putInt32 r.maxBytes)
  inVersions (4 ≤ r.version) (putInt8 r.isolation)
  inVersions (7 ≤ r.version) do
    putInt32 r.sessionId
    putInt32 r.sessionEpoch

def encodeBlocks (r : FetchRequest) : Encode Unit := do
  putArrayLength (Int32.ofNat r.blocks.size)
  r.blocks.toList.forM (encodeTopic r.version)

def encodeForgotten (r : FetchRequest) : Encode Unit := do
  putArrayLength (Int32.ofNat r.forgotten.size)
  r.forgotten.toList.forM encodeForgottenTopic

def encode (r : FetchRequest) : Encode Unit := do
  r.encodeHead
  r.encodeBlocks
  inVersions (7 ≤ r.version) r.encodeForgotten
  inVersions (11 ≤ r.version) (putString r.rackId)

/-! ## Decoding -/

/-- What stands in front of the topics. -/
def decodeHead (version : Int16) : DecodeInto FetchRequest Unit := do
  update ({ · with version })
  let _ ← read getInt32
  intField getInt32 fun maxWaitTime r => { r with maxWaitTime }
  intField getInt32 fun minBytes r => { r with minBytes }
  inVersions (3 ≤ version) (intField getInt32 fun maxBytes r => { r with maxBytes })
  inVersions (4 ≤ version) (field getInt8 fun isolation r => { r with isolation })
  inVersions (7 ≤ version) do
    intField getInt32 fun sessionId r => { r with sessionId }
    intField getInt32 fun sessionEpoch r => { r with sessionEpoch }

def nextPartition (version : Int16) : Decode (Int32 × DecodeInto FetchRequestBlock Unit) := do
  let partition ← getInt32
  return (partition, FetchRequestBlock.decode version)

def nextTopic (version : Int16) : Decode (Bytes × DecodeInto (Std.ExtTreeMap Int32 FetchRequestBlock) Unit) := do
  let topic ← getString
  let partitionCount ← getArrayLength
  return (topic, entries {} (nextPartition version) partitionCount.toInt.toNat)

/-- `pd.getInt32(partitions[j])` for `n` values of `j`: nothing gave the vector its size. -/
def decodeForgottenPartitions (j : ℕ) : ℕ → DecodeInto (List Int32) Unit
  | 0 => return ()
  | n + 1 => do
    onObject fun partitions => if j < partitions.length then .ok () partitions else .error (.fault .outOfBounds) partitions
    intField getInt32 fun partition partitions => partitions.set j partition
    decodeForgottenPartitions (j + 1) n

def nextForgottenTopic : Decode (Bytes × DecodeInto (List Int32) Unit) := do
  let topic ← getString
  let partitionCount ← getArrayLength
  if partitionCount < 0 then failCode (-1)
  return (topic, decodeForgottenPartitions 0 partitionCount.toInt.toNat)

def decodeForgotten : DecodeInto FetchRequest Unit := do
  let forgottenCount ← read getArrayLength
  update ({ · with forgotten := ∅ })
  part forgotten (fun forgotten r => { r with forgotten }) (entries [] nextForgottenTopic forgottenCount.toInt.toNat)

/-- What is read behind the number of topics; a request without topics ends there. -/
def decodeTail (version : Int16) (topicCount : Int32) : DecodeInto FetchRequest Unit :=
  if topicCount = 0 then return ()
  else do
    update ({ · with blocks := ∅ })
    part blocks (fun blocks r => { r with blocks }) (entries ∅ (nextTopic version) topicCount.toInt.toNat)
    inVersions (7 ≤ version) decodeForgotten
    inVersions (11 ≤ version) (field getString fun rackId r => { r with rackId })

def decode (version : Int16) : DecodeInto FetchRequest Unit := do
  decodeHead version
  let topicCount ← read getArrayLength
  decodeTail version topicCount

end FetchRequest

end Coev.Kafka

/-! ## Fetch responses -/

namespace Coev.Kafka

/-- The result of an `int64_t` sum. -/
def int64Sum (n : ℤ) : Except Failure Int64 :=
  if -2 ^ 63 ≤ n ∧ n < 2 ^ 63 then .ok (.ofInt n) else .error (.fault .overflow)

/-- `magic_value`: the magic byte lies behind an offset, a length and four more bytes. -/
def magicValue : Decode Int8 := fun pd =>
  match pd.unread[16]? with
  | none => .error (.code ErrInsufficientData) pd
  | some magic => .ok magic.toInt8 pd

namespace Records

/-- A record batch, decoded into an empty one. -/
def decodeBatch (library : CompressionLibrary) : Decode Records := fun pd =>
  match RecordBatch.decode library ({}, pd) with
  | .ok () (recordBatch, pd) => .ok (.batch recordBatch) pd
  | .error e (_, pd) => .error e pd

/-- `decode` into records of unknown type, given `MessageSet::decode`. -/
def decode (library : CompressionLibrary) (decodeMessageSet : Decode MessageSet) : Decode Records := do
  let magic ← magicValue
  if magic < 2 then return .legacy (← decodeMessageSet)
  else decodeBatch library

/-- `next_offset`; the last offset of a message set without messages is `-1`. -/
def nextOffset : Records → Except Failure Int64
  | .unknown => .error (.code (-1))
  | .legacy messageSet => int64Sum ((messageSet.messages.getLast?.elim (-1) fun block => block.offset.toInt) + 1)
  | .batch recordBatch => do
    let last ← int64Sum (recordBatch.firstOffset.toInt + recordBatch.lastOffsetDelta.toInt)
    int64Sum (last.toInt + 1)

/-- The out-parameter of `is_overflow`. -/
def isOverflow : Records → Bool
  | .legacy messageSet => messageSet.overflowMessage
  | .batch _ | .unknown => false

end Records

structure AbortedTransaction where
  producerId : Int64 := 0
  firstOffset : Int64 := 0
deriving DecidableEq, Repr

/-- What a consumer reads of a `FetchResponseBlock`. -/
structure FetchResponseBlock where
  err : KError := 0
  highWaterMarkOffset : Int64 := 0
  preferredReadReplica : Int32 := -1
  abortedTransactions : List AbortedTransaction := []
  recordsSet : List Records := []
  recordsNextOffset : Int64 := 0
  partial_ : Bool := false

namespace FetchResponseBlock

/-- The loop of `num_records`; an error is returned as if it were the number. -/
def sumRecords : List Records → ℤ → ℤ
  | [], sum => sum
  | records :: rest, sum =>
    match records.numRecords with
    | .error err => err
    | .ok count => sumRecords rest (sum + count)

def numRecords (block : FetchResponseBlock) : ℤ := sumRecords block.recordsSet 0

def isPartial (block : FetchResponseBlock) : Bool :=
  block.partial_ ||
    match block.recordsSet with
    | [records] => records.isPartial
    | _ => false

/-- What the loop of `decode` does with records that it has decoded, and whether it goes on. Records without messages
move the next offset, and are dropped. -/
def takeIn (block : FetchResponseBlock) (records : Records) : Except Failure (FetchResponseBlock × Bool) := do
  let recordsNextOffset ← records.nextOffset
  let n ← records.numRecords.mapError .code
  let recordsSet :=
    if 0 < n ∨ records.isPartial ∧ block.recordsSet.isEmpty then block.recordsSet ++ [records] else block.recordsSet
  return ({ block with recordsNextOffset, recordsSet }, !(records.isPartial || records.isOverflow))

/-- The loop of `decode` over the records of a block, given `Records::decode`, for so many rounds. -/
def decodeRecordsSet (decodeRecords : Decode Records) : ℕ → DecodeInto FetchResponseBlock Unit
  | 0 => fun s => .error (.fault .divergence) s
  | rounds + 1 => fun (block, pd) =>
    if pd.remaining = 0 then .ok () (block, pd)
    else
      match decodeRecords pd with
      | .error (.fault f) pd => .error (.fault f) (block, pd)
      | .error (.code err) pd =>
        if err = ErrInsufficientData then .ok () ({ block with partial_ := true }, pd) else .error (.code err) (block, pd)
      | .ok records pd =>
        match block.takeIn records with
        | .error e => .error e (block, pd)
        | .ok (block, true) => decodeRecordsSet decodeRecords rounds (block, pd)
        | .ok (block, false) => .ok () (block, pd)

/-- `get_aborted_transactions`: sorted by their first offset, where the order of equal ones is left open. -/
def getAbortedTransactions (block : FetchResponseBlock) : List AbortedTransaction :=
  block.abortedTransactions.insertionSort fun a b => a.firstOffset ≤ b.firstOffset

end FetchResponseBlock

/-- What a consumer reads of a `FetchResponse`; the throttle time is a count of milliseconds. -/
structure FetchResponse where
  throttleTime : Int64 := 0
  blocks : Std.ExtTreeMap Bytes (Std.ExtTreeMap Int32 FetchResponseBlock) := ∅

/-- `get_block`: an empty block when there is none. -/
def FetchResponse.getBlock (response : FetchResponse) (topic : Bytes) (partition : Int32) : FetchResponseBlock :=
  match response.blocks[topic]? with
  | none => {}
  | some partitions => partitions[partition]?.getD {}

end Coev.Kafka
