import Coev.Model.Kafka.OffsetManager
import Coev.Model.Kafka.ProtocolBody

/-! # Requests to commit offsets

Encoding drops the codes of what it puts, and decoding those of most of what it reads. The topics stand in a hash table, so
the order in which they are encoded is a parameter. An offset manager only ever asks for the entries of `m_blocks`; here its
topics count, with or without entries.
-/

namespace Coev.Kafka

open PacketDecoder PacketEncoder DecodeInto

def ErrConsumerOffsetNotAdvanced : KError := 1013

namespace OffsetCommitRequestBlock

def encode (version : Int16) (block : OffsetCommitRequestBlock) : Encode Unit := do
  putInt64 block.offset
  inVersions (version = 1) (putInt64 block.timestamp)
  inVersions (6 ≤ version) (putInt32 block.committedLeaderEpoch)
  putString block.metadata

def decode (version : Int16) : DecodeInto OffsetCommitRequestBlock Unit := do
  intField getInt64 fun offset block => { block with offset }
  inVersions (version = 1) (intField getInt64 fun timestamp block => { block with timestamp })
  inVersions (6 ≤ version) (intField getInt32 fun committedLeaderEpoch block => { block with committedLeaderEpoch })
  field getString fun metadata block => { block with metadata }

end OffsetCommitRequestBlock

namespace OffsetCommitRequest

/-- `OffsetCommitRequest` with its map of maps. -/
structure Body where
  version : Int16 := 0
  consumerGroup : Bytes := []
  consumerGroupGeneration : Int32 := 0
  consumerId : Bytes := []
  groupInstanceId : Bytes := []
  retentionTime : Int64 := 0
  blocks : Std.ExtTreeMap Bytes (Std.ExtTreeMap Int32 OffsetCommitRequestBlock) := ∅

def IsValidVersion (version : Int16) : Prop := 0 ≤ version ∧ version ≤ 7
deriving Decidable

abbrev Topic := Bytes × Std.ExtTreeMap Int32 OffsetCommitRequestBlock

def encodePartition (version : Int16) (entry : Int32 × OffsetCommitRequestBlock) : Encode Unit := do
  putInt32 entry.1
  ignoreCode () (entry.2.encode version)

def encodeTopic (version : Int16) (entry : Topic) : Encode Unit := do
  ignoreCode () (putString entry.1)
  ignoreCode () (putArrayLength (Int32.ofNat entry.2.size))
  entry.2.toList.forM (encodePartition version)

def encodeHead (r : Body) : Encode Unit := do
  ignoreCode () (putString r.consumerGroup)
  inVersions (1 ≤ r.version) do
    putInt32 r.consumerGroupGeneration
    ignoreCode () (putString r.consumerId)
  inVersions (2 ≤ r.version ∧ r.version ≤ 4) (putInt64 r.retentionTime)
  inVersions (7 ≤ r.version) (ignoreCode () (putNullableString r.groupInstanceId))

/-- `encode`, with the topics in the order in which the table has them. -/
def encode (order : List Topic) (r : Body) : Encode Unit :=
  if ¬ IsValidVersion r.version then failCode ErrConsumerOffsetNotAdvanced
  else do
    encodeHead r
    ignoreCode () (putArrayLength (Int32.ofNat r.blocks.size))
    order.forM (encodeTopic r.version)

def decodeHead (version : Int16) : DecodeInto Body Unit := do
  update ({ · with version })
  field getString fun consumerGroup r => { r with consumerGroup }
  inVersions (1 ≤ version) do
    ignoreCode () (intField getInt32 fun consumerGroupGeneration r => { r with consumerGroupGeneration })
    ignoreCode () (field getString fun consumerId r => { r with consumerId })
  inVersions (2 ≤ version ∧ version ≤ 4) (ignoreCode () (intField getInt64 fun retentionTime r => { r with retentionTime }))
  inVersions (7 ≤ version) (ignoreCode () (field getNullableString fun groupInstanceId r => { r with groupInstanceId }))

/-- A count whose code is looked at only when it is zero; a failing call leaves `-1`. -/
def getCount : Decode Int32 := ignoreCode (-1) getArrayLength

/-- `partitionMap[partition].decode(pd, m_version)`, the code dropped. -/
def nextPartition (version : Int16) : Decode (Int32 × DecodeInto OffsetCommitRequestBlock Unit) := do
  let partition ← getInt32
  return (partition, ignoreCode () (OffsetCommitRequestBlock.decode version))

/-- The loop over the topics, which a topic without partitions ends. -/
def decodeTopics (version : Int16) :
    ℕ → DecodeInto (Std.ExtTreeMap Bytes (Std.ExtTreeMap Int32 OffsetCommitRequestBlock)) Unit
  | 0 => return ()
  | n + 1 => do
    let topic ← read getString
    let partitionCount ← read getCount
    if partitionCount = 0 then return ()
    else do
      entry ∅ topic (entries default (nextPartition version) partitionCount.toInt.toNat)
      decodeTopics version n

/-- What is read behind the number of topics. -/
def decodeTail (version : Int16) (topicCount : Int32) : DecodeInto Body Unit :=
  if topicCount = 0 then return ()
  else do
    update ({ · with blocks := ∅ })
    part Body.blocks (fun blocks r => { r with blocks }) (decodeTopics version topicCount.toInt.toNat)

def decode (version : Int16) : DecodeInto Body Unit := do
  decodeHead version
  let topicCount ← read getCount
  decodeTail version topicCount

end OffsetCommitRequest

end Coev.Kafka

/-! ## Fetching committed offsets

The request and the response. A request without topics asks for all of them, which has a length of its own from version 2 on.
-/

namespace Coev.Kafka

open PacketDecoder PacketEncoder DecodeInto

structure OffsetFetchRequest where
  version : Int16 := 0
  consumerGroup : Bytes := []
  requireStable : Bool := false
  partitions : Std.ExtTreeMap Bytes (List Int32) := ∅

namespace OffsetFetchRequest

def IsValidVersion (version : Int16) : Prop := 0 ≤ version ∧ version ≤ 7
deriving Decidable

def isFlexibleVersion (version : Int16) : Bool := 6 ≤ version

/-- No topics are a length of `-1` from version 2 on. -/
def length (r : OffsetFetchRequest) : Int32 :=
  if r.partitions.isEmpty ∧ 2 ≤ r.version then -1 else Int32.ofNat r.partitions.size

def encodeTopic (version : Int16) (entry : Bytes × List Int32) : Encode Unit := do
  ignoreCode () (putString entry.1)
  putInt32Array entry.2
  inVersions (isFlexibleVersion version) putEmptyTaggedFieldArray

def encodeTopics (r : OffsetFetchRequest) : Encode Unit := do
  putArrayLength r.length
  r.partitions.toList.forM (encodeTopic r.version)

def encodeTail (r : OffsetFetchRequest) : Encode Unit :=
  if r.requireStable ∧ r.version < 7 then
    faultWith (.thrown (.runtimeError "requireStable is not supported. use version 7 or later"))
  else do
    inVersions (7 ≤ r.version) (putBool r.requireStable)
    inVersions (isFlexibleVersion r.version) putEmptyTaggedFieldArray

def encode (r : OffsetFetchRequest) : Encode Unit :=
  if r.version < 0 ∨ 7 < r.version then
    faultWith (.thrown (.runtimeError "invalid or unsupported OffsetFetchRequest version field"))
  else do
    ignoreCode () (putString r.consumerGroup)
    r.encodeTopics
    r.encodeTail

/-- A topic is stored once its partitions and the tagged fields behind them were read. -/
def decodeTopic : DecodeInto (Std.ExtTreeMap Bytes (List Int32)) Unit := do
  let topic ← read getString
  aside [] (do field getInt32Array fun parts _ => parts; read getEmptyTaggedFieldArray) fun parts m => m.insert topic parts

def decodeTopics (version : Int16) : DecodeInto OffsetFetchRequest Unit := do
  let partitionCount ← read getArrayLength
  if partitionCount = 0 ∧ version < 2 ∨ partitionCount < 0 then failCode ErrInvalidPartitions
  else do
    update ({ · with partitions := ∅ })
    part partitions (fun partitions r => { r with partitions }) (rounds decodeTopic partitionCount.toInt.toNat)

def decodeTail (version : Int16) : DecodeInto OffsetFetchRequest Unit := do
  inVersions (7 ≤ version) (ignoreCode () (field getBool fun requireStable r => { r with requireStable }))
  read getEmptyTaggedFieldArray

def decode (version : Int16) : DecodeInto OffsetFetchRequest Unit := do
  update ({ · with version })
  field getString fun consumerGroup r => { r with consumerGroup }
  decodeTopics version
  decodeTail version

end OffsetFetchRequest

structure OffsetFetchResponseBlock where
  offset : Int64 := 0
  leaderEpoch : Int32 := 0
  metadata : Bytes := []
  err : Int16 := 0
deriving DecidableEq, Repr

namespace OffsetFetchResponseBlock

def encode (version : Int16) (block : OffsetFetchResponseBlock) : Encode Unit := do
  putInt64 block.offset
  inVersions (5 ≤ version) (putInt32 block.leaderEpoch)
  ignoreCode () (putString block.metadata)
  putKError block.err
  putEmptyTaggedFieldArray

def decodeLeaderEpoch (version : Int16) : DecodeInto OffsetFetchResponseBlock Unit :=
  if 5 ≤ version then intField getInt32 fun leaderEpoch block => { block with leaderEpoch }
  else update ({ · with leaderEpoch := -1 })

def decode (version : Int16) : DecodeInto OffsetFetchResponseBlock Unit := do
  intField getInt64 fun offset block => { block with offset }
  decodeLeaderEpoch version
  field getString fun metadata block => { block with metadata }
  errField fun err block => { block with err }
  read (ignoreCode () getEmptyTaggedFieldArray)

end OffsetFetchResponseBlock

structure OffsetFetchResponse where
  version : Int16 := 0
  throttleTime : Int64 := 0
  blocks : Std.ExtTreeMap Bytes (Std.ExtTreeMap Int32 OffsetFetchResponseBlock) := ∅
  err : Int16 := 0

namespace OffsetFetchResponse

def IsValidVersion (version : Int16) : Prop := 0 ≤ version ∧ version ≤ 7
deriving Decidable

def isFlexibleVersion (version : Int16) : Bool := 6 ≤ version

def encodeTopic (version : Int16) : Bytes × Std.ExtTreeMap Int32 OffsetFetchResponseBlock → Encode Unit :=
  TopicPartitions.encodeTopic (fun topic => ignoreCode () (putString topic)) (OffsetFetchResponseBlock.encode version)
    putEmptyTaggedFieldArray TopicPartitions.inOrder

def encodeTopics (r : OffsetFetchResponse) : Encode Unit := do
  putArrayLength (Int32.ofNat r.blocks.size)
  r.blocks.toList.forM (encodeTopic r.version)

def encode (r : OffsetFetchResponse) : Encode Unit := do
  inVersions (3 ≤ r.version) (putDurationMs r.throttleTime)
  r.encodeTopics
  inVersions (2 ≤ r.version) (putKError r.err)
  putEmptyTaggedFieldArray

/-- A block is a new object, which the map has once it was decoded. -/
def decodeTopic (version : Int16) : DecodeInto (Std.ExtTreeMap Bytes (Std.ExtTreeMap Int32 OffsetFetchResponseBlock)) Unit :=
  TopicPartitions.decodeTopic (TopicPartitions.decodeNewPartition {} (OffsetFetchResponseBlock.decode version))
    (ignoreCode () getEmptyTaggedFieldArray)

def decodeTopics (version : Int16) : DecodeInto OffsetFetchResponse Unit := do
  let numTopics ← read getArrayLength
  if 0 < numTopics then do
    update ({ · with blocks := ∅ })
    part blocks (fun blocks r => { r with blocks }) (rounds (decodeTopic version) numTopics.toInt.toNat)

def decode (version : Int16) : DecodeInto OffsetFetchResponse Unit := do
  update ({ · with version })
  inVersions (3 ≤ version) (durationField fun throttleTime r => { r with throttleTime })
  decodeTopics version
  inVersions (2 ≤ version) (errField fun err r => { r with err })
  read getEmptyTaggedFieldArray

end OffsetFetchResponse

end Coev.Kafka

/-! ## Listing offsets

The request and the response. Both have their topics in a hash table, and the response its partitions, too, so the orders in
which they are encoded are parameters.
-/

namespace Coev.Kafka

open Std (ExtTreeMap)
open PacketDecoder PacketEncoder DecodeInto

structure OffsetRequestBlock where
  leaderEpoch : Int32 := -1
  timestamp : Int64 := 0
  maxNumOffsets : Int32 := 0
deriving DecidableEq, Repr

namespace OffsetRequestBlock

def encode (version : Int16) (block : OffsetRequestBlock) : Encode Unit := do
  inVersions (4 ≤ version) (putInt32 block.leaderEpoch)
  putInt64 block.timestamp
  inVersions (version = 0) (putInt32 block.maxNumOffsets)

def decode (version : Int16) : DecodeInto OffsetRequestBlock Unit := do
  update ({ · with leaderEpoch := -1 })
  inVersions (4 ≤ version) (intField getInt32 fun leaderEpoch block => { block with leaderEpoch })
  intField getInt64 fun timestamp block => { block with timestamp }
  inVersions (version = 0) (intField getInt32 fun maxNumOffsets block => { block with maxNumOffsets })

end OffsetRequestBlock

structure OffsetRequest where
  version : Int16 := 0
  level : IsolationLevel := .ReadUncommitted
  replicaIdField : Int32 := -1
  isReplicaIdSet : Bool := false
  blocks : ExtTreeMap Bytes (ExtTreeMap Int32 OffsetRequestBlock) := ∅

namespace OffsetRequest

def IsValidVersion (version : Int16) : Prop := 0 ≤ version ∧ version ≤ 5
deriving Decidable

def replicaId (r : OffsetRequest) : Int32 := if r.isReplicaIdSet then r.replicaIdField else -1

def setReplicaId (id : Int32) (r : OffsetRequest) : OffsetRequest := { r with replicaIdField := id, isReplicaIdSet := true }

abbrev Topic := Bytes × ExtTreeMap Int32 OffsetRequestBlock

def encodeTopic (version : Int16) : Topic → Encode Unit :=
  TopicPartitions.encodeTopic putString (OffsetRequestBlock.encode version) (pure ()) TopicPartitions.inOrder

def encodeTopics (order : List Topic) (r : OffsetRequest) : Encode Unit := do
  putArrayLength (Int32.ofNat r.blocks.size)
  order.forM (encodeTopic r.version)

def encodeReplicaId (r : OffsetRequest) : Encode Unit :=
  if r.isReplicaIdSet then putInt32 r.replicaIdField else putInt32 (-1)

/-- `encode`, with the topics in the order in which the table has them. -/
def encode (order : List Topic) (r : OffsetRequest) : Encode Unit := do
  r.encodeReplicaId
  inVersions (2 ≤ r.version) (putBool (r.level = .ReadCommitted))
  encodeTopics order r

/-- Below zero no replica is set. -/
def decodeReplicaId : DecodeInto OffsetRequest Unit :=
  field getInt32 fun replicaID r => if 0 ≤ replicaID then r.setReplicaId replicaID else r

def decodeTopic (version : Int16) : DecodeInto (ExtTreeMap Bytes (ExtTreeMap Int32 OffsetRequestBlock)) Unit :=
  TopicPartitions.decodeTopic (TopicPartitions.decodePartition {} (OffsetRequestBlock.decode version)) (pure ())

/-- Without topics decoding is over before the map is cleared. -/
def decodeTopics (version : Int16) : DecodeInto OffsetRequest Unit := do
  let blockCount ← read getArrayLength
  if blockCount = 0 then return ()
  else do
    update ({ · with blocks := ∅ })
    part blocks (fun blocks r => { r with blocks }) (rounds (decodeTopic version) blockCount.toInt.toNat)

def decode (version : Int16) : DecodeInto OffsetRequest Unit := do
  update ({ · with version })
  decodeReplicaId
  inVersions (2 ≤ version) (field getBool fun tmp r => { r with level := if tmp then .ReadCommitted else .ReadUncommitted })
  decodeTopics version

end OffsetRequest

structure OffsetResponseBlock where
  err : Int16 := 0
  offsets : List Int64 := []
  timestamp : Int64 := 0
  offset : Int64 := 0
  leaderEpoch : Int32 := -1
deriving DecidableEq, Repr

namespace OffsetResponseBlock

/-- What stands behind the error: the offsets of version 0, or the one offset of the others. -/
def encodeOffset (version : Int16) (block : OffsetResponseBlock) : Encode Unit :=
  if version = 0 then putInt64Array block.offsets
  else do
    inVersions (1 ≤ version) do
      putInt64 block.timestamp
      putInt64 block.offset
    inVersions (4 ≤ version) (putInt32 block.leaderEpoch)

def encode (version : Int16) (block : OffsetResponseBlock) : Encode Unit := do
  putKError block.err
  block.encodeOffset version

def decodeOffset (version : Int16) : DecodeInto OffsetResponseBlock Unit :=
  if version = 0 then field getInt64Array fun offsets block => { block with offsets }
  else do
    inVersions (1 ≤ version) do
      intField getInt64 fun timestamp block => { block with timestamp }
      intField getInt64 fun offset block => { block with offset }
      update fun block => { block with offsets := [block.offset] }
    inVersions (4 ≤ version) (intField getInt32 fun leaderEpoch block => { block with leaderEpoch })

def decode (version : Int16) : DecodeInto OffsetResponseBlock Unit := do
  errField fun err block => { block with err }
  decodeOffset version

end OffsetResponseBlock

/-- `OffsetResponse`. Nothing initialises its version. -/
structure OffsetResponse where
  version : Int16
  throttleTime : Int64 := 0
  blocks : ExtTreeMap Bytes (ExtTreeMap Int32 OffsetResponseBlock) := ∅

namespace OffsetResponse

def IsValidVersion (version : Int16) : Prop := 0 ≤ version ∧ version ≤ 5
deriving Decidable

abbrev Topic := Bytes × ExtTreeMap Int32 OffsetResponseBlock

/-- The order in which the table of a topic has its partitions. -/
abbrev OrderOf := Bytes → ExtTreeMap Int32 OffsetResponseBlock → List (Int32 × OffsetResponseBlock)

def encodeTopic (orderOf : OrderOf) (version : Int16) : Topic → Encode Unit :=
  TopicPartitions.encodeTopic putString (OffsetResponseBlock.encode version) (pure ()) orderOf

/-- `encode`, with the topics and the partitions of each in the order in which the tables have them. -/
def encode (order : List Topic) (orderOf : OrderOf) (r : OffsetResponse) : Encode Unit := do
  inVersions (2 ≤ r.version) (putDurationMs r.throttleTime)
  putArrayLength (Int32.ofNat r.blocks.size)
  order.forM (encodeTopic orderOf r.version)

def decodeTopic (version : Int16) : DecodeInto (ExtTreeMap Bytes (ExtTreeMap Int32 OffsetResponseBlock)) Unit :=
  TopicPartitions.decodeTopic (TopicPartitions.decodePartition {} (OffsetResponseBlock.decode version)) (pure ())

/-- The version is not stored. -/
def decode (version : Int16) : DecodeInto OffsetResponse Unit := do
  inVersions (2 ≤ version) (durationField fun throttleTime r => { r with throttleTime })
  let numTopics ← read getArrayLength
  update ({ · with blocks := ∅ })
  reserve numTopics
  part blocks (fun blocks r => { r with blocks }) (rounds (decodeTopic version) numTopics.toInt.toNat)

end OffsetResponse

end Coev.Kafka

/-! ## Adding partitions to a transaction

The request and the response. The topics of the request stand in a hash table, so the order in which they are encoded is a
parameter.
-/

namespace Coev.Kafka.Body

open PacketDecoder PacketEncoder DecodeInto

structure PartitionError where
  partition : Int32 := 0
  err : Int16 := 0
deriving DecidableEq, Repr

namespace PartitionError

def encode (error : PartitionError) : Encode Unit := do
  putInt32 error.partition
  putKError error.err

def decode : DecodeInto PartitionError Unit := do
  intField getInt32 fun partition error => { error with partition }
  errField fun err error => { error with err }

end PartitionError

structure AddPartitionsToTxnRequest where
  version : Int16 := 0
  transactionalId : Bytes := []
  producerId : Int64 := 0
  producerEpoch : Int16 := 0
  topicPartitions : Std.ExtTreeMap Bytes (List Int32) := ∅

namespace AddPartitionsToTxnRequest

def IsValidVersion (version : Int16) : Prop := 0 ≤ version ∧ version ≤ 2
deriving Decidable

abbrev Topic := Bytes × List Int32

def encodeTopic (entry : Topic) : Encode Unit := do
  putString entry.1
  putInt32Array entry.2

/-- `encode`, with the topics in the order in which the table has them. -/
def encode (order : List Topic) (r : AddPartitionsToTxnRequest) : Encode Unit := do
  putString r.transactionalId
  putInt64 r.producerId
  putInt16 r.producerEpoch
  putArrayLength (Int32.ofNat r.topicPartitions.size)
  order.forM encodeTopic

/-- One topic; its partitions are read aside and then moved into the map. -/
def decodeTopic : DecodeInto (Std.ExtTreeMap Bytes (List Int32)) Unit := do
  let topic ← read getString
  field getInt32Array fun partitions m => m.insert topic partitions

/-- The version is not looked at, and the member for it is left alone. -/
def decode (_version : Int16) : DecodeInto AddPartitionsToTxnRequest Unit := do
  field getString fun transactionalId r => { r with transactionalId }
  intField getInt64 fun producerId r => { r with producerId }
  intField getInt16 fun producerEpoch r => { r with producerEpoch }
  let n ← read getArrayLength
  update ({ · with topicPartitions := ∅ })
  part topicPartitions (fun topicPartitions r => { r with topicPartitions }) (rounds decodeTopic n.toInt.toNat)

end AddPartitionsToTxnRequest

structure AddPartitionsToTxnResponse where
  version : Int16 := 0
  throttleTime : Int64 := 0
  errors : Std.ExtTreeMap Bytes (List PartitionError) := ∅

namespace AddPartitionsToTxnResponse

def IsValidVersion (version : Int16) : Prop := 0 ≤ version ∧ version ≤ 2
deriving Decidable

def encodeTopic (entry : Bytes × List PartitionError) : Encode Unit := do
  putString entry.1
  putArrayLength (Int32.ofNat entry.2.length)
  entry.2.forM PartitionError.encode

def encode (r : AddPartitionsToTxnResponse) : Encode Unit := do
  putDurationMs r.throttleTime
  putArrayLength (Int32.ofNat r.errors.size)
  r.errors.toList.forM encodeTopic

def decodeTopic : DecodeInto (Std.ExtTreeMap Bytes (List PartitionError)) Unit := do
  let topic ← read getString
  let m ← read getArrayLength
  entry [] topic (resized {} m PartitionError.decode)

def decode (version : Int16) : DecodeInto AddPartitionsToTxnResponse Unit := do
  update ({ · with version })
  durationField fun throttleTime r => { r with throttleTime }
  let n ← read getArrayLength
  update ({ · with errors := ∅ })
  part errors (fun errors r => { r with errors }) (rounds decodeTopic n.toInt.toNat)

end AddPartitionsToTxnResponse

end Coev.Kafka.Body

/-! ## Committing offsets in a transaction

The request and the response. Encoding drops the codes of what it puts, and decoding those of most of what it reads.
-/

namespace Coev.Kafka.Body

open Std (ExtTreeMap)
open PacketDecoder PacketEncoder DecodeInto

structure PartitionOffsetMetadata where
  partition : Int32 := 0
  offset : Int64 := 0
  leaderEpoch : Int32 := 0
  metadata : Bytes := []
deriving DecidableEq, Repr

namespace PartitionOffsetMetadata

/-- The version is not looked at. -/
def encode (block : PartitionOffsetMetadata) : Encode Unit := do
  putInt32 block.partition
  putInt64 block.offset
  ignoreCode () (putString block.metadata)
  putInt32 block.leaderEpoch

def decode : DecodeInto PartitionOffsetMetadata Unit := do
  ignoreCode () (intField getInt32 fun partition block => { block with partition })
  ignoreCode () (intField getInt64 fun offset block => { block with offset })
  ignoreCode () (field getString fun metadata block => { block with metadata })
  ignoreCode () (intField getInt32 fun leaderEpoch block => { block with leaderEpoch })

end PartitionOffsetMetadata

structure TxnOffsetCommitRequest where
  version : Int16 := 0
  transactionalId : Bytes := []
  groupId : Bytes := []
  producerId : Int64 := 0
  producerEpoch : Int16 := 0
  topics : ExtTreeMap Bytes (List PartitionOffsetMetadata) := ∅

namespace TxnOffsetCommitRequest

def IsValidVersion (version : Int16) : Prop := 0 ≤ version ∧ version ≤ 2
deriving Decidable

def encodeTopic (entry : Bytes × List PartitionOffsetMetadata) : Encode Unit := do
  ignoreCode () (putString entry.1)
  putArrayLength (Int32.ofNat entry.2.length)
  entry.2.forM PartitionOffsetMetadata.encode

def encode (r : TxnOffsetCommitRequest) : Encode Unit := do
  ignoreCode () (putString r.transactionalId)
  ignoreCode () (putString r.groupId)
  putInt64 r.producerId
  putInt16 r.producerEpoch
  putArrayLength (Int32.ofNat r.topics.size)
  r.topics.toList.forM encodeTopic

def decodeTopic : DecodeInto (ExtTreeMap Bytes (List PartitionOffsetMetadata)) Unit := do
  let topic ← read getString
  let m ← read getArrayLength
  entry [] topic (resized {} m PartitionOffsetMetadata.decode)

def decode (version : Int16) : DecodeInto TxnOffsetCommitRequest Unit := do
  update ({ · with version })
  ignoreCode () (field getString fun transactionalId r => { r with transactionalId })
  ignoreCode () (field getString fun groupId r => { r with groupId })
  ignoreCode () (intField getInt64 fun producerId r => { r with producerId })
  ignoreCode () (intField getInt16 fun producerEpoch r => { r with producerEpoch })
  let n ← read OffsetCommitRequest.getCount
  update ({ · with topics := ∅ })
  part topics (fun topics r => { r with topics }) (rounds decodeTopic n.toInt.toNat)

end TxnOffsetCommitRequest

structure TxnOffsetCommitResponse where
  version : Int16 := 0
  throttleTime : Int64 := 0
  topics : ExtTreeMap Bytes (List PartitionError) := ∅

namespace TxnOffsetCommitResponse

def IsValidVersion (version : Int16) : Prop := 0 ≤ version ∧ version ≤ 2
deriving Decidable

def encodeTopic (entry : Bytes × List PartitionError) : Encode Unit := do
  ignoreCode () (putString entry.1)
  putArrayLength (Int32.ofNat entry.2.length)
  entry.2.forM PartitionError.encode

def encode (r : TxnOffsetCommitResponse) : Encode Unit := do
  putDurationMs r.throttleTime
  putArrayLength (Int32.ofNat r.topics.size)
  r.topics.toList.forM encodeTopic

/-- The errors of a topic: room is reserved for so many, which makes none of them, so the first is read out of bounds. -/
def decodeErrors (m : Int32) : DecodeInto (List PartitionError) Unit :=
  if m < 0 then onObject (faultWith (.thrown .lengthError))
  else if m = 0 then return ()
  else onObject (faultWith .outOfBounds)

def decodeTopic : DecodeInto (ExtTreeMap Bytes (List PartitionError)) Unit := do
  let topic ← read (ignoreCode [] getString)
  let m ← read OffsetCommitRequest.getCount
  entry [] topic (decodeErrors m)

def decode (version : Int16) : DecodeInto TxnOffsetCommitResponse Unit := do
  update ({ · with version })
  durationField fun throttleTime r => { r with throttleTime }
  let n ← read OffsetCommitRequest.getCount
  update ({ · with topics := ∅ })
  part topics (fun topics r => { r with topics }) (rounds decodeTopic n.toInt.toNat)

end TxnOffsetCommitResponse

structure OffsetCommitResponse where
  version : Int16 := 0
  throttleTime : Int64 := 0
  errors : ExtTreeMap Bytes (ExtTreeMap Int32 Int16) := ∅

namespace OffsetCommitResponse

def decodePartition : DecodeInto (ExtTreeMap Int32 Int16) Unit := do
  let id ← read getInt32
  let err ← read getKError
  update (·.insert id (Int16.ofInt err))

def decodeTopic : DecodeInto (ExtTreeMap Bytes (ExtTreeMap Int32 Int16)) Unit :=
  TopicPartitions.decodeTopic decodePartition (pure ())

/-- The map is cleared only for topics to come. -/
def decodeTopics (numTopics : Int32) : DecodeInto OffsetCommitResponse Unit :=
  if numTopics ≤ 0 then return ()
  else do
    update ({ · with errors := ∅ })
    reserve numTopics
    part errors (fun errors r => { r with errors }) (rounds decodeTopic numTopics.toInt.toNat)

def decode (version : Int16) : DecodeInto OffsetCommitResponse Unit := do
  update ({ · with version })
  inVersions (3 ≤ version) (durationField fun throttleTime r => { r with throttleTime })
  let numTopics ← read getArrayLength
  decodeTopics numTopics

end OffsetCommitResponse

end Coev.Kafka.Body
