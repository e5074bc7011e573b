import Coev.Model.Kafka.ProduceSet
import Coev.Model.Kafka.ProtocolBody

/-! # `ProduceRequest` and how a set builds it

The sets and batches of a request are those of the set it is built from. What a failed `assert` stops is a fault.
-/

namespace Coev.Kafka

open PacketEncoder

structure ProduceRequest where
  transactionalId : Bytes := []
  acks : Int16 := 1
  /-- In milliseconds. -/
  timeout : Int64 := 0
  version : Int16 := 0
  records : TopicPartitionMap Records := ∅

namespace ProduceRequest

def addSet (req : ProduceRequest) (tp : TopicPartition) (set : MessageSet) : ProduceRequest :=
  { req with records := req.records.insert tp (.legacy set) }

def addBatch (req : ProduceRequest) (tp : TopicPartition) (batch : RecordBatch) : ProduceRequest :=
  { req with records := req.records.insert tp (.batch batch) }

/-- `emplace_message`, and what is then assigned to the block. Records that are made there have no type, and the
assertion wants that of a message set. -/
def emplaceMessage (req : ProduceRequest) (tp : TopicPartition) (block : MessageBlock) : Except Fault ProduceRequest :=
  match req.records[tp]?.getD .unknown with
  | .legacy set => .ok (req.addSet tp { set with messages := set.messages ++ [block] })
  | .batch _ | .unknown => .error .assertion

/-! ## `encode` -/

/-- The inner maps of a map by topic and partition, in order. -/
def byTopic {α : Type} : List (TopicPartition × α) → List (Bytes × List (Int32 × α))
  | [] => []
  | ((topic, partition), a) :: rest =>
    match byTopic rest with
    | [] => [(topic, [(partition, a)])]
    | (next, partitions) :: others =>
      if topic = next then (topic, (partition, a) :: partitions) :: others
      else (topic, [(partition, a)]) :: (next, partitions) :: others

/-- The entries of the inner maps. -/
def ofTopics {α : Type} (topics : List (Bytes × List (Int32 × α))) : List (TopicPartition × α) :=
  topics.flatMap fun topic => topic.2.map fun partition => ((topic.1, partition.1), partition.2)

variable (library : CompressionLibrary) (encodeMessageSet : MessageSet → Encode MessageSet)

/-- `Records::encode`, given `MessageSet::encode`. -/
def encodeRecords : Records → Encode Records
  | .legacy set => return .legacy (← encodeMessageSet set)
  | .batch batch => return .batch (← batch.encode library)
  | .unknown => failCode (-1)

def encodePartition (partition : Int32 × Records) : Encode (Int32 × Records) := do
  putInt32 partition.1
  let (_, records) ← enclose (.length {}) (encodeRecords library encodeMessageSet partition.2)
  return (partition.1, records)

def encodeTopic (topic : Bytes × List (Int32 × Records)) : Encode (Bytes × List (Int32 × Records)) := do
  putString topic.1
  putArrayLength (Int32.ofNat topic.2.length)
  let partitions ← topic.2.mapM (encodePartition library encodeMessageSet)
  return (topic.1, partitions)

/-- What `encode` writes in front of the topics. -/
def encodeHeader (req : ProduceRequest) (topics : ℕ) : Encode Unit := do
  inVersions (3 ≤ req.version) (putNullableString req.transactionalId)
  putInt16 req.acks
  putDurationMs req.timeout
  putArrayLength (Int32.ofNat topics)

/-- `encode`; what encoding writes into the records comes back with the request. -/
def encode (req : ProduceRequest) : Encode ProduceRequest := do
  encodeHeader req (byTopic req.records.toList).length
  let topics ← (byTopic req.records.toList).mapM (encodeTopic library encodeMessageSet)
  return { req with records := (ofTopics topics).foldl (fun m entry => m.insert entry.1 entry.2) ∅ }

end ProduceRequest

namespace ProduceSet

variable (conf : ProducerConfig)

/-- The version of the request. -/
def requestVersion : Int16 :=
  if conf.version.isAtLeast V2_1_0_0 then 7
  else if conf.version.isAtLeast V2_0_0_0 then 6
  else if conf.version.isAtLeast V1_0_0_0 then 5
  else if conf.version.isAtLeast V0_11_0_0 then 3
  else if conf.version.isAtLeast V0_10_0_0 then 2
  else 0

def isTransactional : Bool := !conf.transactionID.isEmpty

/-- The greatest timestamp delta of some records, which is not negative. -/
def maxTimestampDelta (records : List Record) : Int64 :=
  records.foldl (fun greatest record => if greatest < record.timestampDelta then record.timestampDelta else greatest) 0

/-- What `build_request` writes into a batch. -/
def finishBatch (batch : RecordBatch) : RecordBatch :=
  let batch :=
    if batch.records.isEmpty then batch
    else { batch with
      lastOffsetDelta := Int32.ofNat (batch.records.length - 1)
      records := batch.records.mapIdx fun i record => { record with offsetDelta := Int64.ofNat i }
      maxTimestamp := ⟨batch.firstTimestamp.time + maxTimestampDelta batch.records * 1000000⟩ }
  { batch with isTransactional := isTransactional conf }

/-- What `build_request` writes into a message set that is compressed. -/
def numberedSet (set : MessageSet) : MessageSet :=
  if conf.version.isAtLeast V0_10_0_0 then
    { set with messages := set.messages.mapIdx fun i block => { block with offset := Int64.ofNat i } }
  else set

/-- The block for a compressed message set. The value is moved from a string that was moved from before. -/
def compressedBlock (set : MessageSet) : MessageBlock :=
  let set := numberedSet conf set
  let message : Message := { codec := conf.compression, value := [], messageSet := some set }
  { message :=
      if conf.version.isAtLeast V0_10_0_0 then
        { message with version := 1, timestamp := set.messages.head?.elim {} (·.message.timestamp) }
      else message }

/-- A partition goes into the request. -/
def addRecords (req : ProduceRequest) (tp : TopicPartition) : Records → Except Fault ProduceRequest
  | .batch batch => .ok (if 3 ≤ req.version then req.addBatch tp (finishBatch conf batch) else req)
  | .legacy set =>
    if conf.compression = .None then .ok (req.addSet tp set) else req.emplaceMessage tp (compressedBlock conf set)
  | .unknown => .ok req

/-- The request without its records. -/
def emptyRequest : ProduceRequest :=
  { acks := conf.acks
    timeout := conf.timeout
    version := requestVersion conf
    transactionalId :=
      if conf.version.isAtLeast V0_11_0_0 && isTransactional conf then conf.transactionID else [] }

def buildRequest (s : ProduceSet) : Except Fault ProduceRequest :=
  s.messages.toList.foldlM (fun req entry => addRecords conf req entry.1 entry.2.records) (emptyRequest conf)

end ProduceSet

end Coev.Kafka
