import Coev.Model.Kafka.ProducerMessage

/-! # `ProduceSet`

The messages that a broker producer gathers for one request, by topic and partition, and the records made of
them. The sizes are `int`s, and a `size_t` that is added to one wraps.
-/

namespace Coev.Kafka

namespace Timestamp

/-- `from_time_t(ms / 1000) + milliseconds(ms % 1000)` for the milliseconds since the epoch. -/
def truncated (t : Timestamp) : Timestamp :=
  let ms := t.time / 1000000
  ⟨ms / 1000 * 1000000000 + ms % 1000 * 1000000⟩

/-- `duration_cast<milliseconds>(later - earlier)`. -/
def millisSince (later earlier : Timestamp) : Int64 := (later.time - earlier.time) / 1000000

end Timestamp

structure PartitionSet where
  messages : List ProducerMessage := []
  records : Records := .unknown
  bufferBytes : Int32 := 0

structure ProduceSet where
  messages : TopicPartitionMap PartitionSet := ∅
  producerId : Int64 := 0
  producerEpoch : Int16 := 0
  bufferBytes : Int32 := 0
  bufferCount : Int32 := 0

namespace ProduceSet

variable (conf : ProducerConfig)

/-- `ProduceSet(parent)`, given what `get_producer_id` returns. -/
def create (producerId : Int64) (producerEpoch : Int16) : ProduceSet := { producerId, producerEpoch }

/-- The time that `add` takes for a message. -/
def messageTime (now : Timestamp) (msg : ProducerMessage) : Timestamp :=
  (if msg.timestamp = {} then now else msg.timestamp).truncated

/-- The batch of a partition whose first message is `msg`. -/
def newBatch (s : ProduceSet) (msg : ProducerMessage) (timestamp : Timestamp) : RecordBatch :=
  { firstTimestamp := timestamp
    version := 2
    codec := conf.compression
    producerId := s.producerId
    producerEpoch := s.producerEpoch
    firstSequence := if conf.idempotent then msg.sequenceNumber else -1 }

/-- The partition set for the first message of a partition, and the size it starts with. -/
def newPartitionSet (s : ProduceSet) (msg : ProducerMessage) (timestamp : Timestamp) : PartitionSet × Int32 :=
  if conf.version.isAtLeast V0_11_0_0 then ({ records := .batch (newBatch conf s msg timestamp) }, recordBatchOverhead)
  else ({ records := .legacy {} }, 0)

/-- `m_messages[topic][partition] = pset`. -/
def setPartition (s : ProduceSet) (tp : TopicPartition) (pset : PartitionSet) : ProduceSet :=
  { s with messages := s.messages.insert tp pset }

/-- The partition set of a message, the size to begin with, and the set, which has the partition from now on. -/
def partitionSet (s : ProduceSet) (msg : ProducerMessage) (timestamp : Timestamp) : PartitionSet × Int32 × ProduceSet :=
  match s.messages[(msg.topic, msg.partition)]? with
  | some pset => (pset, 0, s)
  | none =>
    let (pset, size) := newPartitionSet conf s msg timestamp
    (pset, size, s.setPartition (msg.topic, msg.partition) pset)

/-- An idempotent producer takes no message numbered before the first one of its batch. -/
def outOfOrder (pset : PartitionSet) (msg : ProducerMessage) : Bool :=
  conf.version.isAtLeast V0_11_0_0 &&
    match pset.records with
    | .batch batch => conf.idempotent && msg.sequenceNumber < batch.firstSequence
    | _ => false

/-- The record of a message in a batch. -/
def recordOf (firstTimestamp : Timestamp) (msg : ProducerMessage) (timestamp : Timestamp) : Record :=
  { key := msg.key
    value := msg.value
    offsetDelta := 0
    timestampDelta := timestamp.millisSince firstTimestamp
    headers := msg.headers }

/-- The block of a message in a message set. -/
def blockOf (msg : ProducerMessage) (timestamp : Timestamp) : MessageBlock :=
  let message : Message := { codec := .None, key := msg.key, value := msg.value }
  { message := if conf.version.isAtLeast V0_10_0_0 then { message with timestamp, version := 1 } else message }

/-- The sizes that `add` sums up for a record. -/
def recordSize (msg : ProducerMessage) : ℤ :=
  MaximumRecordOverhead + (msg.key.length + msg.value.length) + (msg.headers.map ProducerMessage.headerSize).sum

/-- The records with those of one more message, and the size of the addition. -/
def appendRecord (records : Records) (msg : ProducerMessage) (timestamp : Timestamp) (size : Int32) : Records × Int32 :=
  if conf.version.isAtLeast V0_11_0_0 then
    match records with
    | .batch batch =>
      (.batch { batch with records := batch.records ++ [recordOf batch.firstTimestamp msg timestamp] },
        size + Int32.ofInt (recordSize msg))
    | other => (other, size)
  else
    match records with
    | .legacy set =>
      (.legacy { set with messages := set.messages ++ [blockOf conf msg timestamp] },
        Int32.ofInt (ProducerMessageOverhead + (msg.key.length + msg.value.length)))
    | other => (other, size)

/-- A message is put into its partition set. -/
def append (s : ProduceSet) (pset : PartitionSet) (size : Int32) (msg : ProducerMessage) (timestamp : Timestamp) :
    ProduceSet :=
  let (records, size) := appendRecord conf pset.records msg timestamp size
  let pset := { messages := pset.messages ++ [msg], records, bufferBytes := pset.bufferBytes + size }
  { s.setPartition (msg.topic, msg.partition) pset with
    bufferBytes := s.bufferBytes + size
    bufferCount := s.bufferCount + 1 }

/-- `add`, with the clock at `now`. -/
def add (now : Timestamp) (s : ProduceSet) (msg : ProducerMessage) : KError × ProduceSet :=
  let timestamp := messageTime now msg
  let (pset, size, s) := partitionSet conf s msg timestamp
  if outOfOrder conf pset msg then (-1, s) else (0, append conf s pset size msg timestamp)

def dropPartition (s : ProduceSet) (topic : Bytes) (partition : Int32) : List ProducerMessage × ProduceSet :=
  match s.messages[(topic, partition)]? with
  | none => ([], s)
  | some pset =>
    (pset.messages, { s with
      messages := s.messages.erase (topic, partition)
      bufferBytes := s.bufferBytes - pset.bufferBytes
      bufferCount := s.bufferCount - Int32.ofNat pset.messages.length })

def wouldOverflow (s : ProduceSet) (msg : ProducerMessage) : Bool :=
  let version := if conf.version.isAtLeast V0_11_0_0 then 2 else 1
  let size := Int32.ofInt (msg.byteSize version)
  if (s.bufferBytes + size).toInt ≥ maxRequestSize - 10 * 1024 then true
  else
    match s.messages[(msg.topic, msg.partition)]? with
    | some pset =>
      if (pset.bufferBytes + size).toInt ≥ conf.maxMessageBytes then true
      else conf.flush.maxMessages > 0 ∧ s.bufferCount.toInt ≥ conf.flush.maxMessages
    | none => conf.flush.maxMessages > 0 ∧ s.bufferCount.toInt ≥ conf.flush.maxMessages

def empty (s : ProduceSet) : Bool := s.bufferCount = 0

def readyToFlush (s : ProduceSet) : Bool :=
  if s.empty then false
  else if conf.flush.frequency = 0 ∧ conf.flush.bytes = 0 ∧ conf.flush.messages = 0 then true
  else if conf.flush.messages > 0 ∧ s.bufferCount.toInt ≥ conf.flush.messages then true
  else conf.flush.bytes > 0 ∧ s.bufferBytes.toInt ≥ conf.flush.bytes

end ProduceSet

end Coev.Kafka
