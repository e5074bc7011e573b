import Coev.Model.Kafka.FetchMessages

/-! # `PartitionConsumer`

Parsing a response moves the offset of the consumer past everything that was looked at, delivered or
not. The response is not looked at again, so what parsing moves out of it is not modelled. A sum of
offsets that leaves `int64_t` is a fault.
-/

namespace Coev.Kafka

/-- What parsing reads of `Config.Consumer`. -/
structure ConsumerConfig where
  isolationLevel : IsolationLevel := .ReadUncommitted
  /-- `Fetch.DefaultVal`. -/
  fetchDefault : Int32 := 1024 * 1024
  /-- `Fetch.Max`; no limit when it is not positive. -/
  fetchMax : Int32 := 0

def InvalidPreferredReplicaID : Int32 := -1

/-- The members of `PartitionConsumer` that parsing uses. -/
structure PartitionConsumer where
  conf : ConsumerConfig := {}
  topic : Bytes
  partition : Int32
  highWaterMarkOffset : Int64 := 0
  preferredReadReplica : Int32 := InvalidPreferredReplicaID
  fetchSize : Int32 := 0
  offset : Int64 := 0
  /-- The errors that were sent to the user, or logged. -/
  errors : List KError := []

structure ConsumerMessage where
  headers : List RecordHeader := []
  timestamp : Timestamp
  blockTimestamp : Timestamp := {}
  key : Bytes
  value : Bytes
  topic : Bytes
  partition : Int32
  offset : Int64
deriving DecidableEq, Repr

abbrev Parse := EStateM Failure PartitionConsumer

namespace PartitionConsumer

/-- The result of an `int64_t` operation. -/
def checked (n : ℤ) : Parse Int64 :=
  if -2 ^ 63 ≤ n ∧ n < 2 ^ 63 then return Int64.ofInt n else faultWith .overflow

/-- `m_offset = n`, for the result of an operation. -/
def moveTo (n : ℤ) : Parse Unit := do
  let offset ← checked n
  modify fun pc => { pc with offset }

/-- A message at an offset is delivered when the consumer has not passed it, and the offset moves behind it. -/
def deliver (messages : List ConsumerMessage) (offset : Int64) (build : PartitionConsumer → ConsumerMessage) :
    Parse (List ConsumerMessage) := do
  let pc ← get
  if offset < pc.offset then return messages
  else
    moveTo (offset.toInt + 1)
    return messages ++ [build pc]

/-- `m_offset++` when there are no messages. -/
def skipIfEmpty (messages : List ConsumerMessage) : Parse (List ConsumerMessage) := do
  let pc ← get
  if messages.isEmpty then moveTo (pc.offset.toInt + 1)
  return messages

/-! ## Legacy messages -/

/-- The offset of a message of a block; from version 1 on it is relative to the last one. -/
def messageOffset (block : MessageBlock) (msg : MessageBlock) : Parse Int64 :=
  if 1 ≤ msg.message.version then do
    let last := (block.messages.getLastD block).offset
    let baseOffset ← checked (block.offset.toInt - last.toInt)
    checked (msg.offset.toInt + baseOffset.toInt)
  else return msg.offset

/-- The message handed to the user. -/
def legacyMessage (block msg : MessageBlock) (offset : Int64) (pc : PartitionConsumer) : ConsumerMessage :=
  { timestamp := if 1 ≤ msg.message.version ∧ msg.message.logAppendTime then block.message.timestamp
      else msg.message.timestamp
    blockTimestamp := block.message.timestamp
    key := msg.message.key
    value := msg.message.value
    topic := pc.topic
    partition := pc.partition
    offset }

def parseMessage (block : MessageBlock) (messages : List ConsumerMessage) (msg : MessageBlock) :
    Parse (List ConsumerMessage) := do
  let offset ← messageOffset block msg
  deliver messages offset (legacyMessage block msg offset)

/-- The loop of `ParseMessages` over one block. -/
def parseBlock (messages : List ConsumerMessage) (block : MessageBlock) : Parse (List ConsumerMessage) :=
  block.messages.foldlM (parseMessage block) messages

def parseMessages (messageSet : MessageSet) (messages : List ConsumerMessage) : Parse (List ConsumerMessage) := do
  let messages ← messageSet.messages.foldlM parseBlock messages
  skipIfEmpty messages

/-! ## Record batches -/

/-- The message handed to the user. -/
def recordMessage (batch : RecordBatch) (rec : Record) (offset : Int64) (pc : PartitionConsumer) : ConsumerMessage :=
  { headers := rec.headers
    timestamp := if batch.logAppendTime then batch.maxTimestamp
      else ⟨batch.firstTimestamp.time + rec.timestampDelta * 1000000⟩
    key := rec.key
    value := rec.value
    topic := pc.topic
    partition := pc.partition
    offset }

def parseRecord (batch : RecordBatch) (messages : List ConsumerMessage) (rec : Record) : Parse (List ConsumerMessage) := do
  let offset ← checked (batch.firstOffset.toInt + rec.offsetDelta.toInt)
  deliver messages offset (recordMessage batch rec offset)

/-- `ParseRecords` into an empty vector. -/
def parseRecords (batch : RecordBatch) : Parse (List ConsumerMessage) := do
  let messages ← batch.records.foldlM (parseRecord batch) []
  skipIfEmpty messages

/-- `last_offset` of a batch. -/
def lastOffset (batch : RecordBatch) : Parse Int64 := checked (batch.firstOffset.toInt + batch.lastOffsetDelta.toInt)

/-- The producers of the sorted transactions that begin up to an offset join the aborted ones. -/
def openAborted (lastOffset : Int64) : List AbortedTransaction → Finset Int64 → List AbortedTransaction × Finset Int64
  | [], producers => ([], producers)
  | txn :: rest, producers =>
    if lastOffset < txn.firstOffset then (txn :: rest, producers)
    else openAborted lastOffset rest (insert txn.producerId producers)

/-! ## A response -/

/-- The loop over the records of a block. -/
def parseRecordsSet : List Records → List AbortedTransaction → Finset Int64 → List ConsumerMessage →
    Parse (KError × List ConsumerMessage)
  | [], _, _, messages => return (0, messages)
  | .unknown :: _, _, _, messages => return (ErrUnknownRecordsType, messages)
  | .legacy messageSet :: rest, aborted, producers, messages => do
    let messages ← parseMessages messageSet messages
    parseRecordsSet rest aborted producers messages
  | .batch batch :: rest, aborted, producers, messages => do
    let last ← lastOffset batch
    let opened := openAborted last aborted producers
    let batchMessages ← parseRecords batch
    let pc ← get
    if batch.control then
      match batch.getControlRecord with
      | .error (.code err) => return (err, messages)
      | .error (.fault f) => faultWith f
      | .ok control =>
        if control.type = .ControlRecordAbort then
          parseRecordsSet rest opened.1 (opened.2.erase batch.producerId) messages
        else parseRecordsSet rest opened.1 opened.2 messages
    else if pc.conf.isolationLevel = .ReadCommitted ∧ batch.isTransactional ∧ batch.producerId ∈ opened.2 then
      parseRecordsSet rest opened.1 opened.2 messages
    else parseRecordsSet rest opened.1 opened.2 (messages ++ batchMessages)

def sendError (err : KError) (pc : PartitionConsumer) : PartitionConsumer := { pc with errors := pc.errors ++ [err] }

/-- The fetch size is doubled, up to its limit. -/
def growFetchSize (pc : PartitionConsumer) : PartitionConsumer :=
  let doubled := if pc.fetchSize * 2 < 0 then Int32.maxValue else pc.fetchSize * 2
  { pc with fetchSize := if 0 < pc.conf.fetchMax ∧ pc.conf.fetchMax < doubled then pc.conf.fetchMax else doubled }

/-- A partial message that is known. -/
def parsePartial : Parse Unit := do
  let pc ← get
  if 0 < pc.conf.fetchMax ∧ pc.fetchSize = pc.conf.fetchMax then
    modify (sendError ErrMessageTooLarge)
    moveTo (pc.offset.toInt + 1)
  else modify growFetchSize

/-- A partial message moves the offset to the next one of the block. -/
def skipToNext (block : FetchResponseBlock) (pc : PartitionConsumer) : PartitionConsumer :=
  if block.recordsNextOffset ≤ block.highWaterMarkOffset then { pc with offset := block.recordsNextOffset } else pc

/-- A block without records. The pointer to the partial message is a local that nothing sets. -/
def parseEmpty (block : FetchResponseBlock) : Parse KError := do
  let partialTrailingMessage : Option ConsumerMessage := none
  if block.isPartial then
    if partialTrailingMessage.isSome then parsePartial else modify (skipToNext block)
  return 0

def preferReplica (block : FetchResponseBlock) (pc : PartitionConsumer) : PartitionConsumer :=
  if block.preferredReadReplica ≠ InvalidPreferredReplicaID then
    { pc with preferredReadReplica := block.preferredReadReplica }
  else pc

/-- `ParseResponse` behind its checks of the block. -/
def parseFetched (block : FetchResponseBlock) : Parse (KError × List ConsumerMessage) := do
  modify (preferReplica block)
  if block.numRecords = 0 then
    let err ← parseEmpty block
    return (err, [])
  else
    modify fun pc => { pc with fetchSize := pc.conf.fetchDefault, highWaterMarkOffset := block.highWaterMarkOffset }
    parseRecordsSet block.recordsSet block.getAbortedTransactions ∅ []

/-- `ParseResponse`, into an empty vector: the code and the messages. -/
def parseResponse (response : FetchResponse) : Parse (KError × List ConsumerMessage) := do
  if response.throttleTime ≠ 0 ∧ response.blocks.isEmpty then return (ErrThrottled, [])
  else
    let pc ← get
    let block := response.getBlock pc.topic pc.partition
    if block.err ≠ ErrNoError then return (block.err, [])
    else parseFetched block

end PartitionConsumer

end Coev.Kafka
