import Coev.Model.Kafka.AsyncProducer
import Coev.Model.Kafka.ProduceSet

/-! # `BrokerProducer`

The messages for one broker are gathered in a produce set, which goes to the output channel when it is full, and
the bridge sends one set after the other. Nothing is ever put into `m_responses`, since `build_request` returns a
request for every set: what looks there finds nothing. A coroutine that is neither awaited nor given to a task does
not run, and nothing sets `m_timer_fired`.
-/

namespace Coev.Kafka

def ErrInvalidMessage : KError := 2
def ErrNotEnoughReplicas : KError := 19
def ErrNotEnoughReplicasAfterAppend : KError := 20
def ErrDuplicateSequenceNumber : KError := 46
def ErrKafkaStorageError : KError := 56

/-- `ProduceResponseBlock`, without the start offset. -/
structure ProduceResponseBlock where
  err : KError := ErrNoError
  offset : Int64 := 0
  timestamp : Timestamp := {}

/-- `m_blocks` of a `ProduceResponse`. -/
abbrev ProduceResponse := TopicPartitionMap ProduceResponseBlock

def ProduceResponse.getBlock (response : ProduceResponse) (tp : TopicPartition) : ProduceResponseBlock :=
  response[tp]?.getD {}

def ProduceSet.eachPartition {σ : Type} (set : ProduceSet) (f : TopicPartition → PartitionSet → σ → σ) (s : σ) : σ :=
  set.messages.toList.foldl (fun s entry => f entry.1 entry.2 s) s

namespace AsyncProducer

variable (conf : ProducerConfig)

def returnErrors (s : AsyncProducer) (batch : List ProducerMessage) (err : KError) : AsyncProducer :=
  batch.foldl (fun s msg => s.returnError conf msg err) s

def returnSuccesses (s : AsyncProducer) (batch : List ProducerMessage) : AsyncProducer :=
  batch.foldl (fun s msg => s.returnSuccess conf msg) s

def retryMessages (s : AsyncProducer) (batch : List ProducerMessage) (err : KError) : AsyncProducer :=
  batch.foldl (fun s msg => s.retryMessage conf msg err) s

/-- What `retry_message` leaves of the message. -/
def afterRetry (msg : ProducerMessage) : ProducerMessage :=
  if conf.retryMax ≤ msg.retries then msg.clear else { msg with retries := msg.retries + 1 }

end AsyncProducer

structure BrokerProducer where
  /-- The channels and the count of the parent. -/
  parent : AsyncProducer := {}
  /-- What `get_producer_id` returns. -/
  producerId : Int64 := noProducerID
  producerEpoch : Int16 := noProducerEpoch
  closing : KError := ErrNoError
  buffer : ProduceSet := .create noProducerID noProducerEpoch
  currentRetries : TopicPartitionMap KError := ∅
  output : List ProduceSet := []
  /-- The set in `SyncProduce`. -/
  sent : Option ProduceSet := none
  /-- The set and the response that wait for `RefreshMetadata`. -/
  refreshing : Option (ProduceSet × ProduceResponse) := none
  /-- The calls of `retry_batch` that wait for `Leader`. -/
  batches : List (TopicPartition × PartitionSet × KError) := []
  /-- `run` came to `shutdown`. -/
  stopped : Bool := false

namespace BrokerProducer

variable (conf : ProducerConfig)

/-- `BrokerProducer(parent, broker)`. -/
def create (parent : AsyncProducer) (producerId : Int64) (producerEpoch : Int16) : BrokerProducer :=
  { parent, producerId, producerEpoch, buffer := .create producerId producerEpoch }

def rollover (s : BrokerProducer) : BrokerProducer := { s with buffer := .create s.producerId s.producerEpoch }

/-- `m_output.set(m_buffer)` and `rollover`. -/
def flush (s : BrokerProducer) : BrokerProducer := { s with output := s.output ++ [s.buffer] }.rollover

def returnErrors (s : BrokerProducer) (batch : List ProducerMessage) (err : KError) : BrokerProducer :=
  { s with parent := s.parent.returnErrors conf batch err }

def returnSuccesses (s : BrokerProducer) (batch : List ProducerMessage) : BrokerProducer :=
  { s with parent := s.parent.returnSuccesses conf batch }

def retryMessages (s : BrokerProducer) (batch : List ProducerMessage) (err : KError) : BrokerProducer :=
  { s with parent := s.parent.retryMessages conf batch err }

/-! ## `run` -/

def needsRetry (s : BrokerProducer) (msg : ProducerMessage) : KError :=
  if s.closing ≠ ErrNoError then s.closing else s.currentRetries[(msg.topic, msg.partition)]?.getD ErrNoError

/-- A message that is retried. -/
def redirect (s : BrokerProducer) (msg : ProducerMessage) (reason : KError) : BrokerProducer :=
  let s := s.retryMessages conf [msg] reason
  if s.closing = ErrNoError ∧ (AsyncProducer.afterRetry conf msg).has Fin_ then
    { s with currentRetries := s.currentRetries.erase (msg.topic, msg.partition) }
  else s

/-- The check of `would_overflow`; `wait_for_space` finds no response. -/
def makeRoom (s : BrokerProducer) (msg : ProducerMessage) : BrokerProducer :=
  if s.buffer.wouldOverflow conf msg then s.flush else s

/-- The check of the epoch. -/
def matchEpoch (s : BrokerProducer) (msg : ProducerMessage) : BrokerProducer :=
  if s.producerId ≠ noProducerID ∧ s.buffer.producerEpoch ≠ msg.producerEpoch then s.flush else s

/-- `add`, and what `run` does after it. -/
def addMessage (now : Timestamp) (s : BrokerProducer) (msg : ProducerMessage) : BrokerProducer :=
  let (err, buffer) := s.buffer.add conf now msg
  let s := { s with buffer }
  if err ≠ 0 then s.returnErrors conf [msg] err
  else if s.buffer.readyToFlush conf then s.flush
  else s

/-- A message for the buffer. -/
def buffered (now : Timestamp) (s : BrokerProducer) (msg : ProducerMessage) : BrokerProducer :=
  ((s.makeRoom conf msg).matchEpoch msg).addMessage conf now msg

/-- A round of `run` with the message it got. -/
def receiveMessage (now : Timestamp) (s : BrokerProducer) (msg : ProducerMessage) : BrokerProducer :=
  if msg.has Syn then
    { s with
      currentRetries := s.currentRetries.insert (msg.topic, msg.partition) ErrNoError
      parent := s.parent.finish msg }
  else if s.needsRetry msg ≠ ErrNoError then s.redirect conf msg (s.needsRetry msg)
  else if msg.has Fin_ then s.retryMessages conf [msg] ErrShuttingDown
  else s.buffered conf now msg

/-- `shutdown`, up to its wait for a response. -/
def shutdown (s : BrokerProducer) : BrokerProducer :=
  if s.buffer.empty then { s with stopped := true } else { s.flush with stopped := true }

/-- A round of `run`. -/
def receive (now : Timestamp) (s : BrokerProducer) : Option ProducerMessage → BrokerProducer
  | none => s.shutdown
  | some msg => s.receiveMessage conf now msg

/-! ## The responses -/

/-- The messages of a set with what the response says of them. -/
def settled (block : ProduceResponseBlock) (messages : List ProducerMessage) : List ProducerMessage :=
  messages.mapIdx fun i msg =>
    { msg with
      timestamp := if conf.version.isAtLeast V0_10_0_0 ∧ block.timestamp ≠ {} then block.timestamp else msg.timestamp
      offset := block.offset + Int64.ofNat i }

/-- The first pass of `handle_success`, which gathers the topics to retry. -/
def settlePartition (response : Option ProduceResponse) (tp : TopicPartition) (pset : PartitionSet)
    (s : BrokerProducer × List Bytes) : BrokerProducer × List Bytes :=
  match response with
  | none => (s.1.returnSuccesses conf pset.messages, s.2)
  | some response =>
    let block := response.getBlock tp
    if block.err = ErrNoError then (s.1.returnSuccesses conf (settled conf block pset.messages), s.2)
    else if block.err = ErrDuplicateSequenceNumber then (s.1.returnSuccesses conf pset.messages, s.2)
    -- `abandon_broker_connection` is called here, and not awaited.
    else if conf.retryMax = 0 then (s.1.returnErrors conf pset.messages block.err, s.2)
    else (s.1, s.2 ++ [tp.1])

/-- The errors that `handle_success` retries. -/
def isRetriable (err : KError) : Bool :=
  err = ErrInvalidMessage || err = ErrUnknownTopicOrPartition || err = ErrLeaderNotAvailable ||
    err = ErrNotLeaderForPartition || err = ErrRequestTimedOut || err = ErrNotEnoughReplicas ||
    err = ErrNotEnoughReplicasAfterAppend || err = ErrKafkaStorageError

/-- `retry_batch`, up to its wait for `Leader`. -/
def retryBatch (s : BrokerProducer) (tp : TopicPartition) (pset : PartitionSet) (err : KError) : BrokerProducer :=
  if pset.messages.any fun msg => conf.retryMax ≤ msg.retries then s.returnErrors conf pset.messages err
  else
    let messages := pset.messages.map fun msg => { msg with retries := msg.retries + 1 }
    { s with batches := s.batches ++ [(tp, { pset with messages }, err)] }

/-- The second pass of `handle_success`. -/
def retryPartition (response : ProduceResponse) (tp : TopicPartition) (pset : PartitionSet) (s : BrokerProducer) :
    BrokerProducer :=
  let err := (response.getBlock tp).err
  if isRetriable err then
    let s := { s with currentRetries := s.currentRetries.insert tp err }
    let s := if conf.idempotent then s.retryBatch conf tp pset err else s.retryMessages conf pset.messages err
    let (dropped, buffer) := s.buffer.dropPartition tp.1 tp.2
    { s with buffer }.retryMessages conf dropped err
  else s

/-- The end of `handle_response`. -/
def afterResponse (s : BrokerProducer) : BrokerProducer := if s.buffer.empty then s.rollover else s

/-- `handle_success`, up to a wait for `RefreshMetadata`. -/
def handleSuccess (s : BrokerProducer) (sent : ProduceSet) (response : Option ProduceResponse) : BrokerProducer :=
  let (s, retryTopics) := sent.eachPartition (settlePartition conf response) (s, [])
  match response with
  | some response =>
    if retryTopics = [] then s.afterResponse
    else if conf.idempotent then { s with refreshing := some (sent, response) }
    else (sent.eachPartition (retryPartition conf response) s).afterResponse
  | none => s.afterResponse

def handleError (s : BrokerProducer) (sent : ProduceSet) (err : KError) : BrokerProducer :=
  if err ≠ ErrNoError then sent.eachPartition (fun _ pset s => s.returnErrors conf pset.messages err) s
  else
    -- `abandon_broker_connection` is called here, and not awaited.
    let s := { s with closing := err }
    let s := sent.eachPartition (fun _ pset s => s.retryMessages conf pset.messages err) s
    (s.buffer.eachPartition (fun _ pset s => s.retryMessages conf pset.messages err) s).rollover

def handleResponse (s : BrokerProducer) (sent : ProduceSet) (err : KError) (response : Option ProduceResponse) :
    BrokerProducer :=
  if err ≠ ErrNoError then (s.handleError conf sent err).afterResponse else s.handleSuccess conf sent response

/-! ## `bridge` and the events -/

/-- The bridge takes a set. -/
def send (s : BrokerProducer) : BrokerProducer :=
  match s.output with
  | [] => s
  | set :: output => { s with output, sent := some set }

/-- `SyncProduce` returns. -/
def answer (s : BrokerProducer) (err : KError) (response : Option ProduceResponse) : BrokerProducer :=
  match s.sent with
  | none => s
  | some sent =>
    { s with sent := none }.handleResponse conf sent (if err = ErrNoError then ErrNoError else ErrIOEOF) response

/-- `RefreshMetadata` returns. -/
def refreshed (s : BrokerProducer) : BrokerProducer :=
  match s.refreshing with
  | none => s
  | some (sent, response) =>
    (sent.eachPartition (retryPartition conf response) { s with refreshing := none }).afterResponse

/-- The produce set of a `retry_batch`. -/
def batchSet (s : BrokerProducer) (tp : TopicPartition) (pset : PartitionSet) : ProduceSet :=
  { ProduceSet.create s.producerId s.producerEpoch with
    messages := (∅ : TopicPartitionMap PartitionSet).insert tp pset
    bufferBytes := pset.bufferBytes
    bufferCount := Int32.ofNat pset.messages.length }

/-- The end of a `retry_batch`, from this broker producer or another one. -/
def takeBatch (s : BrokerProducer) (tp : TopicPartition) (pset : PartitionSet) : BrokerProducer :=
  { s with output := s.output ++ [s.batchSet tp pset] }.rollover

/-- `Leader` returns to the first `retry_batch`: an error, this broker or another one. -/
inductive LeaderAnswer where
  | failed
  | here
  | elsewhere

def leaderFound (s : BrokerProducer) (found : LeaderAnswer) : BrokerProducer :=
  match s.batches with
  | [] => s
  | (tp, pset, err) :: batches =>
    match found with
    | .failed => { s with batches }.returnErrors conf pset.messages err
    | .here => { s with batches }.takeBatch tp pset
    | .elsewhere => { s with batches }

inductive Event where
  | receive (now : Timestamp) (msg : Option ProducerMessage)
  | send
  | answer (err : KError) (response : Option ProduceResponse)
  | refreshed
  | leaderFound (found : LeaderAnswer)
  /-- A `retry_batch` of another broker producer ends here. -/
  | takeBatch (tp : TopicPartition) (pset : PartitionSet)
  /-- The transaction manager gets another id. -/
  | producer (producerId : Int64) (producerEpoch : Int16)
  /-- What else happens to the parent. -/
  | parent (e : AsyncProducer.Event)

/-- What an event does. -/
def apply (s : BrokerProducer) : Event → BrokerProducer
  | .receive now msg => s.receive conf now msg
  | .send => s.send
  | .answer err response => s.answer conf err response
  | .refreshed => s.refreshed conf
  | .leaderFound found => s.leaderFound conf found
  | .takeBatch tp pset => s.takeBatch tp pset
  | .producer producerId producerEpoch => { s with producerId, producerEpoch }
  | .parent e => { s with parent := s.parent.apply conf e }

/-- When an event can be. -/
def Possible (s : BrokerProducer) : Event → Prop
  | .receive _ _ => ¬ s.stopped
  | .send => s.output ≠ [] ∧ s.sent.isNone ∧ s.refreshing.isNone
  | .answer _ _ => s.sent.isSome
  | .refreshed => s.refreshing.isSome
  | .leaderFound _ => s.batches ≠ []
  | .takeBatch _ _ | .producer _ _ => True
  | .parent e => s.parent.Possible e

def Step (s : BrokerProducer) (e : Event) (t : BrokerProducer) : Prop := s.Possible e ∧ t = s.apply conf e

end BrokerProducer

end Coev.Kafka
