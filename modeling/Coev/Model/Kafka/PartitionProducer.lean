import Coev.Model.Kafka.ProducerMessage
import Coev.ToMathlib.Calls

/-! # `PartitionProducer`

A retried message opens its retry level. The marker that follows it through the broker producer closes the
level when it comes back, and until then the messages of lower levels wait. The parent, the client and the
broker producers are reached by calls; all else is the state that the coroutine keeps to itself.
-/

namespace Coev.Kafka

structure PartitionRetryState where
  buf : List ProducerMessage := []
  expectChaser : Bool := false
deriving DecidableEq, Repr, Inhabited

/-- `PartitionProducer`; the broker producer is named by the id of its broker. -/
structure PartitionProducer where
  topic : Bytes
  partition : Int32
  retryState : List PartitionRetryState
  leader : Option Int32 := none
  brokerProducer : Option Int32 := none
  highWatermark : ℕ := 0

/-- What a partition producer asks of others. -/
inductive ParentCall where
  /-- `m_input.get`. -/
  | get
  /-- `m_client->Leader`: a broker goes with the code zero. -/
  | leader (topic : Bytes) (partition : Int32)
  | refreshMetadata (topics : List Bytes)
  | sleepFor
  | getBrokerProducer (leader : Int32)
  /-- `m_abandoned.try_get` of a broker producer. -/
  | tryGetAbandoned (broker : Int32)
  /-- `m_in_flight.add` for a message that is made there. -/
  | inFlightAdd
  /-- `m_in_flight.done` for a message. -/
  | inFlightDone (msg : ProducerMessage)
  /-- `m_input.set` of a broker producer. -/
  | set (broker : Int32) (msg : ProducerMessage)
  | returnError (msg : ProducerMessage) (err : KError)
  | getAndIncrementSequenceNumber (topic : Bytes) (partition : Int32)
  | isTransactional
  | maybeAddPartitionToCurrentTxn (topic : Bytes) (partition : Int32)
  /-- The program ends here, without an answer. -/
  | abort (reason : Abort)

/-- The answers. -/
abbrev ParentCall.Answer : ParentCall → Type
  | .get => ProducerMessage
  | .leader _ _ => KError × Int32
  | .refreshMetadata _ => KError
  | .tryGetAbandoned _ => Bool
  | .inFlightAdd => ℕ
  | .getAndIncrementSequenceNumber _ _ => Int32 × Int16
  | .isTransactional => Bool
  | .abort _ => Empty
  | .sleepFor | .getBrokerProducer _ | .inFlightDone _ | .set _ _ | .returnError _ _
  | .maybeAddPartitionToCurrentTxn _ _ => Unit

/-- A coroutine of a partition producer. -/
abbrev Dispatch := Calls ParentCall ParentCall.Answer

namespace PartitionProducer

/-- Make a call. -/
def ask (c : ParentCall) : Dispatch c.Answer := Calls.send c

variable (conf : ProducerConfig)

/-- `PartitionProducer(parent, topic, partition)`. -/
def create (topic : Bytes) (partition : Int32) : PartitionProducer :=
  { topic, partition, retryState := List.replicate (conf.retryMax + 1) {} }

def abort {α : Type} (reason : Abort) : Dispatch α := .call (.abort reason) nofun

/-- `m_retry_state[level]`; the vector is not checked by the source. -/
def retryStateAt (pp : PartitionProducer) (level : ℕ) : Dispatch PartitionRetryState :=
  match pp.retryState[level]? with
  | some state => return state
  | none => abort .outOfRange

/-- A change of `m_retry_state[level]`. -/
def modifyRetryState (pp : PartitionProducer) (level : ℕ) (f : PartitionRetryState → PartitionRetryState) :
    Dispatch PartitionProducer := do
  let state ← pp.retryStateAt level
  return { pp with retryState := pp.retryState.set level (f state) }

/-- `m_broker_producer->m_input.set`. -/
def setInput (pp : PartitionProducer) (msg : ProducerMessage) : Dispatch Unit :=
  match pp.brokerProducer with
  | some broker => ask (.set broker msg)
  | none => abort .nullPointer

/-- A control message, counted as in flight and sent to the broker producer. -/
def sendControl (pp : PartitionProducer) (flags : FlagSet) (retries : ℕ) : Dispatch Unit := do
  let ticket ← ask .inFlightAdd
  pp.setInput { topic := pp.topic, partition := pp.partition, flags, retries, ticket }

/-- The look-up of the leader that `dispatch` and `update_leader` share: `m_leader` and the broker producer are set,
and a `Syn` opens the partition there. -/
def toLeader (pp : PartitionProducer) : Dispatch (KError × PartitionProducer) := do
  let (err, leader) ← ask (.leader pp.topic pp.partition)
  if err ≠ 0 then return (err, pp)
  else
    ask (.getBrokerProducer leader)
    let pp := { pp with leader := some leader, brokerProducer := some leader }
    pp.sendControl Syn 0
    return (0, pp)

def updateLeader (pp : PartitionProducer) : Dispatch (KError × PartitionProducer) := do
  let err ← ask (.refreshMetadata [pp.topic])
  if err ≠ 0 then return (err, pp)
  else pp.toLeader

def backoff : Dispatch Unit :=
  if 0 < conf.retryBackoff then ask .sleepFor else return ()

/-- A broker producer is looked up when there is none. -/
def toBrokerProducer (pp : PartitionProducer) : Dispatch (KError × PartitionProducer) :=
  match pp.brokerProducer with
  | some _ => return (0, pp)
  | none => pp.updateLeader

def updateLeaderIfBrokerProducerIsNil (pp : PartitionProducer) (msg : ProducerMessage) :
    Dispatch (KError × PartitionProducer) := do
  let (err, pp) ← pp.toBrokerProducer
  if err ≠ 0 then
    ask (.returnError msg err)
    backoff conf
    return (err, pp)
  else return (0, pp)

def newHighWatermark (pp : PartitionProducer) (hwm : ℕ) : Dispatch PartitionProducer := do
  let pp ← { pp with highWatermark := hwm }.modifyRetryState hwm ({ · with expectChaser := true })
  pp.sendControl Fin_ (hwm - 1)
  return { pp with brokerProducer := none }

/-- A fresh message with the next sequence number of the partition, unless `skip` or the producer is not idempotent. -/
def stamp (msg : ProducerMessage) (skip : Bool) : Dispatch ProducerMessage :=
  if conf.idempotent ∧ msg.retries = 0 ∧ msg.flags = 0 ∧ ¬ skip then do
    let (sequenceNumber, producerEpoch) ← ask (.getAndIncrementSequenceNumber msg.topic msg.partition)
    return { msg with sequenceNumber, producerEpoch, hasSequence := true }
  else return msg

/-- A buffered message is stamped unless it was before, and sent. -/
def sendBuffered (pp : PartitionProducer) (msg : ProducerMessage) : Dispatch Unit := do
  let msg ← stamp conf msg msg.hasSequence
  pp.setInput msg

/-- `m_parent->return_errors`. -/
def returnErrors (batch : List ProducerMessage) (err : KError) : Dispatch Unit :=
  batch.forM fun msg => ask (.returnError msg err)

/-- The messages of the level that is reached are sent, or returned when there is no leader. -/
def flushLevel (pp : PartitionProducer) (level : ℕ) : Dispatch PartitionProducer := do
  let (err, pp) ← pp.toBrokerProducer
  let state ← pp.retryStateAt level
  if err ≠ 0 then returnErrors state.buf err
  else state.buf.forM (sendBuffered conf pp)
  pp.modifyRetryState level ({ · with buf := [] })

/-- The loop of `flush_retry_buffers`, from a high watermark on; below zero there is no level. -/
def flushFrom : ℕ → PartitionProducer → Dispatch PartitionProducer
  | 0, _ => abort .outOfRange
  | level + 1, pp => do
    let pp ← flushLevel conf { pp with highWatermark := level } level
    let state ← pp.retryStateAt level
    if state.expectChaser then return pp
    else if level = 0 then return pp
    else flushFrom level pp

def flushRetryBuffers (pp : PartitionProducer) : Dispatch PartitionProducer := flushFrom conf pp.highWatermark pp

/-- The partition joins the transaction of a transactional producer. -/
def addToTransaction (pp : PartitionProducer) : Dispatch Unit := do
  let transactional ← ask .isTransactional
  if transactional then ask (.maybeAddPartitionToCurrentTxn pp.topic pp.partition) else return ()

/-- What becomes of a message that the high watermark does not hold back. -/
def forward (pp : PartitionProducer) (msg : ProducerMessage) : Dispatch PartitionProducer := do
  let (err, pp) ← pp.updateLeaderIfBrokerProducerIsNil conf msg
  if err ≠ 0 then return pp
  else
    let msg ← stamp conf msg false
    pp.addToTransaction
    pp.setInput msg
    return pp

/-- A message above the high watermark raises it. -/
def raise (pp : PartitionProducer) (msg : ProducerMessage) : Dispatch PartitionProducer := do
  let (err, pp) ← pp.updateLeaderIfBrokerProducerIsNil conf msg
  if err ≠ 0 then return pp
  else
    let pp ← pp.newHighWatermark msg.retries
    backoff conf
    pp.forward conf msg

/-- A message below the high watermark waits, and a marker closes its level. -/
def hold (pp : PartitionProducer) (msg : ProducerMessage) : Dispatch PartitionProducer := do
  if msg.has Fin_ then
    let pp ← pp.modifyRetryState msg.retries ({ · with expectChaser := false })
    ask (.inFlightDone msg)
    return pp
  else pp.modifyRetryState msg.retries fun state => { state with buf := state.buf ++ [msg] }

/-- The marker of the high watermark lets the messages below it go. -/
def lower (pp : PartitionProducer) (msg : ProducerMessage) : Dispatch PartitionProducer := do
  let pp ← pp.modifyRetryState pp.highWatermark ({ · with expectChaser := false })
  let pp ← pp.flushRetryBuffers conf
  ask (.inFlightDone msg)
  return pp

/-- The broker producer is dropped when it was abandoned. -/
def dropAbandoned (pp : PartitionProducer) : Dispatch PartitionProducer :=
  match pp.brokerProducer with
  | none => return pp
  | some broker => do
    let abandoned ← ask (.tryGetAbandoned broker)
    if abandoned then
      ask .sleepFor
      return { pp with brokerProducer := none }
    else return pp

/-- One round of the loop of `dispatch`. -/
def dispatchOne (pp : PartitionProducer) : Dispatch PartitionProducer := do
  let msg ← ask .get
  let pp ← pp.dropAbandoned
  if pp.highWatermark < msg.retries then pp.raise conf msg
  else if 0 < pp.highWatermark ∧ msg.retries < pp.highWatermark then pp.hold msg
  else if 0 < pp.highWatermark ∧ msg.has Fin_ then pp.lower conf msg
  else pp.forward conf msg

/-- Some rounds of the loop of `dispatch`. -/
def dispatchLoop : ℕ → PartitionProducer → Dispatch PartitionProducer
  | 0, pp => return pp
  | n + 1, pp => do
    let pp ← pp.dispatchOne conf
    dispatchLoop n pp

/-- `dispatch` over a number of messages: without a leader to begin with the coroutine ends. -/
def dispatch (pp : PartitionProducer) (n : ℕ) : Dispatch PartitionProducer := do
  let (err, pp) ← pp.toLeader
  if err ≠ 0 then return pp
  else pp.dispatchLoop conf n

end PartitionProducer

end Coev.Kafka
