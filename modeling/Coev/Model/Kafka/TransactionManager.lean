import Coev.Model.Kafka.Basic
import Coev.ToMathlib.Decimal

/-! # The transaction manager

Its state is a record of the fields; a call that waits for the cluster is a computation over the record
and the log of what was asked and answered. The cluster answers by a function of that log, so a choice of
`TxnCluster` is a choice of all answers of a run. Waiting before a retry changes no state.
-/

namespace Coev.Kafka

/-- `ProducerTxnStatusFlag`, a set of bits. -/
abbrev TxnStatus := UInt16

def ProducerTxnFlagUninitialized : TxnStatus := (1 : UInt16) <<< 0
def ProducerTxnFlagInitializing : TxnStatus := (1 : UInt16) <<< 1
def ProducerTxnFlagReady : TxnStatus := (1 : UInt16) <<< 2
def ProducerTxnFlagInTransaction : TxnStatus := (1 : UInt16) <<< 3
def ProducerTxnFlagEndTransaction : TxnStatus := (1 : UInt16) <<< 4
def ProducerTxnFlagInError : TxnStatus := (1 : UInt16) <<< 5
def ProducerTxnFlagCommittingTransaction : TxnStatus := (1 : UInt16) <<< 6
def ProducerTxnFlagAbortingTransaction : TxnStatus := (1 : UInt16) <<< 7
def ProducerTxnFlagAbortableError : TxnStatus := (1 : UInt16) <<< 8
def ProducerTxnFlagFatalError : TxnStatus := (1 : UInt16) <<< 9

def producerTxnTransitions : List (TxnStatus × List TxnStatus) :=
  [(ProducerTxnFlagUninitialized, [ProducerTxnFlagReady, ProducerTxnFlagInError]),
    (ProducerTxnFlagInitializing, [ProducerTxnFlagInitializing, ProducerTxnFlagReady, ProducerTxnFlagInError]),
    (ProducerTxnFlagReady, [ProducerTxnFlagInTransaction]),
    (ProducerTxnFlagInTransaction, [ProducerTxnFlagEndTransaction, ProducerTxnFlagInError]),
    (ProducerTxnFlagEndTransaction, [ProducerTxnFlagInitializing, ProducerTxnFlagReady, ProducerTxnFlagInError]),
    (ProducerTxnFlagAbortableError, [ProducerTxnFlagAbortingTransaction, ProducerTxnFlagInError]),
    (ProducerTxnFlagFatalError, [ProducerTxnFlagFatalError])]

structure PartitionOffsetMetadata where
  partition : Int32
  offset : Int64
  leaderEpoch : Int32
  metadata : Bytes
deriving DecidableEq, Repr, Inhabited

/-- `TopicPartitionSet` and `TopicPartitionOffsets`. -/
abbrev TopicPartitionSet := TopicPartitionMap Unit
abbrev TopicPartitionOffsets := TopicPartitionMap PartitionOffsetMetadata

def noProducerID : Int64 := -1
def noProducerEpoch : Int16 := -1

/-- What the manager reads of the configuration. -/
structure TxnConfig where
  version : KafkaVersion
  /-- `Producer.Idempotent`. -/
  idempotent : Bool
  /-- `Producer.Transaction.ID`. -/
  transactionID : Bytes
  /-- `Producer.Transaction.Retry.Max`. -/
  retryMax : Int32

structure TransactionManager where
  conf : TxnConfig
  status : TxnStatus := ProducerTxnFlagUninitialized
  producerId : Int64 := noProducerID
  producerEpoch : Int16 := noProducerEpoch
  sequenceNumbers : Std.ExtTreeMap Bytes Int32 := ∅
  transactionalId : Bytes
  coordinatorSupportsBumpingEpoch : Bool := false
  epochBumpRequired : Bool := false
  lastError : KError := 0
  pendingPartitions : TopicPartitionSet := ∅
  partitions : TopicPartitionSet := ∅
  offsets : Std.ExtTreeMap Bytes TopicPartitionOffsets := ∅

namespace TransactionManager

/-- `TransactionManager(conf, client)`. -/
def create (conf : TxnConfig) : TransactionManager :=
  { conf, transactionalId := if conf.idempotent then conf.transactionID else [] }

/-- `current_txn_status() & flag`. -/
def has (m : TransactionManager) (flag : TxnStatus) : Bool := m.status &&& flag ≠ 0

def isTransactional (m : TransactionManager) : Bool := !m.transactionalId.isEmpty

def isTransitionValid (m : TransactionManager) (target : TxnStatus) : Bool :=
  producerTxnTransitions.any fun (status, allowedTransitions) =>
    m.has status && allowedTransitions.any fun allowed => target &&& allowed ≠ 0

/-- `transition_to`: the code it returns and the manager it leaves. -/
def transitionTo (m : TransactionManager) (target : TxnStatus) (err : KError) : KError × TransactionManager :=
  if !m.isTransitionValid target then (ErrTransitionNotAllowed, m)
  else if target &&& ProducerTxnFlagInError ≠ 0 then
    if err = 0 then (ErrCannotTransitionNilError, m)
    else (err, { m with lastError := err, status := target })
  else (err, { m with lastError := 0, status := target })

def abortable : TxnStatus := ProducerTxnFlagInError ||| ProducerTxnFlagAbortableError

def fatal : TxnStatus := ProducerTxnFlagInError ||| ProducerTxnFlagFatalError

/-- `topic + "-" + std::to_string(partition)`. -/
def sequenceKey (topic : Bytes) (partition : Int32) : Bytes := topic ++ Decimal.dash :: Decimal.ofInt partition.toInt

/-- `m_sequence_numbers[key] = sequence`. -/
def setSequence (m : TransactionManager) (key : Bytes) (sequence : Int32) : TransactionManager :=
  { m with sequenceNumbers := m.sequenceNumbers.insert key sequence }

/-- `get_and_increment_sequence_number`: the number and the epoch it returns, and the manager it leaves; the sum is
an `int32_t`. -/
def getAndIncrementSequenceNumber (m : TransactionManager) (topic : Bytes) (partition : Int32) :
    Except Fault ((Int32 × Int16) × TransactionManager) :=
  let key := sequenceKey topic partition
  let sequence := m.sequenceNumbers[key]?.getD 0
  if sequence = Int32.maxValue then .error .overflow
  else .ok ((sequence, m.producerEpoch), m.setSequence key (sequence + 1))

def bumpEpoch (m : TransactionManager) : TransactionManager :=
  { m with producerEpoch := m.producerEpoch + 1, sequenceNumbers := m.sequenceNumbers.map fun _ _ => 0 }

def abortableErrorIfPossible (m : TransactionManager) (err : KError) : KError × TransactionManager :=
  if m.coordinatorSupportsBumpingEpoch then { m with epochBumpRequired := true }.transitionTo abortable err
  else m.transitionTo fatal err

def completeTransaction (m : TransactionManager) : KError × TransactionManager :=
  let (err, m) := m.transitionTo (if m.epochBumpRequired then ProducerTxnFlagInitializing else ProducerTxnFlagReady) 0
  if err ≠ 0 then (err, m)
  else (0, { m with lastError := 0, epochBumpRequired := false, partitions := ∅, pendingPartitions := ∅, offsets := ∅ })

/-- The loops of `add_offsets_to_txn` over one group. -/
def addOffsets (held : TopicPartitionOffsets) (added : List (Bytes × PartitionOffsetMetadata)) : TopicPartitionOffsets :=
  added.foldl (fun held (topic, offset) => held.insert (topic, offset.partition) offset) held

def addOffsetsToTxn (m : TransactionManager) (added : List (Bytes × PartitionOffsetMetadata)) (groupId : Bytes) :
    KError × TransactionManager :=
  if !m.has ProducerTxnFlagInTransaction then (ErrTransactionNotReady, m)
  else if m.has ProducerTxnFlagFatalError then (m.lastError, m)
  else (0, { m with offsets := m.offsets.insert groupId (addOffsets (m.offsets[groupId]?.getD ∅) added) })

def maybeAddPartitionToCurrentTxn (m : TransactionManager) (topic : Bytes) (partition : Int32) : TransactionManager :=
  if m.has ProducerTxnFlagInError then m
  else if (topic, partition) ∈ m.partitions then m
  else { m with pendingPartitions := m.pendingPartitions.insert (topic, partition) () }

end TransactionManager

/-! ## Exchanges with the cluster -/

structure AddOffsetsToTxnRequest where
  version : Int16
  transactionalId : Bytes
  producerId : Int64
  producerEpoch : Int16
  groupId : Bytes
deriving DecidableEq, Repr

/-- `TxnOffsetCommitRequest`; its topics are listed from the offsets. -/
structure TxnOffsetCommitRequest where
  version : Int16
  transactionalId : Bytes
  groupId : Bytes
  producerId : Int64
  producerEpoch : Int16
  topics : TopicPartitionOffsets

/-- `AddPartitionsToTxnRequest`; its topics are listed from the pending partitions. -/
structure AddPartitionsToTxnRequest where
  version : Int16
  transactionalId : Bytes
  producerId : Int64
  producerEpoch : Int16
  topicPartitions : TopicPartitionSet

/-- The `PartitionError`s of a response, in the order of its loops. -/
abbrev PartitionErrors := List (TopicPartition × KError)

/-- A request with its answer: the code of the transport, and the response. -/
inductive TxnExchange where
  | transactionCoordinator (err : KError)
  | refreshTransactionCoordinator (err : KError)
  | groupCoordinator (group : Bytes) (err : KError)
  | leastLoadedBroker (err : KError)
  | initProducerID (err : KError)
  | addOffsetsToTxn (request : AddOffsetsToTxnRequest) (err : KError) (answer : KError)
  | txnOffsetCommit (request : TxnOffsetCommitRequest) (err : KError) (answer : PartitionErrors)
  | addPartitionsToTxn (request : AddPartitionsToTxnRequest) (err : KError) (answer : PartitionErrors)
  | endTxn (commit : Bool) (err : KError) (answer : KError)

/-- The answers, given what was exchanged before. -/
structure TxnCluster where
  transactionCoordinator : List TxnExchange → KError
  refreshTransactionCoordinator : List TxnExchange → KError
  groupCoordinator : Bytes → List TxnExchange → KError
  leastLoadedBroker : List TxnExchange → KError
  initProducerID : List TxnExchange → KError
  addOffsetsToTxn : AddOffsetsToTxnRequest → List TxnExchange → KError × KError
  txnOffsetCommit : TxnOffsetCommitRequest → List TxnExchange → KError × PartitionErrors
  addPartitionsToTxn : AddPartitionsToTxnRequest → List TxnExchange → KError × PartitionErrors

/-- The ways a call ends without a code. -/
inductive Abort where
  | nullPointer
  /-- `std::out_of_range` of `at`. -/
  | outOfRange
deriving DecidableEq, Repr

/-- The manager and what it exchanged, latest first. -/
structure TxnWorld where
  manager : TransactionManager
  log : List TxnExchange := []

/-- A coroutine of the manager. -/
abbrev Txn := EStateM Abort TxnWorld

/-- `Result`. -/
structure TxnResult where
  retry : Bool := false
  error : KError := 0
deriving DecidableEq, Repr

namespace TransactionManager

def getManager : Txn TransactionManager := fun w => .ok w.manager w

/-- A step that changes the manager and returns a code. -/
def act (f : TransactionManager → KError × TransactionManager) : Txn KError := fun w =>
  let (err, m) := f w.manager
  .ok err { w with manager := m }

/-- A step that changes the manager. -/
def change (f : TransactionManager → TransactionManager) : Txn Unit := fun w =>
  .ok () { w with manager := f w.manager }

/-- A call of the cluster: the answer is logged. -/
def exchange {α : Type} (answer : List TxnExchange → α) (entry : α → TxnExchange) : Txn α := fun w =>
  let a := answer w.log
  .ok a { w with log := entry a :: w.log }

def transactionCoordinator (cluster : TxnCluster) : Txn KError :=
  exchange cluster.transactionCoordinator .transactionCoordinator

def refreshTransactionCoordinator (cluster : TxnCluster) : Txn KError :=
  exchange cluster.refreshTransactionCoordinator .refreshTransactionCoordinator

def groupCoordinator (cluster : TxnCluster) (group : Bytes) : Txn KError :=
  exchange (cluster.groupCoordinator group) (.groupCoordinator group)

/-- `coordinator->AddOffsetsToTxn`: after a transport error the response holds what its decoding came to. -/
def sendAddOffsets (cluster : TxnCluster) (request : AddOffsetsToTxnRequest) : Txn (KError × KError) :=
  exchange (cluster.addOffsetsToTxn request) fun a => .addOffsetsToTxn request a.1 a.2

/-- `TxnOffsetCommit`; after a transport error nobody reads the response. -/
def sendOffsetCommit (cluster : TxnCluster) (request : TxnOffsetCommitRequest) : Txn (KError × PartitionErrors) :=
  exchange (cluster.txnOffsetCommit request) fun a => .txnOffsetCommit request a.1 a.2

/-- `AddPartitionsToTxn`, in the same way. -/
def sendAddPartitions (cluster : TxnCluster) (request : AddPartitionsToTxnRequest) : Txn (KError × PartitionErrors) :=
  exchange (cluster.addPartitionsToTxn request) fun a => .addPartitionsToTxn request a.1 a.2

/-- The loop of `Retry` with the attempts that are left: when none is, the code is still zero. -/
def retryLoop (attempt : Txn TxnResult) : ℕ → Txn KError
  | 0 => return 0
  | attempts + 1 => do
    let r ← attempt
    if !r.retry then return r.error
    else retryLoop attempt attempts

/-- The attempts that `Retry` makes at most. -/
def attempts (conf : TxnConfig) : ℕ := (conf.retryMax.toInt + 1).toNat

/-- `Retry` with `Producer.Transaction.Retry.Max`. -/
def retry (attempt : Txn TxnResult) : Txn KError := do
  let m ← getManager
  retryLoop attempt (attempts m.conf)

/-- A transition whose code ends the attempts. -/
def fail (f : TransactionManager → KError × TransactionManager) : Txn TxnResult := do
  let error ← act f
  return { retry := false, error }

/-! ## Offsets -/

/-- The version of the requests that know three of them. -/
def requestVersion (conf : TxnConfig) (newest : KafkaVersion) : Int16 :=
  if conf.version.isAtLeast newest then 2 else if conf.version.isAtLeast V2_0_0_0 then 1 else 0

/-- The `switch` over the error of an `AddOffsetsToTxnResponse`. -/
def addOffsetFailed (cluster : TxnCluster) (err : KError) : Txn TxnResult := do
  if err = ErrConsumerCoordinatorNotAvailable ∨ err = ErrNotCoordinatorForConsumer then
    let _ ← refreshTransactionCoordinator cluster
    return { retry := true, error := err }
  else if err = ErrOffsetsLoadInProgress ∨ err = ErrConcurrentTransactions then
    return { retry := true, error := err }
  else if err = ErrUnknownProducerID ∨ err = ErrInvalidProducerIDMapping then
    fail (·.abortableErrorIfPossible err)
  else if err = ErrGroupAuthorizationFailed then fail (·.transitionTo abortable err)
  else fail (·.transitionTo fatal err)

/-- What follows an `AddOffsetsToTxnResponse`. -/
def addOffsetAnswered (cluster : TxnCluster) (answer : KError) : Txn TxnResult := do
  if answer = ErrNoError then return { retry := false, error := ErrNoError }
  else addOffsetFailed cluster answer

def addOffsetsRequest (m : TransactionManager) (groupId : Bytes) : AddOffsetsToTxnRequest :=
  { version := requestVersion m.conf V2_7_0_0
    transactionalId := m.transactionalId
    producerId := m.producerId
    producerEpoch := m.producerEpoch
    groupId }

def publishOffsetsToTxnAddOffset (cluster : TxnCluster) (groupId : Bytes) : Txn TxnResult := do
  let err ← transactionCoordinator cluster
  if err ≠ ErrNoError then return { retry := true, error := err }
  else
    let m ← getManager
    let (err, answer) ← sendAddOffsets cluster (addOffsetsRequest m groupId)
    if err ≠ ErrNoError then
      let err ← refreshTransactionCoordinator cluster
      if err ≠ ErrNoError then return { retry := true, error := err }
      else addOffsetAnswered cluster answer
    else addOffsetAnswered cluster answer

/-- What the error of one partition means for its offset. -/
inductive Verdict where
  | committed
  | failed
  | stop (target : TxnStatus)

/-- The `switch` over a `PartitionError` of a `TxnOffsetCommitResponse`; its calls of `RefreshCoordinator` are
coroutines that nobody starts. -/
def offsetVerdict (err : KError) : Verdict :=
  if err = ErrNoError then .committed
  else if err = ErrRequestTimedOut ∨ err = ErrConsumerCoordinatorNotAvailable ∨ err = ErrNotCoordinatorForConsumer ∨
      err = ErrUnknownTopicOrPartition ∨ err = ErrOffsetsLoadInProgress then .failed
  else if err = ErrIllegalGeneration ∨ err = ErrUnknownMemberId ∨ err = ErrFencedInstancedId ∨
      err = ErrGroupAuthorizationFailed then .stop abortable
  else .stop fatal

/-- The loops over a `TxnOffsetCommitResponse`; `failedTxn` are the offsets that failed so far. -/
def scanOffsetErrors (offsets : TopicPartitionOffsets) : PartitionErrors → TopicPartitionOffsets → Txn TxnResult
  | [], failedTxn =>
    if failedTxn.isEmpty then return { retry := false, error := ErrNoError }
    else return { retry := true, error := ErrTxnOffsetCommit }
  | (tp, err) :: rest, failedTxn =>
    match offsetVerdict err with
    | .committed => scanOffsetErrors offsets rest failedTxn
    | .failed =>
      match offsets[tp]? with
      | none => throw .outOfRange
      | some offset => scanOffsetErrors offsets rest (failedTxn.insert tp offset)
    | .stop target => fail (·.transitionTo target err)

def offsetCommitRequest (m : TransactionManager) (offsets : TopicPartitionOffsets) (groupId : Bytes) :
    TxnOffsetCommitRequest :=
  { version := requestVersion m.conf V2_1_0_0
    transactionalId := m.transactionalId
    groupId
    producerId := m.producerId
    producerEpoch := m.producerEpoch
    topics := offsets }

/-- `publish_offsets_to_txn_commit`; the offsets that failed go to an argument that the caller ignores. -/
def publishOffsetsToTxnCommit (cluster : TxnCluster) (offsets : TopicPartitionOffsets) (groupId : Bytes) :
    Txn TxnResult := do
  let err ← groupCoordinator cluster groupId
  if err ≠ ErrNoError then return { retry := true, error := err }
  else
    let m ← getManager
    let (err, answer) ← sendOffsetCommit cluster (offsetCommitRequest m offsets groupId)
    if err ≠ ErrNoError then return { retry := true, error := err }
    else scanOffsetErrors offsets answer ∅

/-- `publish_offsets_to_txn`; on an error `out` is `offsets`. -/
def publishOffsetsToTxn (cluster : TxnCluster) (offsets : TopicPartitionOffsets) (groupId : Bytes) : Txn KError := do
  let err ← retry (publishOffsetsToTxnAddOffset cluster groupId)
  if err ≠ ErrNoError then return err
  else retry (publishOffsetsToTxnCommit cluster offsets groupId)

/-- The loop of `finish_transaction` over the groups: a published group is erased, the first that fails is
put back and ends the loop. -/
def publishGroups (cluster : TxnCluster) : List (Bytes × TopicPartitionOffsets) → Txn KError
  | [] => return 0
  | (groupId, offsets) :: rest => do
    let err ← publishOffsetsToTxn cluster offsets groupId
    if err ≠ 0 then
      change fun m => { m with offsets := m.offsets.insert groupId offsets }
      return err
    else
      change fun m => { m with offsets := m.offsets.erase groupId }
      publishGroups cluster rest

/-! ## The end of a transaction -/

/-- `_end_txn`: a coordinator is looked up, and no request is made. -/
def endTxnAttempt (cluster : TxnCluster) (_commit : Bool) : Txn TxnResult := do
  let err ← transactionCoordinator cluster
  if err ≠ ErrNoError then return { retry := true, error := -1 }
  else return { retry := false, error := 0 }

def endTxn (cluster : TxnCluster) (commit : Bool) : Txn KError := retry (endTxnAttempt cluster commit)

/-- `_init_producer_id` on the null request that `init_producer_id` hands it, of a manager without a transactional id. -/
def initProducerIdAttempt (cluster : TxnCluster) : Txn TxnResult := do
  let err ← exchange cluster.leastLoadedBroker .leastLoadedBroker
  if err ≠ 0 then
    change fun m => { m with producerId := noProducerID, producerEpoch := noProducerEpoch }
    return { retry := true, error := -1 }
  else
    let err ← exchange cluster.initProducerID .initProducerID
    if err ≠ ErrNoError then
      change fun m => { m with producerId := noProducerID, producerEpoch := noProducerEpoch }
      return { retry := true, error := err }
    else throw .nullPointer

/-- `initialize_transactions`: the request is a null pointer, and a transactional id or a version from 2.0.0 on is
written through it. -/
def initializeTransactions (cluster : TxnCluster) : Txn KError := do
  let m ← getManager
  if m.isTransactional || m.conf.version.isAtLeast V2_0_0_0 then throw .nullPointer
  else retry (initProducerIdAttempt cluster)

/-- `finish_transaction` from `end_txn` on. -/
def endTransaction (cluster : TxnCluster) (commit epochBump : Bool) : Txn KError := do
  let m ← getManager
  if m.has ProducerTxnFlagFatalError then return m.lastError
  else if m.lastError ≠ ErrInvalidProducerIDMapping then
    let err ← endTxn cluster commit
    if err ≠ 0 then return err
    else if !epochBump then return 0
    else initializeTransactions cluster
  else initializeTransactions cluster

def finishTransaction (cluster : TxnCluster) (commit : Bool) : Txn KError := do
  let m ← getManager
  if commit && m.has ProducerTxnFlagInError then return m.lastError
  else if !commit && m.has ProducerTxnFlagFatalError then return m.lastError
  else if m.partitions.isEmpty then act completeTransaction
  else if commit && !m.offsets.isEmpty then
    let err ← publishGroups cluster m.offsets.toList
    if err ≠ 0 then return err
    else endTransaction cluster commit m.epochBumpRequired
  else endTransaction cluster commit m.epochBumpRequired

/-! ## Partitions -/

/-- The effect of one `PartitionError` of an `AddPartitionsToTxnResponse`: the loop goes on, or it ends with a code. -/
def partitionAnswered (cluster : TxnCluster) (tp : TopicPartition) (err : KError) : Txn (Option KError) := do
  if err = ErrNoError then
    change fun m => { m with
      partitions := m.partitions.insertIfNew tp ()
      pendingPartitions := m.pendingPartitions.erase tp }
    return none
  else if err = ErrConsumerCoordinatorNotAvailable ∨ err = ErrNotCoordinatorForConsumer then
    let _ ← refreshTransactionCoordinator cluster
    return none
  else if err = ErrUnknownTopicOrPartition ∨ err = ErrOffsetsLoadInProgress ∨ err = ErrConcurrentTransactions then
    return none
  else
    change fun m => { m with pendingPartitions := ∅ }
    if err = ErrOperationNotAttempted ∨ err = ErrTopicAuthorizationFailed then
      let _ ← act (·.transitionTo abortable err)
      return some err
    else if err = ErrUnknownProducerID ∨ err = ErrInvalidProducerIDMapping then
      let _ ← act (·.abortableErrorIfPossible err)
      return some err
    else
      let _ ← act (·.transitionTo fatal err)
      return some err

/-- The loops over an `AddPartitionsToTxnResponse`. -/
def scanPartitionErrors (cluster : TxnCluster) : PartitionErrors → Txn TxnResult
  | [] => do
    let m ← getManager
    if m.pendingPartitions.isEmpty then return { retry := false, error := 0 }
    else return { retry := true, error := -1 }
  | (tp, err) :: rest => do
    match ← partitionAnswered cluster tp err with
    | none => scanPartitionErrors cluster rest
    | some error => return { retry := false, error }

def addPartitionsRequest (m : TransactionManager) : AddPartitionsToTxnRequest :=
  { version := requestVersion m.conf V2_7_0_0
    transactionalId := m.transactionalId
    producerId := m.producerId
    producerEpoch := m.producerEpoch
    topicPartitions := m.pendingPartitions }

/-- `_publish_txn_partitions`. -/
def publishTxnPartitionsAttempt (cluster : TxnCluster) : Txn TxnResult := do
  let m ← getManager
  if m.has ProducerTxnFlagInError then return { retry := false, error := m.lastError }
  else if m.pendingPartitions.isEmpty then return { retry := false, error := 0 }
  else
    let err ← transactionCoordinator cluster
    if err ≠ ErrNoError then return { retry := true, error := err }
    else
      let m ← getManager
      let (err, answer) ← sendAddPartitions cluster (addPartitionsRequest m)
      if err ≠ ErrNoError then
        let _ ← refreshTransactionCoordinator cluster
        return { retry := true, error := err }
      else scanPartitionErrors cluster answer

def publishTxnPartitions (cluster : TxnCluster) : Txn KError := do
  let m ← getManager
  if m.has ProducerTxnFlagInError then return m.lastError
  else if m.pendingPartitions.isEmpty then return 0
  else retry (publishTxnPartitionsAttempt cluster)

/-! ## The calls of the producer -/

def beginTxn : Txn KError :=
  act fun m => if !m.isTransactional then (-1, m) else m.transitionTo ProducerTxnFlagInTransaction ErrNoError

/-- The transition that the dispatcher makes for the end of a transaction; its code is only logged. -/
def dispatchEnd (commit : Bool) : Txn Unit :=
  change fun m => (m.transitionTo (ProducerTxnFlagEndTransaction |||
    (if commit then ProducerTxnFlagCommittingTransaction else ProducerTxnFlagAbortingTransaction)) 0).2

/-- `commit_txn` and `abort_txn`. -/
def endCall (cluster : TxnCluster) (commit : Bool) : Txn KError := do
  let m ← getManager
  if !m.isTransactional then return -1
  else
    dispatchEnd commit
    finishTransaction cluster commit

/-- The calls that drive a manager. -/
inductive Call where
  | begin
  | addOffsets (added : List (Bytes × PartitionOffsetMetadata)) (groupId : Bytes)
  | addPartition (topic : Bytes) (partition : Int32)
  | publishPartitions
  | finish (commit : Bool)

/-- What a call computes. -/
def call (cluster : TxnCluster) : Call → Txn KError
  | .begin => beginTxn
  | .addOffsets added groupId => act fun m => if !m.isTransactional then (-1, m) else m.addOffsetsToTxn added groupId
  | .addPartition topic partition => act fun m => (0, m.maybeAddPartitionToCurrentTxn topic partition)
  | .publishPartitions => publishTxnPartitions cluster
  | .finish commit => endCall cluster commit

end TransactionManager

end Coev.Kafka
