import Coev.Model.Kafka.Basic

/-! # The offset to commit for one partition -/

namespace Coev.Kafka

/-- `PartitionOffsetManager`; the errors are those put on its channel. -/
structure PartitionOffsetManager where
  topic : Bytes
  partition : Int32
  leaderEpoch : Int32 := 0
  offset : Int64
  metadata : Bytes
  dirty : Bool := false
  done : Bool := false
  errors : List KError := []
deriving DecidableEq, Repr, Inhabited

namespace PartitionOffsetManager

/-- The pair that is committed and acknowledged. -/
def current (p : PartitionOffsetManager) : Int64 × Bytes := (p.offset, p.metadata)

def markOffset (p : PartitionOffsetManager) (offset : Int64) (metadata : Bytes) : PartitionOffsetManager :=
  if offset > p.offset then { p with offset, metadata, dirty := true } else p

def resetOffset (p : PartitionOffsetManager) (offset : Int64) (metadata : Bytes) : PartitionOffsetManager :=
  if offset ≤ p.offset then { p with offset, metadata, dirty := true } else p

def updateCommitted (p : PartitionOffsetManager) (offset : Int64) (metadata : Bytes) : PartitionOffsetManager :=
  if p.offset = offset ∧ p.metadata = metadata then { p with dirty := false } else p

def asyncClose (p : PartitionOffsetManager) : PartitionOffsetManager := { p with done := true }

/-- `handle_error`: `returnErrors` is `Consumer.Return.Errors`. -/
def handleError (p : PartitionOffsetManager) (returnErrors : Bool) (err : KError) : PartitionOffsetManager :=
  if returnErrors then { p with errors := p.errors ++ [err] } else p

end PartitionOffsetManager

end Coev.Kafka

/-! # Committing offsets

What the cluster answers is a function of the exchanges before it, so a choice of `Cluster` is a choice of
every answer of a run. A broker is named by its identity; the manager holds one in `broker`, while
`flush_to_broker` works on a local variable of its own.
-/

namespace Coev.Kafka

structure OffsetCommitRequestBlock where
  offset : Int64
  timestamp : Int64
  committedLeaderEpoch : Int32
  metadata : Bytes
deriving DecidableEq, Repr, Inhabited

structure OffsetCommitRequest where
  consumerGroup : Bytes := []
  consumerGroupGeneration : Int32 := 0
  consumerId : Bytes := []
  groupInstanceId : Bytes := []
  retentionTime : Int64 := 0
  version : Int16 := 0
  blocks : TopicPartitionMap OffsetCommitRequestBlock := ∅

/-- `add_block_with_leader_epoch`: `emplace` keeps a block that is there. -/
def OffsetCommitRequest.addBlockWithLeaderEpoch (request : OffsetCommitRequest) (topic : Bytes) (partitionID : Int32)
    (offset : Int64) (leaderEpoch : Int32) (timestamp : Int64) (metadata : Bytes) : OffsetCommitRequest :=
  { request with
    blocks := request.blocks.insertIfNew (topic, partitionID) ⟨offset, timestamp, leaderEpoch, metadata⟩ }

/-- The errors of an `OffsetCommitResponse`. -/
abbrev OffsetCommitResponse := TopicPartitionMap KError

/-- `GroupGenerationUndefined` and `ReceiveTime`. -/
def receiveTime : Int64 := -1

/-- What an `OffsetManager` reads of the configuration. -/
structure OffsetConfig where
  version : KafkaVersion
  /-- `Consumer.Offsets.Retention` in milliseconds. -/
  retention : Int64 := 0
  /-- `Consumer.Offsets.AutoCommit.Enable`. -/
  autoCommit : Bool := true
  /-- `Consumer.Offsets.Retry.Max`. -/
  retryMax : Int32 := 3
  /-- `Consumer.Return.Errors`. -/
  returnErrors : Bool := false
  channelBufferSize : Int32 := 256

structure OffsetManager where
  conf : OffsetConfig
  group : Bytes
  memberId : Bytes
  groupInstanceId : Bytes
  generation : Int32
  broker : Option ℕ := none
  poms : TopicPartitionMap PartitionOffsetManager := ∅
  closing : Bool := false
  sessionCanceled : Bool := false

namespace OffsetManager

/-- `m_version` of the request, by the configured version. -/
def requestVersion (conf : OffsetConfig) : Int16 :=
  let version := 1
  let version := if conf.version.isAtLeast V0_9_0_0 then 2 else version
  let version := if conf.version.isAtLeast V0_11_0_0 then 3 else version
  let version := if conf.version.isAtLeast V2_0_0_0 then 4 else version
  let version := if conf.version.isAtLeast V2_1_0_0 then 6 else version
  if conf.version.isAtLeast V2_3_0_0 then 7 else version

/-- The request before its blocks. -/
def requestHeader (m : OffsetManager) : OffsetCommitRequest :=
  let version := requestVersion m.conf
  { consumerGroup := m.group
    consumerId := m.memberId
    consumerGroupGeneration := m.generation
    groupInstanceId := if m.conf.version.isAtLeast V2_3_0_0 then m.groupInstanceId else []
    retentionTime :=
      if 2 ≤ version ∧ version < 5 then (if m.conf.retention > 0 then m.conf.retention else -1) else 0
    version }

/-- One round of the loop over the managed partitions. -/
def addDirty (commitTimestamp : Int64) (request : OffsetCommitRequest) (pom : PartitionOffsetManager) :
    OffsetCommitRequest :=
  if pom.dirty then
    request.addBlockWithLeaderEpoch pom.topic pom.partition pom.offset pom.leaderEpoch commitTimestamp pom.metadata
  else request

/-- `construct_request`: the code it returns, and the request it leaves. -/
def constructRequest (m : OffsetManager) : KError × OffsetCommitRequest :=
  let header := m.requestHeader
  let commitTimestamp := if header.version = 1 then receiveTime else 0
  let request := m.poms.toList.foldl (fun request entry => addDirty commitTimestamp request entry.2) header
  if ¬ request.blocks.isEmpty then (INVALID, request) else (ErrNoError, request)

def releaseCoordinator (m : OffsetManager) (broker : Option ℕ) : OffsetManager :=
  if m.broker = broker then { m with broker := none } else m

/-- `handle_error` of the whole manager. -/
def handleError (m : OffsetManager) (err : KError) : OffsetManager :=
  { m with poms := m.poms.map fun _ pom => pom.handleError m.conf.returnErrors err }

/-- What a partition makes of the answer to its block. -/
def answered (returnErrors : Bool) (block : OffsetCommitRequestBlock) (err : Option KError)
    (pom : PartitionOffsetManager) : PartitionOffsetManager :=
  match err with
  | none => pom.handleError returnErrors ErrIncompleteResponse
  | some err =>
    if err = ErrNoError then pom.updateCommitted block.offset block.metadata
    else if err = ErrNotLeaderForPartition ∨ err = ErrLeaderNotAvailable ∨
        err = ErrConsumerCoordinatorNotAvailable ∨ err = ErrNotCoordinatorForConsumer then pom
    else if err = ErrOffsetsLoadInProgress then pom
    else pom.handleError returnErrors err

/-- The codes on which the coordinator is given up. -/
def releases (err : KError) : Bool :=
  ¬ (err = ErrNoError ∨ err = ErrOffsetMetadataTooLarge ∨ err = ErrInvalidCommitOffsetSize ∨
    err = ErrOffsetsLoadInProgress ∨ err = ErrFencedInstancedId)

/-- One round of the loop of `handle_response`. -/
def handleBlock (broker : Option ℕ) (req : OffsetCommitRequest) (resp : OffsetCommitResponse) (m : OffsetManager)
    (entry : TopicPartition × PartitionOffsetManager) : OffsetManager :=
  let pom := entry.2
  match req.blocks[(pom.topic, pom.partition)]? with
  | none => m
  | some block =>
    let err := resp[(pom.topic, pom.partition)]?
    let m := { m with poms := m.poms.insert entry.1 (answered m.conf.returnErrors block err pom) }
    let m := if err = some ErrFencedInstancedId then { m with sessionCanceled := true } else m
    if err.any releases then m.releaseCoordinator broker else m

def handleResponse (m : OffsetManager) (broker : Option ℕ) (req : OffsetCommitRequest) (resp : OffsetCommitResponse) :
    OffsetManager :=
  m.poms.toList.foldl (handleBlock broker req resp) m

def asyncClosePoms (m : OffsetManager) : OffsetManager := { m with poms := m.poms.map fun _ pom => pom.asyncClose }

def releaseDue (force : Bool) (pom : PartitionOffsetManager) : Bool := pom.done && (force || !pom.dirty)

/-- `release_poms`: what stays, and how many stay. -/
def releasePoms (m : OffsetManager) (force : Bool) : ℕ × OffsetManager :=
  let poms := m.poms.filter fun _ pom => !releaseDue force pom
  (poms.size, { m with poms })

/-- `manage_partition`: a manager starts from the size of the channel buffers, without a fetch. -/
def managePartition (m : OffsetManager) (topic : Bytes) (partition : Int32) : Except Thrown OffsetManager :=
  if (topic, partition) ∈ m.poms then .error (.runtimeError "That topic/partition is already being managed")
  else .ok { m with
    poms :=
      m.poms.insert (topic, partition)
        { topic, partition, offset := m.conf.channelBufferSize.toInt64, metadata := [] } }

/-! ## Exchanges with the cluster -/

/-- What the manager asks of the client and of the coordinator. -/
inductive Exchange where
  | refreshCoordinator (err : KError)
  | getCoordinator (err : KError) (broker : Option ℕ)
  | offsetCommit (broker : ℕ) (request : OffsetCommitRequest) (err : KError) (response : OffsetCommitResponse)

/-- The answers, given what was exchanged before. -/
structure Cluster where
  refreshCoordinator : List Exchange → KError
  getCoordinator : List Exchange → KError × Option ℕ
  sendAndReceive : ℕ → OffsetCommitRequest → List Exchange → KError × OffsetCommitResponse

/-- The manager and what it exchanged, latest first. -/
structure Session where
  manager : OffsetManager
  log : List Exchange := []

/-- A coroutine of the manager. -/
abbrev Routine := EStateM Fault Session

def modifyManager (f : OffsetManager → OffsetManager) : Routine Unit :=
  modify fun s => { s with manager := f s.manager }

/-- `m_client->RefreshCoordinator`. -/
def refreshCoordinator (cluster : Cluster) : Routine KError := fun s =>
  let err := cluster.refreshCoordinator s.log
  .ok err { s with log := .refreshCoordinator err :: s.log }

/-- `m_client->GetCoordinator(m_group, m_broker)`. -/
def getCoordinator (cluster : Cluster) : Routine KError := fun s =>
  let (err, broker) := cluster.getCoordinator s.log
  .ok err { manager := { s.manager with broker }, log := .getCoordinator err broker :: s.log }

/-- `coordinator(broker)`: the manager's broker is filled, not the caller's. -/
def coordinator (cluster : Cluster) (broker : Option ℕ) : Routine KError := do
  if broker.isSome then return ErrNoError
  let err ← refreshCoordinator cluster
  if err ≠ ErrNoError then return err
  getCoordinator cluster

/-- `broker->SendAndReceive` through a pointer that may be null. -/
def sendAndReceive (cluster : Cluster) (broker : Option ℕ) (request : OffsetCommitRequest) :
    Routine (KError × OffsetCommitResponse) := fun s =>
  match broker with
  | none => .error .nullPointer s
  | some id =>
    let (err, response) := cluster.sendAndReceive id request s.log
    .ok (err, response) { s with log := .offsetCommit id request err response :: s.log }

/-- What follows the request of `flush_to_broker`. -/
def exchangeCommit (cluster : Cluster) (broker : Option ℕ) (request : OffsetCommitRequest) : Routine Unit := do
  let (err, response) ← sendAndReceive cluster broker request
  if err ≠ ErrNoError then
    modifyManager fun m => (m.handleError err).releaseCoordinator broker
  else
    modifyManager fun m => m.handleResponse broker request response

def flushToBroker (cluster : Cluster) : Routine Unit := do
  let broker : Option ℕ := none
  let err ← coordinator cluster broker
  if err ≠ ErrNoError then
    modifyManager fun m => m.handleError ErrBrokerNotAvailable
  else
    let (err, request) := (← get).manager.constructRequest
    if err ≠ ErrNoError then return ()
    exchangeCommit cluster broker request

/-- The attempts of `close`: flush, release what is clean, stop when nothing remains. -/
def closeAttempts (cluster : Cluster) : ℕ → Routine Unit
  | 0 => return ()
  | attempts + 1 => do
    flushToBroker cluster
    let (remaining, manager) := (← get).manager.releasePoms false
    modifyManager fun _ => manager
    if remaining = 0 then return ()
    closeAttempts cluster attempts

def close (cluster : Cluster) : Routine KError := do
  let m := (← get).manager
  if m.closing then return ErrNoError
  modifyManager fun m => { m with closing := true }.asyncClosePoms
  if m.conf.autoCommit then closeAttempts cluster (m.conf.retryMax.toInt + 1).toNat
  modifyManager fun m => { (m.releasePoms true).2 with broker := none }
  return ErrNoError

end OffsetManager

end Coev.Kafka
