import Coev.Model.Kafka.MetadataRefresh
import Coev.Model.Kafka.Partitioner
import Coev.Model.Kafka.ProducerIdentity

/-! # What is asked of a client

The operations that begin with the test of `Closed()`. What they wait for comes from the cluster, with the client that it
leaves: others may have used the client in the meantime. A pointer that an operation was given and did not write is none.
-/

namespace Coev.Kafka

/-- A client with its coordinators. -/
structure ClientState where
  client : Client
  coordinators : Std.ExtTreeMap Bytes Int32 := ∅
  transactionCoordinators : Std.ExtTreeMap Bytes Int32 := ∅

abbrev Using := EStateM Failure ClientState

/-- The calls that wait. -/
structure Cluster where
  /-- `RefreshMetadata`, without a list or with one. -/
  refreshMetadata : Option (List Bytes) → Using KError
  /-- `Open` of a broker. -/
  open_ : Broker → Using KError
  /-- `_GetOffset`: the code and the offset. -/
  getOffset_ : Bytes → Int32 → Int64 → Using (KError × Int64)
  findCoordinator : Bytes → CoordinatorType → Using (KError × FindCoordinatorResponse)
  sleepFor : ℤ → Using Unit

namespace ClientState

def cachedController (s : ClientState) : Option Broker := s.client.brokers[s.client.controllerId]?

def cachedCoordinator (consumerGroup : Bytes) (s : ClientState) : Option Broker :=
  s.coordinators[consumerGroup]?.bind fun id => s.client.brokers[id]?

def cachedTransactionCoordinator (transactionId : Bytes) (s : ClientState) : Option Broker :=
  s.transactionCoordinators[transactionId]?.bind fun id => s.client.brokers[id]?

def topics : Using (KError × List Bytes) := do
  let s ← get
  if s.client.closed then return (ErrClosedClient, []) else return (0, s.client.metadata.keys)

/-- The constructor of `OffsetManager`, which throws. -/
def newOffsetManager : Using Unit := do
  if (← get).client.closed then faultWith (.thrown (.runtimeError "Client is closed"))

def newConsumer : Using KError := do
  if (← get).client.closed then return ErrClosedClient else return 0

variable (cluster : Cluster)

/-! ## Metadata -/

def getReplicas_ (topic : Bytes) (partitionId : Int32) : Using (KError × Option PartitionMetadata) := do
  let s ← get
  if s.client.closed then return (ErrClosedClient, none)
  else if (s.client.cachedMetadata topic partitionId).isSome then return (0, s.client.cachedMetadata topic partitionId)
  else
    let err ← cluster.refreshMetadata (some [topic])
    if err ≠ 0 then return (err, none)
    else
      match (← get).client.cachedMetadata topic partitionId with
      | none => return (ErrUnknownTopicOrPartition, none)
      | some out => return (0, some out)

/-- `Replicas`, `InSyncReplicas` and `OfflineReplicas`, by the list that each one selects. -/
def selectReplicas (select : PartitionMetadata → List Int32) (topic : Bytes) (partitionId : Int32) :
    Using (KError × List Int32) := do
  let (err, m) ← getReplicas_ cluster topic partitionId
  if err ≠ 0 then return (err, [])
  else
    match m with
    | none => faultWith .nullPointer
    | some m => return (ErrNoError, select m)

def replicas := selectReplicas cluster PartitionMetadata.replicas

def inSyncReplicas := selectReplicas cluster PartitionMetadata.isr

def offlineReplicas := selectReplicas cluster PartitionMetadata.offlineReplicas

/-- `_CachedLeader`, where the leader that is found is opened. -/
def openCachedLeader (topic : Bytes) (partitionId : Int32) : Using (KError × Option (Broker × Int32)) := do
  match (← get).client.cachedLeader topic partitionId fun _ => 0 with
  | .error err => return (err, none)
  | .ok leader =>
    let err ← cluster.open_ leader.1
    if err ≠ 0 then return (ErrLeaderNotAvailable, none) else return (err, some leader)

def leaderAndEpoch (topic : Bytes) (partitionId : Int32) : Using (KError × Option (Broker × Int32)) := do
  if (← get).client.closed then return (ErrClosedClient, none)
  else
    let (err, leader) ← openCachedLeader cluster topic partitionId
    if err = 0 then return (err, leader)
    else
      let err ← cluster.refreshMetadata (some [topic])
      if err ≠ 0 then return (err, none) else openCachedLeader cluster topic partitionId

def getOffset (topic : Bytes) (partitionId : Int32) (timestamp : Int64) : Using (KError × Int64) := do
  if (← get).client.closed then return (ErrClosedClient, -1)
  else
    let (err, offset) ← cluster.getOffset_ topic partitionId timestamp
    if err = 0 then return (0, offset)
    else
      let err ← cluster.refreshMetadata (some [topic])
      if err ≠ 0 then return (err, -1) else cluster.getOffset_ topic partitionId timestamp

/-! ## Controllers and coordinators -/

/-- The end of a look-up: the broker that is cached now is opened. -/
def openCached (cached : ClientState → Option Broker) (missing : KError) : Using (KError × Option Broker) := do
  match cached (← get) with
  | none => return (missing, none)
  | some broker => return (← cluster.open_ broker, some broker)

/-- What is not cached is looked up first. -/
def openCachedAfter (cached : ClientState → Option Broker) (lookup : Using KError) (missing : KError) :
    Using (KError × Option Broker) := do
  if (cached (← get)).isSome then openCached cluster cached missing
  else
    let err ← lookup
    if err ≠ 0 then return (err, none) else openCached cluster cached missing

def controller (version : KafkaVersion) : Using (KError × Option Broker) := do
  if (← get).client.closed then return (ErrClosedClient, none)
  else if !version.isAtLeast V0_10_0_0 then return (ErrUnsupportedVersion, none)
  else openCachedAfter cluster cachedController (cluster.refreshMetadata none) ErrControllerNotAvailable

def refreshController : Using (KError × Option Broker) := do
  if (← get).client.closed then return (ErrClosedClient, none)
  else
    modify fun s => { s with client := s.client.deregisterController }
    let err ← cluster.refreshMetadata none
    if err ≠ 0 then return (err, none) else openCached cluster cachedController ErrControllerNotAvailable

/-- The end of `RefreshCoordinator` and `RefreshTransactionCoordinator`; a response without an address has no coordinator. -/
def storeCoordinator (store : Int32 → ClientState → ClientState) (found : KError × FindCoordinatorResponse) :
    Using KError := do
  if found.1 ≠ 0 then return found.1
  else
    match found.2.coordinator with
    | none => faultWith .nullPointer
    | some coordinator =>
      modify fun s => store coordinator.id { s with client := s.client.registerBroker coordinator }
      return 0

def refreshCoordinator (consumerGroup : Bytes) : Using KError := do
  if (← get).client.closed then return ErrClosedClient
  else
    let found ← cluster.findCoordinator consumerGroup .group
    storeCoordinator (fun id s => { s with coordinators := s.coordinators.insert consumerGroup id }) found

def getCoordinator (consumerGroup : Bytes) : Using (KError × Option Broker) := do
  if (← get).client.closed then return (ErrClosedClient, none)
  else
    openCachedAfter cluster (cachedCoordinator consumerGroup) (refreshCoordinator cluster consumerGroup)
      ErrConsumerCoordinatorNotAvailable

def refreshTransactionCoordinator (transactionId : Bytes) : Using KError := do
  if (← get).client.closed then return ErrClosedClient
  else
    let found ← cluster.findCoordinator transactionId .transaction
    storeCoordinator
      (fun id s => { s with transactionCoordinators := s.transactionCoordinators.insert transactionId id }) found

def transactionCoordinator (transactionId : Bytes) : Using (KError × Option Broker) := do
  if (← get).client.closed then return (ErrClosedClient, none)
  else
    openCachedAfter cluster (cachedTransactionCoordinator transactionId)
      (refreshTransactionCoordinator cluster transactionId) ErrConsumerCoordinatorNotAvailable

/-! ## The updater in the background -/

/-- The loop of `BackgroundMetadataUpdater`: its code, if it ends within so many rounds. -/
def updateMetadataInBackground (refreshFrequency : ℤ) : ℕ → Using (Option KError)
  | 0 => return none
  | rounds + 1 => do
    if (← get).client.closed then return some 0
    else
      cluster.sleepFor refreshFrequency
      if (← get).client.closed then return some 0
      else
        let err ← cluster.refreshMetadata none
        if err ≠ 0 ∧ (← get).client.closed then return some 0
        else updateMetadataInBackground refreshFrequency rounds

def backgroundMetadataUpdater (refreshFrequency : ℤ) (rounds : ℕ) : Using (Option KError) :=
  if refreshFrequency = 0 then return some 0 else updateMetadataInBackground cluster refreshFrequency rounds

end ClientState

end Coev.Kafka
