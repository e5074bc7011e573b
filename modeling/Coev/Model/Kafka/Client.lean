import Coev.Model.Kafka.Basic
import Mathlib.Data.List.Sort

/-! # Metadata responses

The records of a response. A field of type `KError` is two bytes wide in them.
-/

namespace Coev.Kafka

open Std (ExtTreeMap)

/-- A broker that a response names. -/
structure Broker where
  id : Int32
  addr : Bytes
  rack : Bytes := []
deriving DecidableEq, Repr, Inhabited

structure PartitionMetadata where
  err : Int16 := 0
  id : Int32
  leader : Int32
  leaderEpoch : Int32 := 0
  replicas : List Int32 := []
  isr : List Int32 := []
  offlineReplicas : List Int32 := []
deriving DecidableEq, Repr, Inhabited

/-- `m_err == ErrLeaderNotAvailable`. -/
def PartitionMetadata.Leaderless (partition : PartitionMetadata) : Prop :=
  partition.err.toInt = ErrLeaderNotAvailable
deriving Decidable

abbrev Uuid := Vector UInt8 16

structure TopicMetadata where
  err : Int16 := 0
  name : Bytes
  uuid : Uuid := Vector.replicate 16 0
  isInternal : Bool := false
  partitions : List PartitionMetadata := []
  topicAuthorizedOperations : Int32 := 0
deriving DecidableEq, Repr, Inhabited

/-- `MetadataResponse`; the throttle time is a count of milliseconds. -/
structure MetadataResponse where
  throttleTime : Int64 := 0
  brokers : List Broker := []
  topics : List TopicMetadata := []
  clusterId : Bytes := []
  controllerId : Int32 := 0
  clusterAuthorizedOperations : Int32 := 0
deriving DecidableEq, Repr, Inhabited

/-! ## Which topics a refresh still has to ask for -/

/-- A time point of the system clock, in nanoseconds. -/
abbrev TimePoint := ℤ

structure RefreshTime where
  lastRequestTime : TimePoint := 0
  lastResponseTime : TimePoint := 0
deriving DecidableEq, Repr

/-- `MetadataRefresher`; `m_topics`, which nothing reads, is left out. -/
structure MetadataRefresher where
  topicsMap : ExtTreeMap Bytes RefreshTime := ∅

namespace MetadataRefresher

/-- `m_refresh_interval_mininum`: 100 ms. -/
def refreshIntervalMininum : ℤ := 100 * 1000000

/-- The two comparisons of `add_topics`: the topic was asked for or answered a moment ago. -/
def throttled (times : RefreshTime) (now : TimePoint) : Bool :=
  times.lastResponseTime + refreshIntervalMininum > now || times.lastRequestTime + refreshIntervalMininum > now

/-- One round of the loop of `add_topics`. -/
def addTopic (now : TimePoint) : List Bytes × MetadataRefresher → Bytes → List Bytes × MetadataRefresher
  | (refreshTopics, r), topic =>
    match r.topicsMap[topic]? with
    | some times =>
      if throttled times now then (refreshTopics, r)
      else (refreshTopics ++ [topic], ⟨r.topicsMap.insert topic { times with lastRequestTime := now }⟩)
    | none => (refreshTopics ++ [topic], ⟨r.topicsMap.insert topic ⟨now, now⟩⟩)

/-- `add_topics`: the topics to ask for. -/
def addTopics (r : MetadataRefresher) (topics : List Bytes) (now : TimePoint) : List Bytes × MetadataRefresher :=
  topics.foldl (addTopic now) ([], r)

def updateTopic (r : MetadataRefresher) (topic : Bytes) (now : TimePoint) : MetadataRefresher :=
  ⟨r.topicsMap.insert topic { r.topicsMap[topic]?.getD {} with lastResponseTime := now }⟩

end MetadataRefresher

/-! ## The client: its brokers and its metadata cache

A registered broker was decoded from a response and is found by its id. A seed is an object made from a
configured address; its number tells it from the other seeds, also from those with the same address.
-/

def ErrInvalidTopic : KError := 17
def ErrClosedClient : KError := 1005

/-- A seed broker. -/
structure Seed where
  object : ℕ
  addr : Bytes
deriving DecidableEq, Repr

/-- What a pointer to a broker in the client's hands points to. -/
inductive BrokerRef where
  | registered (broker : Broker)
  | seed (seed : Seed)
deriving DecidableEq, Repr

/-- `ID()`; a seed is constructed with the id -1. -/
def BrokerRef.id : BrokerRef → Int32
  | .registered broker => broker.id
  | .seed _ => -1

/-- An entry of `m_cached_partitions_results`: the lists at `AllPartitions` and at `WritablePartitions_`. -/
structure PartitionCache where
  allPartitions : List Int32 := []
  writablePartitions : List Int32 := []
deriving DecidableEq, Repr

/-- `Client`; its coordinators are left out. -/
structure Client where
  metadataRefresher : MetadataRefresher := {}
  /-- `m_update_metadata_ms`, on the steady clock. -/
  updateMetadataMs : ℤ := 0
  controllerId : Int32 := -1
  seedBrokers : List Seed := []
  deadSeeds : List Seed := []
  brokers : ExtTreeMap Int32 Broker := ∅
  metadata : ExtTreeMap Bytes (ExtTreeMap Int32 PartitionMetadata) := ∅
  metadataTopics : ExtTreeMap Bytes Bool := ∅
  cachedPartitionsResults : ExtTreeMap Bytes PartitionCache := ∅

namespace Client

def closed (c : Client) : Bool := c.brokers.isEmpty && c.seedBrokers.isEmpty

/-- `Close`; closing the connections is no part of the state. -/
def close (c : Client) : KError × Client :=
  if c.closed then (ErrClosedClient, c)
  else (0, { c with brokers := ∅, deadSeeds := [], metadata := ∅, metadataTopics := ∅ })

/-! ## Brokers -/

/-- The registration shared by `UpdateBroker` and `RegisterBroker`. -/
def addBroker (brokers : ExtTreeMap Int32 Broker) (broker : Broker) : ExtTreeMap Int32 Broker :=
  match brokers[broker.id]? with
  | none => brokers.insert broker.id broker
  | some known => if broker.addr ≠ known.addr then brokers.insert broker.id broker else brokers

def updateBroker (c : Client) (brokers : List Broker) : Client :=
  { c with brokers := (brokers.foldl addBroker c.brokers).filter fun id _ => brokers.any fun broker => broker.id = id }

def registerBroker (c : Client) (broker : Broker) : Client :=
  if c.closed then c else { c with brokers := addBroker c.brokers broker }

def deregisterBroker (c : Client) (broker : BrokerRef) : Client :=
  if broker.id ∈ c.brokers then { c with brokers := c.brokers.erase broker.id }
  else
    match c.seedBrokers with
    | [] => c
    | first :: rest =>
      if broker = .seed first then { c with seedBrokers := rest, deadSeeds := c.deadSeeds ++ [first] } else c

def deregisterController (c : Client) : Client := { c with brokers := c.brokers.erase c.controllerId }

def resurrectDeadBrokers (c : Client) : Client :=
  { c with seedBrokers := c.seedBrokers ++ c.deadSeeds, deadSeeds := [] }

/-- `RefreshBrokers`; the seeds are the shuffled addresses. -/
def refreshBrokers (c : Client) (seeds : List Seed) : KError × Client :=
  if c.closed then (ErrClosedClient, c) else (0, { c with brokers := ∅, seedBrokers := seeds, deadSeeds := [] })

/-! ## The metadata cache -/

def cachedMetadata (c : Client) (topic : Bytes) (partitionId : Int32) : Option PartitionMetadata :=
  c.metadata[topic]?.bind fun partitions => partitions[partitionId]?

/-- `_CachedPartitions` of `AllPartitions`. -/
def cachedAllPartitions (c : Client) (topic : Bytes) : List Int32 :=
  (c.cachedPartitionsResults[topic]?.getD {}).allPartitions

/-- `_CachedPartitions` of `WritablePartitions_`. -/
def cachedWritablePartitions (c : Client) (topic : Bytes) : List Int32 :=
  (c.cachedPartitionsResults[topic]?.getD {}).writablePartitions

/-- `_CachedLeader`: the leader and its epoch, given the code that opening a broker ends with. -/
def cachedLeader (c : Client) (topic : Bytes) (partitionId : Int32) (opened : Broker → KError) :
    Except KError (Broker × Int32) :=
  match c.cachedMetadata topic partitionId with
  | none => .error ErrUnknownTopicOrPartition
  | some partition =>
    if partition.Leaderless then .error ErrLeaderNotAvailable
    else
      match c.brokers[partition.leader]? with
      | none => .error ErrLeaderNotAvailable
      | some broker =>
        if opened broker ≠ 0 then .error ErrLeaderNotAvailable else .ok (broker, partition.leaderEpoch)

/-- `_SetPartitionCache`: the partitions that are not skipped, sorted. -/
def setPartitionCache (c : Client) (topic : Bytes) (skip : PartitionMetadata → Bool) : List Int32 :=
  let ret := (c.metadata[topic]?.getD ∅).toList.filterMap fun (partition, metadata) =>
    if skip metadata then none else some partition
  ret.insertionSort (· ≤ ·)

/-- One round of the loop over the partitions of a topic. -/
def storePartition (topic : Bytes) : Bool × Client → PartitionMetadata → Bool × Client
  | (retry, c), partition =>
    (retry || partition.Leaderless,
      { c with metadata := c.metadata.insert topic ((c.metadata[topic]?.getD ∅).insert partition.id partition) })

/-- The end of a round over the topics: the partitions are stored and both lists of the cache made. -/
def storeTopic (retry : Bool) (c : Client) (topic : TopicMetadata) : Bool × Client :=
  let (retry, c) := topic.partitions.foldl (storePartition topic.name) (retry, c)
  let cache : PartitionCache :=
    { allPartitions := c.setPartitionCache topic.name fun _ => false
      writablePartitions := c.setPartitionCache topic.name fun partition => partition.Leaderless }
  (retry, { c with cachedPartitionsResults := c.cachedPartitionsResults.insert topic.name cache })

/-- The start of a round over the topics: what is known of the topic is forgotten. -/
def forgetTopic (c : Client) (topic : Bytes) : Client :=
  { c with
    metadataTopics := c.metadataTopics.insertIfNew topic true
    metadata := c.metadata.erase topic
    cachedPartitionsResults := c.cachedPartitionsResults.erase topic }

/-- One round of the loop of `UpdateMetadata`. Of the clock only the last reading for a name is kept. -/
def updateTopic (now : Bytes → TimePoint) : Bool × Client → TopicMetadata → Bool × Client
  | (retry, c), topic =>
    let c := c.forgetTopic topic.name
    let err := topic.err.toInt
    if err = ErrNoError then
      storeTopic retry { c with metadataRefresher := c.metadataRefresher.updateTopic topic.name (now topic.name) } topic
    else if err = ErrInvalidTopic ∨ err = ErrTopicAuthorizationFailed then (retry, c)
    else if err = ErrUnknownTopicOrPartition then (true, c)
    else if err = ErrLeaderNotAvailable then storeTopic true c topic
    else (retry, c)

/-- What `UpdateMetadata` does before the loop when all topics were asked for. -/
def forgetAll (c : Client) : Client := { c with metadata := ∅, metadataTopics := ∅, cachedPartitionsResults := ∅ }

/-- `UpdateMetadata`: whether to ask again, and the client it leaves. -/
def updateMetadata (c : Client) (data : MetadataResponse) (allKnownMetadata : Bool) (now : Bytes → TimePoint) :
    Bool × Client :=
  if c.closed then (false, c)
  else
    let c := { c.updateBroker data.brokers with controllerId := data.controllerId }
    let c := if allKnownMetadata then c.forgetAll else c
    data.topics.foldl (updateTopic now) (false, c)

/-! ## What happens to a client -/

/-- The changes of a client that its users make and that its refreshes make. -/
inductive Event where
  | updateMetadata (data : MetadataResponse) (allKnownMetadata : Bool) (now : Bytes → TimePoint)
  | close
  | addTopics (topics : List Bytes) (now : TimePoint)
  | registerBroker (broker : Broker)
  | deregisterBroker (broker : BrokerRef)
  | deregisterController
  | resurrectDeadBrokers
  | refreshBrokers (seeds : List Seed)

def apply (c : Client) : Event → Client
  | .updateMetadata data allKnownMetadata now => (c.updateMetadata data allKnownMetadata now).2
  | .close => c.close.2
  | .addTopics topics now => { c with metadataRefresher := (c.metadataRefresher.addTopics topics now).2 }
  | .registerBroker broker => c.registerBroker broker
  | .deregisterBroker broker => c.deregisterBroker broker
  | .deregisterController => c.deregisterController
  | .resurrectDeadBrokers => c.resurrectDeadBrokers
  | .refreshBrokers seeds => (c.refreshBrokers seeds).2

def Step (c : Client) (event : Event) (d : Client) : Prop := d = c.apply event

end Client

/-! ## The brokers of a client: their connections, and how the client comes to be closed

Brokers are objects with connections of their own, which an update of the registry closes. Whether the client is closed is
told by its lists of brokers alone.
-/

/-! ## Connections -/

/-- `OpenState`; a broker without a connection counts as closed. -/
inductive OpenState where
  | closed
  | opening
  | opened
  | postOpened
deriving DecidableEq, Repr

/-- What a pointer to a registered broker points to: which object it is, and what it was decoded from. -/
structure BrokerObject where
  object : ℕ
  broker : Broker
deriving DecidableEq, Repr

/-- The collections of brokers of a client, and the states of the connections. -/
structure ClientBrokers where
  brokers : ExtTreeMap Int32 BrokerObject := ∅
  seedBrokers : List Seed := []
  deadSeeds : List Seed := []
  connection : ℕ → OpenState := fun _ => .closed

namespace ClientBrokers

/-- `SafeAsyncClose`: the connection is closed if it is `Connected()`. -/
def safeAsyncClose (connection : ℕ → OpenState) (object : ℕ) : ℕ → OpenState :=
  if connection object = .opened then Function.update connection object .closed else connection

/-- One round of the first loop of `UpdateBroker`. -/
def addBroker (s : ClientBrokers) (added : BrokerObject) : ClientBrokers :=
  match s.brokers[added.broker.id]? with
  | none => { s with brokers := s.brokers.insert added.broker.id added }
  | some known =>
    if added.broker.addr ≠ known.broker.addr then
      { s with
        connection := safeAsyncClose s.connection known.object
        brokers := s.brokers.insert added.broker.id added }
    else s

/-- Whether the response names the id. -/
def isCurrent (brokers : List BrokerObject) (id : Int32) : Bool := brokers.any fun named => named.broker.id = id

/-- The second loop of `UpdateBroker`: what the response does not name is closed and erased. -/
def removeBrokers (s : ClientBrokers) (brokers : List BrokerObject) : ClientBrokers :=
  { s with
    connection := (s.brokers.toList.filter fun entry => !isCurrent brokers entry.1).foldl
      (fun connection entry => safeAsyncClose connection entry.2.object) s.connection
    brokers := s.brokers.filter fun id _ => isCurrent brokers id }

def updateBroker (s : ClientBrokers) (brokers : List BrokerObject) : ClientBrokers :=
  (brokers.foldl addBroker s).removeBrokers brokers

end ClientBrokers

/-! ## The life of a client -/

namespace Client

/-- What happens to a client, with the seeds that cannot be opened. -/
inductive LifeEvent where
  | change (event : Event)
  | seedDown (seed : Seed)

/-- The end of `LeastLoadedBroker` when the seed it tried cannot be opened. -/
def seedDown (c : Client) (seed : Seed) : Client :=
  if c.seedBrokers.head? = some seed then
    { c with seedBrokers := c.seedBrokers.tail, deadSeeds := c.deadSeeds ++ [seed] }
  else c

end Client

/-- A client, and whether `Close()` has closed it: was called while it was open and no live seed was listed. -/
structure ClientLife where
  client : Client
  shutDown : Bool := false

namespace ClientLife

def apply (l : ClientLife) : Client.LifeEvent → ClientLife
  | .change .close => ⟨l.client.close.2, l.shutDown || l.client.close.1 = 0 && l.client.seedBrokers.isEmpty⟩
  | .change event => ⟨l.client.apply event, l.shutDown⟩
  | .seedDown seed => ⟨l.client.seedDown seed, l.shutDown⟩

def Step (l : ClientLife) (event : Client.LifeEvent) (l' : ClientLife) : Prop := l' = l.apply event

end ClientLife

end Coev.Kafka
