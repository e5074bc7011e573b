import Coev.Model.Kafka.Client

/-! # The operations of `ClusterAdmin` that are retried

Each asks the client for a node, the controller or the coordinator of a group, sends its request there and
reads the answer. `RetryOnError` repeats it. Of the client there is the broker cached for the node, told by
the refresh that gave it. An operation that fails its checks before the first attempt is left out.
-/

namespace Coev.Kafka

/-- The broker that the client has cached for a node, as the number of the refresh that gave it. -/
structure NodeCache where
  refreshes : ℕ := 0
  broker : Option ℕ := none
  known : ∀ refresh ∈ broker, refresh ≤ refreshes := by intro _ cached; cases cached

namespace NodeCache

def forget (c : NodeCache) : NodeCache := { refreshes := c.refreshes }

/-- A refresh was answered, with the node or without. -/
def renew (c : NodeCache) (found : Bool) : NodeCache where
  refreshes := c.refreshes + 1
  broker := if found then some (c.refreshes + 1) else none
  known := by cases found <;> simp

end NodeCache

/-- How a refresh goes: `Closed()`, the code of the metadata or coordinator request, whether the client has
the node afterwards, and how opening its broker ends. -/
structure Renewal where
  closed : Bool := false
  err : KError := 0
  found : Bool := true
  opened : KError := 0

/-- What an attempt meets. -/
structure AdminAttempt where
  closed : Bool := false
  /-- The refresh that asking for the node makes when none is cached. -/
  lookup : Renewal := {}
  opened : KError := 0
  /-- How the operation's own `Open` ends. -/
  reopened : KError := 0
  /-- What sending the request returns. -/
  transport : KError := 0
  /-- The code of the response as a whole. -/
  code : KError := 0
  /-- The codes in the response for what the request names. -/
  items : List KError := []
  /-- The refresh that the operation calls. -/
  renewal : Renewal := {}

/-- `Version` and `Admin.Retry.Max`. -/
structure AdminConfig where
  version : KafkaVersion := V2_1_0_0
  retryMax : Int32 := 5

/-! ## The client -/

/-- `Client::RefreshController`; the cached controller is deregistered first. -/
def refreshController (r : Renewal) (c : NodeCache) : KError × NodeCache :=
  if r.closed then (ErrClosedClient, c)
  else if r.err ≠ 0 then (r.err, c.forget)
  else if r.found then (r.opened, c.renew true)
  else (ErrControllerNotAvailable, c.renew false)

/-- `Client::RefreshCoordinator`. -/
def refreshCoordinator (r : Renewal) (c : NodeCache) : KError × NodeCache :=
  if r.closed then (ErrClosedClient, c)
  else if r.err ≠ 0 then (r.err, c)
  else (0, c.renew r.found)

/-- `Client::Controller`. -/
def getController (conf : AdminConfig) (a : AdminAttempt) (c : NodeCache) : KError × NodeCache :=
  if a.closed then (ErrClosedClient, c)
  else if !conf.version.isAtLeast V0_10_0_0 then (ErrUnsupportedVersion, c)
  else if c.broker.isSome then (a.opened, c)
  else if a.lookup.err ≠ 0 then (a.lookup.err, c)
  else if a.lookup.found then (a.opened, c.renew true)
  else (ErrControllerNotAvailable, c.renew false)

/-- `Client::GetCoordinator`. -/
def getCoordinator (a : AdminAttempt) (c : NodeCache) : KError × NodeCache :=
  if a.closed then (ErrClosedClient, c)
  else if c.broker.isSome then (a.opened, c)
  else
    let (err, c) := refreshCoordinator a.lookup c
    if err ≠ 0 then (err, c)
    else if c.broker.isNone then (ErrConsumerCoordinatorNotAvailable, c)
    else (a.opened, c)

/-- A coroutine that is called and not awaited: it is suspended before its first line. -/
def unawaited (_ : NodeCache → KError × NodeCache) (c : NodeCache) : NodeCache := c

/-! ## The attempts, from the answer to the request on -/

def isRetriableControllerError (err : KError) : Bool := err = ErrNotController || err = ErrIOEOF

def isRetriableGroupCoordinatorError (err : KError) : Bool :=
  err = ErrNotCoordinatorForConsumer || err = ErrConsumerCoordinatorNotAvailable || err = ErrIOEOF

namespace ClusterAdmin

/-- The error of a topic is looked up in the response; `refreshes` tells when the refresh is called. -/
def readTopic (refreshes : KError → Bool) (a : AdminAttempt) (c : NodeCache) : KError × NodeCache :=
  if a.transport ≠ 0 then (a.transport, c)
  else
    match a.items.head? with
    | none => (ErrIncompleteResponse, c)
    | some code =>
      if code ≠ ErrNoError then (code, if refreshes code then unawaited (refreshController a.renewal) c else c)
      else (0, c)

def createTopic := readTopic isRetriableControllerError

def deleteTopic := readTopic fun code => code = ErrNotController

def createPartitions := readTopic fun code => code = ErrNotController

/-- The only one of the two readers of metadata that awaits its refresh. -/
def describeTopics (a : AdminAttempt) (c : NodeCache) : KError × NodeCache :=
  let c := if isRetriableControllerError a.transport then (refreshController a.renewal c).2 else c
  (a.transport, c)

def describeCluster (a : AdminAttempt) (c : NodeCache) : KError × NodeCache :=
  let c := if isRetriableControllerError a.transport then unawaited (refreshController a.renewal) c else c
  (a.transport, c)

def alterPartitionReassignments (a : AdminAttempt) (c : NodeCache) : KError × NodeCache :=
  let errs :=
    if a.transport ≠ 0 then [a.transport]
    else (if a.code > 0 then [a.code] else []) ++ a.items.filter (· ≠ ErrNoError)
  (if !errs.isEmpty then ErrReassignPartitions else 0, c)

/-- The code that the refresh returns replaces the one that the request returned. -/
def listPartitionReassignments (a : AdminAttempt) (c : NodeCache) : KError × NodeCache :=
  if isRetriableControllerError a.transport then refreshController a.renewal c else (a.transport, c)

def electLeaders (a : AdminAttempt) (c : NodeCache) : KError × NodeCache :=
  if a.transport ≠ 0 then (a.transport, c)
  else if a.code ≠ ErrNoError then
    (a.code, if isRetriableControllerError a.code then unawaited (refreshController a.renewal) c else c)
  else (0, c)

/-- The refresh is called on a code that is retriable. -/
def failGroup (code : KError) (a : AdminAttempt) (c : NodeCache) : KError × NodeCache :=
  (code, if isRetriableGroupCoordinatorError code then unawaited (refreshCoordinator a.renewal) c else c)

def readGroup (a : AdminAttempt) (c : NodeCache) : KError × NodeCache :=
  if a.transport ≠ 0 then failGroup a.transport a c
  else if a.code ≠ ErrNoError then failGroup a.code a c
  else (0, c)

def listConsumerGroupOffsets := readGroup

def removeMemberFromConsumerGroup := readGroup

def deleteConsumerGroupOffset (a : AdminAttempt) (c : NodeCache) : KError × NodeCache :=
  if a.transport ≠ 0 then failGroup a.transport a c
  else if a.code ≠ ErrNoError then failGroup a.code a c
  else (a.items.head?.getD 0, c)

/-- The refresh on the code of the group is awaited. -/
def deleteConsumerGroup (a : AdminAttempt) (c : NodeCache) : KError × NodeCache :=
  if a.transport ≠ 0 then failGroup a.transport a c
  else
    match a.items.head? with
    | none => (ErrIncompleteResponse, c)
    | some code =>
      if isRetriableGroupCoordinatorError code then
        let (err, c) := refreshCoordinator a.renewal c
        (if err ≠ 0 then err else code, c)
      else (code, c)

def alterUserScramCredentials (a : AdminAttempt) (c : NodeCache) : KError × NodeCache := (a.transport, c)

end ClusterAdmin

/-! ## The operations -/

inductive AdminCall where
  | createTopic | deleteTopic | createPartitions | describeTopics | describeCluster
  | alterPartitionReassignments | listPartitionReassignments | electLeaders | alterUserScramCredentials
  | listConsumerGroupOffsets | deleteConsumerGroupOffset | deleteConsumerGroup | removeMemberFromConsumerGroup
deriving DecidableEq, Repr

namespace AdminCall

/-- The operations on groups go to a coordinator. -/
def ofGroup : AdminCall → Bool
  | listConsumerGroupOffsets | deleteConsumerGroupOffset | deleteConsumerGroup | removeMemberFromConsumerGroup => true
  | _ => false

/-- The predicate given to `RetryOnError`. -/
def retryable (call : AdminCall) : KError → Bool :=
  if call.ofGroup then isRetriableGroupCoordinatorError else isRetriableControllerError

def getNode (call : AdminCall) (conf : AdminConfig) (a : AdminAttempt) : NodeCache → KError × NodeCache :=
  if call.ofGroup then getCoordinator a else getController conf a

/-- These open the broker once more. -/
def reopens : AdminCall → Bool
  | listPartitionReassignments | electLeaders => true
  | _ => false

def answered : AdminCall → AdminAttempt → NodeCache → KError × NodeCache
  | createTopic => ClusterAdmin.createTopic
  | deleteTopic => ClusterAdmin.deleteTopic
  | createPartitions => ClusterAdmin.createPartitions
  | describeTopics => ClusterAdmin.describeTopics
  | describeCluster => ClusterAdmin.describeCluster
  | alterPartitionReassignments => ClusterAdmin.alterPartitionReassignments
  | listPartitionReassignments => ClusterAdmin.listPartitionReassignments
  | electLeaders => ClusterAdmin.electLeaders
  | alterUserScramCredentials => ClusterAdmin.alterUserScramCredentials
  | listConsumerGroupOffsets => ClusterAdmin.listConsumerGroupOffsets
  | deleteConsumerGroupOffset => ClusterAdmin.deleteConsumerGroupOffset
  | deleteConsumerGroup => ClusterAdmin.deleteConsumerGroup
  | removeMemberFromConsumerGroup => ClusterAdmin.removeMemberFromConsumerGroup

/-- One attempt, as `RetryOnError` invokes it. -/
def attempt (call : AdminCall) (conf : AdminConfig) (a : AdminAttempt) (c : NodeCache) : KError × NodeCache :=
  let (err, c) := call.getNode conf a c
  if err ≠ 0 then (err, c)
  else if call.reopens && a.reopened ≠ 0 then (a.reopened, c)
  else call.answered a c

/-- An attempt that was made, and the cache it began with. -/
structure Made where
  met : AdminAttempt
  cache : NodeCache

/-- The loop of `RetryOnError`: the attempts it makes and the code it returns. -/
def retryLoop (call : AdminCall) (conf : AdminConfig) :
    ℕ → KError → (ℕ → AdminAttempt) → NodeCache → List Made × KError
  | 0, err, _, _ => ([], err)
  | attempts + 1, _, met, c =>
    let (err, next) := call.attempt conf (met 0) c
    if err = 0 || !call.retryable err then ([⟨met 0, c⟩], err)
    else
      let (made, err) := retryLoop call conf attempts err (fun i => met (i + 1)) next
      (⟨met 0, c⟩ :: made, err)

/-- `RetryOnError`; the sum is one of `int`s. -/
def retryOnError (call : AdminCall) (conf : AdminConfig) (met : ℕ → AdminAttempt) (c : NodeCache) :
    List Made × KError :=
  call.retryLoop conf (conf.retryMax + 1).toInt.toNat 0 met c

end AdminCall

end Coev.Kafka
