import Coev.Model.Core.Task
import Coev.Model.Kafka.Client

/-! # Joining a consumer group

`NewSession` and `RetryNewSession` call each other until one of them returns. What the cluster answers in an attempt is
free, and so is what ends the wait in front of another attempt. `setup` is not virtual and does nothing, and
`manage_partition` has no null pointer to answer with, so the branches that release a session are not reached.
-/

namespace Coev.Kafka

open Std (ExtTreeMap)

def ErrRebalanceInProgress : KError := 27
def ErrMemberIdRequired : KError := 79
def ErrStrategyNotFound : KError := 1062

/-- What joining reads of the configuration. -/
structure ConsumerGroupConfig where
  /-- `Rebalance.Retry.Max`. -/
  retryMax : ℤ := 4
  /-- The name of `Rebalance.Strategy`, if it is set. -/
  strategy : Option Bytes := none
  /-- The names of `Rebalance.GroupStrategies`. -/
  groupStrategies : List Bytes
  /-- `Member.UserData`. -/
  userData : Bytes := []
  /-- `Metadata.RefreshFrequency`, in milliseconds. -/
  refreshFrequency : ℕ := 600000

/-- A configuration that `Validate` lets pass, as `NewClient` demands of that of a group: there is a strategy. -/
structure ValidGroupConfig extends ConsumerGroupConfig where
  strategised : strategy.isSome ∨ groupStrategies ≠ []

/-- What is read of a `JoinGroupResponse`. -/
structure JoinGroupAnswer where
  err : KError := 0
  generationId : Int32 := 0
  groupProtocol : Bytes := []
  leaderId : Bytes := []
  memberId : Bytes := []

/-- What is read of a `SyncGroupResponse`. -/
structure SyncGroupAnswer where
  err : KError := 0
  memberAssignment : Bytes := []

/-- `ConsumerGroupMemberAssignment`. -/
structure MemberAssignment where
  topics : ExtTreeMap Bytes (List Int32) := ∅
  userdata : Bytes := []

/-- What the calls of one attempt end with; the codes are those of `GetCoordinator`, of the coordinator's answer to
`JoinGroup`, of `get_members`, `Balance` and `SyncGroup`. `closed` says that the client is closed when the session is
made. -/
structure JoiningAnswers where
  coordinator : KError := 0
  join : KError × JoinGroupAnswer := (0, {})
  getMembers : KError := 0
  balance : KError := 0
  sync : KError × SyncGroupAnswer := (0, {})
  closed : Bool := false

/-- The coroutines that `RetryNewSession` adds to its task, in this order. -/
inductive Awaited where
  | __get
  | __close
  | __config
deriving DecidableEq, Repr

/-- What the task names a coroutine by. -/
def Awaited.promise : Awaited → ℕ
  | .__get => 0
  | .__close => 1
  | .__config => 2

/-- What becomes of the wait of `RetryNewSession`: whether the context is done and the group closed before it, which
coroutine ends first in it, what its event finds in its memory, and the code of `RefreshCoordinator` behind it. -/
structure Wakening where
  done : Bool := false
  closed : Bool := false
  ended : Awaited := .__config
  reserved : Int64 := 0
  refreshed : KError := 0
  alive : (ended = .__get → done = false) ∧ (ended = .__close → closed = false) := by decide

/-- What the wait returns, and the ids that it is compared with. -/
def Wakening.select (wakening : Wakening) : Option (Int64 × Int32 × Int32) := do
  let (_task, __get) ← ({} : Task).load Awaited.__get.promise
  let _task := if wakening.done then _task.unload Awaited.__get.promise else _task
  let (_task, __close) ← _task.load Awaited.__close.promise
  let _task := if wakening.closed then _task.unload Awaited.__close.promise else _task
  let (_task, _) ← _task.load Awaited.__config.promise
  let _task := (_task.wait .one 0 0 wakening.reserved).unload wakening.ended.promise
  let __select ← _task.returned.head?
  return (__select.value, __get, __close)

/-- Both kinds of answers; the place of the coroutine picks one. -/
structure GroupAnswers where
  attempt : JoiningAnswers := {}
  wakening : Wakening := {}

structure ConsumerGroupSession where
  memberId : Bytes
  generationId : Int32
  claims : ExtTreeMap Bytes (List Int32)
  released : Bool := false

/-- Where the coroutines are: at the start of `NewSession`, at the wait of `RetryNewSession`, or behind them, with a
code or with an exception. -/
inductive JoiningPlace where
  | newSession (retries : ℤ)
  | retryNewSession (retries : ℤ)
  | returned (err : KError)
  | thrown
deriving DecidableEq, Repr

/-- The members of a `ConsumerGroup` that joining changes, and its variables. -/
structure Joining where
  memberId : Bytes := []
  userData : Bytes := []
  place : JoiningPlace
  session : Option ConsumerGroupSession := none
  /-- No variable: the last answer to `JoinGroup`. -/
  joined : Option JoinGroupAnswer := none
  /-- No variable: the last answer to `SyncGroup`. -/
  synced : Option SyncGroupAnswer := none

namespace JoinGroupRequest

/-- `add_group_protocol_metadata`, which only says that it failed. -/
def addGroupProtocolMetadata (_name : Bytes) : KError := -1

end JoinGroupRequest

namespace JoiningAnswers

/-- The protocols that `JoinGroup` adds, up to the first that cannot be added. -/
def addGroupProtocols : List Bytes → KError
  | [] => 0
  | name :: rest =>
    let err := JoinGroupRequest.addGroupProtocolMetadata name
    if err ≠ 0 then err else addGroupProtocols rest

/-- `JoinGroup`, when the coordinator would answer its request like this. -/
def joinGroup (conf : ConsumerGroupConfig) (answer : KError × JoinGroupAnswer) : KError × JoinGroupAnswer :=
  let err := addGroupProtocols (conf.strategy.elim conf.groupStrategies fun name => [name])
  if err ≠ 0 then (err, {}) else answer

variable (conf : ConsumerGroupConfig) (answers : JoiningAnswers)

/-- The member leads its group. -/
def Leads : Prop := answers.join.2.leaderId = answers.join.2.memberId
deriving Decidable

/-- A strategy is configured, or `FindStrategy` finds one. -/
def StrategyFound : Prop := conf.strategy.isSome ∨ answers.join.2.groupProtocol ∈ conf.groupStrategies
deriving Decidable

end JoiningAnswers

namespace Joining

def goTo (j : Joining) (place : JoiningPlace) : Joining := { j with place }

/-- An error that is worth another attempt, while there are retries. -/
def retryOr (j : Joining) (retries : ℤ) (err : KError) : Joining :=
  if retries ≤ 0 then j.goTo (.returned err) else j.goTo (.retryNewSession retries)

/-- The claims of an assignment, each sorted. -/
def sorted (topics : ExtTreeMap Bytes (List Int32)) : ExtTreeMap Bytes (List Int32) :=
  topics.map fun _ partitions => partitions.insertionSort (· ≤ ·)

/-- No partition is claimed twice; `manage_partition` throws on the second time. -/
def Manageable (topics : ExtTreeMap Bytes (List Int32)) : Prop := ∀ entry ∈ topics.toList, entry.2.Nodup
deriving Decidable

variable (conf : ConsumerGroupConfig) (getMemberAssignment : Bytes → KError × MemberAssignment)

/-- `NewSession` from its session on. The `OffsetManager` of a closed client throws, and a leader's
`LoopCheckPartitionNumbers` calls the empty `m_cancel`, which throws. -/
def startSession (answers : JoiningAnswers) (topics : ExtTreeMap Bytes (List Int32)) (j : Joining) : Joining :=
  if answers.closed then j.goTo .thrown
  else
    let (memberId, generationId) := (answers.join.2.memberId, answers.join.2.generationId)
    let j := { j with session := some { memberId, generationId, claims := sorted topics } }
    if ¬ Manageable topics then j.goTo .thrown
    else if answers.Leads ∧ conf.refreshFrequency ≠ 0 then j.goTo .thrown
    else j.goTo (.returned ErrNoError)

/-- `NewSession` from the assignment on. -/
def takeAssignment (answers : JoiningAnswers) (j : Joining) : Joining :=
  let bytes := answers.sync.2.memberAssignment
  if bytes.isEmpty then startSession conf answers ∅ j
  else
    let (err, assignment) := getMemberAssignment bytes
    if err ≠ 0 then j.goTo (.returned err)
    else
      let userData := if 0 < assignment.userdata.length then assignment.userdata else conf.userData
      startSession conf answers assignment.topics { j with userData }

/-- The codes that are worth another attempt. -/
def Retriable (err : KError) : Prop :=
  err = ErrNotCoordinatorForConsumer ∨ err = ErrRebalanceInProgress ∨ err = ErrOffsetsLoadInProgress
deriving Decidable

/-- The codes that make the member forget its id. -/
def Forgotten (err : KError) : Prop := err = ErrUnknownMemberId ∨ err = ErrIllegalGeneration
deriving Decidable

/-- `NewSession` from the strategy on. -/
def syncGroup (retries : ℤ) (answers : JoiningAnswers) (j : Joining) : Joining :=
  if ¬ answers.StrategyFound conf then j.goTo (.returned ErrStrategyNotFound)
  else if answers.Leads ∧ answers.getMembers ≠ 0 then j.goTo (.returned answers.getMembers)
  else if answers.Leads ∧ answers.balance ≠ 0 then j.goTo (.returned answers.balance)
  else if answers.sync.1 ≠ 0 then j.goTo (.returned answers.sync.1)
  else
    let j := { j with synced := some answers.sync.2 }
    let err := answers.sync.2.err
    if err = ErrNoError then takeAssignment conf getMemberAssignment answers j
    else if Forgotten err then { j with memberId := [], place := .newSession retries }
    else if Retriable err then j.retryOr retries err
    else j.goTo (.returned err)

/-- `NewSession` from the answer to `JoinGroup` on. -/
def takeJoined (retries : ℤ) (answers : JoiningAnswers) (j : Joining) : Joining :=
  if answers.join.1 ≠ 0 then j.goTo (.returned answers.join.1)
  else
    let j := { j with joined := some answers.join.2 }
    let err := answers.join.2.err
    if err = ErrNoError then
      syncGroup conf getMemberAssignment retries answers { j with memberId := answers.join.2.memberId }
    else if Forgotten err then { j with memberId := [], place := .newSession retries }
    else if Retriable err then j.retryOr retries err
    else if err = ErrMemberIdRequired then { j with memberId := answers.join.2.memberId, place := .newSession retries }
    else j.goTo (.returned err)

def newSession (retries : ℤ) (answers : JoiningAnswers) (j : Joining) : Joining :=
  if answers.coordinator ≠ 0 then j.retryOr retries answers.coordinator
  else j.takeJoined conf getMemberAssignment retries { answers with join := JoiningAnswers.joinGroup conf answers.join }

/-- `RetryNewSession` from its wait on, once that returned; the coordinator is always refreshed. -/
def retryNewSession (retries : ℤ) (wakening : Wakening) (j : Joining) : Joining :=
  match wakening.select with
  | none => j
  | some (__select, __get, __close) =>
    if __select = __get.toInt64 then j.goTo (.returned 0)
    else if __select = __close.toInt64 then j.goTo (.returned ErrClosedClient)
    else if wakening.refreshed ≠ 0 then
      if retries ≤ 0 then j.goTo (.returned wakening.refreshed) else j.goTo (.retryNewSession (retries - 1))
    else j.goTo (.newSession (retries - 1))

def step (j : Joining) (answers : GroupAnswers) : Joining :=
  match j.place with
  | .newSession retries => j.newSession conf getMemberAssignment retries answers.attempt
  | .retryNewSession retries => j.retryNewSession retries answers.wakening
  | .returned _ | .thrown => j

/-- `NewSession` as `Consume` calls it, on a group with these members. -/
def start (memberId userData : Bytes) : Joining := { memberId, userData, place := .newSession conf.retryMax }

/-- What has become of a call after so many answers. -/
def after (j : Joining) (answers : ℕ → GroupAnswers) : ℕ → Joining
  | 0 => j
  | n + 1 => (after j answers n).step conf getMemberAssignment (answers n)

end Joining

/-! ## Watching the partition counts -/

/-- What `m_cancel` of a session holds. -/
inductive SessionCancel where
  /-- Calling it throws. -/
  | empty
  | callable
deriving DecidableEq, Repr

/-- The function that `NewConsumerGroupSession` makes and hands to the session. -/
def newSessionCancel : SessionCancel := .empty

/-- Where `LoopCheckPartitionNumbers` is: at the look-ups, at `m_task.wait`, or behind them. -/
inductive WatchPlace where
  | lookingUp
  | waiting
  | returned
  | thrown
deriving DecidableEq, Repr

structure Watch where
  place : WatchPlace
  cancelled : Bool := false
  /-- No variable: a count was found changed, a look-up failed, or the session or the group has ended. -/
  caused : Bool := false
deriving DecidableEq, Repr

namespace Watch

variable (plan : ExtTreeMap Bytes (List Int32)) (topics : List Bytes)

/-- `TopicToPartitionNumbers` from its look-up number `k` on. -/
def topicToPartitionNumbers (answers : ℕ → Except KError (List Int32)) :
    List Bytes → ℕ → ExtTreeMap Bytes ℕ → Except KError (ExtTreeMap Bytes ℕ)
  | [], _, numbers => .ok numbers
  | topic :: rest, k, numbers =>
    match answers k with
    | .error err => .error err
    | .ok partitions => topicToPartitionNumbers answers rest (k + 1) (numbers.insert topic partitions.length)

/-- The count of some topic of the plan is not that of the plan; a topic that was not looked up counts none. -/
def Changed (numbers : ExtTreeMap Bytes ℕ) : Prop :=
  ∃ entry ∈ plan.toList, numbers[entry.1]?.getD 0 ≠ entry.2.length

/-- What ends the watch after the look-ups. -/
def Ends (answers : ℕ → Except KError (List Int32)) : Prop :=
  match topicToPartitionNumbers answers topics 0 ∅ with
  | .error _ => True
  | .ok numbers => Changed plan numbers

/-- What happens next: the look-ups are answered, the wait returns, or the session or the group ends. -/
inductive Event where
  | lookUp (answers : ℕ → Except KError (List Int32))
  | woken
  | sessionEnds
  | groupCloses

/-- The coroutine up to its first look-up; the session or the group may have ended before. -/
def start (conf : ConsumerGroupConfig) (cancel : SessionCancel) (ended : Bool) : Watch :=
  if conf.refreshFrequency = 0 then { place := .returned, caused := ended }
  else
    match cancel with
    | .empty => { place := .thrown, caused := ended }
    | .callable => { place := .lookingUp, cancelled := true, caused := ended }

/-- What happens after the start. No exit cancels, and what ends the wait is not looked at. -/
inductive Step : Watch → Event → Watch → Prop
  | ends {s : Watch} {answers : ℕ → Except KError (List Int32)} (at_ : s.place = .lookingUp)
      (ends : Ends plan topics answers) :
    Step s (.lookUp answers) { s with place := .returned, caused := true }
  | unchanged {s : Watch} {answers : ℕ → Except KError (List Int32)} (at_ : s.place = .lookingUp)
    (goesOn : ¬ Ends plan topics answers) : Step s (.lookUp answers) { s with place := .waiting }
  | woken {s : Watch} (at_ : s.place = .waiting) : Step s .woken { s with place := .lookingUp }
  | sessionEnds {s : Watch} : Step s .sessionEnds { s with caused := true }
  | groupCloses {s : Watch} : Step s .groupCloses { s with caused := true }

/-- The states that a sequence of events leads to. -/
def Run : Watch → List Event → Watch → Prop
  | s, [], t => t = s
  | s, event :: events, t => ∃ u, Step plan topics s event u ∧ Run u events t

end Watch

end Coev.Kafka
