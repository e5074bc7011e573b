import Coev.Model.Kafka.PartitionConsumer

/-! # `BrokerConsumer` and what it shares with the `PartitionConsumer`s

A `PartitionConsumer` is known by the number of its object and is called a child. The coroutines of the two classes
run on one loop and hand the children to each other: through `m_input`, through `m_new_subscriptions`, and through the
trigger that makes the dispatcher of a child look for its broker again. Each coroutine is the place where it waits.
-/

namespace Coev.Kafka

def OffsetNewest : Int64 := -1
def OffsetOldest : Int64 := -2

def ErrOffsetOutOfRange : KError := 1
def ErrReplicaNotAvailable : KError := 9
def ErrFencedLeaderEpoch : KError := 74
def ErrUnknownLeaderEpoch : KError := 75
def ErrTimedOut : KError := 1001

/-! ## `PartitionConsumer` -/

/-- Where `PartitionConsumer::Dispatcher` is: at the trigger, asleep, inside `Dispatch`, or behind its loop. -/
inductive Dispatcher where
  | waiting
  | backoff
  | dispatching
  | done
deriving DecidableEq, Repr

/-- A `PartitionConsumer` with its channels. `m_trigger` and `m_dying` carry nothing but `true`, so each is the number
of its elements. -/
structure Child where
  consumer : PartitionConsumer := { topic := [], partition := 0 }
  /-- The number of `m_broker`. -/
  broker : ℕ := 0
  trigger : ℕ := 0
  dying : ℕ := 0
  responseResult : KError := 0
  messages : List ConsumerMessage := []
  errors : List KError := []
  dispatcher : Dispatcher := .waiting
  /-- No member: `AsyncClose` has been called. -/
  closing : Bool := false

namespace Child

/-- `SendError`, under `Consumer.Return.Errors`. -/
def sendError (returnErrors : Bool) (err : KError) (child : Child) : Child :=
  if returnErrors then { child with errors := child.errors ++ [err] } else child

/-- `m_trigger.set(true)`. -/
def setTrigger (child : Child) : Child := { child with trigger := child.trigger + 1 }

/-- `SendError`, then `m_trigger.set(true)`. -/
def fail (returnErrors : Bool) (err : KError) (child : Child) : Child := (child.sendError returnErrors err).setTrigger

def asyncClose (child : Child) : Child := { child with dying := child.dying + 1, closing := true }

/-- What `UpdateSubscriptions` does to a child whose `m_dying` has an element. -/
def retire (child : Child) : Child := { child with dying := child.dying - 1, trigger := child.trigger + 1 }

end Child

/-- What the client answers to `PreferredBroker`: the code of `GetBroker` and whether it found the broker, the code of
`RefreshMetadata`, and the broker of `LeaderAndEpoch`. -/
structure BrokerAnswers where
  getBroker : KError := 0
  found : Bool := true
  refreshMetadata : KError := 0
  leader : Except KError Int32

/-- What the client answers to the two calls of `GetOffset`. -/
structure OffsetAnswers where
  newest : Except KError Int64
  oldest : Except KError Int64

namespace PartitionConsumer

/-- `PreferredBroker`: the id of the broker, unless the pointer stays null. The broker of `GetBroker` is only kept when
it could not be opened. -/
def preferredBroker (answers : BrokerAnswers) (pc : PartitionConsumer) : Except KError (Option Int32) × PartitionConsumer :=
  if 0 ≤ pc.preferredReadReplica then
    if answers.getBroker ≠ 0 then (.ok (if answers.found then some pc.preferredReadReplica else none), pc)
    else
      let pc := { pc with preferredReadReplica := InvalidPreferredReplicaID }
      if answers.refreshMetadata ≠ 0 then (.error answers.refreshMetadata, pc) else (answers.leader.map some, pc)
  else (answers.leader.map some, pc)

/-- `Dispatch` before it hands the child over. -/
def dispatchTarget (refreshed : KError) (answers : BrokerAnswers) (pc : PartitionConsumer) :
    Except KError (Option Int32) × PartitionConsumer :=
  if refreshed ≠ 0 then (.error refreshed, pc) else pc.preferredBroker answers

def chooseStartingOffset (offset : Int64) (answers : OffsetAnswers) (pc : PartitionConsumer) : KError × PartitionConsumer :=
  match answers.newest with
  | .error err => (err, pc)
  | .ok newest =>
    let pc := { pc with highWaterMarkOffset := newest }
    match answers.oldest with
    | .error err => (err, pc)
    | .ok oldest =>
      if offset = OffsetNewest then (0, { pc with offset := newest })
      else if offset = OffsetOldest then (0, { pc with offset := oldest })
      else if oldest ≤ offset ∧ offset ≤ newest then (0, { pc with offset })
      else (ErrOffsetOutOfRange, pc)

end PartitionConsumer

namespace FetchResponse

/-- The response has a block for the child. -/
def Answers (response : FetchResponse) (child : Child) : Prop :=
  (response.blocks[child.consumer.topic]?.bind fun partitions => partitions[child.consumer.partition]?).isSome
deriving Decidable

/-- `ParseResponse` for a child: the result and the messages. -/
def parsed (response : FetchResponse) (child : Child) : Option (KError × List ConsumerMessage) :=
  (PartitionConsumer.parseResponse response child.consumer).returned

/-- The child when `ResponseFeeder` has parsed the response. -/
def parse (response : FetchResponse) (child : Child) : Child :=
  { child with
    consumer := (PartitionConsumer.parseResponse response child.consumer).state
    responseResult := ((response.parsed child).getD (0, [])).1 }

end FetchResponse

/-! ## `BrokerConsumer` -/

/-- A `ResponseFeeder` between two messages. -/
structure Feeder where
  messages : List ConsumerMessage := []
  firstAttempt : Bool := true
  /-- No variable: the response came after `AsyncClose`. -/
  late : Bool := false

/-- Where `SubscriptionManager` is: at `m_input.get`, or inside the loop that fills a batch. -/
inductive SubscriptionManager where
  | receiving
  | batching (batch : List ℕ)
deriving DecidableEq, Repr

/-- Where `SubscriptionConsumer` is. `HandleResponses` goes through the set in any order; `todo` are the children that are
left of it. -/
inductive SubscriptionConsumer where
  | updating
  | sleeping
  | fetching
  /-- At `tasks.wait_all`. -/
  | feeding (running : Finset ℕ) (feeder : ℕ → Feeder)
  | handling (todo : Finset ℕ)
  /-- In `HandleResponses`, at the `PreferredBroker` of a child. -/
  | preferring (child : ℕ) (todo : Finset ℕ)
  /-- In `HandleResponses`, at the `ChooseStartingOffset` of a child. -/
  | resetting (child : ℕ) (todo : Finset ℕ)
  /-- In `Abort`, at the sleep. -/
  | aborting
  | returned

/-- The members of `BrokerConsumer`. -/
structure BrokerConsumer where
  /-- The id of `m_broker`. -/
  broker : Int32 := 0
  subscriptions : Finset ℕ := ∅
  newSubscriptions : List ℕ := []
  input : List ℕ := []
  manager : SubscriptionManager := .receiving
  consumer : SubscriptionConsumer := .updating

namespace BrokerConsumer

/-- The set while `UpdateSubscriptions` goes through it. -/
def gathered (worker : BrokerConsumer) : Finset ℕ := worker.subscriptions ∪ worker.newSubscriptions.toFinset

/-- `UpdateSubscriptions`, which looks at each child of the set once, and what follows it in the loop. -/
def updateSubscriptions (children : ℕ → Child) (worker : BrokerConsumer) : (ℕ → Child) × BrokerConsumer :=
  let kept := worker.gathered.filter fun c => (children c).dying = 0
  (fun c => if c ∈ worker.gathered ∧ 0 < (children c).dying then (children c).retire else children c,
    { worker with
      subscriptions := kept
      newSubscriptions := []
      consumer := if kept = ∅ then .sleeping else .fetching })

/-- How often `Abort` comes by a child. -/
def notices (worker : BrokerConsumer) (c : ℕ) : ℕ :=
  (if c ∈ worker.subscriptions then 1 else 0) + worker.newSubscriptions.count c

/-- `Abort`: the children are told, and stay where they are. -/
def abort (returnErrors : Bool) (err : KError) (children : ℕ → Child) (worker : BrokerConsumer) :
    (ℕ → Child) × BrokerConsumer :=
  (fun c => (Child.fail returnErrors err)^[worker.notices c] (children c),
    { worker with consumer := if worker.newSubscriptions = [] then .aborting else .returned })

/-- The children whose `ResponseFeeder` is started. -/
def fed (response : FetchResponse) (children : ℕ → Child) (worker : BrokerConsumer) : Finset ℕ :=
  worker.subscriptions.filter fun c => response.Answers (children c)

/-- The start of the feeders, each of which parses the response at once. -/
def startFeeders (response : FetchResponse) (children : ℕ → Child) (worker : BrokerConsumer) :
    (ℕ → Child) × BrokerConsumer :=
  let running := worker.fed response children
  (fun c => if c ∈ running then response.parse (children c) else children c,
    { worker with
      consumer := .feeding running fun c =>
        { messages := ((response.parsed (children c)).getD (0, [])).2, late := (children c).closing } })

/-- The results of `HandleResponses` that need a new broker and nothing else. -/
def SeeksBroker (result : KError) : Prop :=
  result = ErrUnknownTopicOrPartition ∨ result = ErrNotLeaderForPartition ∨ result = ErrLeaderNotAvailable ∨
    result = ErrReplicaNotAvailable ∨ result = ErrFencedLeaderEpoch ∨ result = ErrUnknownLeaderEpoch

instance (result : KError) : Decidable (SeeksBroker result) := by unfold SeeksBroker; infer_instance

/-- `m_subscriptions.erase(it)` for a child, and the children left to handle. -/
def unsubscribe (worker : BrokerConsumer) (c : ℕ) (todo : Finset ℕ) : BrokerConsumer :=
  { worker with subscriptions := worker.subscriptions.erase c, consumer := .handling todo }

end BrokerConsumer

/-! ## `ResponseFeeder`

The messages of a response pass through the interceptors and go out to the user one by one. When that takes too long the rest
of them goes out at once, and the consumer is queued again at the worker that it was created for.
-/

/-- What a `ResponseFeeder` does, to the message of an index or with the consumer; `expired` is its look at the clock. -/
inductive FeederEvent where
  | intercepted (i : ℕ)
  | delivered (i : ℕ)
  | expired
  | queued (worker : ℕ)
deriving DecidableEq, Repr

/-- A round of the loop: how often `AsyncClose` was called while the interceptors ran, and the time behind them. -/
structure FeederRound where
  now : ℤ
  closes : ℕ := 0

/-- The variables of `ResponseFeeder`, with the consumer. -/
structure ResponseFeeder where
  child : Child
  i : ℕ := 0
  /-- The messages from `i` on. -/
  left : List ConsumerMessage
  firstAttempt : Bool := true
  lastExpiry : ℤ
  returned : Bool := false
  /-- No variable: what was done so far. -/
  history : List FeederEvent := []

namespace ResponseFeeder

def note (f : ResponseFeeder) (event : FeederEvent) : ResponseFeeder := { f with history := f.history ++ [event] }

/-- The second expiry at one message. -/
def timeOut (f : ResponseFeeder) : ResponseFeeder :=
  { f with
    child := { f.child with responseResult := ErrTimedOut, messages := f.child.messages ++ f.left }
    history := f.history ++ ((List.range' f.i f.left.length).map .delivered ++ [.queued f.child.broker])
    returned := true }

/-- A message goes out, and the timer starts again. -/
def deliver (f : ResponseFeeder) (now : ℤ) (msg : ConsumerMessage) (rest : List ConsumerMessage) : ResponseFeeder :=
  { f.note (.delivered f.i) with
    child := { f.child with messages := f.child.messages ++ [msg] }
    i := f.i + 1
    left := rest
    firstAttempt := true
    lastExpiry := now }

/-- One round of the loop. -/
def round (maxProcessingTime : ℤ) (f : ResponseFeeder) (r : FeederRound) : ResponseFeeder :=
  match f.left with
  | [] => f
  | msg :: rest =>
    let f := { f.note (.intercepted f.i) with child := Child.asyncClose^[r.closes] f.child }
    if maxProcessingTime ≤ r.now - f.lastExpiry then
      -- `--i` and `continue`: the message is taken again
      if f.firstAttempt then { f.note .expired with firstAttempt := false } else (f.note .expired).timeOut
    else if 0 < f.child.dying then { f with child := { f.child with dying := f.child.dying - 1 }, returned := true }
    else f.deliver r.now msg rest

/-- The coroutine has come to its end. -/
def Finished (f : ResponseFeeder) : Prop := f.returned = true ∨ f.left = []

def run (maxProcessingTime : ℤ) (f : ResponseFeeder) (rounds : List FeederRound) : ResponseFeeder :=
  rounds.foldl (round maxProcessingTime) f

/-- The coroutine goes through all of the rounds, and ends behind the last. -/
def Ends (maxProcessingTime : ℤ) : ResponseFeeder → List FeederRound → Prop
  | f, [] => f.Finished
  | f, r :: rounds => ¬ f.Finished ∧ Ends maxProcessingTime (f.round maxProcessingTime r) rounds

end ResponseFeeder

/-- A response that a worker gives to a consumer, what became of the consumer since the last one, and the rounds that are
made of it. -/
structure FeederCall where
  before : Child → Child := id
  worker : ℕ
  response : FetchResponse
  start : ℤ
  rounds : List FeederRound

namespace FeederCall

variable (maxProcessingTime : ℤ) (call : FeederCall) (child : Child)

/-- The messages of the response. -/
def messages : List ConsumerMessage := ((call.response.parsed (call.before child)).getD (0, [])).2

/-- `ResponseFeeder` before its loop. -/
def enter : ResponseFeeder :=
  { child := call.response.parse (call.before child), left := call.messages child, lastExpiry := call.start }

def Returns : Prop := (call.enter child).Ends maxProcessingTime call.rounds

def after : ResponseFeeder := (call.enter child).run maxProcessingTime call.rounds

/-- One response after the other. -/
def Step (child : Child) (call : FeederCall) (child' : Child) : Prop :=
  call.Returns maxProcessingTime child ∧ child' = (call.after maxProcessingTime child).child

end FeederCall

end Coev.Kafka
