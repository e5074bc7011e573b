import Coev.Model.Kafka.BrokerConsumer

/-! # The consumer: its children and its workers

All `PartitionConsumer`s and `BrokerConsumer`s that a `Consumer` ever made, by the numbers of the objects, and the two
maps in which it looks them up. A step takes one coroutine from one place where it waits to the next; coroutines take
turns in any order, and the answers of the client and of the brokers are free. A step that would use a null broker, or
whose parsing ends in a fault, is left out: nothing comes after it.
-/

namespace Coev.Kafka

/-- `Consumer` with the objects it shares. -/
structure ConsumerWorld where
  /-- `Consumer.Offsets.Initial`. -/
  initialOffset : Int64 := OffsetNewest
  /-- `Consumer.Return.Errors`. -/
  returnErrors : Bool := false
  made : ℕ := 0
  children : ℕ → Child := fun _ => {}
  hired : ℕ := 0
  workers : ℕ → BrokerConsumer := fun _ => {}
  /-- `m_children`. -/
  registered : TopicPartitionMap ℕ := ∅
  /-- `m_broker_consumers`. -/
  brokerConsumers : Std.ExtTreeMap Int32 ℕ := ∅

namespace ConsumerWorld

def setChild (s : ConsumerWorld) (c : ℕ) (child : Child) : ConsumerWorld :=
  { s with children := Function.update s.children c child }

def setWorker (s : ConsumerWorld) (w : ℕ) (worker : BrokerConsumer) : ConsumerWorld :=
  { s with workers := Function.update s.workers w worker }

/-- Both sides of an operation of a worker. -/
def setBoth (s : ConsumerWorld) (w : ℕ) (both : (ℕ → Child) × BrokerConsumer) : ConsumerWorld :=
  { s.setWorker w both.2 with children := both.1 }

/-- `m_input.set`. -/
def enqueue (s : ConsumerWorld) (w c : ℕ) : ConsumerWorld :=
  s.setWorker w { s.workers w with input := (s.workers w).input ++ [c] }

/-- `RefBrokerConsumer`: the worker of a broker, and the world when it has one. -/
def refBrokerConsumer (s : ConsumerWorld) (broker : Int32) : ℕ × ConsumerWorld :=
  match s.brokerConsumers[broker]? with
  | some w => (w, s)
  | none => (s.hired, { s.setWorker s.hired { broker } with
      hired := s.hired + 1, brokerConsumers := s.brokerConsumers.insert broker s.hired })

/-- `RefBrokerConsumer(broker)->m_input.set(child)`. -/
def handTo (s : ConsumerWorld) (broker : Int32) (c : ℕ) : ConsumerWorld :=
  let (w, s) := s.refBrokerConsumer broker
  s.enqueue w c

/-- The key of a child in `m_children`. -/
def key (pc : PartitionConsumer) : TopicPartition := ⟨pc.topic, pc.partition⟩

/-- `ConsumePartition` from `AddChild` on. -/
def consumePartition (s : ConsumerWorld) (pc : PartitionConsumer) (leader : Int32) : ConsumerWorld :=
  let c := s.made
  let s := { s with made := s.made + 1, registered := s.registered.insert (key pc) c }
  (s.setChild c { consumer := pc, broker := (s.refBrokerConsumer leader).1 }).handTo leader c

def removeChild (s : ConsumerWorld) (c : ℕ) : ConsumerWorld :=
  { s with registered := s.registered.erase (key (s.children c).consumer) }

def abandonBrokerConsumer (s : ConsumerWorld) (w : ℕ) : ConsumerWorld :=
  { s with brokerConsumers := s.brokerConsumers.erase (s.workers w).broker }

/-- The children that a worker is at work on, each with its feeder. -/
def Feeds (s : ConsumerWorld) (w c : ℕ) (feeder : Feeder) : Prop :=
  ∃ running feeders, (s.workers w).consumer = .feeding running feeders ∧ c ∈ running ∧ feeders c = feeder

/-- The feeder of a child goes on as `feeder`. -/
def setFeeder (s : ConsumerWorld) (w c : ℕ) (feeder : Feeder) : ConsumerWorld :=
  match (s.workers w).consumer with
  | .feeding running feeders =>
    s.setWorker w { s.workers w with consumer := .feeding running (Function.update feeders c feeder) }
  | _ => s

/-- The feeder of a child returns. -/
def endFeeder (s : ConsumerWorld) (w c : ℕ) : ConsumerWorld :=
  match (s.workers w).consumer with
  | .feeding running feeders =>
    s.setWorker w { s.workers w with consumer := .feeding (running.erase c) feeders }
  | _ => s

/-- The child at the head of `HandleResponses`, with its result taken. -/
def takeResult (s : ConsumerWorld) (c : ℕ) : ConsumerWorld := s.setChild c { s.children c with responseResult := 0 }

/-- `m_preferred_read_replica = InvalidPreferredReplicaID`. -/
def forgetReplica (s : ConsumerWorld) (c : ℕ) : ConsumerWorld :=
  s.setChild c { s.children c with
    consumer := { (s.children c).consumer with preferredReadReplica := InvalidPreferredReplicaID } }

/-- The parsing members of a child change. -/
def setConsumer (s : ConsumerWorld) (c : ℕ) (pc : PartitionConsumer) : ConsumerWorld :=
  s.setChild c { s.children c with consumer := pc }

def sendError (s : ConsumerWorld) (c : ℕ) (err : KError) : ConsumerWorld :=
  s.setChild c ((s.children c).sendError s.returnErrors err)

/-- `m_trigger.set(true)`. -/
def trigger (s : ConsumerWorld) (c : ℕ) : ConsumerWorld := s.setChild c (s.children c).setTrigger

def setDispatcher (s : ConsumerWorld) (c : ℕ) (dispatcher : Dispatcher) : ConsumerWorld :=
  s.setChild c { s.children c with dispatcher }

/-- `HandleResponses` moves on to the children of `todo`. -/
def handle (s : ConsumerWorld) (w : ℕ) (todo : Finset ℕ) : ConsumerWorld :=
  s.setWorker w { s.workers w with consumer := .handling todo }

/-- `m_subscriptions.erase(it)`, and on to the children of `todo`. -/
def unsubscribe (s : ConsumerWorld) (w c : ℕ) (todo : Finset ℕ) : ConsumerWorld :=
  s.setWorker w ((s.workers w).unsubscribe c todo)

/-- What happens next, and what is answered. -/
inductive Event where
  | consumePartition (pc : PartitionConsumer) (offset : Int64) (answers : OffsetAnswers) (leader : Int32)
  | asyncClose (c : ℕ)
  | wake (c : ℕ)
  | backedOff (c : ℕ)
  | dispatch (c : ℕ) (refreshed : KError) (answers : BrokerAnswers)
  | receive (w : ℕ)
  | collect (w : ℕ)
  | file (w : ℕ)
  | update (w : ℕ)
  | slept (w : ℕ)
  | fetch (w : ℕ) (outcome : Except KError FetchResponse)
  | feed (w c : ℕ) (expired : Bool)
  | fed (w : ℕ)
  | examine (w c : ℕ)
  | preferred (w : ℕ) (answers : BrokerAnswers)
  | reset (w : ℕ) (answers : OffsetAnswers)
  | handled (w : ℕ)
  | abortSlept (w : ℕ)

/-- One turn of one coroutine. -/
inductive Step : ConsumerWorld → Event → ConsumerWorld → Prop
  | consumePartition {s : ConsumerWorld} {pc pc' : PartitionConsumer} {offset : Int64} {answers : OffsetAnswers}
      {leader : Int32} (starts : pc.chooseStartingOffset offset answers = (0, pc')) (new : key pc' ∉ s.registered) :
    Step s (.consumePartition pc offset answers leader) (s.consumePartition pc' leader)
  | asyncClose {s : ConsumerWorld} {c : ℕ} (made : c < s.made) :
    Step s (.asyncClose c) (s.setChild c (s.children c).asyncClose)
  -- `Dispatcher`
  | wakeDying {s : ConsumerWorld} {c : ℕ} (waits : (s.children c).dispatcher = .waiting)
      (trigger : 0 < (s.children c).trigger)
      (dying : 0 < (s.children c).dying) :
    Step s (.wake c) ((s.setChild c { s.children c with
      trigger := (s.children c).trigger - 1, dying := (s.children c).dying - 1, dispatcher := .done }).removeChild c)
  | wake {s : ConsumerWorld} {c : ℕ} (waits : (s.children c).dispatcher = .waiting) (trigger : 0 < (s.children c).trigger)
      (alive : (s.children c).dying = 0) :
    Step s (.wake c) (s.setChild c { s.children c with trigger := (s.children c).trigger - 1, dispatcher := .backoff })
  | backedOff {s : ConsumerWorld} {c : ℕ} (sleeps : (s.children c).dispatcher = .backoff) :
    Step s (.backedOff c) (s.setDispatcher c .dispatching)
  | dispatchFailed {s : ConsumerWorld} {c : ℕ} {refreshed err : KError} {answers : BrokerAnswers} {pc : PartitionConsumer}
      (dispatching : (s.children c).dispatcher = .dispatching)
      (fails : (s.children c).consumer.dispatchTarget refreshed answers = (.error err, pc)) :
    Step s (.dispatch c refreshed answers) ((((s.setConsumer c pc).sendError c err).trigger c).setDispatcher c .waiting)
  | dispatched {s : ConsumerWorld} {c : ℕ} {refreshed : KError} {answers : BrokerAnswers} {broker : Int32}
      {pc : PartitionConsumer} (dispatching : (s.children c).dispatcher = .dispatching)
      (finds : (s.children c).consumer.dispatchTarget refreshed answers = (.ok (some broker), pc)) :
    Step s (.dispatch c refreshed answers) (((s.setConsumer c pc).setDispatcher c .waiting).handTo broker c)
  -- `SubscriptionManager`
  | receive {s : ConsumerWorld} {w c : ℕ} {rest : List ℕ} (hired : w < s.hired) (waits : (s.workers w).manager = .receiving)
      (front : (s.workers w).input = c :: rest) :
    Step s (.receive w) (s.setWorker w { s.workers w with input := rest, manager := .batching [c] })
  | collect {s : ConsumerWorld} {w c : ℕ} {rest batch : List ℕ} (hired : w < s.hired)
      (waits : (s.workers w).manager = .batching batch) (front : (s.workers w).input = c :: rest) :
    Step s (.collect w) (s.setWorker w { s.workers w with input := rest, manager := .batching (batch ++ [c]) })
  | file {s : ConsumerWorld} {w : ℕ} {batch : List ℕ} (hired : w < s.hired)
      (waits : (s.workers w).manager = .batching batch) :
    Step s (.file w) (s.setWorker w { s.workers w with newSubscriptions := batch, manager := .receiving })
  -- `SubscriptionConsumer`
  | update {s : ConsumerWorld} {w : ℕ} (hired : w < s.hired) (at_ : (s.workers w).consumer = .updating) :
    Step s (.update w) (s.setBoth w ((s.workers w).updateSubscriptions s.children))
  | slept {s : ConsumerWorld} {w : ℕ} (hired : w < s.hired) (at_ : (s.workers w).consumer = .sleeping) :
    Step s (.slept w) (s.setWorker w { s.workers w with consumer := .fetching })
  | fetchFailed {s : ConsumerWorld} {w : ℕ} {err : KError} (hired : w < s.hired) (at_ : (s.workers w).consumer = .fetching) :
    Step s (.fetch w (.error err))
      ((s.abandonBrokerConsumer w).setBoth w ((s.workers w).abort s.returnErrors err s.children))
  | fetched {s : ConsumerWorld} {w : ℕ} {response : FetchResponse} (hired : w < s.hired)
      (at_ : (s.workers w).consumer = .fetching)
      (parses : ∀ c ∈ (s.workers w).fed response s.children, (response.parsed (s.children c)).isSome) :
    Step s (.fetch w (.ok response)) (s.setBoth w ((s.workers w).startFeeders response s.children))
  -- `ResponseFeeder`, behind the interceptors of a message
  | feedEnd {s : ConsumerWorld} {w c : ℕ} {feeder : Feeder} {expired : Bool} (hired : w < s.hired)
      (feeds : s.Feeds w c feeder)
      (none : feeder.messages = []) :
    Step s (.feed w c expired) (s.endFeeder w c)
  | feedAgain {s : ConsumerWorld} {w c : ℕ} {feeder : Feeder} (hired : w < s.hired) (feeds : s.Feeds w c feeder)
      (some_ : feeder.messages ≠ []) (first : feeder.firstAttempt = true) :
    Step s (.feed w c true) (s.setFeeder w c { feeder with firstAttempt := false })
  | feedExpired {s : ConsumerWorld} {w c : ℕ} {feeder : Feeder} (hired : w < s.hired) (feeds : s.Feeds w c feeder)
      (some_ : feeder.messages ≠ []) (second : feeder.firstAttempt = false) :
    Step s (.feed w c true) (((s.setChild c { s.children c with
      responseResult := ErrTimedOut, messages := (s.children c).messages ++ feeder.messages }).endFeeder w c).enqueue
        (s.children c).broker c)
  | feedDied {s : ConsumerWorld} {w c : ℕ} {feeder : Feeder} (hired : w < s.hired) (feeds : s.Feeds w c feeder)
      (some_ : feeder.messages ≠ []) (dying : 0 < (s.children c).dying) :
    Step s (.feed w c false) ((s.setChild c { s.children c with dying := (s.children c).dying - 1 }).endFeeder w c)
  | feedDelivered {s : ConsumerWorld} {w c : ℕ} {feeder : Feeder} {message : ConsumerMessage} {rest : List ConsumerMessage}
      (hired : w < s.hired) (feeds : s.Feeds w c feeder) (front : feeder.messages = message :: rest)
      (alive : (s.children c).dying = 0) :
    Step s (.feed w c false) ((s.setChild c { s.children c with messages := (s.children c).messages ++ [message] }).setFeeder
      w c { feeder with messages := rest, firstAttempt := true })
  | fed {s : ConsumerWorld} {w : ℕ} {feeders : ℕ → Feeder} (hired : w < s.hired)
      (at_ : (s.workers w).consumer = .feeding ∅ feeders) :
    Step s (.fed w) (s.handle w (s.workers w).subscriptions)
  -- `HandleResponses`
  | examineFine {s : ConsumerWorld} {w c : ℕ} {todo : Finset ℕ} (hired : w < s.hired)
      (at_ : (s.workers w).consumer = .handling todo) (member : c ∈ todo)
        (fine : (s.children c).responseResult = ErrNoError) :
    Step s (.examine w c) (s.setWorker w { s.workers w with consumer := .preferring c (todo.erase c) })
  | examineTimedOut {s : ConsumerWorld} {w c : ℕ} {todo : Finset ℕ} (hired : w < s.hired)
      (at_ : (s.workers w).consumer = .handling todo) (member : c ∈ todo)
      (timedOut : (s.children c).responseResult = ErrTimedOut) :
    Step s (.examine w c) (((s.takeResult c).forgetReplica c).unsubscribe w c (todo.erase c))
  | examineOutOfRange {s : ConsumerWorld} {w c : ℕ} {todo : Finset ℕ} (hired : w < s.hired)
      (at_ : (s.workers w).consumer = .handling todo) (member : c ∈ todo)
      (outOfRange : (s.children c).responseResult = ErrOffsetOutOfRange) :
    Step s (.examine w c) (((s.takeResult c).forgetReplica c).setWorker w
      { s.workers w with consumer := .resetting c (todo.erase c) })
  | examineSeeking {s : ConsumerWorld} {w c : ℕ} {todo : Finset ℕ} (hired : w < s.hired)
      (at_ : (s.workers w).consumer = .handling todo) (member : c ∈ todo)
      (seeks : BrokerConsumer.SeeksBroker (s.children c).responseResult) :
    Step s (.examine w c) ((((s.takeResult c).forgetReplica c).trigger c).unsubscribe w c (todo.erase c))
  | examineFailed {s : ConsumerWorld} {w c : ℕ} {todo : Finset ℕ} {result : KError} (hired : w < s.hired)
      (at_ : (s.workers w).consumer = .handling todo) (member : c ∈ todo) (result_ : (s.children c).responseResult = result)
      (other : result ≠ ErrNoError ∧ result ≠ ErrTimedOut ∧ result ≠ ErrOffsetOutOfRange ∧
        ¬ BrokerConsumer.SeeksBroker result) :
    Step s (.examine w c)
      (((((s.takeResult c).forgetReplica c).sendError c result).trigger c).unsubscribe w c (todo.erase c))
  | preferredElsewhere {s : ConsumerWorld} {w c : ℕ} {todo : Finset ℕ} {answers : BrokerAnswers} {broker : Int32}
      {pc : PartitionConsumer} (hired : w < s.hired) (at_ : (s.workers w).consumer = .preferring c todo)
      (asks : (s.children c).consumer.preferredBroker answers = (.ok (some broker), pc))
      (elsewhere : (s.workers w).broker ≠ broker) :
    Step s (.preferred w answers) (((s.setConsumer c pc).trigger c).unsubscribe w c todo)
  | preferredHere {s : ConsumerWorld} {w c : ℕ} {todo : Finset ℕ} {answers : BrokerAnswers}
      {result : Except KError (Option Int32)}
      {pc : PartitionConsumer} (hired : w < s.hired) (at_ : (s.workers w).consumer = .preferring c todo)
      (asks : (s.children c).consumer.preferredBroker answers = (result, pc))
      (stays : result = .ok (some (s.workers w).broker) ∨ ∃ err, result = .error err) :
    Step s (.preferred w answers) ((s.setConsumer c pc).handle w todo)
  | resetFailed {s : ConsumerWorld} {w c : ℕ} {todo : Finset ℕ} {answers : OffsetAnswers} {err : KError}
      {pc : PartitionConsumer}
      (hired : w < s.hired) (at_ : (s.workers w).consumer = .resetting c todo)
      (resets : (s.children c).consumer.chooseStartingOffset s.initialOffset answers = (err, pc)) (fails : err ≠ 0) :
    Step s (.reset w answers) ((((s.setConsumer c pc).sendError c err).trigger c).unsubscribe w c todo)
  | resetDone {s : ConsumerWorld} {w c : ℕ} {todo : Finset ℕ} {answers : OffsetAnswers} {pc : PartitionConsumer}
      (hired : w < s.hired) (at_ : (s.workers w).consumer = .resetting c todo)
      (resets : (s.children c).consumer.chooseStartingOffset s.initialOffset answers = (0, pc)) :
    Step s (.reset w answers) (((s.setConsumer c pc).trigger c).handle w todo)
  | handled {s : ConsumerWorld} {w : ℕ} (hired : w < s.hired) (at_ : (s.workers w).consumer = .handling ∅) :
    Step s (.handled w) (s.setWorker w { s.workers w with consumer := .updating })
  | abortSlept {s : ConsumerWorld} {w : ℕ} (hired : w < s.hired) (at_ : (s.workers w).consumer = .aborting) :
    Step s (.abortSlept w) (s.setWorker w { s.workers w with consumer := .returned })

end ConsumerWorld

end Coev.Kafka
