import Coev.Model.Kafka.BrokerConsumer
import Coev.Model.Kafka.Client
import Coev.ToMathlib.Calls

/-! # The broker that a partition is read from

`PreferredBroker` and the loop of `HandleResponses` as programs over what they ask of the client, whose answers are free.
A pointer to a broker that may be null is an option.
-/

namespace Coev.Kafka

/-- What `GetBroker` answers. A broker that is registered under the id is opened, with the code of that. -/
inductive BrokerLookup (id : Int32) where
  /-- `ErrBrokerNotFound`; the variable of the caller is not set. -/
  | unknown
  | known (broker : BrokerObject) (registered : broker.broker.id = id) (opened : KError)

/-- What `LeaderAndEpoch` answers. -/
inductive LeaderLookup where
  /-- The epoch of the caller becomes -1, unless the client is closed. -/
  | fails (err : KError) (nonzero : err ≠ 0) (closed : Bool)
  | found (broker : BrokerObject) (epoch : Int32)

inductive ReaderCall where
  | getBroker (id : Int32)
  | refreshMetadata (topics : List Bytes)
  | leaderAndEpoch (topic : Bytes) (partition : Int32)
  /-- The two calls of `GetOffset` in `ChooseStartingOffset`. -/
  | getOffsets (topic : Bytes) (partition : Int32)

abbrev ReaderCall.Answer : ReaderCall → Type
  | .getBroker id => BrokerLookup id
  | .refreshMetadata _ => KError
  | .leaderAndEpoch _ _ => LeaderLookup
  | .getOffsets _ _ => OffsetAnswers

abbrev Reader := Calls ReaderCall ReaderCall.Answer

namespace Reader

def ask (c : ReaderCall) : Reader c.Answer := Calls.send c

/-- What `PreferredBroker` returns and leaves: the code, the two variables of its caller, and the consumer. -/
structure Selection where
  err : KError
  broker : Option BrokerObject
  epoch : Int32
  consumer : PartitionConsumer

/-- The end of `PreferredBroker`. -/
def selectLeader (pc : PartitionConsumer) (broker : Option BrokerObject) (epoch : Int32) : Reader Selection := do
  match ← ask (.leaderAndEpoch pc.topic pc.partition) with
  | .fails err _ closed => return ⟨err, broker, if closed then epoch else -1, pc⟩
  | .found leader leaderEpoch => return ⟨0, some leader, leaderEpoch, pc⟩

/-- `PreferredBroker`, of a consumer with `leaderEpoch` as its `m_leader_epoch`. -/
def preferredBroker (leaderEpoch : Int32) (pc : PartitionConsumer) (broker : Option BrokerObject) (epoch : Int32) :
    Reader Selection := do
  if 0 ≤ pc.preferredReadReplica then
    match ← ask (.getBroker pc.preferredReadReplica) with
    | .unknown => return ⟨0, broker, leaderEpoch, pc⟩
    | .known preferred _ opened =>
      if opened ≠ ErrNoError then return ⟨0, some preferred, leaderEpoch, pc⟩
      else
        let pc := { pc with preferredReadReplica := InvalidPreferredReplicaID }
        let err ← ask (.refreshMetadata [pc.topic])
        if err ≠ ErrNoError then return ⟨err, some preferred, epoch, pc⟩
        else selectLeader pc (some preferred) epoch
  else selectLeader pc broker epoch

/-! ## `HandleResponses` -/

/-- What becomes of a child: it stays with its broker, it moves to another, it is taken out for its result, or the
null pointer is followed. -/
inductive Handling where
  | stays (child : Child)
  | moves (selected : BrokerObject) (child : Child)
  | leaves (child : Child)
  | nullPointer

/-- The comparison with `m_broker`. -/
def compareBrokers (own : BrokerObject) (child : Child) (selection : Selection) : Handling :=
  let child := { child with consumer := selection.consumer }
  if selection.err = 0 then
    match selection.broker with
    | none => .nullPointer
    | some broker => if own.broker.id ≠ broker.broker.id then .moves broker child.setTrigger else .stays child
  else .stays child

/-- `ErrOffsetOutOfRange`. -/
def resetOffset (initialOffset : Int64) (returnErrors : Bool) (child : Child) : Reader Handling := do
  let answers ← ask (.getOffsets child.consumer.topic child.consumer.partition)
  let (err, consumer) := child.consumer.chooseStartingOffset initialOffset answers
  let child := { child with consumer }
  if err ≠ ErrNoError then return .leaves (child.fail returnErrors err)
  else return .stays child.setTrigger

/-- A round of the loop, for a child whose `m_leader_epoch` is `leaderEpoch`. -/
def handleResponse (initialOffset : Int64) (returnErrors : Bool) (own : BrokerObject) (leaderEpoch : Int32) (child : Child) :
    Reader Handling := do
  let result := child.responseResult
  let child := { child with responseResult := ErrNoError }
  if result = ErrNoError then
    let selection ← preferredBroker leaderEpoch child.consumer none 0
    return compareBrokers own child selection
  else
    let child := { child with
      consumer := { child.consumer with preferredReadReplica := InvalidPreferredReplicaID } }
    if result = ErrTimedOut then return .leaves child
    else if result = ErrOffsetOutOfRange then resetOffset initialOffset returnErrors child
    else if BrokerConsumer.SeeksBroker result then return .leaves child.setTrigger
    else return .leaves (child.fail returnErrors result)

/-- `HandleResponses`, over the children in the order of the set. Nothing comes after the null pointer. -/
def handleResponses (initialOffset : Int64) (returnErrors : Bool) (own : BrokerObject) :
    List (Int32 × Child) → Reader (List Handling)
  | [] => return []
  | (leaderEpoch, child) :: rest => do
    match ← handleResponse initialOffset returnErrors own leaderEpoch child with
    | .nullPointer => return [.nullPointer]
    | handling =>
      let later ← handleResponses initialOffset returnErrors own rest
      return handling :: later

end Reader

end Coev.Kafka
