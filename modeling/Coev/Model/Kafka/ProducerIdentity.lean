import Coev.Model.Kafka.Client
import Coev.Model.Kafka.TransactionManager

/-! # The identity of a producer

`init_producer_id` asks for an identity until an answer settles it. Its request is a pointer to nothing: whatever
is written through it, or sent with it, ends the call without a code. The identity goes to the members of the
manager or to two locals of the caller, which nobody reads afterwards.
-/

namespace Coev.Kafka

/-- `InitProducerIDRequest`, but for the timeout of transactions. -/
structure InitProducerIDRequest where
  version : Int16 := 0
  transactionalId : Bytes := []
  producerId : Int64 := noProducerID
  producerEpoch : Int16 := noProducerEpoch
deriving DecidableEq, Repr

/-- What the cluster says to one attempt. -/
structure InitProducerIDAnswer where
  /-- `TransactionCoordinator` finds a broker, whatever code it returns. -/
  hasCoordinator : Bool := true
  leastLoadedBroker : KError := 0
  /-- The code of the exchange; without a request, that of getting ready for it. -/
  transport : KError := 0
  err : KError := 0
  producerId : Int64 := 0
  producerEpoch : Int16 := 0

/-- The variables that `init_producer_id` is given references to. -/
inductive IdentityOut where
  | members
  | locals
deriving DecidableEq, Repr

/-- The manager, the locals of the caller, and the identities in the answers without an error, latest first. -/
structure IdentityWorld where
  manager : TransactionManager
  locals : Int64 × Int16
  answered : List (Int64 × Int16) := []

abbrev Identifying := EStateM Abort IdentityWorld

namespace TransactionManager

/-- A transition: the code it returns. -/
def identityTransition (target : TxnStatus) (err : KError) : Identifying KError := fun w =>
  let moved := w.manager.transitionTo target err
  .ok moved.1 { w with manager := moved.2 }

/-- The identity that the references hold. -/
def currentIdentity (out : IdentityOut) : Identifying (Int64 × Int16) := fun w =>
  match out with
  | .members => .ok (w.manager.producerId, w.manager.producerEpoch) w
  | .locals => .ok w.locals w

def storeIdentity (out : IdentityOut) (producerId : Int64) (producerEpoch : Int16) : Identifying Unit := fun w =>
  match out with
  | .members => .ok () { w with manager := { w.manager with producerId, producerEpoch } }
  | .locals => .ok () { w with locals := (producerId, producerEpoch) }

/-- A result of an attempt that leaves no identity. -/
def withoutIdentity (out : IdentityOut) (result : TxnResult) : Identifying TxnResult := do
  storeIdentity out noProducerID noProducerEpoch
  return result

/-- What `_init_producer_id` does with a response without an error. -/
def acceptIdentity (out : IdentityOut) (isEpochBump : Bool) (answer : InitProducerIDAnswer) : Identifying TxnResult := do
  modify fun w => { w with answered := (answer.producerId, answer.producerEpoch) :: w.answered }
  if isEpochBump then modify fun w => { w with manager := { w.manager with sequenceNumbers := ∅ } }
  let err ← identityTransition ProducerTxnFlagReady ErrNoError
  if err ≠ ErrNoError then withoutIdentity out { retry := true, error := err }
  else
    storeIdentity out answer.producerId answer.producerEpoch
    return { retry := false, error := ErrNoError }

/-- What `_init_producer_id` does with the error of a response. -/
def refuseIdentity (out : IdentityOut) (err : KError) : Identifying TxnResult := do
  if err = ErrConsumerCoordinatorNotAvailable ∨ err = ErrNotCoordinatorForConsumer ∨ err = ErrOffsetsLoadInProgress then
    withoutIdentity out { retry := true, error := err }
  else
    let _ ← identityTransition fatal err
    withoutIdentity out { retry := false, error := err }

/-- `_init_producer_id` from the exchange on. -/
def askIdentity (out : IdentityOut) (isEpochBump : Bool) (request : Option InitProducerIDRequest)
    (answer : InitProducerIDAnswer) : Identifying TxnResult := do
  if answer.transport ≠ ErrNoError then withoutIdentity out { retry := true, error := answer.transport }
  else if request.isNone then throw .nullPointer
  else if answer.err = ErrNoError then acceptIdentity out isEpochBump answer
  else refuseIdentity out answer.err

/-- Whether no broker is found to ask. -/
def noBroker (m : TransactionManager) (answer : InitProducerIDAnswer) : Bool :=
  if m.isTransactional then !answer.hasCoordinator else answer.leastLoadedBroker ≠ 0

/-- `_init_producer_id`. -/
def identityAttempt (out : IdentityOut) (isEpochBump : Bool) (request : Option InitProducerIDRequest)
    (answer : InitProducerIDAnswer) : Identifying TxnResult := do
  if noBroker (← get).manager answer then withoutIdentity out { retry := true, error := -1 }
  else askIdentity out isEpochBump request answer

/-- The loop of `Retry` with the attempts that are left, from the `k`-th answer on. -/
def identityLoop (attempt : ℕ → Identifying TxnResult) : ℕ → ℕ → Identifying KError
  | 0, _ => return 0
  | left + 1, k => do
    let r ← attempt k
    if !r.retry then return r.error
    else identityLoop attempt left (k + 1)

/-- Members of the request are written. -/
def writeThrough (request : Option InitProducerIDRequest) (f : InitProducerIDRequest → InitProducerIDRequest) :
    Identifying (Option InitProducerIDRequest) :=
  match request with
  | none => throw .nullPointer
  | some request => return some (f request)

/-- The request for the version of the cluster, and whether it bumps an epoch. -/
def identityRequest (out : IdentityOut) (conf : TxnConfig) (request : Option InitProducerIDRequest) :
    Identifying (Option InitProducerIDRequest × Bool) := do
  if conf.version.isAtLeast V2_5_0_0 then
    let request ← writeThrough request fun r => { r with version := if conf.version.isAtLeast V2_7_0_0 then 4 else 3 }
    let held ← currentIdentity out
    modify fun w => { w with manager := { w.manager with coordinatorSupportsBumpingEpoch := true } }
    let request ← writeThrough request fun r => { r with producerId := held.1, producerEpoch := held.2 }
    return (request, decide (held.1 ≠ noProducerID ∧ held.2 ≠ noProducerEpoch))
  else if conf.version.isAtLeast V2_4_0_0 then
    let request ← writeThrough request fun r => { r with version := 2 }
    return (request, false)
  else if conf.version.isAtLeast V2_0_0_0 then
    let request ← writeThrough request fun r => { r with version := 1 }
    return (request, false)
  else return (request, false)

/-- `init_producer_id`; no object is made for the request. -/
def initProducerId (out : IdentityOut) (answers : ℕ → InitProducerIDAnswer) : Identifying KError := do
  let m := (← get).manager
  let request ← if m.isTransactional then writeThrough none fun r => { r with transactionalId := m.transactionalId }
      else pure none
  let asked ← identityRequest out m.conf request
  identityLoop (fun k => identityAttempt out asked.2 asked.1 (answers k)) (attempts m.conf) 0

/-- `NewAsyncProducer` up to the producer, which is given the manager. -/
def newAsyncProducer (closed : Bool) (answers : ℕ → InitProducerIDAnswer) : Identifying KError := do
  if closed then return ErrClosedClient
  else if (← get).manager.conf.idempotent then initProducerId .locals answers
  else return ErrNoError

/-- `bump_idempotent_producer_epoch`: behind the last epoch a new manager takes the place of the one there is, once it
has an identity. -/
def bumpIdempotentProducerEpoch (answers : ℕ → InitProducerIDAnswer) : Identifying Unit := do
  let m := (← get).manager
  if m.producerEpoch = Int16.maxValue then
    modify fun w => { w with manager := create m.conf }
    if m.conf.idempotent then
      let err ← initProducerId .locals answers
      if err ≠ ErrNoError then modify fun w => { w with manager := m }
  else modify fun w => { w with manager := w.manager.bumpEpoch }

end TransactionManager

end Coev.Kafka
