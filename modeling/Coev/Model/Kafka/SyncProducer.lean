import Coev.Model.Core.Guard
import Coev.Model.Kafka.ProducerMessage

/-! # Synchronous producers

Every `SyncProducer` has an `AsyncProducer` of its own, and moves its replies to one channel that all of them share. A
call of `send_message` takes whatever reply the channel hands it, and then reads its own message. A call is named by its
place among all calls, and so is its message.
-/

namespace Coev.Kafka

open Guard

/-- What the `AsyncProducer` returned for a message. -/
inductive Outcome where
  | acknowledged (partition : Int32) (offset : Int64)
  | failed (err : KError)
deriving DecidableEq, Repr

/-- What `send_message` returns and leaves in its two references. -/
structure SendResult where
  code : KError
  partition : Int32
  offset : Int64
deriving DecidableEq, Repr

/-- `send_message` behind its wait. -/
def sendResult : Option ProducerMessage → SendResult
  | none => ⟨INVALID, -1, -1⟩
  | some msg => ⟨0, msg.partition, msg.offset⟩

/-- A call of `send_message`; `outcome` and `returned` record what became of its message and of itself. -/
structure SendCall where
  producer : ℕ
  message : ProducerMessage
  outcome : Option Outcome := none
  returned : Option SendResult := none
deriving Repr

/-- All calls of `send_message`, the `m_replies` of each producer, whether it is closed and its `handle_replies` at an end,
and the `expectations_pool`. -/
structure SyncProducers where
  sends : List SendCall := []
  replies : ℕ → List ℕ := fun _ => []
  closed : ℕ → Bool := fun _ => false
  ended : ℕ → Bool := fun _ => false
  pool : Guard (GuardChannel ℕ) := { shared := {}, delivers := fun _ => some [] }

namespace SyncProducers

/-- `m_replies.set`. -/
def setReply (s : SyncProducers) (producer m : ℕ) : SyncProducers :=
  { s with replies := Function.update s.replies producer (s.replies producer ++ [m]) }

/-- `return_successes` for one message, that has been given its partition and offset. -/
def returnSuccess (conf : ProducerConfig) (s : SyncProducers) (m : ℕ) (call : SendCall) (partition : Int32)
    (offset : Int64) :
    SyncProducers :=
  let outcome := some (.acknowledged partition offset)
  let message := { call.message with partition, offset }
  if conf.returnSuccesses then
    { s with sends := s.sends.set m { call with message := message.clear, outcome } }.setReply call.producer m
  else { s with sends := s.sends.set m { call with message, outcome } }

def returnError (conf : ProducerConfig) (s : SyncProducers) (m : ℕ) (call : SendCall) (err : KError) : SyncProducers :=
  let outcome := some (.failed err)
  let message := call.message.clear
  if conf.returnErrors then
    { s with sends := s.sends.set m { call with message := { message with err }, outcome } }.setReply call.producer m
  else { s with sends := s.sends.set m { call with message, outcome } }

/-- The `get` of a call is over. -/
def GetReturned (s : SyncProducers) (c : ℕ) : Prop :=
  some c ∈ s.pool.shared.handed.map Prod.fst ∧ ∀ w ∈ s.pool.async.waiters, w.caller = c →
    w.progress ≠ .constructed ∧ w.progress ≠ .unready ∧ w.progress ≠ .suspended
deriving Decidable

/-- What is done next. `send` and `get` are the two halves of `send_message` in front of its wait and `resume` what is behind
it; `handle` is a round of `handle_replies`. -/
inductive Call where
  | send (producer : ℕ) (message : ProducerMessage)
  | get (c tid : ℕ) (reserved : Int64)
  | acknowledge (m : ℕ) (partition : Int32) (offset : Int64)
  | fail (m : ℕ) (err : KError)
  | handle (producer tid : ℕ)
  | close (producer : ℕ)
  | proceed (call : Guard.Call (GuardChannel ℕ)) (continues : Continues call)
  | resume (c : ℕ)

/-- A call of the pool. -/
def onPool (s : SyncProducers) (call : GuardChannel.Call ℕ) : Option SyncProducers :=
  (s.pool.call GuardChannel.monitor call.guarded).map fun pool => { s with pool }

/-- The `AsyncProducer` answers a message once. -/
def answer (s : SyncProducers) (m : ℕ) (give : SendCall → SyncProducers) : Option SyncProducers :=
  match s.sends[m]? with
  | none => none
  | some call => if call.outcome = none then some (give call) else none

/-- One call. -/
def call (conf : ℕ → ProducerConfig) (s : SyncProducers) : Call → Option SyncProducers
  | .send producer message => some { s with sends := s.sends ++ [{ producer, message }] }
  | .get c tid reserved =>
    if c < s.sends.length ∧ c ∉ s.pool.arrived then s.onPool (.get c tid reserved) else none
  | .acknowledge m partition offset =>
    s.answer m fun call => returnSuccess (conf call.producer) s m call partition offset
  | .fail m err => s.answer m fun call => returnError (conf call.producer) s m call err
  | .handle producer tid =>
    match s.replies producer with
    | [] => none
    | m :: replies =>
      if s.ended producer then none
      else
        { s with
          replies := Function.update s.replies producer replies
          ended := Function.update s.ended producer (s.closed producer) }.onPool (.set tid m)
  | .close producer => some { s with closed := Function.update s.closed producer true }
  | .proceed call continues => s.onPool (.proceed call continues)
  | .resume c =>
    match s.sends[c]? with
    | none => none
    | some call =>
      if call.returned = none ∧ s.GetReturned c then
        some { s with sends := s.sends.set c { call with returned := some (sendResult (some call.message)) } }
      else none

/-- The calls of any number of threads, in any order. -/
def Step (conf : ℕ → ProducerConfig) (s : SyncProducers) (c : Call) (s' : SyncProducers) : Prop := s.call conf c = some s'

end SyncProducers

end Coev.Kafka
