import Coev.Model.Kafka.ProducerMessage

/-! # `AsyncProducer`: the dispatcher and the shutdown

Every message that the dispatcher accepts is counted as in flight until it is returned, and a shutdown waits for
the count. Behind the dispatcher the topic, partition and broker producers hold the messages: each they return,
or retry, once; how they choose is left open, and so is the state of a transaction. The control messages of the
partition producers are counted like the others.
-/

namespace Coev.Kafka

def ErrHeaderVersionIsOld : KError := 1040
def ErrMaxMessageBytes : KError := 1052

/-- `accepted` is the number of messages counted so far, which is the next ticket, `ended` has the tickets of
those that are counted no longer, and `shutDown` tells that the dispatcher has handled the marker of a shutdown. -/
structure AsyncProducer where
  input : List ProducerMessage := []
  replies : List ProducerMessage := []
  /-- `m_retries`, and what the retry handler keeps of it. -/
  retries : List ProducerMessage := []
  /-- What the topic, partition and broker producers hold. -/
  dispatched : List ProducerMessage := []
  /-- `m_count` of `m_in_flight`. -/
  inFlight : ℤ := 0
  /-- The shutdowns in `m_in_flight.wait()`, and those that it has let go. -/
  waiting : ℕ := 0
  released : ℕ := 0
  accepted : ℕ := 0
  ended : List ℕ := []
  shutDown : Bool := false
deriving DecidableEq, Repr

namespace AsyncProducer

variable (conf : ProducerConfig)

/-- `m_in_flight.done`. -/
def done (s : AsyncProducer) : AsyncProducer :=
  if 0 < s.inFlight - 1 then { s with inFlight := s.inFlight - 1 }
  else { s with inFlight := s.inFlight - 1, waiting := 0, released := s.released + s.waiting }

/-- `m_in_flight.add` for a message. -/
def accept (s : AsyncProducer) : AsyncProducer := { s with inFlight := s.inFlight + 1, accepted := s.accepted + 1 }

/-- A message comes to its end. -/
def finish (s : AsyncProducer) (msg : ProducerMessage) : AsyncProducer :=
  { s with ended := s.ended ++ [msg.ticket] }.done

def returnError (s : AsyncProducer) (msg : ProducerMessage) (err : KError) : AsyncProducer :=
  if conf.returnErrors then { s with replies := s.replies ++ [{ msg.clear with err }] }.finish msg else s.finish msg

/-- `return_successes` for one message. -/
def returnSuccess (s : AsyncProducer) (msg : ProducerMessage) : AsyncProducer :=
  if conf.returnSuccesses then { s with replies := s.replies ++ [msg.clear] }.finish msg else s.finish msg

def retryMessage (s : AsyncProducer) (msg : ProducerMessage) (err : KError) : AsyncProducer :=
  if conf.retryMax ≤ msg.retries then s.returnError conf msg err
  else { s with retries := s.retries ++ [{ msg with retries := msg.retries + 1 }] }

/-! ## The dispatcher -/

/-- What `is_transactional()` and the state of the transaction make of a fresh message. -/
def notReady (inTransaction : Bool) : Bool := !conf.transactionID.isEmpty && !inTransaction

/-- The checks that every message passes. -/
def refused (msg : ProducerMessage) : Option KError :=
  if !conf.version.isAtLeast V0_11_0_0 && !msg.headers.isEmpty then some ErrHeaderVersionIsOld
  else if conf.maxMessageBytes < msg.byteSize (if conf.version.isAtLeast V0_11_0_0 then 2 else 1) then
    some ErrMaxMessageBytes
  else none

/-- From the interceptors on. -/
def toTopic (s : AsyncProducer) (intercept : ProducerMessage → ProducerMessage) (msg : ProducerMessage) : AsyncProducer :=
  let msg := intercept msg
  match refused conf msg with
  | some err => s.returnError conf msg err
  | none => { s with dispatched := s.dispatched ++ [msg] }

/-- A message with `m_retries == 0`. -/
def dispatchFresh (s : AsyncProducer) (shuttingDown inTransaction : Bool) (intercept : ProducerMessage → ProducerMessage)
    (msg : ProducerMessage) : AsyncProducer :=
  if shuttingDown then
    if conf.returnErrors then { s with replies := s.replies ++ [{ msg with err := ErrShuttingDown }] } else s
  else
    let msg := { msg with ticket := s.accepted }
    let s := s.accept
    if notReady conf inTransaction then s.returnError conf msg ErrTransactionNotReady
    else s.toTopic conf intercept msg

/-- A round of the loop with the message taken. `shutting_down` is a variable of the round. -/
def dispatchMessage (s : AsyncProducer) (inTransaction : Bool) (intercept : ProducerMessage → ProducerMessage)
    (msg : ProducerMessage) : AsyncProducer :=
  let shuttingDown := false
  if msg.has Endtxn then s.done
  else if msg.has Shutdown then { s.done with shutDown := true }
  else if msg.retries = 0 then s.dispatchFresh conf shuttingDown inTransaction intercept msg
  else s.toTopic conf intercept msg

/-- A round of the loop. -/
def dispatchOne (s : AsyncProducer) (inTransaction : Bool) (intercept : ProducerMessage → ProducerMessage) :
    AsyncProducer :=
  match s.input with
  | [] => s
  | msg :: input => { s with input }.dispatchMessage conf inTransaction intercept msg

/-! ## What happens to a producer -/

/-- A counted message for the dispatcher itself. -/
def sendMarker (s : AsyncProducer) (flags : FlagSet) : AsyncProducer :=
  { s with inFlight := s.inFlight + 1, input := s.input ++ [{ flags }] }

inductive Event where
  /-- `m_input.set` by a user. -/
  | send (msg : ProducerMessage)
  /-- `async_close`, up to the wait of `shutdown`. -/
  | asyncClose
  | finishTransaction (commit : Bool)
  | dispatch (inTransaction : Bool) (intercept : ProducerMessage → ProducerMessage)
  /-- A partition producer makes a control message. -/
  | control (msg : ProducerMessage)
  /-- A control message is done. -/
  | controlDone (msg : ProducerMessage)
  | succeed (msg : ProducerMessage)
  | fail (msg : ProducerMessage) (err : KError)
  | retry (msg : ProducerMessage) (err : KError)
  /-- The retry handler forwards a message. -/
  | handleRetry

/-- What an event does. -/
def apply (s : AsyncProducer) : Event → AsyncProducer
  | .send msg => { s with input := s.input ++ [msg] }
  | .asyncClose => { s.sendMarker Shutdown with waiting := s.waiting + 1 }
  | .finishTransaction commit => s.sendMarker (if commit then Endtxn ||| Committxn else Endtxn ||| Aborttxn)
  | .dispatch inTransaction intercept => s.dispatchOne conf inTransaction intercept
  | .control msg => { s.accept with dispatched := s.dispatched ++ [{ msg with ticket := s.accepted }] }
  | .controlDone msg => { s with dispatched := s.dispatched.erase msg }.finish msg
  | .succeed msg => { s with dispatched := s.dispatched.erase msg }.returnSuccess conf msg
  | .fail msg err => { s with dispatched := s.dispatched.erase msg }.returnError conf msg err
  | .retry msg err => { s with dispatched := s.dispatched.erase msg }.retryMessage conf msg err
  | .handleRetry => { s with retries := s.retries.tail, input := s.input ++ s.retries.take 1 }

/-- The flags of a message from a user, or from a partition producer. -/
def Plain (msg : ProducerMessage) : Prop := ¬ msg.has Shutdown ∧ ¬ msg.has Endtxn

/-- When an event can be. An interceptor changes what is sent. -/
def Possible (s : AsyncProducer) : Event → Prop
  | .send msg => msg.retries = 0 ∧ msg.flags = 0
  | .dispatch _ intercept =>
    s.input ≠ [] ∧ ∀ msg, (intercept msg).flags = msg.flags ∧ (intercept msg).retries = msg.retries ∧
      (intercept msg).ticket = msg.ticket
  | .control msg => Plain msg
  | .controlDone msg | .succeed msg | .fail msg _ | .retry msg _ => msg ∈ s.dispatched
  | _ => True

def Step (s : AsyncProducer) (e : Event) (t : AsyncProducer) : Prop := s.Possible e ∧ t = s.apply conf e

end AsyncProducer

end Coev.Kafka

/-! ## What the operations of a producer change

A message that comes to its end changes the count and the tickets, and one that is returned with an error also the
replies.
-/

namespace Coev.Kafka.AsyncProducer

variable {conf : ProducerConfig} {s : AsyncProducer} {msg : ProducerMessage} {err : KError}

@[simp] theorem inFlight_done (s : AsyncProducer) : s.done.inFlight = s.inFlight - 1 := by
  unfold done; split <;> rfl

@[simp] theorem retries_done (s : AsyncProducer) : s.done.retries = s.retries := by
  unfold done; split <;> rfl

@[simp] theorem dispatched_done (s : AsyncProducer) : s.done.dispatched = s.dispatched := by
  unfold done; split <;> rfl

@[simp] theorem accepted_done (s : AsyncProducer) : s.done.accepted = s.accepted := by
  unfold done; split <;> rfl

@[simp] theorem ended_done (s : AsyncProducer) : s.done.ended = s.ended := by
  unfold done; split <;> rfl

@[simp] theorem replies_done (s : AsyncProducer) : s.done.replies = s.replies := by
  unfold done; split <;> rfl

@[simp] theorem dispatched_returnError (s : AsyncProducer) (msg : ProducerMessage) (err : KError) :
    (s.returnError conf msg err).dispatched = s.dispatched := by
  unfold returnError
  split <;> exact dispatched_done _

@[simp] theorem retries_returnError (s : AsyncProducer) (msg : ProducerMessage) (err : KError) :
    (s.returnError conf msg err).retries = s.retries := by
  unfold returnError
  split <;> exact retries_done _

@[simp] theorem ended_returnError (s : AsyncProducer) (msg : ProducerMessage) (err : KError) :
    (s.returnError conf msg err).ended = s.ended ++ [msg.ticket] := by
  unfold returnError
  split <;> exact ended_done _

theorem replies_returnError (set : conf.returnErrors) (s : AsyncProducer) (msg : ProducerMessage) (err : KError) :
    (s.returnError conf msg err).replies = s.replies ++ [{ msg.clear with err }] := by
  rw [returnError, if_pos set]
  exact replies_done _

end Coev.Kafka.AsyncProducer
