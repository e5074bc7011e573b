import Coev.Model.Kafka.BrokerProducer
import Coev.ToMathlib.Transition

/-! # What becomes of a set that could not be sent

`handle_error` has its test the wrong way round. A transport error returns every message of the set, whatever its
retries, and the broker producer goes on as before: nothing ever sets `m_closing`.
-/

namespace Coev.Kafka.BrokerProducer

open Transition

variable {conf : ProducerConfig} {s t : BrokerProducer} {sent : ProduceSet} {err : KError}

/-- The messages of a set. -/
def messagesOf (set : ProduceSet) : List ProducerMessage := set.messages.toList.flatMap fun entry => entry.2.messages

/-- A message may be sent again. -/
def canRetry (conf : ProducerConfig) (msg : ProducerMessage) : Bool := msg.retries < conf.retryMax

/-- The messages of a batch go to the retry channel if their retries allow it, and are returned with the error
otherwise. -/
structure Disposes (conf : ProducerConfig) (s t : AsyncProducer) (batch : List ProducerMessage) (err : KError) : Prop where
  retried : t.retries.Perm (s.retries ++ (batch.filter (canRetry conf)).map (AsyncProducer.afterRetry conf))
  ended : t.ended.Perm (s.ended ++ (batch.filter fun msg => !canRetry conf msg).map (·.ticket))
  replied : conf.returnErrors →
    t.replies.Perm (s.replies ++ (batch.filter fun msg => !canRetry conf msg).map fun msg => { msg.clear with err })

/-- The messages of a failed set are disposed of, and every later message is redirected. -/
structure LeadsToRetry (conf : ProducerConfig) (s : BrokerProducer) (sent : ProduceSet) (err : KError) (t : BrokerProducer) :
    Prop where
  disposes : Disposes conf s.parent t.parent (messagesOf sent) err
  redirects : ∀ msg, t.needsRetry msg ≠ ErrNoError

/-! ## What an error does -/

section

variable {a : AsyncProducer} (batch : List ProducerMessage)

private theorem retries_returnErrors : (a.returnErrors conf batch err).retries = a.retries := by
  induction batch generalizing a with
  | nil => rfl
  | cons msg rest ih => exact ih.trans (AsyncProducer.retries_returnError a msg err)

private theorem ended_returnErrors : (a.returnErrors conf batch err).ended = a.ended ++ batch.map (·.ticket) := by
  induction batch generalizing a with
  | nil => exact (List.append_nil _).symm
  | cons msg rest ih =>
    refine ih.trans ?_
    rw [AsyncProducer.ended_returnError, List.append_assoc]
    rfl

private theorem replies_returnErrors (set : conf.returnErrors) :
    (a.returnErrors conf batch err).replies = a.replies ++ batch.map fun msg => { msg.clear with err } := by
  induction batch generalizing a with
  | nil => exact (List.append_nil _).symm
  | cons msg rest ih =>
    refine ih.trans ?_
    rw [AsyncProducer.replies_returnError set, List.append_assoc]
    rfl

end

/-- An error returns all messages of the set. -/
theorem handleError_of_ne (failed : err ≠ ErrNoError) :
    s.handleError conf sent err = s.returnErrors conf (messagesOf sent) err := by
  unfold handleError
  rw [if_pos failed, ProduceSet.eachPartition, messagesOf]
  induction sent.messages.toList generalizing s with
  | nil => rfl
  | cons entry rest ih =>
    refine ih.trans ?_
    simp only [returnErrors, AsyncProducer.returnErrors, List.flatMap_cons, List.foldl_append]

/-- The messages of the set are disposed of as they should be only when none of them may be sent again. -/
theorem disposes_returnErrors_iff {a : AsyncProducer} {batch : List ProducerMessage} :
    Disposes conf a (a.returnErrors conf batch err) batch err ↔ ∀ msg ∈ batch, conf.retryMax ≤ msg.retries := by
  constructor
  · intro disposes
    have length := disposes.retried.length_eq
    rw [retries_returnErrors, List.length_append, List.length_map] at length
    have none_ : batch.filter (canRetry conf) = [] := List.length_eq_zero_iff.mp (by omega)
    simpa [canRetry] using List.filter_eq_nil_iff.mp none_
  · intro exhausted
    have none_ : batch.filter (canRetry conf) = [] := List.filter_eq_nil_iff.mpr (by simpa [canRetry] using exhausted)
    have all : (batch.filter fun msg => !canRetry conf msg) = batch :=
      List.filter_eq_self.mpr (by simpa [canRetry] using exhausted)
    refine ⟨?_, ?_, fun set => ?_⟩
    · rw [retries_returnErrors, none_, List.map_nil, List.append_nil]
    · rw [ended_returnErrors, all]
    · rw [replies_returnErrors _ set, all]

/-! ## Nothing sets `m_closing` -/

theorem eachPartition_induct {σ : Type} {P : σ → Prop} {f : TopicPartition → PartitionSet → σ → σ}
    (keeps : ∀ tp pset s, P s → P (f tp pset s)) (set : ProduceSet) {s : σ} (start : P s) : P (set.eachPartition f s) := by
  unfold ProduceSet.eachPartition
  induction set.messages.toList generalizing s with
  | nil => exact start
  | cons entry rest ih => exact ih (keeps _ _ _ start)

/-- The broker producer goes on. -/
def GoesOn (s : BrokerProducer) : Prop := s.closing = ErrNoError

namespace GoesOn

theorem redirect (goesOn : s.GoesOn) (msg : ProducerMessage) (reason : KError) : (s.redirect conf msg reason).GoesOn := by
  unfold BrokerProducer.redirect
  dsimp only
  split <;> exact goesOn

theorem makeRoom (goesOn : s.GoesOn) (msg : ProducerMessage) : (s.makeRoom conf msg).GoesOn := by
  unfold BrokerProducer.makeRoom
  split <;> exact goesOn

theorem matchEpoch (goesOn : s.GoesOn) (msg : ProducerMessage) : (s.matchEpoch msg).GoesOn := by
  unfold BrokerProducer.matchEpoch
  split <;> exact goesOn

theorem addMessage (goesOn : s.GoesOn) (now : Timestamp) (msg : ProducerMessage) : (s.addMessage conf now msg).GoesOn := by
  unfold BrokerProducer.addMessage
  dsimp only
  repeat' split
  all_goals exact goesOn

theorem receiveMessage (goesOn : s.GoesOn) (now : Timestamp) (msg : ProducerMessage) :
    (s.receiveMessage conf now msg).GoesOn := by
  unfold BrokerProducer.receiveMessage
  repeat' split
  · exact goesOn
  · exact goesOn.redirect msg _
  · exact goesOn
  · exact ((goesOn.makeRoom msg).matchEpoch msg).addMessage now msg

theorem receive (goesOn : s.GoesOn) (now : Timestamp) (msg : Option ProducerMessage) : (s.receive conf now msg).GoesOn := by
  cases msg with
  | none =>
    change s.shutdown.GoesOn
    unfold shutdown
    split <;> exact goesOn
  | some msg => exact goesOn.receiveMessage now msg

theorem afterResponse (goesOn : s.GoesOn) : s.afterResponse.GoesOn := by
  unfold BrokerProducer.afterResponse
  split <;> exact goesOn

theorem settlePartition (response : Option ProduceResponse) (tp : TopicPartition) (pset : PartitionSet)
    (s : BrokerProducer × List Bytes) (goesOn : s.1.GoesOn) : (settlePartition conf response tp pset s).1.GoesOn := by
  unfold BrokerProducer.settlePartition
  cases response with
  | none => exact goesOn
  | some response =>
    dsimp only
    repeat' split
    all_goals exact goesOn

theorem retryBatch (goesOn : s.GoesOn) (tp : TopicPartition) (pset : PartitionSet) (err : KError) :
    (s.retryBatch conf tp pset err).GoesOn := by
  unfold BrokerProducer.retryBatch
  split <;> exact goesOn

theorem retryPartition (response : ProduceResponse) (tp : TopicPartition) (pset : PartitionSet) (s : BrokerProducer)
    (goesOn : s.GoesOn) : (s.retryPartition conf response tp pset).GoesOn := by
  unfold BrokerProducer.retryPartition
  dsimp only
  split
  · split
    · have marked : { s with currentRetries := s.currentRetries.insert tp (response.getBlock tp).err }.GoesOn := goesOn
      exact marked.retryBatch tp pset _
    · exact goesOn
  · exact goesOn

theorem handleSuccess (goesOn : s.GoesOn) (sent : ProduceSet) (response : Option ProduceResponse) :
    (s.handleSuccess conf sent response).GoesOn := by
  have settled : (sent.eachPartition (BrokerProducer.settlePartition conf response) (s, [])).1.GoesOn :=
    eachPartition_induct (P := fun s : BrokerProducer × List Bytes => s.1.GoesOn) (settlePartition response) sent goesOn
  unfold BrokerProducer.handleSuccess
  cases response with
  | none => exact settled.afterResponse
  | some response =>
    dsimp only
    split
    · exact settled.afterResponse
    · split
      · exact settled
      · exact (eachPartition_induct (retryPartition response) sent settled).afterResponse

/-- An error leaves a broker producer as it is, except for its parent. -/
theorem handleError (goesOn : s.GoesOn) (failed : err ≠ ErrNoError) (sent : ProduceSet) :
    (s.handleError conf sent err).GoesOn := by
  rw [handleError_of_ne failed]
  exact goesOn

theorem handleResponse (goesOn : s.GoesOn) (sent : ProduceSet) (err : KError) (response : Option ProduceResponse) :
    (s.handleResponse conf sent err response).GoesOn := by
  unfold BrokerProducer.handleResponse
  split
  next failed => exact (goesOn.handleError failed sent).afterResponse
  next => exact goesOn.handleSuccess sent response

theorem apply (goesOn : s.GoesOn) (e : Event) : (s.apply conf e).GoesOn := by
  cases e with
  | receive now msg => exact goesOn.receive now msg
  | send =>
    change s.send.GoesOn
    unfold send
    split <;> exact goesOn
  | answer err response =>
    change (s.answer conf err response).GoesOn
    unfold answer
    split
    · exact goesOn
    · exact handleResponse (s := { s with sent := none }) goesOn _ _ _
  | refreshed =>
    change (s.refreshed conf).GoesOn
    unfold refreshed
    split
    · exact goesOn
    · have free : { s with refreshing := none }.GoesOn := goesOn
      exact (eachPartition_induct (retryPartition _) _ free).afterResponse
  | leaderFound found =>
    change (s.leaderFound conf found).GoesOn
    unfold leaderFound
    cases s.batches with
    | nil => exact goesOn
    | cons batch rest => cases found <;> exact goesOn
  | takeBatch tp pset => exact goesOn
  | producer producerId producerEpoch => exact goesOn
  | parent e => exact goesOn

end GoesOn

private theorem goesOn_of_reaches {parent : AsyncProducer} {producerId : Int64} {producerEpoch : Int16}
    (reached : Reaches (Step conf) (create parent producerId producerEpoch) s) : s.GoesOn := by
  have keeps : ∀ s e t, GoesOn s → Step conf s e t → GoesOn t := by
    rintro s e _ goesOn ⟨-, rfl⟩
    exact goesOn.apply e
  exact reached.invariant keeps rfl

/-! ## The failure of a request -/

/-- Some message is not redirected by a broker producer that goes on. -/
theorem GoesOn.exists_kept (goesOn : s.GoesOn) : ∃ msg, s.needsRetry msg = ErrNoError := by
  obtain ⟨tp, absent⟩ : ∃ tp : TopicPartition, tp ∉ s.currentRetries.keys :=
    (List.finite_toSet s.currentRetries.keys).exists_notMem
  refine ⟨{ topic := tp.1, partition := tp.2 }, ?_⟩
  have missing : s.currentRetries[tp]? = none :=
    Std.ExtTreeMap.getElem?_eq_none (by simpa using absent)
  have same : s.closing = ErrNoError := goesOn
  rw [needsRetry, if_neg (not_not.mpr same)]
  exact congrArg (·.getD ErrNoError) missing

/-- What a failed request does to the parent. -/
theorem parent_answer (waits : s.sent = some sent) (failed : err ≠ ErrNoError) (response : Option ProduceResponse) :
    (s.apply conf (.answer err response)).parent = s.parent.returnErrors conf (messagesOf sent) ErrIOEOF := by
  have eof : ErrIOEOF ≠ ErrNoError := by decide
  simp only [apply, answer, waits, if_neg failed, handleResponse, if_pos eof]
  rw [handleError_of_ne eof, afterResponse]
  split <;> rfl

/-- A failed request never leads to a retry: every message of the set is returned with the error, which is right
only for those that may not be sent again, and later messages are taken as before. -/
theorem transport_failure_never {parent : AsyncProducer} {producerId : Int64} {producerEpoch : Int16}
    (reached : Reaches (Step conf) (create parent producerId producerEpoch) s) (waits : s.sent = some sent)
    (failed : err ≠ ErrNoError) (response : Option ProduceResponse) :
    ¬ LeadsToRetry conf s sent ErrIOEOF (s.apply conf (.answer err response)) ∧
      (Disposes conf s.parent (s.apply conf (.answer err response)).parent (messagesOf sent) ErrIOEOF ↔
        ∀ msg ∈ messagesOf sent, conf.retryMax ≤ msg.retries) := by
  constructor
  · intro leads
    obtain ⟨msg, kept⟩ := ((goesOn_of_reaches reached).apply (.answer err response)).exists_kept
    exact leads.redirects msg kept
  · rw [parent_answer waits failed]
    exact disposes_returnErrors_iff

/-- A broker producer that got a message, and sent it. -/
def gathered : BrokerProducer := (create {} noProducerID noProducerEpoch).apply {} (.receive {} (some { topic := [116] }))

def sending : BrokerProducer := gathered.apply {} .send

private theorem sending_reaches : Reaches (Step {}) (create {} noProducerID noProducerEpoch) sending := by
  have received : Step {} (create {} noProducerID noProducerEpoch) (.receive {} (some { topic := [116] })) gathered :=
    ⟨nofun, rfl⟩
  have sent : Step {} gathered .send sending := ⟨⟨by decide, rfl, rfl⟩, rfl⟩
  exact ((Reaches.refl _).tail received).tail sent

theorem sending_never : ∃ sent, ¬ LeadsToRetry {} sending sent ErrIOEOF (sending.apply {} (.answer ErrIOEOF none)) :=
  ⟨_, (transport_failure_never sending_reaches rfl (by decide) none).1⟩

/-- A message that was never retried is returned with the error and not retried. -/
theorem first_failure_returned : ¬ ∃ sent, sending.sent = some sent ∧
    LeadsToRetry {} sending sent ErrIOEOF (sending.apply {} (.answer ErrIOEOF none)) := by
  rintro ⟨sent, sends, leads⟩
  obtain rfl := Option.some.inj sends
  exact absurd leads.disposes.retried.length_eq (by decide)

end Coev.Kafka.BrokerProducer
