import Coev.Model.Kafka.SyncProducer
import Coev.Soundness.Core.HandOff

/-! # Answers of synchronous producers

The channel that the producers share hands a reply to whoever waits in front, and a call does not look at the reply that it
was handed. So a call answers for its own message as long as every reply is handed to the call whose message it is, and none
of them is an error.
-/

namespace Coev.Kafka

open Transition Guard

/-- The outcome of a message, told as the result of its call. -/
def Outcome.Answers : Option Outcome → SendResult → Prop
  | some (.acknowledged partition offset), r => r = ⟨0, partition, offset⟩
  | some (.failed err), r => r.code = err
  | none, _ => False

namespace SyncProducers

variable {conf : ℕ → ProducerConfig} {s s' : SyncProducers} {c : Call}

/-- A call is handed the reply to its own message only, and what it returns is the outcome of that. -/
structure AnswersOwn (s : SyncProducers) : Prop where
  own : ∀ c m, (some c, m) ∈ s.pool.shared.handed → m = c
  outcome : ∀ (c : ℕ) (call : SendCall) (r : SendResult),
    s.sends[c]? = some call → call.returned = some r → Outcome.Answers call.outcome r

/-- A reply is handed to the call whose message it is, and no error is returned. -/
def InTurn (conf : ℕ → ProducerConfig) (s : SyncProducers) : Call → Prop
  | .get c _ _ => ∀ m ∈ s.pool.shared.data.head?, m = c
  | .fail m _ => ∀ call ∈ s.sends[m]?, (conf call.producer).returnErrors = false
  | .handle producer _ =>
    ∀ m ∈ (s.replies producer).head?, ∀ k ∈ s.pool.async.queue.head?, s.pool.async.caller k = m
  | _ => True

/-- A message that was acknowledged, with the partition and offset that it was given. -/
def Acknowledged (sends : List SendCall) (m : ℕ) : Prop :=
  ∃ call, sends[m]? = some call ∧ call.outcome = some (.acknowledged call.message.partition call.message.offset)

private theorem acknowledged_append {sends : List SendCall} {m : ℕ} (acknowledged : Acknowledged sends m) (call : SendCall) :
    Acknowledged (sends ++ [call]) m := by
  obtain ⟨old, at_, outcome⟩ := acknowledged
  have below := (List.getElem?_eq_some_iff.mp at_).1
  exact ⟨old, by rw [List.getElem?_append_left below, at_], outcome⟩

/-- A call that was not answered yet may change in every way, another only in what it returned. -/
theorem acknowledged_set {sends : List SendCall} {m n : ℕ} {call call' : SendCall} (at_ : sends[n]? = some call)
    (keeps : call.outcome ≠ none → call'.outcome = call.outcome ∧ call'.message = call.message)
    (acknowledged : Acknowledged sends m) : Acknowledged (sends.set n call') m := by
  obtain ⟨old, here, outcome⟩ := acknowledged
  rcases eq_or_ne n m with rfl | other
  · obtain rfl : old = call := Option.some.inj (here.symm.trans at_)
    obtain ⟨sameOutcome, sameMessage⟩ := keeps (by rw [outcome]; exact Option.some_ne_none _)
    have below := (List.getElem?_eq_some_iff.mp at_).1
    exact ⟨call', by rw [List.getElem?_set_self below], by rw [sameOutcome, sameMessage, outcome]⟩
  · exact ⟨old, by rw [List.getElem?_set_ne other, here], outcome⟩

/-- Every reply on its way or handed out is an acknowledgement, and calls answer for their own messages. -/
structure Invariant (s : SyncProducers) : Prop where
  pool : GuardChannel.Invariant s.pool
  replied : ∀ producer, ∀ m ∈ s.replies producer, Acknowledged s.sends m
  put : ∀ m ∈ s.pool.shared.put, Acknowledged s.sends m
  answers : s.AnswersOwn

/-! ## The pool -/

section Pool

variable {pool pool' : Guard (GuardChannel ℕ)} {m tid : ℕ} {reserved : Int64} {who : ℕ}

private theorem put_popFront (g : GuardChannel ℕ) (who : Option ℕ) : (g.popFront who).put = g.put := by
  unfold GuardChannel.popFront
  split <;> rfl

/-- What a call of `get` is handed at once is what stands in front. -/
theorem handed_get (step : GuardChannel.Step pool (.get who tid reserved) pool') :
    pool'.shared.put = pool.shared.put ∧ (pool'.shared.handed = pool.shared.handed ∨
      ∃ m ∈ pool.shared.data.head?, pool'.shared.handed = pool.shared.handed ++ [(some who, m)]) := by
  cases step
  rcases shared_enter (s := pool) (m := GuardChannel.monitor) who tid reserved with same | ⟨free, taken⟩
  · rw [same]
    exact ⟨rfl, .inl rfl⟩
  · rw [taken]
    refine ⟨put_popFront _ _, .inr ?_⟩
    simp only [GuardChannel.monitor] at free ⊢
    unfold GuardChannel.popFront
    cases items : pool.shared.data with
    | nil => simp [items] at free
    | cons d data => exact ⟨d, rfl, rfl⟩

/-- What is put in goes to the caller that waits in front. -/
theorem handed_set (inv : GuardChannel.Invariant pool) (step : GuardChannel.Step pool (.set tid m) pool') :
    pool'.shared.put = pool.shared.put ++ [m] ∧ (pool'.shared.handed = pool.shared.handed ∨
      ∃ k ∈ pool.async.queue.head?, pool'.shared.handed = pool.shared.handed ++ [(some (pool.async.caller k), m)]) := by
  cases step
  simp only [Guard.ev]
  split
  next => exact ⟨rfl, .inl rfl⟩
  next k async popped =>
    obtain ⟨queue, queued, rfl⟩ := Async.Kept.popFront_eq popped
    have waits : pool.async.queue ≠ [] := by
      rw [queued]
      exact List.cons_ne_nil _ _
    have empty : pool.shared.data = [] := by simpa [GuardChannel.monitor] using inv.served.unmet waits
    refine ⟨put_popFront _ _, .inr ⟨k, by rw [queued]; rfl, ?_⟩⟩
    simp only [GuardChannel.monitor, GuardChannel.popFront, GuardChannel.push, empty, List.nil_append]
    rfl

/-- Nothing is handed out but what was put in. -/
theorem put_of_handed (inv : GuardChannel.Invariant pool) {entry : Option ℕ × ℕ} (handed : entry ∈ pool.shared.handed) :
    entry.2 ∈ pool.shared.put := by
  rw [← inv.conserves.1]
  exact List.mem_append_left _ (List.mem_map_of_mem handed)

end Pool

private theorem onPool_eq_some_iff {call : GuardChannel.Call ℕ} :
    s.onPool call = some s' ↔ ∃ pool, GuardChannel.Step s.pool call pool ∧ s' = { s with pool } := by
  rw [onPool, Option.map_eq_some_iff]
  exact exists_congr fun pool => and_congr_right fun _ => eq_comm

private theorem answer_eq_some_iff {m : ℕ} {give : SendCall → SyncProducers} :
    s.answer m give = some s' ↔ ∃ call, s.sends[m]? = some call ∧ call.outcome = none ∧ s' = give call := by
  unfold answer
  split
  next absent => simp [absent]
  next call at_ =>
    rw [Option.ite_none_right_eq_some, at_]
    constructor
    · rintro ⟨unanswered, given⟩
      exact ⟨call, rfl, unanswered, (Option.some.inj given).symm⟩
    · rintro ⟨_, ⟨⟩, unanswered, given⟩
      exact ⟨unanswered, congrArg some given.symm⟩

/-! ## The calls -/

namespace Invariant

variable {pool : Guard (GuardChannel ℕ)}

theorem send (inv : s.Invariant) (producer : ℕ) (message : ProducerMessage) :
    Invariant { s with sends := s.sends ++ [{ producer, message }] } where
  pool := inv.pool
  replied p m queued := acknowledged_append (inv.replied p m queued) _
  put m put := acknowledged_append (inv.put m put) _
  answers := by
    refine ⟨inv.answers.own, fun c call r at_ returned => ?_⟩
    rw [List.getElem?_append] at at_
    split at at_
    next => exact inv.answers.outcome c call r at_ returned
    next =>
      rw [List.getElem?_singleton] at at_
      obtain ⟨-, ⟨⟩⟩ := Option.ite_none_right_eq_some.mp at_
      cases returned

/-- The pool changes, and what it hands out goes to those whose message it is. -/
theorem onPool (inv : s.Invariant) {call : GuardChannel.Call ℕ} (step : GuardChannel.Step s.pool call pool)
    (put : ∀ m ∈ pool.shared.put, Acknowledged s.sends m)
    (own : ∀ c m, (some c, m) ∈ pool.shared.handed → (some c, m) ∈ s.pool.shared.handed ∨ m = c) :
    Invariant { s with pool } where
  pool := inv.pool.step step
  replied := inv.replied
  put := put
  answers := by
    refine ⟨fun c m handed => ?_, inv.answers.outcome⟩
    rcases own c m handed with before | same
    · exact inv.answers.own c m before
    · exact same

theorem get (inv : s.Invariant) {c tid : ℕ} {reserved : Int64} (inTurn : s.InTurn conf (.get c tid reserved))
    (step : GuardChannel.Step s.pool (.get c tid reserved) pool) : Invariant { s with pool } := by
  obtain ⟨put, handed⟩ := handed_get step
  apply inv.onPool step
  · rw [put]
    exact inv.put
  · intro who m member
    rcases handed with same | ⟨front, infront, more⟩
    · rw [same] at member
      exact .inl member
    · rw [more, List.mem_append, List.mem_singleton, Prod.mk.injEq, Option.some.injEq] at member
      rcases member with before | ⟨rfl, rfl⟩
      · exact .inl before
      · exact .inr (inTurn m infront)

theorem handle (inv : s.Invariant) {producer tid m : ℕ} {replies : List ℕ} (queued : s.replies producer = m :: replies)
    (inTurn : s.InTurn conf (.handle producer tid)) {ended : ℕ → Bool}
    (step : GuardChannel.Step s.pool (.set tid m) pool) :
    Invariant { s with replies := Function.update s.replies producer replies, ended, pool } := by
  have fewer : Invariant { s with replies := Function.update s.replies producer replies, ended } := by
    refine ⟨inv.pool, fun p n member => ?_, inv.put, inv.answers.own, inv.answers.outcome⟩
    change n ∈ Function.update s.replies producer replies p at member
    rcases eq_or_ne p producer with rfl | other
    · rw [Function.update_self] at member
      exact inv.replied p n (by rw [queued]; exact List.mem_cons_of_mem _ member)
    · rw [Function.update_of_ne other] at member
      exact inv.replied p n member
  obtain ⟨put, handed⟩ := handed_set inv.pool step
  apply fewer.onPool step
  · rw [put]
    intro n member
    rcases List.mem_append.mp member with before | new
    · exact inv.put n before
    · rw [List.mem_singleton.mp new]
      exact inv.replied producer m (by rw [queued]; exact List.mem_cons_self)
  · intro who n member
    rcases handed with same | ⟨k, infront, more⟩
    · rw [same] at member
      exact .inl member
    · rw [more, List.mem_append, List.mem_singleton, Prod.mk.injEq, Option.some.injEq] at member
      rcases member with before | ⟨rfl, rfl⟩
      · exact .inl before
      · exact .inr (inTurn n (by rw [queued]; rfl) k infront).symm

theorem proceed (inv : s.Invariant) {call : Guard.Call (GuardChannel ℕ)} {continues : Continues call}
    (step : GuardChannel.Step s.pool (.proceed call continues) pool) : Invariant { s with pool } := by
  have quiet := quiet_of_continues continues step
  apply inv.onPool step
  · rw [quiet.shared]
    exact inv.put
  · intro c m handed
    rw [quiet.shared] at handed
    exact .inl handed

/-- The call of a message that is not answered has not returned. -/
theorem answered (inv : s.Invariant) {m : ℕ} {call call' : SendCall} (at_ : s.sends[m]? = some call)
    (unanswered : call.outcome = none) (returned : call'.returned = call.returned) :
    Invariant { s with sends := s.sends.set m call' } where
  pool := inv.pool
  replied p n queued := acknowledged_set at_ (absurd unanswered) (inv.replied p n queued)
  put n put := acknowledged_set at_ (absurd unanswered) (inv.put n put)
  answers := by
    refine ⟨inv.answers.own, fun c other r here returned' => ?_⟩
    rw [List.getElem?_set] at here
    split at here
    next same =>
      obtain ⟨-, ⟨⟩⟩ := Option.ite_none_right_eq_some.mp here
      have answers := inv.answers.outcome m call r at_ (returned ▸ returned')
      rw [unanswered] at answers
      exact answers.elim
    next => exact inv.answers.outcome c other r here returned'

theorem setReply (inv : s.Invariant) {m : ℕ} (acknowledged : Acknowledged s.sends m) (producer : ℕ) :
    (s.setReply producer m).Invariant := by
  refine ⟨inv.pool, fun p n member => ?_, inv.put, inv.answers.own, inv.answers.outcome⟩
  simp only [SyncProducers.setReply] at member
  rcases eq_or_ne p producer with rfl | other
  · rw [Function.update_self, List.mem_append, List.mem_singleton] at member
    rcases member with before | rfl
    · exact inv.replied p n before
    · exact acknowledged
  · rw [Function.update_of_ne other] at member
    exact inv.replied p n member

theorem returnSuccess (inv : s.Invariant) {m : ℕ} {call : SendCall} (at_ : s.sends[m]? = some call)
    (unanswered : call.outcome = none) (conf : ProducerConfig) (partition : Int32) (offset : Int64) :
    (s.returnSuccess conf m call partition offset).Invariant := by
  have below := (List.getElem?_eq_some_iff.mp at_).1
  simp only [SyncProducers.returnSuccess]
  split
  · apply Invariant.setReply
    · exact inv.answered at_ unanswered rfl
    · exact ⟨_, List.getElem?_set_self below, rfl⟩
  · exact inv.answered at_ unanswered rfl

/-- A call that its `get` let go returns what its own message was given. -/
theorem resume (inv : s.Invariant) {c : ℕ} {call : SendCall} (at_ : s.sends[c]? = some call) (gone : s.GetReturned c) :
    Invariant { s with sends := s.sends.set c { call with returned := some (sendResult (some call.message)) } } where
  pool := inv.pool
  replied p n queued := acknowledged_set at_ (fun _ => ⟨rfl, rfl⟩) (inv.replied p n queued)
  put n put := acknowledged_set at_ (fun _ => ⟨rfl, rfl⟩) (inv.put n put)
  answers := by
    refine ⟨inv.answers.own, fun d other r here returned => ?_⟩
    rw [List.getElem?_set] at here
    split at here
    next same =>
      obtain ⟨-, ⟨⟩⟩ := Option.ite_none_right_eq_some.mp here
      obtain ⟨⟨_, m⟩, handed, ⟨⟩⟩ := List.mem_map.mp gone.1
      obtain rfl := inv.answers.own c m handed
      obtain ⟨own, here, outcome⟩ := inv.put _ (put_of_handed inv.pool handed)
      obtain rfl : call = own := Option.some.inj (at_.symm.trans here)
      obtain rfl := Option.some.inj returned
      simp only [outcome, Outcome.Answers, sendResult]
    next => exact inv.answers.outcome d other r here returned

/-- Every call in its turn keeps the invariant. -/
theorem step (inv : s.Invariant) (inTurn : s.InTurn conf c) (step : s.Step conf c s') : s'.Invariant := by
  cases c with
  | send producer message => cases step; exact inv.send producer message
  | get c tid reserved =>
    obtain ⟨-, step⟩ := Option.ite_none_right_eq_some.mp step
    obtain ⟨pool, entered, rfl⟩ := onPool_eq_some_iff.mp step
    exact inv.get inTurn entered
  | acknowledge m partition offset =>
    obtain ⟨call, at_, unanswered, rfl⟩ := answer_eq_some_iff.mp step
    exact inv.returnSuccess at_ unanswered _ partition offset
  | fail m err =>
    obtain ⟨call, at_, unanswered, rfl⟩ := answer_eq_some_iff.mp step
    simp only [returnError, inTurn call at_, Bool.false_eq_true, if_false]
    exact inv.answered at_ unanswered rfl
  | handle producer tid =>
    simp only [Step, SyncProducers.call] at step
    split at step
    next => cases step
    next m replies queued =>
      obtain ⟨-, step⟩ := Option.ite_none_left_eq_some.mp step
      obtain ⟨pool, put, rfl⟩ := onPool_eq_some_iff.mp step
      exact inv.handle queued inTurn put
  | close producer =>
    cases step
    exact ⟨inv.pool, inv.replied, inv.put, inv.answers.own, inv.answers.outcome⟩
  | proceed call continues =>
    obtain ⟨pool, proceeded, rfl⟩ := onPool_eq_some_iff.mp step
    exact inv.proceed proceeded
  | resume c =>
    simp only [Step, SyncProducers.call] at step
    split at step
    next => cases step
    next call at_ =>
      obtain ⟨⟨-, gone⟩, ⟨⟩⟩ := Option.ite_none_right_eq_some.mp step
      exact inv.resume at_ gone

theorem start : ({} : SyncProducers).Invariant where
  pool := .of_run (.refl _)
  replied _ _ queued := absurd queued List.not_mem_nil
  put _ put := absurd put List.not_mem_nil
  answers := ⟨fun _ _ handed => absurd handed List.not_mem_nil, fun _ _ _ at_ => by cases at_⟩

end Invariant

/-- A configuration under which every outcome is returned. -/
def returning : ProducerConfig := { returnSuccesses := true }

end SyncProducers

end Coev.Kafka
