import Coev.Soundness.Kafka.ShutdownCutOff

/-! # Messages in flight
Every message that the dispatcher has accepted has ended or is underway, and never both or twice: there are as many of
them as tickets, and no ticket is missing. So what is counted as in flight is what is pending.
-/

namespace Coev.Kafka.AsyncProducer

open Transition

variable {conf : ProducerConfig} {s t : AsyncProducer} {e : Event} {msg : ProducerMessage} {err : KError}

/-- The tickets of the messages that are underway. -/
def underway (s : AsyncProducer) : List ℕ := (s.pending.filter fun msg => decide (Plain msg)).map (·.ticket)

/-- How many messages have ended or are underway. -/
def tally (s : AsyncProducer) : ℕ :=
  s.ended.length + ((s.input.filter counts).countP (Plain ·) + s.retries.countP (Plain ·) + s.dispatched.countP (Plain ·))

/-- So many accepted messages are neither: they are in hand. -/
def InHand (s : AsyncProducer) (n : ℕ) : Prop := s.tally + n = s.accepted

private theorem tally_eq (s : AsyncProducer) : s.tally = (s.ended ++ s.underway).length := by
  simp only [tally, underway, pending, List.filter_append, List.length_append, List.length_map, List.countP_eq_length_filter]

@[simp] theorem input_done (s : AsyncProducer) : s.done.input = s.input := by
  rw [done]
  split <;> rfl

namespace InHand

variable {n : ℕ}

theorem done (inHand : s.InHand n) : s.done.InHand n := by simpa [InHand, tally] using inHand

theorem finish (inHand : s.InHand 1) : (s.finish msg).InHand 0 := by
  refine done (s := { s with ended := s.ended ++ [msg.ticket] }) ?_
  simp only [InHand, tally, List.length_append, List.length_singleton] at inHand ⊢
  omega

theorem returnError (inHand : s.InHand 1) : (s.returnError conf msg err).InHand 0 := by
  rw [AsyncProducer.returnError]
  split
  · exact finish (s := { s with replies := _ }) inHand
  · exact inHand.finish

theorem returnSuccess (inHand : s.InHand 1) : (s.returnSuccess conf msg).InHand 0 := by
  rw [AsyncProducer.returnSuccess]
  split
  · exact finish (s := { s with replies := _ }) inHand
  · exact inHand.finish

theorem retryMessage (inHand : s.InHand 1) (plain : Plain msg) : (s.retryMessage conf msg err).InHand 0 := by
  rw [AsyncProducer.retryMessage]
  split
  · exact inHand.returnError
  · have again : Plain { msg with retries := msg.retries + 1 } := plain
    simp only [InHand, tally, List.countP_append, List.countP_singleton, decide_eq_true again, if_true] at inHand ⊢
    omega

theorem dispatch (inHand : s.InHand 1) (plain : Plain msg) : { s with dispatched := s.dispatched ++ [msg] }.InHand 0 := by
  simp only [InHand, tally, List.countP_append, List.countP_singleton, decide_eq_true plain, if_true] at inHand ⊢
  omega

theorem toTopic {intercept : ProducerMessage → ProducerMessage} (inHand : s.InHand 1) (plain : Plain (intercept msg)) :
    (s.toTopic conf intercept msg).InHand 0 := by
  rw [AsyncProducer.toTopic]
  split
  · exact inHand.returnError
  · exact inHand.dispatch plain

/-- A message is taken from those that were dispatched. -/
theorem takeBack (inHand : s.InHand 0) (plain : Plain msg) (member : msg ∈ s.dispatched) :
    { s with dispatched := s.dispatched.erase msg }.InHand 1 := by
  have perm := (List.perm_cons_erase member).countP_eq (Plain ·)
  rw [List.countP_cons_of_pos (by simpa using plain)] at perm
  simp only [InHand, tally, perm] at inHand ⊢
  omega

/-- The dispatcher takes a message that is accepted now, one that was accepted, or a marker. -/
theorem dispatchOne {inTransaction : Bool} {intercept : ProducerMessage → ProducerMessage}
    (keeps : ∀ msg, (intercept msg).flags = msg.flags) (inHand : s.InHand 0) :
    (s.dispatchOne conf inTransaction intercept).InHand 0 := by
  rw [AsyncProducer.dispatchOne]
  split
  · exact inHand
  next msg input front =>
  rw [dispatchMessage]
  have intercepted (plain : Plain msg) (ticket : ℕ) : Plain (intercept { msg with ticket }) := by
    simpa only [Plain, ProducerMessage.has, keeps] using plain
  by_cases plain : Plain msg
  · rw [if_neg plain.2, if_neg plain.1]
    split
    · next first =>
      have uncounted : ¬ counts msg := by simp [counts, Fresh, plain, first]
      have accepted : { s with input }.accept.InHand 1 := by
        simp only [InHand, tally, front, List.filter_cons_of_neg uncounted, accept] at inHand ⊢
        omega
      rw [dispatchFresh, if_neg Bool.false_ne_true]
      split
      · exact accepted.returnError
      · exact accepted.toTopic (intercepted plain _)
    · next again =>
      have counted : counts msg := by simp [counts, Fresh, again]
      have taken : { s with input }.InHand 1 := by
        simp only [InHand, tally, front, List.filter_cons_of_pos counted, List.countP_cons, decide_eq_true plain,
          if_true] at inHand ⊢
        omega
      exact taken.toTopic (intercepted plain msg.ticket)
  · have counted : counts msg := by simp [counts, Fresh, plain]
    have taken : { s with input }.InHand 0 := by
      simpa [InHand, tally, front, List.filter_cons_of_pos counted, List.countP_cons, plain] using inHand
    split
    · exact taken.done
    · split
      · exact taken.done
      · next notEndtxn notShutdown => exact absurd ⟨notShutdown, notEndtxn⟩ plain

theorem sendMarker (inHand : s.InHand 0) {flags : FlagSet} (marker : ¬ Plain { flags }) : (s.sendMarker flags).InHand 0 := by
  have none_ : ([({ flags } : ProducerMessage)].filter counts).countP (Plain ·) = 0 := by
    rw [List.countP_eq_zero]
    intro msg member
    obtain rfl := List.mem_singleton.mp (List.mem_of_mem_filter member)
    simpa using marker
  simp only [InHand, tally, AsyncProducer.sendMarker, List.filter_append, List.countP_append, none_] at inHand ⊢
  omega

/-- The retry handler. -/
theorem handleRetry (inHand : s.InHand 0) (accounts : s.Accounts) : (s.apply conf .handleRetry).InHand 0 := by
  cases retries : s.retries with
  | nil => simpa [InHand, tally, apply, retries] using inHand
  | cons msg rest =>
    have counted : counts msg := by simp [counts, Fresh, accounts.retried msg (by simp [retries])]
    simp only [InHand, tally, retries, List.countP_cons] at inHand
    simp only [InHand, tally, apply, retries, List.tail_cons, List.take_succ_cons, List.take_zero, List.filter_append,
      List.filter_cons_of_pos counted, List.filter_nil, List.countP_append, List.countP_singleton]
    omega

/-- Behind a step nothing is in hand. -/
theorem step (inHand : s.InHand 0) (accounts : s.Accounts) (step : s.Step conf e t) : t.InHand 0 := by
  obtain ⟨possible, rfl⟩ := step
  have back {msg : ProducerMessage} (member : msg ∈ s.dispatched) :
      { s with dispatched := s.dispatched.erase msg }.InHand 1 :=
    inHand.takeBack (accounts.plain msg member) member
  cases e with
  | send msg =>
    have uncounted : ¬ counts msg := by simp [counts, Fresh, Plain, ProducerMessage.has, possible.1, possible.2]
    simpa [InHand, tally, apply, uncounted] using inHand
  | asyncClose => exact inHand.sendMarker (by decide)
  | finishTransaction commit => cases commit <;> exact inHand.sendMarker (by decide)
  | dispatch inTransaction intercept => exact inHand.dispatchOne fun msg => (possible.2 msg).1
  | control msg =>
    have accepted : s.accept.InHand 1 := by
      simp only [InHand, tally, accept] at inHand ⊢
      omega
    exact accepted.dispatch possible
  | controlDone msg => exact (back possible).finish
  | succeed msg => exact (back possible).returnSuccess
  | fail msg err => exact (back possible).returnError
  | retry msg err => exact (back possible).retryMessage (accounts.plain msg possible)
  | handleRetry => exact inHand.handleRetry accounts

end InHand

/-- In every run of a producer what is counted as in flight is what is pending, and of every message that was accepted
the ticket is among those that have ended or among those that are underway, once. -/
theorem in_flight (run : Reaches (Step conf) {} s) :
    s.inFlight = s.pending.length ∧ (s.ended ++ s.underway).Perm (List.range s.accepted) := by
  have keeps (s : AsyncProducer) (e : Event) (t : AsyncProducer) (kept : s.Accounts ∧ s.InHand 0) (step : s.Step conf e t) :
      t.Accounts ∧ t.InHand 0 := ⟨kept.1.step step, kept.2.step kept.1 step⟩
  obtain ⟨accounts, inHand⟩ := run.invariant keeps ⟨accounts_start, rfl⟩
  refine ⟨accounts.count, ?_⟩
  have covers : List.range s.accepted ⊆ s.ended ++ s.underway := by
    intro ticket member
    obtain ended | ⟨msg, pending, plain, rfl⟩ := accounts.tickets ticket (List.mem_range.mp member)
    · exact List.mem_append_left _ ended
    · exact List.mem_append_right _ (List.mem_map_of_mem (List.mem_filter.mpr ⟨pending, decide_eq_true plain⟩))
  have size : (s.ended ++ s.underway).length = (List.range s.accepted).length := by
    rw [← tally_eq, List.length_range]
    exact inHand
  exact ((List.nodup_range.subperm covers).perm_of_length_le size.le).symm

/-- One message has ended with an error, and another one is underway. -/
theorem in_flight_of_two : ∃ s : AsyncProducer, s.ended = [0] ∧ s.inFlight = s.pending.length ∧
    (s.ended ++ s.underway).Perm (List.range 2) := by
  have go {s : AsyncProducer} (run : Reaches (Step {}) {} s) (e : Event) (possible : s.Possible e) :
      Reaches (Step {}) {} (s.apply {} e) := run.tail ⟨possible, rfl⟩
  have sent := go (go (.refl _) (.send { partition := 1 }) ⟨rfl, rfl⟩) (.send { partition := 2 }) ⟨rfl, rfl⟩
  have first := go sent (.dispatch true id) ⟨nofun, fun _ => ⟨rfl, rfl, rfl⟩⟩
  have second := go first (.dispatch true id) ⟨nofun, fun _ => ⟨rfl, rfl, rfl⟩⟩
  have failed := go second (.fail { partition := 1 } ErrNoError) (List.mem_cons_self (l := [_]))
  exact ⟨_, rfl, in_flight failed⟩

end Coev.Kafka.AsyncProducer
