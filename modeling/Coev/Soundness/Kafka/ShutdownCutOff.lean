import Coev.Model.Kafka.AsyncProducer
import Coev.ToMathlib.Transition

/-! # The cut-off of a shutdown

A fresh message that comes after the marker of a shutdown is treated like any other. The count of the messages
in flight is right, so a shutdown is let go only when everything that was accepted has come to its end.
-/

namespace Coev.Kafka.AsyncProducer

open Transition

variable {conf : ProducerConfig} {s t : AsyncProducer} {e : Event} {msg : ProducerMessage}
variable {input : List ProducerMessage}

/-- A message that no producer has seen yet. -/
def Fresh (msg : ProducerMessage) : Prop := Plain msg ∧ msg.retries = 0

instance (msg : ProducerMessage) : Decidable (Plain msg) := inferInstanceAs (Decidable (_ ∧ _))

instance (msg : ProducerMessage) : Decidable (Fresh msg) := inferInstanceAs (Decidable (_ ∧ _))

/-- A fresh message behind the marker is returned and not dispatched, and a shutdown is let go only when its
marker was handled and every message that was accepted has come to its end. -/
structure KeepsCutOff (conf : ProducerConfig) (s : AsyncProducer) (e : Event) : Prop where
  cutOff : s.Possible e → ∀ inTransaction intercept, e = .dispatch inTransaction intercept →
    ∀ msg input, s.input = msg :: input → s.shutDown → Fresh msg →
      (s.apply conf e).dispatched = s.dispatched ∧ (conf.returnErrors →
        ∃ reply : ProducerMessage, reply.err = ErrShuttingDown ∧ (s.apply conf e).replies = s.replies ++ [reply])
  settled : s.Possible e → s.released < (s.apply conf e).released →
    (∀ msg ∈ (s.apply conf e).input, ¬ msg.has Shutdown) ∧
      ∀ ticket < (s.apply conf e).accepted, ticket ∈ (s.apply conf e).ended

/-- The checks of the dispatcher refuse a fresh message. -/
def Refuses (conf : ProducerConfig) (s : AsyncProducer) (inTransaction : Bool)
    (intercept : ProducerMessage → ProducerMessage) (msg : ProducerMessage) : Prop :=
  notReady conf inTransaction ∨ (refused conf (intercept { msg with ticket := s.accepted })).isSome

/-- No fresh message is taken behind the marker, but for one that is refused without a reply. -/
def InTime (conf : ProducerConfig) (s : AsyncProducer) (e : Event) : Prop :=
  s.Possible e → ∀ inTransaction intercept, e = .dispatch inTransaction intercept →
    ∀ msg input, s.input = msg :: input → s.shutDown → Fresh msg →
      ¬ conf.returnErrors ∧ Refuses conf s inTransaction intercept msg

/-! ## The account -/

/-- A message in the input that is counted: a marker, or one that is retried. -/
def counts (msg : ProducerMessage) : Bool := !decide (Fresh msg)

/-- The messages that are counted. -/
def pending (s : AsyncProducer) : List ProducerMessage := s.input.filter counts ++ s.retries ++ s.dispatched

/-- The count is right, and so are the flags; a ticket that has not ended is that of a message underway. -/
structure Accounts (s : AsyncProducer) : Prop where
  count : s.inFlight = s.pending.length
  retried : ∀ msg ∈ s.retries, Plain msg ∧ msg.retries ≠ 0
  plain : ∀ msg ∈ s.dispatched, Plain msg
  tickets : ∀ ticket < s.accepted, ticket ∈ s.ended ∨ ∃ msg ∈ s.pending, Plain msg ∧ msg.ticket = ticket

/-- The same with a message in hand. -/
structure Owes (s : AsyncProducer) (msg : ProducerMessage) : Prop where
  count : s.inFlight = s.pending.length + 1
  retried : ∀ msg ∈ s.retries, Plain msg ∧ msg.retries ≠ 0
  plain : ∀ msg ∈ s.dispatched, Plain msg
  tickets : ∀ ticket < s.accepted, ticket ∈ s.ended ∨ (Plain msg ∧ msg.ticket = ticket) ∨
    ∃ msg ∈ s.pending, Plain msg ∧ msg.ticket = ticket

theorem accounts_start : Accounts {} where
  count := rfl
  retried := nofun
  plain := nofun
  tickets := nofun

@[simp] theorem pending_done (s : AsyncProducer) : s.done.pending = s.pending := by
  unfold done; split <;> rfl

namespace Owes

theorem finish (owes : s.Owes msg) : (s.finish msg).Accounts where
  count := by
    have count := owes.count
    simp only [AsyncProducer.finish, inFlight_done, pending_done]
    change s.inFlight - 1 = (s.pending.length : ℤ)
    omega
  retried := by simpa [AsyncProducer.finish] using owes.retried
  plain := by simpa [AsyncProducer.finish] using owes.plain
  tickets ticket below := by
    simp only [AsyncProducer.finish, accepted_done, ended_done, pending_done] at below ⊢
    obtain ended | ⟨-, rfl⟩ | pending := owes.tickets ticket below
    · exact .inl (List.mem_append_left _ ended)
    · exact .inl (List.mem_append_right _ List.mem_cons_self)
    · exact .inr pending

theorem replied (owes : s.Owes msg) (replies : List ProducerMessage) : { s with replies }.Owes msg :=
  ⟨owes.count, owes.retried, owes.plain, owes.tickets⟩

theorem returnError (owes : s.Owes msg) (err : KError) : (s.returnError conf msg err).Accounts := by
  unfold AsyncProducer.returnError
  split
  · exact (owes.replied _).finish
  · exact owes.finish

theorem returnSuccess (owes : s.Owes msg) : (s.returnSuccess conf msg).Accounts := by
  unfold AsyncProducer.returnSuccess
  split
  · exact (owes.replied _).finish
  · exact owes.finish

theorem retryMessage (owes : s.Owes msg) (plain : Plain msg) (err : KError) : (s.retryMessage conf msg err).Accounts := by
  unfold AsyncProducer.retryMessage
  split
  · exact owes.returnError err
  · refine ⟨?_, ?_, owes.plain, ?_⟩
    · have count := owes.count
      simp only [pending, List.length_append, List.length_singleton] at count ⊢
      omega
    · simp only [List.mem_append, List.mem_singleton]
      rintro other (before | rfl)
      · exact owes.retried other before
      · exact ⟨plain, Nat.succ_ne_zero _⟩
    · intro ticket below
      obtain ended | ⟨-, rfl⟩ | ⟨other, member, same⟩ := owes.tickets ticket below
      · exact .inl ended
      · exact .inr ⟨{ msg with retries := msg.retries + 1 }, by simp [pending], plain, rfl⟩
      · refine .inr ⟨other, ?_, same⟩
        simp only [pending, List.mem_append] at member ⊢
        tauto

theorem dispatch (owes : s.Owes msg) (plain : Plain msg) : { s with dispatched := s.dispatched ++ [msg] }.Accounts where
  count := by
    have count := owes.count
    simp only [pending, List.length_append, List.length_singleton] at count ⊢
    omega
  retried := owes.retried
  plain := by
    simp only [List.mem_append, List.mem_singleton]
    rintro other (before | rfl)
    · exact owes.plain other before
    · exact plain
  tickets ticket below := by
    obtain ended | ⟨-, rfl⟩ | ⟨other, member, same⟩ := owes.tickets ticket below
    · exact .inl ended
    · exact .inr ⟨msg, by simp [pending], plain, rfl⟩
    · refine .inr ⟨other, ?_, same⟩
      simp only [pending, List.mem_append] at member ⊢
      tauto

theorem toTopic {intercept : ProducerMessage → ProducerMessage}
    (keeps : ∀ msg, (intercept msg).flags = msg.flags ∧ (intercept msg).retries = msg.retries ∧
      (intercept msg).ticket = msg.ticket)
    (owes : s.Owes msg) (plain : Plain msg) : (s.toTopic conf intercept msg).Accounts := by
  obtain ⟨flags, -, ticket⟩ := keeps msg
  have plainly : Plain (intercept msg) := by simpa only [Plain, ProducerMessage.has, flags] using plain
  have intercepted : s.Owes (intercept msg) :=
    ⟨owes.count, owes.retried, owes.plain, by simpa only [plain, plainly, ticket] using owes.tickets⟩
  unfold AsyncProducer.toTopic
  dsimp only
  cases refused conf (intercept msg) with
  | some err => exact intercepted.returnError err
  | none => exact intercepted.dispatch plainly

/-- A marker leaves the input and is not counted any more. -/
theorem handleMarker (owes : s.Owes msg) (marker : ¬ Plain msg) : s.done.Accounts where
  count := by
    have count := owes.count
    simp only [inFlight_done, pending_done]
    omega
  retried := by simpa using owes.retried
  plain := by simpa using owes.plain
  tickets ticket below := by
    simp only [accepted_done, ended_done, pending_done] at below ⊢
    obtain ended | ⟨plain, -⟩ | pending := owes.tickets ticket below
    · exact .inl ended
    · exact absurd plain marker
    · exact .inr pending

end Owes

namespace Accounts

/-- A message that is counted leaves the input. -/
theorem take (accounts : s.Accounts) (front : s.input = msg :: input) (counted : counts msg) :
    { s with input }.Owes msg where
  count := by
    have count := accounts.count
    simp only [pending, front, List.filter_cons_of_pos counted, List.length_append, List.length_cons] at count ⊢
    omega
  retried := accounts.retried
  plain := accounts.plain
  tickets ticket below := by
    obtain ended | ⟨other, member, same⟩ := accounts.tickets ticket below
    · exact .inl ended
    · simp only [pending, front, List.filter_cons_of_pos counted, List.cons_append, List.mem_cons] at member
      obtain rfl | member := member
      · exact .inr (.inl same)
      · exact .inr (.inr ⟨other, member, same⟩)

/-- A fresh message leaves the input and is counted. -/
theorem accept (accounts : s.Accounts) (front : s.input = msg :: input) (fresh : Fresh msg) :
    { s with input }.accept.Owes { msg with ticket := s.accepted } := by
  have uncounted : ¬ counts msg := by simpa [counts] using fresh
  have same : { s with input }.accept.pending = s.pending := by
    simp [pending, AsyncProducer.accept, front, List.filter_cons_of_neg uncounted]
  refine ⟨?_, accounts.retried, accounts.plain, ?_⟩
  · rw [same, ← accounts.count]
    rfl
  · intro ticket below
    rw [same]
    obtain earlier | now := Nat.lt_succ_iff_lt_or_eq.mp below
    · exact (accounts.tickets ticket earlier).imp id .inr
    · exact .inr (.inl ⟨fresh.1, now.symm⟩)

/-- A message is taken from those that were dispatched. -/
theorem takeBack (accounts : s.Accounts) (member : msg ∈ s.dispatched) :
    { s with dispatched := s.dispatched.erase msg }.Owes msg where
  count := by
    have count := accounts.count
    have length := List.length_erase_of_mem member
    have pos := List.length_pos_of_mem member
    simp only [pending, List.length_append, length] at count ⊢
    omega
  retried := accounts.retried
  plain other kept := accounts.plain other (List.mem_of_mem_erase kept)
  tickets ticket below := by
    obtain ended | ⟨other, held, same⟩ := accounts.tickets ticket below
    · exact .inl ended
    · by_cases this : other = msg
      · exact .inr (.inl (this ▸ same))
      · refine .inr (.inr ⟨other, ?_, same⟩)
        simpa only [pending, List.mem_append, List.mem_erase_of_ne this] using held

/-- A marker is counted and goes to the input. -/
theorem sendMarker (accounts : s.Accounts) {flags : FlagSet} (marks : counts { flags }) : (s.sendMarker flags).Accounts where
  count := by
    have count := accounts.count
    have one : [({ flags } : ProducerMessage)].filter counts = [{ flags }] := List.filter_cons_of_pos marks
    simp only [AsyncProducer.sendMarker, pending, List.filter_append, one, List.length_append, List.length_singleton]
      at count ⊢
    omega
  retried := accounts.retried
  plain := accounts.plain
  tickets ticket below := by
    obtain ended | ⟨other, held, same⟩ := accounts.tickets ticket below
    · exact .inl ended
    · refine .inr ⟨other, ?_, same⟩
      simp only [AsyncProducer.sendMarker, pending, List.filter_append, List.mem_append] at held ⊢
      tauto

theorem watch (accounts : s.Accounts) (waiting : ℕ) : { s with waiting }.Accounts :=
  ⟨accounts.count, accounts.retried, accounts.plain, accounts.tickets⟩

/-- The marker of a shutdown. -/
theorem remember (accounts : s.Accounts) : { s with shutDown := true }.Accounts :=
  ⟨accounts.count, accounts.retried, accounts.plain, accounts.tickets⟩

/-- A control message is counted. -/
theorem control (accounts : s.Accounts) (plain : Plain msg) : (s.apply conf (.control msg)).Accounts := by
  have owes : s.accept.Owes { msg with ticket := s.accepted } := by
    refine ⟨congrArg (· + 1) accounts.count, accounts.retried, accounts.plain, fun ticket below => ?_⟩
    obtain earlier | now := Nat.lt_succ_iff_lt_or_eq.mp below
    · exact (accounts.tickets ticket earlier).imp id .inr
    · exact .inr (.inl ⟨plain, now.symm⟩)
  exact owes.dispatch plain

/-- The retry handler. -/
theorem handleRetry (accounts : s.Accounts) : (s.apply conf .handleRetry).Accounts := by
  cases retries : s.retries with
  | nil =>
    have same : s.apply conf .handleRetry = s := by
      cases s
      simp_all [AsyncProducer.apply]
    rwa [same]
  | cons msg rest =>
    have retried := accounts.retried msg (by simp [retries])
    have counted : counts msg := by simp [counts, Fresh, retried.2]
    have pending (m : ProducerMessage) : m ∈ (s.apply conf .handleRetry).pending ↔ m ∈ s.pending := by
      simp [AsyncProducer.apply, AsyncProducer.pending, retries, counted]
    refine ⟨?_, ?_, accounts.plain, fun ticket below => ?_⟩
    · have count := accounts.count
      simp [AsyncProducer.apply, AsyncProducer.pending, retries, counted] at count ⊢
      omega
    · intro m member
      exact accounts.retried m (List.mem_of_mem_tail member)
    · refine (accounts.tickets ticket below).imp id ?_
      rintro ⟨m, member, own⟩
      exact ⟨m, (pending m).mpr member, own⟩

theorem dispatchFresh {inTransaction : Bool} {intercept : ProducerMessage → ProducerMessage}
    (keeps : ∀ msg, (intercept msg).flags = msg.flags ∧ (intercept msg).retries = msg.retries ∧
      (intercept msg).ticket = msg.ticket) (accounts : s.Accounts) (front : s.input = msg :: input) (fresh : Fresh msg) :
    ({ s with input }.dispatchFresh conf false inTransaction intercept msg).Accounts := by
  have owes := accounts.accept front fresh
  simp only [AsyncProducer.dispatchFresh, Bool.false_eq_true, if_false]
  split
  · exact owes.returnError ErrTransactionNotReady
  · exact owes.toTopic keeps fresh.1

theorem dispatchOne {inTransaction : Bool} {intercept : ProducerMessage → ProducerMessage}
    (keeps : ∀ msg, (intercept msg).flags = msg.flags ∧ (intercept msg).retries = msg.retries ∧
      (intercept msg).ticket = msg.ticket)
    (accounts : s.Accounts) : (s.dispatchOne conf inTransaction intercept).Accounts := by
  unfold AsyncProducer.dispatchOne
  cases front : s.input with
  | nil => exact accounts
  | cons msg input =>
    simp only [AsyncProducer.dispatchMessage]
    by_cases plain : Plain msg
    · rw [if_neg plain.2, if_neg plain.1]
      by_cases first : msg.retries = 0
      · rw [if_pos first]
        exact accounts.dispatchFresh keeps front ⟨plain, first⟩
      · rw [if_neg first]
        exact (accounts.take front (by simp [counts, Fresh, first])).toTopic keeps plain
    · have handled := (accounts.take front (by simp [counts, Fresh, plain])).handleMarker plain
      split
      · exact handled
      · split
        · exact handled.remember
        next notEndtxn notShutdown => exact absurd ⟨notShutdown, notEndtxn⟩ plain

/-- One step. -/
theorem step (accounts : s.Accounts) (step : s.Step conf e t) : t.Accounts := by
  obtain ⟨possible, rfl⟩ := step
  cases e with
  | send msg =>
    have fresh : Fresh msg := by simp [Fresh, Plain, ProducerMessage.has, possible.1, possible.2]
    have same : (s.apply conf (.send msg)).pending = s.pending := by
      simp [AsyncProducer.apply, pending, counts, fresh]
    exact ⟨same ▸ accounts.count, accounts.retried, accounts.plain, same ▸ accounts.tickets⟩
  | asyncClose => exact (accounts.sendMarker (by decide)).watch _
  | finishTransaction commit => cases commit <;> exact accounts.sendMarker (by decide)
  | dispatch inTransaction intercept => exact accounts.dispatchOne possible.2
  | control msg => exact accounts.control possible
  | controlDone msg => exact (accounts.takeBack possible).finish
  | succeed msg => exact (accounts.takeBack possible).returnSuccess
  | fail msg err => exact (accounts.takeBack possible).returnError err
  | retry msg err => exact (accounts.takeBack possible).retryMessage (accounts.plain msg possible) err
  | handleRetry => exact accounts.handleRetry

/-- Nothing is underway when the count is not positive. -/
theorem settled (accounts : s.Accounts) (zero : s.inFlight ≤ 0) :
    (∀ msg ∈ s.input, ¬ msg.has Shutdown) ∧ ∀ ticket < s.accepted, ticket ∈ s.ended := by
  have empty : s.pending = [] := by
    have count := accounts.count
    rw [← List.length_eq_zero_iff]
    omega
  constructor
  · intro msg member shutdown
    have counted : msg ∈ s.pending := by
      simp [pending, member, counts, Fresh, Plain, shutdown]
    rw [empty] at counted
    cases counted
  · intro ticket below
    obtain ended | ⟨msg, member, -⟩ := accounts.tickets ticket below
    · exact ended
    · rw [empty] at member
      cases member

end Accounts

/-! ## The wait of a shutdown -/

/-- A shutdown is let go only at a count that is not positive. -/
def Lets (s t : AsyncProducer) : Prop := s.released < t.released → t.inFlight ≤ 0

private theorem lets_done (s : AsyncProducer) : s.Lets s.done := by
  unfold done
  split
  · exact fun lets => absurd lets (lt_irrefl _)
  · intro _
    change s.inFlight - 1 ≤ 0
    omega

private theorem lets_finish (same : t.released = s.released) (msg : ProducerMessage) : s.Lets (t.finish msg) := by
  intro lets
  exact lets_done { t with ended := t.ended ++ [msg.ticket] } (by rwa [← same] at lets)

private theorem lets_returnError (s : AsyncProducer) (msg : ProducerMessage) (err : KError) :
    s.Lets (s.returnError conf msg err) := by
  unfold returnError
  split <;> exact lets_finish (by rfl) msg

private theorem lets_toTopic (s : AsyncProducer) (intercept : ProducerMessage → ProducerMessage) (msg : ProducerMessage) :
    s.Lets (s.toTopic conf intercept msg) := by
  unfold toTopic
  dsimp only
  split
  · exact lets_returnError s _ _
  · exact fun lets => absurd lets (lt_irrefl _)

private theorem lets_dispatchOne (s : AsyncProducer) (inTransaction : Bool) (intercept : ProducerMessage → ProducerMessage) :
    s.Lets (s.dispatchOne conf inTransaction intercept) := by
  unfold dispatchOne
  cases s.input with
  | nil => exact fun lets => absurd lets (lt_irrefl _)
  | cons msg input =>
    simp only [dispatchMessage, dispatchFresh, Bool.false_eq_true, if_false]
    repeat' split
    · exact lets_done { s with input }
    · exact lets_done { s with input }
    · exact lets_returnError { s with input }.accept _ _
    · exact lets_toTopic { s with input }.accept _ _
    · exact lets_toTopic { s with input } _ _

private theorem lets_apply (s : AsyncProducer) (e : Event) : s.Lets (s.apply conf e) := by
  cases e with
  | dispatch inTransaction intercept => exact lets_dispatchOne s inTransaction intercept
  | controlDone msg => exact lets_finish (by rfl) msg
  | succeed msg =>
    simp only [apply, returnSuccess]
    split <;> exact lets_finish (by rfl) msg
  | fail msg err => exact lets_returnError { s with dispatched := s.dispatched.erase msg } msg err
  | retry msg err =>
    simp only [apply, retryMessage]
    split
    · exact lets_returnError { s with dispatched := s.dispatched.erase msg } msg err
    · exact fun lets => absurd lets (lt_irrefl _)
  | _ => exact fun lets => absurd lets (lt_irrefl _)

/-! ## The iff -/

private theorem refused_ne {err : KError} (refuses : refused conf msg = some err) : err ≠ ErrShuttingDown := by
  have either : err = ErrHeaderVersionIsOld ∨ err = ErrMaxMessageBytes := by
    unfold refused at refuses
    grind
  obtain rfl | rfl := either <;> decide

variable {inTransaction : Bool} {intercept : ProducerMessage → ProducerMessage}

private theorem dispatchFresh_of_refuses (refuses : Refuses conf s inTransaction intercept msg) :
    ∃ err, err ≠ ErrShuttingDown ∧ ∃ msg', s.dispatchFresh conf false inTransaction intercept msg =
      s.accept.returnError conf msg' err := by
  simp only [dispatchFresh, Bool.false_eq_true, if_false, toTopic]
  by_cases notReady_ : notReady conf inTransaction
  · exact ⟨ErrTransactionNotReady, by decide, _, if_pos notReady_⟩
  · obtain ⟨err, refuses⟩ := Option.isSome_iff_exists.mp (refuses.resolve_left notReady_)
    rw [if_neg notReady_, refuses]
    exact ⟨err, refused_ne refuses, _, rfl⟩

private theorem dispatchFresh_of_not_refuses (not : ¬ Refuses conf s inTransaction intercept msg) :
    (s.dispatchFresh conf false inTransaction intercept msg).dispatched =
      s.dispatched ++ [intercept { msg with ticket := s.accepted }] := by
  obtain ⟨ready, passes⟩ := not_or.mp not
  simp only [dispatchFresh, Bool.false_eq_true, if_false, toTopic]
  rw [if_neg ready, Option.not_isSome_iff_eq_none.mp passes]
  rfl

/-- A round with a fresh message. -/
theorem dispatch_fresh (front : s.input = msg :: input) (fresh : Fresh msg) :
    s.apply conf (.dispatch inTransaction intercept) =
      { s with input }.dispatchFresh conf false inTransaction intercept msg := by
  simp only [apply, dispatchOne, front, dispatchMessage]
  rw [if_neg fresh.1.2, if_neg fresh.1.1, if_pos fresh.2]

/-- Along every sequence of events from a new producer: the cut-off is kept exactly when every fresh message that
comes behind the marker is refused anyway, without a reply. -/
theorem cut_off_iff (conf : ProducerConfig) (events : List Event) :
    Along (KeepsCutOff conf) (Step conf) {} events ↔ Along (InTime conf) (Step conf) {} events := by
  have keeps : ∀ s e t, Accounts s → Step conf s e t → Accounts t := fun _ _ _ accounts step => accounts.step step
  refine Along.congr keeps ?_ accounts_start events
  intro s e accounts
  constructor
  · intro keepsCutOff possible inTransaction intercept dispatches msg input front shutDown fresh
    obtain ⟨notDispatched, replied⟩ :=
      keepsCutOff.cutOff possible inTransaction intercept dispatches msg input front shutDown fresh
    rw [dispatches, dispatch_fresh front fresh] at notDispatched replied
    have refuses : Refuses conf { s with input } inTransaction intercept msg := by
      by_contra not
      rw [dispatchFresh_of_not_refuses not] at notDispatched
      simp at notDispatched
    refine ⟨fun set => ?_, refuses⟩
    obtain ⟨err, other, msg', result⟩ := dispatchFresh_of_refuses refuses
    obtain ⟨reply, shuttingDown, replies⟩ := replied set
    rw [result, replies_returnError set] at replies
    obtain rfl : _ = reply := List.singleton_inj.mp (List.append_cancel_left replies)
    exact other shuttingDown
  · intro inTime
    refine ⟨?_, fun possible lets => (accounts.step ⟨possible, rfl⟩).settled (s.lets_apply e lets)⟩
    intro possible inTransaction intercept dispatches msg input front shutDown fresh
    obtain ⟨unset, refuses⟩ := inTime possible inTransaction intercept dispatches msg input front shutDown fresh
    obtain ⟨err, -, msg', result⟩ := dispatchFresh_of_refuses (s := { s with input }) refuses
    rw [dispatches, dispatch_fresh front fresh, result]
    exact ⟨dispatched_returnError _ _ _, fun set => absurd set unset⟩

/-- A fresh message behind the marker is dispatched. -/
theorem late_message_dispatched : ¬ Along (KeepsCutOff {}) (Step {}) {}
    [.asyncClose, .send { topic := [116] }, .dispatch false id, .dispatch false id] := by
  rintro ⟨-, rest⟩
  obtain ⟨-, rest⟩ := rest _ ⟨trivial, rfl⟩
  obtain ⟨-, rest⟩ := rest _ ⟨⟨rfl, rfl⟩, rfl⟩
  obtain ⟨keeps, -⟩ := rest _ ⟨⟨nofun, fun _ => ⟨rfl, rfl, rfl⟩⟩, rfl⟩
  have kept := keeps.cutOff ⟨nofun, fun _ => ⟨rfl, rfl, rfl⟩⟩ false id rfl _ _ rfl rfl (by decide)
  exact absurd kept.1 (by decide)

end Coev.Kafka.AsyncProducer
