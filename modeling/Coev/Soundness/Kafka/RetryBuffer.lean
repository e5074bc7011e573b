import Coev.Model.Kafka.ProducerMessage

/-! # The retry buffer

A message that leaves room in the buffer stays there until another one takes the room. So the handler is done
with everything it received only if each message fills the buffer by itself, and since the length limit is never
as low as one message, it takes a byte limit that no message is below. A control message that is forwarded for
the limit stays in the byte counter.
-/

namespace Coev.Kafka.RetryHandler

variable {conf : ProducerConfig} {s s' : RetryHandler} {msg : ProducerMessage}
variable {received : List (Option ProducerMessage)}

/-- The handler is done with everything it received, and its counter agrees with what is buffered. -/
structure Law (conf : ProducerConfig) (received : List (Option ProducerMessage)) (s : RetryHandler) : Prop where
  forwarded : s.input.map some = received
  counted : s.currentByteSize.toInt = (s.buf.map fun msg => (size conf msg).toInt).sum

/-- Whenever the handler goes back to waiting the law holds, and it always gets there. -/
def KeepsLaw (conf : ProducerConfig) (received : List (Option ProducerMessage)) : Prop :=
  ∀ before, before <+: received → ∃ s, run conf before = .ok s ∧ Law conf before s

/-- A message that reaches the byte limit by itself, and is not a control message. -/
def FillsBuffer (conf : ProducerConfig) (msg : ProducerMessage) : Prop :=
  msg.flags = 0 ∧ 0 < maxBufferBytes conf ∧ maxBufferBytes conf ≤ (size conf msg).toInt

/-- Nothing is buffered and nothing is counted. -/
structure Idle (s : RetryHandler) : Prop where
  buf : s.buf = []
  currentByteSize : s.currentByteSize = 0

/-! ## A round from an empty buffer -/

private theorem one_lt_maxBufferLength (set : 0 < maxBufferLength conf) : 1 < maxBufferLength conf := by
  unfold maxBufferLength functional minFunctionalRetryBufferLength at set ⊢
  split <;> split at set <;> omega

/-- The buffer has room beside a single message unless the message is of the size of the byte limit. -/
theorem hasRoom_single (conf : ProducerConfig) (msg : ProducerMessage) (input : List ProducerMessage) :
    ¬ hasRoom conf { buf := [msg], currentByteSize := (size conf msg).toInt64, input } ↔
      0 < maxBufferBytes conf ∧ maxBufferBytes conf ≤ (size conf msg).toInt := by
  have short : (decide (maxBufferLength conf ≤ 0) || decide (((1 : ℕ) : ℤ) < maxBufferLength conf)) = true := by
    by_cases set : 0 < maxBufferLength conf
    · simp [one_lt_maxBufferLength set]
    · simp [Int.not_lt.mp set]
  unfold hasRoom
  rw [List.length_singleton, short, Bool.true_and, Bool.not_eq_true, Bool.or_eq_false_iff, decide_eq_false_iff_not,
    decide_eq_false_iff_not, Int32.toInt_toInt64, Int.not_le, Int.not_lt]

/-- A message that comes to an empty buffer is forwarded if it has the size of the byte limit, else it stays. -/
theorem Idle.round (idle : s.Idle) (msg : ProducerMessage) : round conf s (some msg) = .ok
      (if 0 < maxBufferBytes conf ∧ maxBufferBytes conf ≤ (size conf msg).toInt then
        { buf := [], currentByteSize := if msg.flags = 0 then 0 else (size conf msg).toInt64, input := s.input ++ [msg] }
      else { buf := [msg], currentByteSize := (size conf msg).toInt64, input := s.input }) := by
  have received :
      ({ s with buf := s.buf ++ [msg], currentByteSize := s.currentByteSize + (size conf msg).toInt64 } : RetryHandler)
        =
      { buf := [msg], currentByteSize := (size conf msg).toInt64, input := s.input } := by
    rw [idle.buf, idle.currentByteSize, Int64.zero_add, List.nil_append]
  rw [RetryHandler.round]
  simp only [received]
  by_cases full : 0 < maxBufferBytes conf ∧ maxBufferBytes conf ≤ (size conf msg).toInt
  · rw [if_neg ((hasRoom_single conf msg s.input).mpr full), if_pos full, forward]
    simp only [decide_eq_true_eq, Int64.sub_self]
  · rw [if_pos (not_not.mp (mt (hasRoom_single conf msg s.input).mp full)), if_neg full]

theorem Idle.round_none (idle : s.Idle) : RetryHandler.round conf s none = .error .outOfBounds := by
  rw [RetryHandler.round, forward, idle.buf]

/-- A message that fills the buffer leaves it empty. -/
theorem Idle.round_fills (idle : s.Idle) (fills : FillsBuffer conf msg) :
    ∃ s', RetryHandler.round conf s (some msg) = .ok s' ∧ s'.Idle ∧ s'.input = s.input ++ [msg] := by
  obtain ⟨unflagged, full⟩ := fills
  rw [idle.round, if_pos full, if_pos unflagged]
  exact ⟨_, rfl, ⟨rfl, rfl⟩, rfl⟩

/-- Only such a message can leave the law intact. -/
theorem Idle.fills (idle : s.Idle) {m : Option ProducerMessage} (forwarded : s.input.map some = received)
    (ran : RetryHandler.round conf s m = .ok s') (law : Law conf (received ++ [m]) s') :
    ∃ msg, m = some msg ∧ FillsBuffer conf msg := by
  cases m with
  | none =>
    rw [idle.round_none] at ran
    cases ran
  | some msg =>
    rw [idle.round] at ran
    by_cases full : 0 < maxBufferBytes conf ∧ maxBufferBytes conf ≤ (size conf msg).toInt
    · rw [if_pos full] at ran
      obtain rfl := Except.ok.inj ran
      refine ⟨msg, rfl, by_contra fun flagged => ?_, full⟩
      have counted := law.counted
      rw [if_neg flagged, Int32.toInt_toInt64] at counted
      change (size conf msg).toInt = 0 at counted
      omega
    · rw [if_neg full] at ran
      obtain rfl := Except.ok.inj ran
      have lengths := congrArg List.length law.forwarded
      rw [forwarded] at lengths
      simp at lengths

/-! ## Runs -/

private theorem run_append (received : List (Option ProducerMessage)) (m : Option ProducerMessage) :
    run conf (received ++ [m]) = (run conf received).bind fun s => RetryHandler.round conf s m := by
  simp only [run, List.foldlM_append, List.foldlM_cons, List.foldlM_nil, bind, pure, Except.pure]
  cases received.foldlM (RetryHandler.round conf) {} with
  | error _ => rfl
  | ok s =>
    cases ran : RetryHandler.round conf s m with
    | error _ => simp only [Except.bind, ran]
    | ok _ => simp only [Except.bind, ran]

/-- After messages that fill the buffer everything was forwarded. -/
theorem run_fills (fills : ∀ m ∈ received, ∃ msg, m = some msg ∧ FillsBuffer conf msg) :
    ∃ s, run conf received = .ok s ∧ s.Idle ∧ s.input.map some = received := by
  induction received using List.reverseRecOn with
  | nil => exact ⟨{}, rfl, ⟨rfl, rfl⟩, rfl⟩
  | append_singleton received m ih =>
    obtain ⟨s, ran, idle, forwarded⟩ := ih fun m member => fills m (List.mem_append_left _ member)
    obtain ⟨msg, rfl, full⟩ := fills m (List.mem_append_right _ List.mem_cons_self)
    obtain ⟨s', taken, idle', input⟩ := idle.round_fills full
    refine ⟨s', ?_, idle', ?_⟩
    · rw [run_append, ran]
      exact taken
    · rw [input, List.map_append, forwarded]
      rfl

theorem KeepsLaw.fills (keeps : KeepsLaw conf received) :
    ∀ m ∈ received, ∃ msg, m = some msg ∧ FillsBuffer conf msg := by
  induction received using List.reverseRecOn with
  | nil => exact fun m member => absurd member List.not_mem_nil
  | append_singleton received m ih =>
    have before := ih fun before shorter => keeps before (shorter.trans (List.prefix_append _ _))
    obtain ⟨s, ran, idle, forwarded⟩ := run_fills before
    obtain ⟨s', ran', law⟩ := keeps _ List.prefix_rfl
    rw [run_append, ran] at ran'
    intro m' member
    rcases List.mem_append.mp member with earlier | last
    · exact before m' earlier
    · obtain rfl := List.mem_singleton.mp last
      exact idle.fills forwarded ran' law

/-- The law holds at every wait exactly when no null pointer is received and every message fills the buffer by itself. -/
theorem retry_buffer_law_iff (conf : ProducerConfig) (received : List (Option ProducerMessage)) :
    KeepsLaw conf received ↔ ∀ m ∈ received, ∃ msg, m = some msg ∧ FillsBuffer conf msg := by
  refine ⟨KeepsLaw.fills, fun fills before shorter => ?_⟩
  obtain ⟨s, ran, idle, forwarded⟩ := run_fills fun m member => fills m (shorter.subset member)
  refine ⟨s, ran, forwarded, ?_⟩
  rw [idle.buf, idle.currentByteSize]
  rfl

/-- Without limits the first message stays in the buffer. -/
theorem retried_message_kept : ¬ KeepsLaw {} [some { topic := [116], retries := 1 }] := by
  intro keeps
  obtain ⟨s, ran, law⟩ := keeps _ List.prefix_rfl
  have same : run {} [some { topic := [116], retries := 1 }] =
      .ok { buf := [{ topic := [116], retries := 1 }], currentByteSize := 77, input := [] } := by decide +kernel
  obtain rfl := Except.ok.inj (same.symm.trans ran)
  exact absurd law.forwarded (by simp)

end Coev.Kafka.RetryHandler
