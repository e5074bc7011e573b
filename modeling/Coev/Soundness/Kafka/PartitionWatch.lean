import Coev.Model.Kafka.ConsumerGroup

/-! # The watch over the partition counts

The call that was to be deferred is made at the start, of a function that is empty. Nothing is cancelled after that.
-/

namespace Coev.Kafka.Watch

variable {conf : ConsumerGroupConfig} {cancel : SessionCancel} {ended : Bool} {plan : Std.ExtTreeMap Bytes (List Int32)}
  {topics : List Bytes} {s t : Watch} {event : Event} {events : List Event}

/-! ## The property -/

/-- The coroutine is over. -/
def Over (s : Watch) : Prop := s.place = .returned ∨ s.place = .thrown

/-- The session is cancelled for a cause only, and there is none left without it when the coroutine is over. -/
structure Right (s : Watch) : Prop where
  caused : s.cancelled = true → s.caused = true
  cancelled : Over s → s.caused = true → s.cancelled = true

/-- In every state that the events lead through. -/
def RightAlong (plan : Std.ExtTreeMap Bytes (List Int32)) (topics : List Bytes) (s : Watch) (events : List Event) : Prop :=
  ∀ before t, before <+: events → Run plan topics s before t → Right t

/-- The events that are a cause. -/
def Event.Causes (plan : Std.ExtTreeMap Bytes (List Int32)) (topics : List Bytes) : Event → Prop
  | .lookUp answers => Ends plan topics answers
  | .woken => False
  | .sessionEnds | .groupCloses => True

/-! ## Steps -/

/-- No step cancels. -/
theorem Step.cancelled (step : Step plan topics s event t) : t.cancelled = s.cancelled := by cases step <;> rfl

theorem Step.caused_iff (step : Step plan topics s event t) :
    t.caused = true ↔ s.caused = true ∨ event.Causes plan topics := by
  cases step with
  | ends at_ ends => simpa [Event.Causes] using Or.inr ends
  | unchanged at_ goesOn => simp [Event.Causes, goesOn]
  | woken at_ => simp [Event.Causes]
  | sessionEnds => simp [Event.Causes]
  | groupCloses => simp [Event.Causes]

theorem Step.over (step : Step plan topics s event t) (over_ : Over s) : Over t := by
  cases step with
  | ends at_ ends => exact .inl rfl
  | unchanged at_ goesOn => simp [Over, at_] at over_
  | woken at_ => simp [Over, at_] at over_
  | sessionEnds => exact over_
  | groupCloses => exact over_

/-! ## Runs -/

theorem Run.cancelled (run : Run plan topics s events t) : t.cancelled = s.cancelled := by
  induction events generalizing s with
  | nil => rw [show t = s from run]
  | cons event rest ih =>
    obtain ⟨u, step, later⟩ := run
    exact (ih later).trans step.cancelled

theorem Run.caused_iff (run : Run plan topics s events t) :
    t.caused = true ↔ s.caused = true ∨ ∃ event ∈ events, event.Causes plan topics := by
  induction events generalizing s with
  | nil => simp [show t = s from run]
  | cons event rest ih =>
    obtain ⟨u, step, later⟩ := run
    rw [ih later, step.caused_iff, List.exists_mem_cons_iff, or_assoc]

theorem Run.over (run : Run plan topics s events t) (over_ : Over s) : Over t := by
  induction events generalizing s with
  | nil => rwa [show t = s from run]
  | cons event rest ih =>
    obtain ⟨u, step, later⟩ := run
    exact ih later (step.over over_)

/-- A watch that is over and has cancelled nothing is right as long as there is no cause. -/
private theorem rightAlong_over_iff (over_ : Over s) (uncancelled : s.cancelled = false) (run : Run plan topics s events t) :
    RightAlong plan topics s events ↔ ¬ (s.caused = true ∨ ∃ event ∈ events, event.Causes plan topics) := by
  constructor
  · intro right causes
    have cancelled := (right events t List.prefix_rfl run).cancelled (run.over over_) (run.caused_iff.mpr causes)
    simp [run.cancelled, uncancelled] at cancelled
  · intro causeless before u head reached
    refine ⟨fun cancelled => ?_, fun _ caused => absurd (reached.caused_iff.mp caused) ?_⟩
    · simp [reached.cancelled, uncancelled] at cancelled
    · rintro (caused | ⟨event, member, causes⟩)
      · exact causeless (.inl caused)
      · exact causeless (.inr ⟨event, head.subset member, causes⟩)

/-- A watch that has cancelled at its start is right if there was a cause. -/
private theorem rightAlong_cancelled_iff (cancelled : s.cancelled = true) :
    RightAlong plan topics s events ↔ s.caused = true := by
  constructor
  · exact fun right => (right [] s (List.nil_prefix) rfl).caused cancelled
  · intro caused before u head reached
    exact ⟨fun _ => reached.caused_iff.mpr (.inl caused), fun _ _ => reached.cancelled.trans cancelled⟩

/-! ## The statement -/

/-- In a run of the watch, with a function of either kind: the property holds as long as there is no cause, and with a
function that can be called, if the watch is on, exactly if the session or the group has ended before the start. -/
theorem watch_right_iff (conf : ConsumerGroupConfig) (cancel : SessionCancel) (ended : Bool)
    (plan : Std.ExtTreeMap Bytes (List Int32)) (topics : List Bytes) (events : List Event) (t : Watch)
    (run : Run plan topics (start conf cancel ended) events t) :
    RightAlong plan topics (start conf cancel ended) events ↔
      if conf.refreshFrequency ≠ 0 ∧ cancel = .callable then ended = true
      else ¬ (ended = true ∨ ∃ event ∈ events, event.Causes plan topics) := by
  by_cases off : conf.refreshFrequency = 0
  · rw [if_neg fun on => on.1 off]
    have started : start conf cancel ended = { place := .returned, caused := ended } := if_pos off
    rw [started] at run ⊢
    exact rightAlong_over_iff (.inl rfl) rfl run
  · cases cancel with
    | empty =>
      have started : start conf .empty ended = { place := .thrown, caused := ended } := if_neg off
      rw [started] at run ⊢
      exact (rightAlong_over_iff (.inr rfl) rfl run).trans (by simp)
    | callable =>
      have started : start conf .callable ended = { place := .lookingUp, cancelled := true, caused := ended } := if_neg off
      rw [if_pos ⟨off, rfl⟩, started]
      exact rightAlong_cancelled_iff rfl

/-- The watch of a new session, with the default frequency. -/
def begun : Watch := start { groupStrategies := [] } newSessionCancel false

/-- Two partitions of one topic. -/
def twoPlanned : Std.ExtTreeMap Bytes (List Int32) := (∅ : Std.ExtTreeMap Bytes (List Int32)).insert [0x74] [0, 1]

/-- The count has not changed at the first look-up and has at the second one, and then the session ends. -/
def grownAndEnded : List Event := [.lookUp fun _ => .ok [0, 1], .woken, .lookUp fun _ => .ok [0, 1, 2], .sessionEnds]

/-- The group ends before the watch, whose function can be called. -/
theorem watch_right_begun : Run twoPlanned [[0x74]] (start { groupStrategies := [] } .callable true) grownAndEnded
        { place := .returned, cancelled := true, caused := true } ∧
      RightAlong twoPlanned [[0x74]] (start { groupStrategies := [] } .callable true) grownAndEnded := by
  have unchanged : ¬ Changed twoPlanned ((∅ : Std.ExtTreeMap Bytes ℕ).insert [0x74] 2) := by unfold Changed; decide
  have changed : Changed twoPlanned ((∅ : Std.ExtTreeMap Bytes ℕ).insert [0x74] 3) := by unfold Changed; decide
  have run : Run twoPlanned [[0x74]] (start { groupStrategies := [] } .callable true) grownAndEnded
      { place := .returned, cancelled := true, caused := true } :=
    ⟨_, .unchanged rfl unchanged, _, .woken rfl, _, .ends rfl changed, _, .sessionEnds, rfl⟩
  exact ⟨run, (watch_right_iff { groupStrategies := [] } .callable true twoPlanned [[0x74]] grownAndEnded _ run).mpr rfl⟩

/-- A session that ends is not cancelled; and if the function could be called, it would be while nothing has changed. -/
theorem session_never_cancelled :
    (Run ∅ [] begun [.sessionEnds] { begun with caused := true } ∧ ¬ RightAlong ∅ [] begun [.sessionEnds]) ∧
      ¬ RightAlong ∅ [] (start { groupStrategies := [] } .callable false) [] := by
  refine ⟨⟨⟨_, .sessionEnds, rfl⟩, fun right => ?_⟩, fun right => ?_⟩
  · have cancelled := (right [.sessionEnds] _ List.prefix_rfl ⟨_, .sessionEnds, rfl⟩).cancelled (.inr rfl) rfl
    cases cancelled
  · have caused := (right [] _ List.prefix_rfl rfl).caused rfl
    cases caused

end Coev.Kafka.Watch
