import Coev.Proofs.Core.Guard

/-! # Waiters that are served in their turn

An object hands over if a change of its data, made for the waiter in front as well, leaves the others with their
condition unmet. Then nobody waits without need, and the getter acts for the callers in the order in which they came.
-/

namespace Coev.Guard

variable {σ : Type*} {m : Monitor σ} {s s' : Guard σ} {c : Call σ} {k tid : ℕ} {granted : σ → List ℕ}

/-- Nothing changed but what the waiters do and where their wake-ups are. -/
structure Quiet (s s' : Guard σ) : Prop where
  shared : s'.shared = s.shared
  queue : s'.async.queue = s.async.queue
  arrived : s'.arrived = s.arrived
  same : s.async.Same s'.async

theorem queue_change {a : Async} {f : Waiter → Option Waiter} : (a.change k f).queue = a.queue := by
  unfold Async.change
  split <;> rfl

theorem quiet_deliver : s.Quiet (s.deliver tid k) := by
  simp only [deliver, deliverResume]
  split
  next => exact ⟨rfl, queue_change, rfl, Async.same_resumeEvent⟩
  next => split <;> exact ⟨rfl, rfl, rfl, rfl⟩

theorem Quiet.trans {t : Guard σ} (first : s.Quiet s') (second : s'.Quiet t) : s.Quiet t where
  shared := second.shared.trans first.shared
  queue := second.queue.trans first.queue
  arrived := second.arrived.trans first.arrived
  same := second.same.trans first.same

theorem quiet_pass (h : Hand) : s.Quiet (s.pass h) := by
  have taken : s.Quiet { s with hands := s.hands.erase h } := ⟨rfl, rfl, rfl, rfl⟩
  unfold pass
  cases h.wake with
  | resume => exact taken.trans ⟨rfl, queue_change, rfl, Async.same_resumeEvent⟩
  | deliver => exact taken.trans quiet_deliver
  | deliverValue v =>
    apply Quiet.trans _ quiet_deliver
    exact ⟨rfl, queue_change, rfl, Async.same_setReserved⟩

theorem quiet_of_continues (continues : Continues c) (step : s.Step m c s') : s.Quiet s' := by
  cases continues with
  | awaitReady k =>
    obtain ⟨-, ⟨⟩⟩ := Option.ite_none_right_eq_some.mp step
    exact ⟨rfl, queue_change, rfl, Async.same_awaitReady⟩
  | awaitSuspend k =>
    obtain ⟨-, ⟨⟩⟩ := Option.ite_none_right_eq_some.mp step
    exact ⟨rfl, queue_change, rfl, Async.same_awaitSuspend⟩
  | pass h =>
    obtain ⟨-, ⟨⟩⟩ := Option.ite_none_right_eq_some.mp step
    exact quiet_pass h
  | resumeEv tid =>
    cases step
    simp only [resumeEv]
    split
    next => exact ⟨rfl, queue_change.trans queue_change, rfl, Async.same_resumeEvent.trans Async.same_setReserved⟩
    next => exact ⟨rfl, rfl, rfl, rfl⟩

/-- A change of the data acts for nobody, and leaves the waiters with their condition unmet once the first is served. -/
def HandsOver (m : Monitor σ) (granted : σ → List ℕ) : Call σ → Prop
  | .enter who _ _ => ∀ x, m.suspends x = false → granted (m.getter who x) = granted x ++ [who]
  | .critical f => ∀ x, granted (f x) = granted x ∧ (m.suspends x = true → m.suspends (f x) = true)
  | .ev _ f _ => ∀ x, granted (f x) = granted x ∧ (m.suspends x = true → ∀ who,
      m.suspends (m.getter who (f x)) = true ∧ granted (m.getter who (f x)) = granted x ++ [who])
  | call => Continues call

/-- What entering does to the data. -/
theorem shared_enter (caller tid : ℕ) (reserved : Int64) : (s.enter m caller tid reserved).shared = s.shared ∨
    m.suspends s.shared = false ∧ (s.enter m caller tid reserved).shared = m.getter caller s.shared := by
  simp only [Guard.enter]
  split
  next => exact .inl rfl
  next free => exact .inr ⟨by simpa using free, rfl⟩

/-- What `__ev` does to the data. -/
theorem shared_ev (tid : ℕ) (set : σ → σ) (wake : Wake) : (s.ev m tid set wake).shared = set s.shared ∨
    s.async.queue ≠ [] ∧ ∃ who, (s.ev m tid set wake).shared = m.getter who (set s.shared) := by
  simp only [Guard.ev]
  split
  next => exact .inl rfl
  next k async popped =>
    obtain ⟨queue, queued, -⟩ := Async.Kept.popFront_eq popped
    exact .inr ⟨by rw [queued]; exact List.cons_ne_nil _ _, _, rfl⟩

/-- Nobody waits whose condition is met, and the getter acted for the callers in the order in which they came. -/
structure Served (m : Monitor σ) (granted : σ → List ℕ) (s : Guard σ) : Prop where
  unmet : s.async.queue ≠ [] → m.suspends s.shared = true
  inTurn : granted s.shared ++ s.async.queue.map s.async.caller = s.arrived

namespace Served

theorem quiet (served : s.Served m granted) (quiet : s.Quiet s') : s'.Served m granted := by
  constructor
  · rw [quiet.queue, quiet.shared]
    exact served.unmet
  · rw [quiet.queue, quiet.shared, quiet.arrived, ← served.inTurn]
    congr 1
    exact List.map_congr_left fun k _ => quiet.same.caller

theorem enter (served : s.Served m granted) (kept : s.Kept) {caller tid : ℕ} {reserved : Int64}
    (handsOver : HandsOver m granted (.enter caller tid reserved)) : (s.enter m caller tid reserved).Served m granted := by
  simp only [Guard.enter]
  split
  next blocked =>
    refine ⟨fun _ => blocked, ?_⟩
    have old : ∀ k ∈ s.async.queue, (s.async.suspend caller tid reserved).caller k = s.async.caller k := fun k queued => by
      simp [Async.suspend, Async.caller, List.getElem?_append_left (kept.async.lt_of_queued queued)]
    have new : (s.async.suspend caller tid reserved).caller s.async.waiters.length = caller := by
      simp [Async.suspend, Async.caller]
    have queue : (s.async.suspend caller tid reserved).queue = s.async.queue ++ [s.async.waiters.length] := rfl
    rw [queue, List.map_append, List.map_congr_left old, List.map_singleton, new, ← List.append_assoc]
    exact congrArg (· ++ [caller]) served.inTurn
  next free =>
    have nobody : s.async.queue = [] := by
      by_contra waits
      exact free (served.unmet waits)
    refine ⟨fun waits => absurd nobody waits, ?_⟩
    have before := served.inTurn
    rw [nobody, List.map_nil, List.append_nil] at before
    rw [nobody, List.map_nil, List.append_nil, handsOver s.shared (by simpa using free), before]

theorem ev (served : s.Served m granted) {set : σ → σ} {wake : Wake}
    (handsOver : HandsOver m granted (.ev tid set wake)) : (s.ev m tid set wake).Served m granted := by
  simp only [Guard.ev]
  split
  next popped =>
    have nobody : s.async.queue = [] := by
      cases queued : s.async.queue with
      | nil => rfl
      | cons k queue => simp [Async.popFront, queued] at popped
    refine ⟨fun waits => absurd nobody waits, ?_⟩
    rw [(handsOver s.shared).1]
    exact served.inTurn
  next k async popped =>
    obtain ⟨queue, queued, rfl⟩ := Async.Kept.popFront_eq popped
    have blocked := served.unmet (by rw [queued]; exact List.cons_ne_nil _ _)
    obtain ⟨still, served'⟩ := (handsOver s.shared).2 blocked (s.async.caller k)
    refine ⟨fun _ => still, ?_⟩
    have before := served.inTurn
    rw [queued, List.map_cons] at before
    exact (congrArg (· ++ queue.map s.async.caller) served').trans ((List.append_assoc _ _ _).trans before)

/-- Every call of an object that hands over serves the waiters in their turn. -/
theorem step (served : s.Served m granted) (kept : s.Kept) (handsOver : HandsOver m granted c)
    (step : s.Step m c s') : s'.Served m granted := by
  cases c with
  | enter caller tid reserved => cases step; exact served.enter kept handsOver
  | critical f =>
    cases step
    refine ⟨fun waits => (handsOver s.shared).2 (served.unmet waits), ?_⟩
    rw [(handsOver s.shared).1]
    exact served.inTurn
  | ev tid set wake => cases step; exact served.ev handsOver
  | _ => exact served.quiet (quiet_of_continues handsOver step)

end Served

/-- Every thread has a `co_deliver`. -/
def Runs (s : Guard σ) : Prop := ∀ tid, (s.delivers tid).isSome

/-- A call that passes no value and stops no event loop. -/
def Quietly : Call σ → Prop
  | .ev _ _ wake => wake.value = 0
  | .stop _ => False
  | _ => True

theorem passes_of_quietly (quietly : Quietly c) (runs : s.Runs) : s.Passes c := by
  cases c with
  | ev tid set wake => exact fun _ => quietly
  | pass h => exact fun _ _ => runs _
  | stop tid => exact quietly.elim
  | _ => trivial

theorem runs_update (runs : s.Runs) (tid : ℕ) {events : List ℕ} :
    Runs { s with delivers := Function.update s.delivers tid (some events) } := by
  intro t
  by_cases here : t = tid
  · simp [here]
  · simpa [Function.update_of_ne here] using runs t

theorem runs_deliver (runs : s.Runs) (tid k : ℕ) : (s.deliver tid k).Runs := by
  simp only [deliver, deliverResume]
  split
  next => exact runs
  next =>
    split
    next => exact runs
    next => exact runs_update runs _

theorem runs_step (runs : s.Runs) (quietly : Quietly c) (step : s.Step m c s') : s'.Runs := by
  cases c with
  | enter caller tid reserved =>
    cases step
    simp only [Guard.enter]
    split <;> exact runs
  | awaitReady k | awaitSuspend k =>
    obtain ⟨-, ⟨⟩⟩ := Option.ite_none_right_eq_some.mp step
    exact runs
  | critical f => cases step; exact runs
  | ev tid set wake =>
    cases step
    simp only [Guard.ev]
    split <;> exact runs
  | pass h =>
    obtain ⟨-, ⟨⟩⟩ := Option.ite_none_right_eq_some.mp step
    unfold Guard.pass
    cases h.wake with
    | resume => exact runs
    | deliver => exact runs_deliver (s := { s with hands := s.hands.erase h }) runs h.tid h.waiter
    | deliverValue v =>
      apply runs_deliver
      exact runs
  | resumeEv tid =>
    cases step
    simp only [Guard.resumeEv]
    split
    next => exact runs_update runs tid
    next => exact runs
  | register tid =>
    obtain ⟨-, ⟨⟩⟩ := Option.ite_none_right_eq_some.mp step
    exact runs_update runs tid
  | stop tid => exact quietly.elim
  | destroy =>
    cases step
    simp only [Guard.destroy]
    split <;> exact runs

theorem quietly_of_continues (continues : Continues c) : Quietly c := by cases continues <;> trivial

end Coev.Guard
