import Coev.Proofs.Core.Guarded
import Coev.Soundness.Core.WakeUpValue

/-! # Channels, mutexes and wait groups hand over

Whoever makes the condition of a waiter true acts for the waiter in front before it leaves the critical section. So the
condition of those who still wait is unmet, items and locks go out in the order of the callers, and every waiter that
was taken off the queue is on its way back. A wait group differs: it counts outside the mutex, and wakes its waiters
only after that.
-/

namespace Coev

open Transition Guard

/-- An object with no waiter, on threads whose event loops run. -/
def Guard.running {σ : Type*} (shared : σ) : Guard σ := { shared, delivers := fun _ => some [] }

theorem Guard.kept_running {σ : Type*} (shared : σ) : (running shared).Kept where
  async := Async.kept_empty.congr fun k => by simp [pending, held, events, running]
  home tid k member := by simp [events, running] at member

namespace GuardChannel

variable {α : Type*} {s s' : Guard (GuardChannel α)} {c : Call α}
variable {g : GuardChannel α}

/-- Nobody waits while there is an item, every item goes to one caller, items and waiting callers in their order, and no
wake-up is lost. -/
structure HandsOver (s : Guard (GuardChannel α)) : Prop where
  unmet : s.async.queue ≠ [] → s.shared.data = []
  once : s.shared.handed.map Prod.snd ++ s.shared.data = s.shared.put
  inTurn : s.shared.handed.filterMap Prod.fst ++ s.async.queue.map s.async.caller = s.arrived
  nonempty : s.shared.underflow = false
  wakes : s.WakesFaithfully

/-- Every item is in the channel or went out, in the order in which the items came. -/
def Conserves (g : GuardChannel α) : Prop := g.handed.map Prod.snd ++ g.data = g.put ∧ g.underflow = false

theorem Conserves.popFront (conserves : g.Conserves) (items : g.data ≠ []) (who : Option ℕ) :
    (g.popFront who).Conserves := by
  unfold GuardChannel.popFront
  split
  next empty => exact absurd empty items
  next d data queued =>
    refine ⟨?_, conserves.2⟩
    rw [← conserves.1, queued]
    simp

theorem Conserves.tryGet (conserves : g.Conserves) : g.tryGet.Conserves := by
  unfold GuardChannel.tryGet
  split
  next => exact conserves
  next items => exact conserves.popFront (by simpa using items) none

theorem Conserves.push (conserves : g.Conserves) (d : α) : (push d g).Conserves := by
  refine ⟨?_, conserves.2⟩
  rw [GuardChannel.push, ← conserves.1, List.append_assoc]

/-- The callers of `get` that the getter acted for. -/
def granted (g : GuardChannel α) : List ℕ := g.handed.filterMap Prod.fst

private theorem granted_popFront (items : g.data ≠ []) (who : Option ℕ) :
    granted (g.popFront who) = granted g ++ who.toList := by
  unfold GuardChannel.popFront
  split
  next empty => exact absurd empty items
  next d data queued => cases who <;> simp [granted, List.filterMap_append]

theorem handsOver (c : Call α) : Guard.HandsOver monitor granted c.guarded := by
  cases c with
  | get caller tid reserved => exact fun g items => granted_popFront (by simpa [monitor] using items) _
  | set tid d =>
    intro g
    refine ⟨rfl, fun empty who => ?_⟩
    have nothing : g.data = [] := by simpa [monitor] using empty
    simp [monitor, GuardChannel.popFront, push, nothing, granted]
  | tryGet =>
    intro g
    simp only [GuardChannel.tryGet, monitor]
    split
    next empty => exact ⟨rfl, id⟩
    next items =>
      exact ⟨(granted_popFront (by simpa using items) none).trans (List.append_nil _), fun empty => absurd empty items⟩
  | proceed call continues => cases continues <;> constructor

theorem quietly (c : Call α) : Quietly c.guarded := by
  cases c with
  | proceed call continues => exact quietly_of_continues continues
  | _ => trivial

private theorem conserves_step (conserves : s.shared.Conserves) (step : Step s c s') : s'.shared.Conserves := by
  cases c with
  | get caller tid reserved =>
    cases step
    rcases shared_enter (s := s) (m := monitor) caller tid reserved with same | ⟨free, taken⟩
    · rwa [same]
    · rw [taken]
      exact conserves.popFront (by simpa [monitor] using free) _
  | set tid d =>
    cases step
    rcases shared_ev (s := s) (m := monitor) tid (push d) .deliver with put | ⟨waits, who, taken⟩
    · rw [put]
      exact conserves.push d
    · rw [taken]
      exact (conserves.push d).popFront (by simp [push]) _
  | tryGet => cases step; exact conserves.tryGet
  | proceed call continues =>
    have quiet := quiet_of_continues continues step
    rwa [quiet.shared]

/-- What a channel keeps. -/
structure Invariant (s : Guard (GuardChannel α)) : Prop where
  kept : s.Kept
  runs : s.Runs
  served : s.Served monitor granted
  conserves : s.shared.Conserves

theorem Invariant.step (inv : Invariant s) (step : Step s c s') : Invariant s' where
  kept := inv.kept.step (passes_of_quietly (quietly c) inv.runs) step
  runs := runs_step inv.runs (quietly c) step
  served := inv.served.step inv.kept (handsOver c) step
  conserves := conserves_step inv.conserves step

theorem Invariant.of_run (run : Reaches Step (running {}) s) : Invariant s := by
  apply run.invariant (fun _ _ _ inv step => inv.step step)
  exact ⟨kept_running _, fun _ => rfl, ⟨fun waits => absurd rfl waits, rfl⟩, rfl, rfl⟩

theorem Invariant.handsOver (inv : Invariant s) : HandsOver s where
  unmet waits := by simpa [monitor] using inv.served.unmet waits
  once := inv.conserves.1
  inTurn := inv.served.inTurn
  nonempty := inv.conserves.2
  wakes := inv.kept.wakesFaithfully

end GuardChannel

namespace GuardMutex

variable {s s' : Guard GuardMutex} {c : Call}
variable {m : GuardMutex}

/-- Nobody waits for a lock that is free, at most one coroutine holds it, the callers take it in their order, and no
wake-up is lost. -/
structure HandsOver (s : Guard GuardMutex) : Prop where
  unmet : s.async.queue ≠ [] → s.shared.flag = true
  alone : s.shared.holders.length ≤ 1
  locked : s.shared.holders ≠ [] ↔ s.shared.flag = true
  inTurn : s.shared.granted ++ s.async.queue.map s.async.caller = s.arrived
  wakes : s.WakesFaithfully

/-- Only a holder unlocks. -/
def ByHolder (s : Guard GuardMutex) : Call → Prop
  | .unlock _ who _ => who ∈ s.shared.holders
  | _ => True

/-- The flag says whether the one holder is there. -/
def Held (m : GuardMutex) : Prop := m.flag = false ∧ m.holders = [] ∨ m.flag = true ∧ ∃ who, m.holders = [who]

theorem handsOver (c : Call) : Guard.HandsOver monitor granted c.guarded := by
  cases c with
  | lock caller tid reserved => exact fun m _ => rfl
  | tryLock who =>
    intro m
    simp only [GuardMutex.tryLock, monitor]
    split
    next locked => exact ⟨rfl, fun _ => locked⟩
    next => exact ⟨rfl, fun _ => rfl⟩
  | unlock tid who deliver => exact fun m => ⟨rfl, fun _ who => ⟨rfl, rfl⟩⟩
  | proceed call continues => cases continues <;> constructor

theorem quietly (c : Call) : Quietly c.guarded := by
  cases c with
  | proceed call continues => exact quietly_of_continues continues
  | unlock tid who deliver => cases deliver <;> rfl
  | _ => trivial

theorem Held.take (held : m.Held) (free : m.flag = false) (who : ℕ) : (monitor.getter who m).Held := by
  rcases held with ⟨-, nobody⟩ | ⟨locked, -⟩
  · exact .inr ⟨rfl, who, by simp [monitor, nobody]⟩
  · rw [free] at locked
    cases locked

theorem Held.release (held : m.Held) {who : ℕ} (holds : who ∈ m.holders) : (release who m).Held := by
  rcases held with ⟨-, nobody⟩ | ⟨-, holder, alone⟩
  · rw [nobody] at holds
    cases holds
  · rw [alone, List.mem_singleton] at holds
    exact .inl ⟨rfl, by simp [GuardMutex.release, alone, holds]⟩

theorem Held.tryLock (held : m.Held) (who : ℕ) : (tryLock who m).Held := by
  unfold GuardMutex.tryLock
  split
  next => exact held
  next free =>
    rcases held with ⟨-, nobody⟩ | ⟨locked, -⟩
    · exact .inr ⟨rfl, who, by simp [nobody]⟩
    · exact absurd locked free

private theorem held_step (held : s.shared.Held) (byHolder : ByHolder s c) (step : Step s c s') : s'.shared.Held := by
  cases c with
  | lock caller tid reserved =>
    cases step
    rcases shared_enter (s := s) (m := monitor) caller tid reserved with same | ⟨free, taken⟩
    · rwa [same]
    · rw [taken]
      exact held.take free caller
  | tryLock who => cases step; exact held.tryLock who
  | unlock tid who deliver =>
    cases step
    have released := held.release byHolder
    rcases shared_ev (s := s) (m := monitor) tid (release who) (if deliver then .deliver else .resume) with
      put | ⟨-, next, taken⟩
    · rwa [put]
    · rw [taken]
      exact released.take rfl next
  | proceed call continues =>
    have quiet := quiet_of_continues continues step
    rwa [quiet.shared]

/-- What a mutex keeps. -/
structure Invariant (s : Guard GuardMutex) : Prop where
  kept : s.Kept
  runs : s.Runs
  served : s.Served monitor granted
  held : s.shared.Held

theorem Invariant.step (inv : Invariant s) (byHolder : ByHolder s c) (step : Step s c s') : Invariant s' where
  kept := inv.kept.step (passes_of_quietly (quietly c) inv.runs) step
  runs := runs_step inv.runs (quietly c) step
  served := inv.served.step inv.kept (handsOver c) step
  held := held_step inv.held byHolder step

theorem Invariant.of_run (run : Reaches (When ByHolder Step) (running {}) s) : Invariant s := by
  apply run.invariant (fun _ _ _ inv step => inv.step step.1 step.2)
  exact ⟨kept_running _, fun _ => rfl, ⟨fun waits => absurd rfl waits, rfl⟩, .inl ⟨rfl, rfl⟩⟩

theorem Invariant.handsOver (inv : Invariant s) : HandsOver s where
  unmet := inv.served.unmet
  alone := by
    rcases inv.held with ⟨-, nobody⟩ | ⟨-, who, alone⟩
    · simp [nobody]
    · simp [alone]
  locked := by
    rcases inv.held with ⟨free, nobody⟩ | ⟨locked, who, alone⟩
    · simp [free, nobody]
    · simp [locked, alone]
  inTurn := inv.served.inTurn
  wakes := inv.kept.wakesFaithfully

end GuardMutex

namespace WaitGroup

variable {s s' : Guard WaitGroup} {c : Call}

/-- Nobody waits on a count that is not above zero but for the calls of `done` that are waking the waiters, and no wake-up
is lost. -/
structure Releases (s : Guard WaitGroup) : Prop where
  unmet : s.async.queue ≠ [] → 0 < s.shared.count ∨ 0 < s.shared.delivering
  wakes : s.WakesFaithfully

/-- While coroutines wait, `add` does not bring the count to zero or below: it is not negative and does not overflow. -/
def Grows (s : Guard WaitGroup) : Call → Prop
  | .add n => s.async.queue ≠ [] → 0 < s.shared.count → 0 < s.shared.count + n
  | _ => True

theorem quietly (c : Call) : Quietly (c.guarded s) := by
  cases c with
  | proceed call continues => exact quietly_of_continues continues
  | _ => trivial

/-- What a wait group keeps. -/
structure Invariant (s : Guard WaitGroup) : Prop where
  kept : s.Kept
  runs : s.Runs
  unmet : s.async.queue ≠ [] → 0 < s.shared.count ∨ 0 < s.shared.delivering

private theorem unmet_step (inv : Invariant s) (grows : Grows s c) (step : Step s c s') :
    s'.async.queue ≠ [] → 0 < s'.shared.count ∨ 0 < s'.shared.delivering := by
  obtain ⟨step, loops⟩ := step
  cases c with
  | wait caller tid reserved =>
    cases step
    simp only [Guard.enter]
    split
    next counts => exact fun _ => .inl (by simpa [monitor] using counts)
    next => exact inv.unmet
  | add n =>
    cases step
    intro waits
    rcases inv.unmet waits with counts | delivers
    · exact .inl (grows waits counts)
    · exact .inr delivers
  | done =>
    cases step
    intro waits
    simp only [decrement]
    split
    next counts => exact .inl counts
    next => exact .inr (Nat.succ_pos _)
  | round tid =>
    cases step
    have looping := loops tid rfl
    simp only [Guard.ev, Async.popFront]
    cases queued : s.async.queue with
    | nil => exact fun waits => absurd queued waits
    | cons k queue =>
      intro _
      exact .inr (by simpa [monitor, queued] using looping)
  | proceed call continues =>
    have quiet := quiet_of_continues continues step
    rw [quiet.queue, quiet.shared]
    exact inv.unmet

theorem Invariant.step (inv : Invariant s) (grows : Grows s c) (step : Step s c s') : Invariant s' where
  kept := inv.kept.step (passes_of_quietly (quietly c) inv.runs) step.1
  runs := runs_step inv.runs (quietly c) step.1
  unmet := unmet_step inv grows step

theorem Invariant.of_run (run : Reaches (When Grows Step) (running {}) s) : Invariant s := by
  apply run.invariant (fun _ _ _ inv step => inv.step step.1 step.2)
  exact ⟨kept_running _, fun _ => rfl, fun waits => absurd rfl waits⟩

end WaitGroup

/-- Along every run of a channel, of a mutex that its holder unlocks, and of a wait group whose `add` only adds, nobody
waits without need, items and the lock go out in turn, and no wake-up is lost. -/
theorem hands_over (α : Type*) :
    (∀ s : Guard (GuardChannel α), Reaches GuardChannel.Step (running {}) s → GuardChannel.HandsOver s) ∧
    (∀ s, Reaches (When GuardMutex.ByHolder GuardMutex.Step) (running {}) s → GuardMutex.HandsOver s) ∧
    ∀ s, Reaches (When WaitGroup.Grows WaitGroup.Step) (running {}) s → WaitGroup.Releases s := by
  refine ⟨fun s run => ?_, fun s run => ?_, fun s run => ?_⟩
  · exact (GuardChannel.Invariant.of_run run).handsOver
  · exact (GuardMutex.Invariant.of_run run).handsOver
  · have inv := WaitGroup.Invariant.of_run run
    exact ⟨inv.unmet, inv.kept.wakesFaithfully⟩

/-- A waiting `get` takes the item of a later `set`, a lock goes from its holder to a waiter, and `done` wakes a waiter. -/
theorem hands_over_once :
    (∃ s : Guard (GuardChannel ℕ), Reaches GuardChannel.Step (running {}) s ∧ s.shared.handed = [(some 3, 8)] ∧
      GuardChannel.HandsOver s) ∧
    (∃ s, Reaches (When GuardMutex.ByHolder GuardMutex.Step) (running {}) s ∧ s.shared.holders = [4] ∧
      GuardMutex.HandsOver s) ∧
    ∃ s, Reaches (When WaitGroup.Grows WaitGroup.Step) (running {}) s ∧ s.async.waiters.map Waiter.progress = [.returned 0] ∧
      WaitGroup.Releases s := by
  refine ⟨?_, ?_, ?_⟩
  · have run : Reaches GuardChannel.Step (running ({} : GuardChannel ℕ)) _ := .refl _
    have run := run.tail (show GuardChannel.Step _ (.get 3 1 7) _ from rfl)
    have run := run.tail (show GuardChannel.Step _ (.set 2 8) _ from rfl)
    exact ⟨_, run, rfl, (hands_over ℕ).1 _ run⟩
  · have run : Reaches (When GuardMutex.ByHolder GuardMutex.Step) (running {}) _ := .refl _
    have run := run.tail_when (show GuardMutex.Step _ (.lock 3 1 7) _ from rfl) trivial
    have run := run.tail_when (show GuardMutex.Step _ (.lock 4 1 7) _ from rfl) trivial
    have run := run.tail_when (show GuardMutex.Step _ (.unlock 2 3 true) _ from rfl) (List.mem_singleton.mpr rfl)
    exact ⟨_, run, rfl, (hands_over ℕ).2.1 _ run⟩
  · have run : Reaches (When WaitGroup.Grows WaitGroup.Step) (running {}) _ := .refl _
    have run := run.tail_when (show WaitGroup.Step _ (.add 1) _ from ⟨rfl, by rintro _ ⟨⟩⟩) fun waits => absurd rfl waits
    have run := run.tail_when (show WaitGroup.Step _ (.wait 3 1 7) _ from ⟨rfl, by rintro _ ⟨⟩⟩) trivial
    have run := run.tail_when (show WaitGroup.Step _ (.proceed (.awaitReady 0) (.awaitReady 0)) _ from
      ⟨rfl, by rintro _ ⟨⟩⟩) trivial
    have run := run.tail_when (show WaitGroup.Step _ (.proceed (.awaitSuspend 0) (.awaitSuspend 0)) _ from
      ⟨rfl, by rintro _ ⟨⟩⟩) trivial
    have run := run.tail_when (show WaitGroup.Step _ .done _ from ⟨rfl, by rintro _ ⟨⟩⟩) trivial
    have run := run.tail_when (show WaitGroup.Step _ (.round 1) _ from ⟨rfl, fun _ _ => by decide⟩) trivial
    have run := run.tail_when (show WaitGroup.Step _ (.proceed (.pass ⟨1, 0, .deliverValue 0⟩) (.pass _)) _ from
      ⟨rfl, by rintro _ ⟨⟩⟩) trivial
    exact ⟨_, run, by rfl, (hands_over ℕ).2.2 _ run⟩

/-- A coroutine is in the queue of a wait group whose count is 0 as long as `done` is waking, and for good after an `add`
of a negative number; and two coroutines hold a mutex that a third one unlocked. -/
theorem waits_on_zero :
    (∃ s, Reaches WaitGroup.Step (running {}) s ∧ s.async.queue = [0] ∧ s.shared = { count := 0, delivering := 1 }) ∧
    (∃ s, Reaches WaitGroup.Step (running {}) s ∧ s.async.queue = [0] ∧ s.shared = { count := 0, delivering := 0 }) ∧
    ∃ s, Reaches GuardMutex.Step (running {}) s ∧ s.shared.holders = [1, 3] := by
  have counted : Reaches WaitGroup.Step (running {}) _ := .refl _
  have counted := counted.tail (show WaitGroup.Step _ (.add 1) _ from ⟨rfl, by rintro _ ⟨⟩⟩)
  have counted := counted.tail (show WaitGroup.Step _ (.wait 3 1 7) _ from ⟨rfl, by rintro _ ⟨⟩⟩)
  refine ⟨?_, ?_, ?_⟩
  · have run := counted.tail (show WaitGroup.Step _ .done _ from ⟨rfl, by rintro _ ⟨⟩⟩)
    exact ⟨_, run, rfl, rfl⟩
  · have run := counted.tail (show WaitGroup.Step _ (.add (-1)) _ from ⟨rfl, by rintro _ ⟨⟩⟩)
    exact ⟨_, run, rfl, rfl⟩
  · have run : Reaches GuardMutex.Step (running {}) _ := .refl _
    have run := run.tail (show GuardMutex.Step _ (.tryLock 1) _ from rfl)
    have run := run.tail (show GuardMutex.Step _ (.unlock 1 2 true) _ from rfl)
    have run := run.tail (show GuardMutex.Step _ (.tryLock 3) _ from rfl)
    exact ⟨_, run, rfl⟩

end Coev
