import Coev.Proofs.Core.Guard
import Coev.ToMathlib.Transition

/-! # The value that a waiter is woken with

`resume` and `deliver` store the value in the event, and then call `co_event::resume` without it, which stores 0. So a
waiter sees the value of its wake-up exactly where the value is 0; the order of the waiters and the number of their
wake-ups do not depend on it.
-/

namespace Coev

open Transition

namespace Async

/-- Every waiter is woken at most once and in the order in which they came; one that returned saw the value of its
wake-up, and one that was woken has returned, or will return when it comes to its event, or is in another queue. -/
structure Faithful (s : Async) (elsewhere : ℕ → Prop) : Prop where
  sound : s.failed = false
  inOrder : s.woken.map Prod.fst ++ s.queue = List.range s.waiters.length
  sees : ∀ k w value, s.waiters[k]? = some w → w.progress = .returned value → (k, value) ∈ s.woken
  returns : ∀ k v w, (k, v) ∈ s.woken → s.waiters[k]? = some w →
    w.progress = .returned w.event.reserved ∨
      (w.progress = .constructed ∨ w.progress = .unready) ∧ w.event.status = .resumed ∨ elsewhere k

variable {s : Async}

theorem Kept.faithful {pending : ℕ → ℕ} (kept : s.Kept pending) : s.Faithful fun k => 0 < pending k where
  sound := kept.sound
  inOrder := kept.inOrder
  sees k w value at_ returned := by
    rcases kept.placed k w at_ with ⟨-, linked⟩ | ⟨-, released, seen⟩
    · simp [Waiter.Linked, returned] at linked
    · rwa [show value = w.event.reserved by simpa [Waiter.Released, returned] using released]
  returns k v w woken at_ := by
    rcases kept.placed k w at_ with ⟨once, linked⟩ | ⟨nowhere, released, seen⟩
    · have distinct := List.nodup_range (n := s.waiters.length)
      rw [← kept.inOrder] at distinct
      have unqueued : k ∉ s.queue := fun queued =>
        (List.nodup_append.mp distinct).2.2 k (List.mem_map.mpr ⟨_, woken, rfl⟩) k queued rfl
      rw [List.count_eq_zero.mpr unqueued] at once
      exact .inr (.inr (by omega))
    · cases at_ : w.progress with
      | constructed => exact .inr (.inl ⟨.inl rfl, by simpa [Waiter.Released, at_] using released⟩)
      | unready => exact .inr (.inl ⟨.inr rfl, by simpa [Waiter.Released, at_] using released⟩)
      | suspended => simp [Waiter.Released, at_] at released
      | returned value =>
        obtain rfl : value = w.event.reserved := by simpa [Waiter.Released, at_] using released
        exact .inl rfl

theorem Faithful.mono {p q : ℕ → Prop} (faithful : s.Faithful p) (implies : ∀ k, p k → q k) : s.Faithful q where
  sound := faithful.sound
  inOrder := faithful.inOrder
  sees := faithful.sees
  returns k v w woken at_ := by
    rcases faithful.returns k v w woken at_ with returned | resumed | elsewhere
    · exact .inl returned
    · exact .inr (.inl resumed)
    · exact .inr (.inr (implies k elsewhere))

/-- A plain `co_async`: a waiter elsewhere is in the queue of the event loop. -/
def WakesFaithfully (s : Async) : Prop := s.Faithful (· ∈ s.loop)

theorem Sound.of_run (run : Reaches (When Passes Step) {} s) : s.Sound :=
  run.invariant (fun s _ _ (sound : s.Sound) step => sound.step step.1 step.2) (kept_empty.congr fun _ => rfl)

end Async

namespace Guard

variable {σ : Type*} {m : Monitor σ} {s : Guard σ}

/-- An object with no waiter and before any thread has a `co_deliver`. -/
def start (shared : σ) : Guard σ := { shared, delivers := fun _ => none }

/-- A `guard::co_async`: a waiter elsewhere is in the hand of the thread that wakes it or in the `co_deliver` of its own,
and `suspend` returns what its `co_await` returned. -/
def WakesFaithfully (s : Guard σ) : Prop :=
  s.async.Faithful (fun k => (∃ h ∈ s.hands, h.waiter = k) ∨ k ∈ s.events (s.async.tid k)) ∧
    ∀ (k : ℕ) w value, s.async.waiters[k]? = some w → w.progress = .returned value → suspendResult w = value

private theorem suspendResult_eq (w : Waiter) : suspendResult w = w.event.reserved := ite_self _

theorem Kept.wakesFaithfully (kept : s.Kept) : s.WakesFaithfully := by
  constructor
  · apply kept.async.faithful.mono
    intro k pends
    rcases Nat.eq_zero_or_pos (s.held k) with none_ | inHand
    · have queued : 0 < (s.events (s.async.tid k)).count k := by
        simp only [pending, none_] at pends
        omega
      exact .inr (List.count_pos_iff.mp queued)
    · obtain ⟨h, member, here⟩ := List.countP_pos_iff.mp inHand
      exact .inl ⟨h, member, by simpa using here⟩
  · intro k w value at_ returned
    rw [suspendResult_eq]
    rcases kept.async.placed k w at_ with ⟨-, linked⟩ | ⟨-, released, -⟩
    · simp [Waiter.Linked, returned] at linked
    · exact (by simpa [Waiter.Released, returned] using released : value = w.event.reserved).symm

private theorem kept_start (shared : σ) : (start shared).Kept where
  async := Async.kept_empty.congr fun k => by simp [pending, held, events, start]
  home tid k member := by simp [events, start] at member

theorem Kept.of_run {shared : σ} (run : Reaches (When Passes (Step m)) (start shared) s) : s.Kept :=
  run.invariant (fun _ _ _ kept step => kept.step step.1 step.2) (kept_start shared)

end Guard

/-- Along every run whose calls pass no value, and deliver to threads that have a `co_deliver`, each waiter is woken once,
in its turn, and sees the value of its wake-up. -/
theorem wakes_faithfully {σ : Type*} (m : Monitor σ) (shared : σ) :
    (∀ s, Reaches (When Async.Passes Async.Step) {} s → s.WakesFaithfully) ∧
      ∀ s, Reaches (When Guard.Passes (Guard.Step m)) (Guard.start shared) s → s.WakesFaithfully := by
  constructor
  · intro s run
    have faithful := (Async.Sound.of_run run).faithful
    exact faithful.mono fun k looped => List.count_pos_iff.mp looped
  · intro s run
    exact (Guard.Kept.of_run run).wakesFaithfully

/-- A waiter on one thread sees the value 0, and so does one that another thread wakes. -/
theorem wakes_with_zero : (∃ s : Async, Reaches (When Async.Passes Async.Step) {} s ∧
      s.waiters.map Waiter.progress = [.returned 0] ∧ s.WakesFaithfully) ∧
    ∃ s : Guard Unit, Reaches (When Guard.Passes (Guard.Step ⟨fun _ => true, fun _ => id⟩)) (Guard.start ()) s ∧
      s.async.waiters.map Waiter.progress = [.returned 0] ∧ s.WakesFaithfully := by
  constructor
  · have run : Reaches (When Async.Passes Async.Step) {} _ := .refl _
    have run := run.tail_when (show Async.Step _ (.suspend 0 1 7) _ from rfl) trivial
    have run := run.tail_when (show Async.Step _ (.awaitReady 0) _ from rfl) trivial
    have run := run.tail_when (show Async.Step _ (.awaitSuspend 0) _ from rfl) trivial
    have run := run.tail_when (show Async.Step _ (.resume 0) _ from rfl) fun _ => rfl
    exact ⟨_, run, by decide, (wakes_faithfully (⟨fun _ => true, fun _ => id⟩ : Monitor Unit) ()).1 _ run⟩
  · have run : Reaches (When Guard.Passes (Guard.Step ⟨fun _ => true, fun _ => id⟩)) (Guard.start ()) _ := .refl _
    have run := run.tail_when (show Guard.Step _ _ (.register 1) _ from rfl) trivial
    have run := run.tail_when (show Guard.Step _ _ (.enter 0 1 7) _ from rfl) trivial
    have run := run.tail_when (show Guard.Step _ _ (.ev 2 id (.deliverValue 0)) _ from rfl) fun _ => rfl
    have run := run.tail_when (show Guard.Step _ _ (.pass ⟨2, 0, .deliverValue 0⟩) _ from rfl) fun _ _ => rfl
    have run := run.tail_when (show Guard.Step _ _ (.resumeEv 1) _ from rfl) trivial
    have run := run.tail_when (show Guard.Step _ _ (.awaitReady 0) _ from rfl) trivial
    exact ⟨_, run, rfl, (wakes_faithfully (⟨fun _ => true, fun _ => id⟩ : Monitor Unit) ()).2 _ run⟩

/-- A waiter that is woken with `INVALID` sees 0. -/
theorem invalid_unseen : ∃ s : Async, Reaches Async.Step {} s ∧ s.woken = [(0, invalid)] ∧
    s.waiters.map Waiter.progress = [.returned 0] ∧ ¬ s.WakesFaithfully := by
  have run : Reaches Async.Step {} _ := .refl _
  have run := run.tail (show Async.Step _ (.suspend 0 1 7) _ from rfl)
  have run := run.tail (show Async.Step _ (.awaitReady 0) _ from rfl)
  have run := run.tail (show Async.Step _ (.awaitSuspend 0) _ from rfl)
  have run := run.tail (show Async.Step _ (.resume invalid) _ from rfl)
  refine ⟨_, run, rfl, by decide, ?_⟩
  intro faithful
  have seen := faithful.sees 0 _ 0 rfl rfl
  exact absurd seen (by decide)

end Coev
