import Coev.Proofs.Core.Async
import Mathlib.Data.List.Perm.Basic

/-! # Suspended waiters on one thread -/

namespace Coev.Async

variable {s : Async} {k j : ℕ} {x : Int64}

/-- The waiter is suspended and has not been resumed. -/
def Parked (s : Async) (k : ℕ) : Prop := ∃ w, s.waiters[k]? = some w ∧ w.progress = .suspended ∧ w.event.status = .suspend

theorem coAwait_eq (caller tid : ℕ) (reserved : Int64) : s.coAwait caller tid reserved =
    { s with
      waiters := s.waiters ++ [{ caller, event := { tid, status := .suspend, reserved }, progress := .suspended }]
      queue := s.queue ++ [s.waiters.length] } := by
  simp [coAwait, suspend, awaitReady, awaitSuspend, change, Waiter.awaitReady, Waiter.awaitSuspend, CoEvent.awaitReady,
    CoEvent.awaitSuspend, Waiter.run]

/-- What a suspended waiter is after its wake-up: it saw 0. -/
def awake (w : Waiter) : Waiter :=
  { w with event := { w.event with status := .finished, reserved := 0 }, progress := .returned 0 }

theorem Parked.wake (parked : s.Parked k) (v : Int64) : ∃ w, s.waiters[k]? = some w ∧
    (s.setReserved k v).resumeEvent k 0 = { s with waiters := s.waiters.set k (awake w) } := by
  obtain ⟨w, at_, suspended, status⟩ := parked
  obtain ⟨below, -⟩ := List.getElem?_eq_some_iff.mp at_
  have valued : (s.waiters.set k (w.setReserved v))[k]? = some (w.setReserved v) := List.getElem?_set_self below
  have resumed : (w.setReserved v).resume 0 = some (awake w) := by
    simp [Waiter.resume, Waiter.setReserved, CoEvent.resume, CoEvent.setReserved, status, Waiter.run, awake,
      CoEvent.awaitResume, CoEvent.getReserved]
  refine ⟨w, at_, ?_⟩
  rw [setReserved, change_eq (f := fun w => some (w.setReserved v)) at_ rfl, resumeEvent, change_eq valued resumed,
    List.set_set]

/-- Every event in a queue is that of a suspended waiter, and is in one place. -/
structure AllParked (s : Async) : Prop where
  parked : ∀ k ∈ s.queue ++ s.loop, s.Parked k
  distinct : (s.queue ++ s.loop).Nodup
  sound : s.failed = false

theorem allParked_empty : AllParked {} where
  parked k queued := by cases queued
  distinct := List.nodup_nil
  sound := rfl

namespace AllParked

variable (all : s.AllParked)

include all

theorem lt_of_mem (queued : k ∈ s.queue ++ s.loop) : k < s.waiters.length := by
  obtain ⟨w, at_, -⟩ := all.parked k queued
  exact (List.getElem?_eq_some_iff.mp at_).1

theorem coAwait (caller tid : ℕ) (reserved : Int64) : (s.coAwait caller tid reserved).AllParked := by
  rw [coAwait_eq]
  have fresh : s.waiters.length ∉ s.queue ++ s.loop := fun queued => Nat.lt_irrefl _ (all.lt_of_mem queued)
  have moved : (s.queue ++ [s.waiters.length] ++ s.loop).Perm (s.waiters.length :: (s.queue ++ s.loop)) := by
    rw [List.append_assoc]
    exact List.perm_middle
  refine ⟨fun k queued => ?_, ?_, all.sound⟩
  · rcases List.mem_cons.mp (moved.mem_iff.mp queued) with rfl | old
    · exact ⟨_, List.getElem?_concat_length, rfl, rfl⟩
    · obtain ⟨w, at_, parked⟩ := all.parked k old
      exact ⟨w, by simp [List.getElem?_append_left (all.lt_of_mem old), at_], parked⟩
  · exact moved.nodup_iff.mpr (List.nodup_cons.mpr ⟨fresh, all.distinct⟩)

theorem resumeNextLoop : s.resumeNextLoop.AllParked := by
  unfold Async.resumeNextLoop
  split
  next => exact all
  next k s₁ popped =>
    obtain ⟨queue, queued, rfl⟩ := Kept.popFront_eq popped
    have moved : (queue ++ (s.loop ++ [k])).Perm (s.queue ++ s.loop) := by
      rw [queued, ← List.append_assoc]
      exact List.perm_append_singleton k _
    exact ⟨fun j inside => all.parked j (moved.mem_iff.mp inside), moved.nodup_iff.mpr all.distinct, all.sound⟩

theorem unlink (k : ℕ) : (s.unlink k).AllParked := by
  have smaller : List.Sublist ((s.unlink k).queue ++ (s.unlink k).loop) (s.queue ++ s.loop) :=
    List.erase_sublist.append List.erase_sublist
  exact ⟨fun j inside => all.parked j (smaller.subset inside), all.distinct.sublist smaller, all.sound⟩

/-- A waiter that left its queue is woken. -/
theorem wake {queue loop : List ℕ} (moved : (k :: (queue ++ loop)).Perm (s.queue ++ s.loop))
    (woken : List (ℕ × Int64)) (v : Int64) : ∃ w, s.waiters[k]? = some w ∧
      ({ s with queue, loop, woken }.setReserved k v).resumeEvent k 0 =
        { s with queue, loop, woken, waiters := s.waiters.set k (awake w) } ∧
      AllParked { s with queue, loop, woken, waiters := s.waiters.set k (awake w) } := by
  have parked : Parked { s with queue, loop, woken } k := all.parked k (moved.mem_iff.mp List.mem_cons_self)
  obtain ⟨w, at_, woken⟩ := parked.wake v
  have distinct := List.nodup_cons.mp (moved.nodup_iff.mpr all.distinct)
  refine ⟨w, at_, woken, fun j inside => ?_, distinct.2, all.sound⟩
  obtain ⟨u, atj, parked⟩ := all.parked j (moved.mem_iff.mp (List.mem_cons_of_mem _ inside))
  have other : k ≠ j := by
    rintro rfl
    exact distinct.1 inside
  exact ⟨u, by simpa [List.getElem?_set_ne other] using atj, parked⟩

/-- `resume` wakes the waiter in front. -/
theorem resume {queue : List ℕ} (queued : s.queue = k :: queue) (v : Int64) : ∃ w, s.waiters[k]? = some w ∧
    s.resume v = { s with queue, woken := s.woken ++ [(k, v)], waiters := s.waiters.set k (awake w) } ∧
    (s.resume v).AllParked := by
  have moved : (k :: (queue ++ s.loop)).Perm (s.queue ++ s.loop) := by rw [queued, List.cons_append]
  obtain ⟨w, at_, woken, parked⟩ := all.wake moved (s.woken ++ [(k, v)]) v
  have resumed : s.resume v = ({ s with queue, woken := s.woken ++ [(k, v)] }.setReserved k v).resumeEvent k 0 := by
    simp [Async.resume, popFront, queued]
  rw [resumed]
  exact ⟨w, at_, woken, woken ▸ parked⟩

/-- The event loop wakes the waiter in front of its queue. -/
theorem localResume {loop : List ℕ} (looped : s.loop = k :: loop) : ∃ w, s.waiters[k]? = some w ∧
    s.localResume = { s with loop, waiters := s.waiters.set k (awake w) } ∧ s.localResume.AllParked := by
  have moved : (k :: (s.queue ++ loop)).Perm (s.queue ++ s.loop) := by
    rw [looped]
    exact List.perm_middle.symm
  obtain ⟨w, at_, woken, parked⟩ := all.wake moved s.woken 0
  have resumed : s.localResume = ({ s with loop }.setReserved k 0).resumeEvent k 0 := by
    simp [Async.localResume, looped]
  rw [resumed]
  exact ⟨w, at_, woken, woken ▸ parked⟩

end AllParked

/-! ## Callers -/

theorem caller_coAwait_self (caller tid : ℕ) (reserved : Int64) :
    (s.coAwait caller tid reserved).caller s.waiters.length = caller := by
  rw [coAwait_eq]
  simp [Async.caller]

theorem caller_coAwait {caller tid : ℕ} {reserved : Int64} (below : k < s.waiters.length) :
    (s.coAwait caller tid reserved).caller k = s.caller k := by
  rw [coAwait_eq]
  simp [Async.caller, List.getElem?_append_left below]

theorem caller_awake {w : Waiter} (at_ : s.waiters[k]? = some w) :
    caller { s with waiters := s.waiters.set k (awake w) } j = s.caller j := by
  have below := (List.getElem?_eq_some_iff.mp at_).1
  rcases eq_or_ne k j with rfl | other
  · rw [Async.caller, Async.caller, List.getElem?_set_self below, at_]
    rfl
  · rw [Async.caller, Async.caller, List.getElem?_set_ne other]

theorem progress_awake {w : Waiter} (below : k < s.waiters.length) :
    progress { s with waiters := s.waiters.set k (awake w) } k = some (.returned 0) := by
  simp [progress, below, awake]

end Coev.Async
