import Coev.Model.Core.Async
import Mathlib.Data.List.Nodup

/-! # Where a waiter is

A waiter is linked in one queue, and then its event has not been resumed; or it is in none, and then its event has
been resumed once, with a value that the waiter sees when it comes to it.
-/

namespace Coev

namespace Waiter

variable {w w' : Waiter} {x : Int64}

/-- The event has not been resumed. -/
def Linked (w : Waiter) : Prop :=
  match w.progress with
  | .constructed | .unready => w.event.status = .init
  | .suspended => w.event.status = .suspend
  | .returned _ => False

/-- The event has been resumed, and the coroutine sees or will see its value. -/
def Released (w : Waiter) : Prop :=
  match w.progress with
  | .constructed | .unready => w.event.status = .resumed
  | .suspended => False
  | .returned value => value = w.event.reserved

theorem linked_new (caller tid : ℕ) (reserved : Int64) : Linked { caller, event := { tid, reserved } } := rfl

theorem Linked.awaitReady (linked : w.Linked) (at_ : w.progress = .constructed) : w.awaitReady.Linked := by
  have status : w.event.status = .init := by simpa [Linked, at_] using linked
  simp [Waiter.awaitReady, CoEvent.awaitReady, status, Linked]

theorem Released.awaitReady (released : w.Released) (at_ : w.progress = .constructed) : w.awaitReady.Released := by
  have status : w.event.status = .resumed := by simpa [Released, at_] using released
  simp [Waiter.awaitReady, CoEvent.awaitReady, status, Released, run, CoEvent.awaitResume, CoEvent.getReserved]

@[simp] theorem reserved_awaitReady : w.awaitReady.event.reserved = w.event.reserved := by
  unfold Waiter.awaitReady
  split <;> rfl

theorem Linked.awaitSuspend (linked : w.Linked) (at_ : w.progress = .unready) :
    ∃ w', w.awaitSuspend = some w' ∧ w'.Linked := by
  have status : w.event.status = .init := by simpa [Linked, at_] using linked
  exact ⟨_, by simp [Waiter.awaitSuspend, CoEvent.awaitSuspend, status]; rfl, by simp [Linked, run]⟩

theorem Released.awaitSuspend (released : w.Released) (at_ : w.progress = .unready) :
    ∃ w', w.awaitSuspend = some w' ∧ w'.Released ∧ w'.event.reserved = w.event.reserved := by
  have status : w.event.status = .resumed := by simpa [Released, at_] using released
  refine ⟨({ w with progress := .suspended } : Waiter).run { w.event with status := .finished } true, ?_, ?_, rfl⟩
  · simp [Waiter.awaitSuspend, CoEvent.awaitSuspend, status]
  · simp [Released, run, CoEvent.awaitResume, CoEvent.getReserved]

theorem Linked.setReserved (linked : w.Linked) : (w.setReserved x).Linked := linked

/-- A wake-up of a linked waiter does not assert, and leaves its value. -/
theorem Linked.resume (linked : w.Linked) : ∃ w', w.resume x = some w' ∧ w'.Released ∧ w'.event.reserved = x := by
  cases at_ : w.progress with
  | constructed | unready =>
    have status : w.event.status = .init := by simpa [Linked, at_] using linked
    exact ⟨_, by simp [Waiter.resume, CoEvent.resume, CoEvent.setReserved, status]; rfl,
      by simp [Released, run, at_], rfl⟩
  | suspended =>
    have status : w.event.status = .suspend := by simpa [Linked, at_] using linked
    exact ⟨_, by simp [Waiter.resume, CoEvent.resume, CoEvent.setReserved, status]; rfl,
      by simp [Released, run, CoEvent.awaitResume, CoEvent.getReserved], rfl⟩
  | returned value => simp [Linked, at_] at linked

end Waiter

namespace Async

variable {s s' : Async} {pending pending' : ℕ → ℕ} {k : ℕ} {w w' : Waiter} {v : Int64} {f : Waiter → Option Waiter}

/-- The waiters are woken once each and in the order in which they came. A waiter is in the queue, or pending in
another, or has been released with the value of its wake-up. -/
structure Kept (s : Async) (pending : ℕ → ℕ) : Prop where
  sound : s.failed = false
  inOrder : s.woken.map Prod.fst ++ s.queue = List.range s.waiters.length
  placed : ∀ k w, s.waiters[k]? = some w →
    s.queue.count k + pending k = 1 ∧ w.Linked ∨
      s.queue.count k + pending k = 0 ∧ w.Released ∧ (k, w.event.reserved) ∈ s.woken
  pends : ∀ k, 0 < pending k → (k, 0) ∈ s.woken

theorem kept_empty : Kept {} fun _ => 0 where
  sound := rfl
  inOrder := rfl
  placed k w at_ := by simp at at_
  pends k pends := absurd pends (Nat.lt_irrefl 0)

theorem change_eq (at_ : s.waiters[k]? = some w) (changed : f w = some w') :
    s.change k f = { s with waiters := s.waiters.set k w' } := by
  simp [change, at_, changed]

namespace Kept

variable (kept : Kept s pending)

include kept

theorem lt_of_woken (woken : (k, v) ∈ s.woken) : k < s.waiters.length := by
  have member : k ∈ s.woken.map Prod.fst ++ s.queue :=
    List.mem_append_left _ (List.mem_map.mpr ⟨_, woken, rfl⟩)
  rw [kept.inOrder] at member
  exact List.mem_range.mp member

theorem lt_of_queued (queued : k ∈ s.queue) : k < s.waiters.length := by
  have member : k ∈ s.woken.map Prod.fst ++ s.queue := List.mem_append_right _ queued
  rw [kept.inOrder] at member
  exact List.mem_range.mp member

theorem lt_of_pending (pends : 0 < pending k) : k < s.waiters.length := kept.lt_of_woken (kept.pends k pends)

/-- A waiter in some queue is linked. -/
theorem linked (queued : 0 < s.queue.count k + pending k) :
    ∃ w, s.waiters[k]? = some w ∧ s.queue.count k + pending k = 1 ∧ w.Linked := by
  have below : k < s.waiters.length := by
    rcases Nat.eq_zero_or_pos (pending k) with zero | pends
    · exact kept.lt_of_queued (List.count_pos_iff.mp (by omega))
    · exact kept.lt_of_pending pends
  have at_ : s.waiters[k]? = some s.waiters[k] := List.getElem?_eq_getElem below
  rcases kept.placed k _ at_ with ⟨once, linked⟩ | ⟨nowhere, _⟩
  · exact ⟨_, at_, once, linked⟩
  · omega

/-- One waiter changes, and with it where it is. -/
theorem update {queue : List ℕ} {woken : List (ℕ × Int64)} (at_ : s.waiters[k]? = some w)
    (inOrder : woken.map Prod.fst ++ queue = List.range s.waiters.length) (grows : s.woken ⊆ woken)
    (others : ∀ j, j ≠ k → queue.count j + pending' j = s.queue.count j + pending j)
    (placed : queue.count k + pending' k = 1 ∧ w'.Linked ∨
      queue.count k + pending' k = 0 ∧ w'.Released ∧ (k, w'.event.reserved) ∈ woken)
    (pends : ∀ j, 0 < pending' j → (j, 0) ∈ woken) :
    Kept { s with waiters := s.waiters.set k w', queue, woken } pending' where
  sound := kept.sound
  inOrder := by simpa using inOrder
  pends := pends
  placed j u atj := by
    obtain ⟨below, -⟩ := List.getElem?_eq_some_iff.mp at_
    rw [List.getElem?_set] at atj
    split at atj
    next same =>
      obtain rfl : w' = u := by simpa [below] using atj
      exact same ▸ placed
    next other =>
      rw [others j (Ne.symm other)]
      rcases kept.placed j u atj with linked | ⟨nowhere, released, seen⟩
      · exact .inl linked
      · exact .inr ⟨nowhere, released, grows seen⟩

/-- One waiter changes where it is. -/
theorem keep (at_ : s.waiters[k]? = some w) (placed : s.queue.count k + pending k = 1 → w.Linked → w'.Linked)
    (released : w.Released → w'.Released ∧ w'.event.reserved = w.event.reserved) :
    Kept { s with waiters := s.waiters.set k w' } pending := by
  apply kept.update at_ kept.inOrder (List.Subset.refl _) (fun _ _ => rfl) _ kept.pends
  rcases kept.placed k w at_ with ⟨once, linked⟩ | ⟨nowhere, free, seen⟩
  · exact .inl ⟨once, placed once linked⟩
  · obtain ⟨free', same⟩ := released free
    exact .inr ⟨nowhere, free', by rwa [same]⟩

theorem suspend (caller tid : ℕ) (reserved : Int64) : Kept (s.suspend caller tid reserved) pending where
  sound := kept.sound
  inOrder := by simp [Async.suspend, ← List.append_assoc, kept.inOrder, List.range_succ]
  pends := kept.pends
  placed k w at_ := by
    simp only [Async.suspend] at at_ ⊢
    rw [List.getElem?_append] at at_
    split at at_
    next below =>
      have other : s.waiters.length ≠ k := by omega
      simpa [List.count_append, List.count_singleton, other] using kept.placed k w at_
    next beyond =>
      obtain ⟨index, rfl⟩ := List.getElem?_eq_some_iff.mp at_
      obtain rfl : k = s.waiters.length := by simp at index; omega
      have fresh : pending s.waiters.length = 0 := by
        by_contra pends
        exact absurd (kept.lt_of_pending (Nat.pos_of_ne_zero pends)) (Nat.lt_irrefl _)
      have unqueued : s.queue.count s.waiters.length = 0 :=
        List.count_eq_zero.mpr fun queued => absurd (kept.lt_of_queued queued) (Nat.lt_irrefl _)
      refine .inl ⟨by simp [List.count_append, unqueued, fresh], ?_⟩
      simp [Waiter.linked_new]

theorem awaitReady (at_ : s.progress k = some .constructed) : Kept (s.awaitReady k) pending := by
  obtain ⟨w, atw, progress⟩ := Option.map_eq_some_iff.mp at_
  rw [Async.awaitReady, change_eq (f := fun w => some w.awaitReady) atw rfl]
  exact kept.keep atw (fun _ linked => linked.awaitReady progress)
    fun released => ⟨released.awaitReady progress, Waiter.reserved_awaitReady⟩

theorem awaitSuspend (at_ : s.progress k = some .unready) : Kept (s.awaitSuspend k) pending := by
  obtain ⟨w, atw, progress⟩ := Option.map_eq_some_iff.mp at_
  rcases kept.placed k w atw with ⟨once, linked⟩ | ⟨nowhere, released, seen⟩
  · obtain ⟨w', suspended, linked'⟩ := linked.awaitSuspend progress
    rw [Async.awaitSuspend, change_eq atw suspended]
    apply kept.update atw kept.inOrder (List.Subset.refl _) (fun _ _ => rfl) _ kept.pends
    exact .inl ⟨once, linked'⟩
  · obtain ⟨w', suspended, released', same⟩ := released.awaitSuspend progress
    rw [Async.awaitSuspend, change_eq atw suspended]
    apply kept.update atw kept.inOrder (List.Subset.refl _) (fun _ _ => rfl) _ kept.pends
    exact .inr ⟨nowhere, released', by rwa [same]⟩

/-- The value of a waiter that is linked does not matter yet. -/
theorem setReserved (pends : 0 < pending k) (x : Int64) : Kept (s.setReserved k x) pending := by
  obtain ⟨w, at_, once, linked⟩ := kept.linked (by omega : 0 < s.queue.count k + pending k)
  rw [Async.setReserved, change_eq (f := fun w => some (w.setReserved x)) at_ rfl]
  apply kept.update at_ kept.inOrder (List.Subset.refl _) (fun _ _ => rfl) _ kept.pends
  exact .inl ⟨once, linked.setReserved⟩

/-- A pending waiter is resumed, and pends no more. -/
theorem resumeEvent (pends : 0 < pending k) (falls : ∀ j, pending' j = pending j - if j = k then 1 else 0) :
    Kept (s.resumeEvent k 0) pending' := by
  obtain ⟨w, at_, once, linked⟩ := kept.linked (by omega : 0 < s.queue.count k + pending k)
  obtain ⟨w', resumed, released, value⟩ := @Waiter.Linked.resume w 0 linked
  rw [Async.resumeEvent, change_eq at_ resumed]
  have unpending : pending' k = pending k - 1 := by simpa using falls k
  apply kept.update at_ kept.inOrder (List.Subset.refl _)
  · intro j other
    rw [falls j, if_neg other, Nat.sub_zero]
  · exact .inr ⟨by omega, released, by rw [value]; exact kept.pends k pends⟩
  · intro j pends
    exact kept.pends j (by rw [falls j] at pends; omega)

theorem nodup_queue : s.queue.Nodup := by
  have distinct := List.nodup_range (n := s.waiters.length)
  rw [← kept.inOrder] at distinct
  exact (List.nodup_append.mp distinct).2.1

omit kept in
theorem popFront_eq {k : ℕ} {s' : Async} (popped : s.popFront v = some (k, s')) :
    ∃ queue, s.queue = k :: queue ∧ s' = { s with queue, woken := s.woken ++ [(k, v)] } := by
  unfold Async.popFront at popped
  cases queued : s.queue with
  | nil => simp [queued] at popped
  | cons first queue =>
    simp only [queued, Option.some.injEq, Prod.mk.injEq] at popped
    obtain ⟨rfl, rfl⟩ := popped
    exact ⟨queue, rfl, rfl⟩

/-- The waiter in front leaves the queue and pends elsewhere. -/
theorem popFront (popped : s.popFront 0 = some (k, s')) (grows : ∀ j, pending' j = pending j + if j = k then 1 else 0) :
    Kept s' pending' := by
  obtain ⟨queue, queued, rfl⟩ := popFront_eq popped
  obtain ⟨w, at_, once, linked⟩ := kept.linked (k := k) (by rw [queued, List.count_cons_self]; omega)
  have distinct := kept.nodup_queue
  rw [queued, List.nodup_cons] at distinct
  have left : queue.count k = 0 := List.count_eq_zero.mpr distinct.1
  have front : s.queue.count k = 1 := by rw [queued, List.count_cons_self, left]
  have same : s.waiters.set k w = s.waiters := by
    obtain ⟨below, rfl⟩ := List.getElem?_eq_some_iff.mp at_
    exact List.set_getElem_self below
  have moved : Kept { s with waiters := s.waiters.set k w, queue, woken := s.woken ++ [(k, 0)] } pending' := by
    apply kept.update at_
    · rw [List.map_append, List.append_assoc, ← kept.inOrder, queued]
      rfl
    · exact List.subset_append_left _ _
    · intro j other
      rw [grows j, if_neg other, queued, List.count_cons_of_ne (Ne.symm other)]
      rfl
    · have pends : pending' k = pending k + 1 := by simpa using grows k
      exact .inl ⟨by omega, linked⟩
    · intro j pends
      rw [grows j] at pends
      split at pends
      next same => simp [same]
      next => exact List.mem_append_left _ (kept.pends j (by omega))
  rwa [same] at moved

/-- The waiter in front leaves the queue and is resumed with the value at once. -/
theorem release (popped : s.popFront v = some (k, s')) : Kept (s'.resumeEvent k v) pending := by
  obtain ⟨queue, queued, rfl⟩ := popFront_eq popped
  obtain ⟨w, at_, once, linked⟩ := kept.linked (k := k) (by rw [queued, List.count_cons_self]; omega)
  obtain ⟨w', resumed, released, value⟩ := @Waiter.Linked.resume w v linked
  have distinct := kept.nodup_queue
  rw [queued, List.nodup_cons] at distinct
  have left : queue.count k = 0 := List.count_eq_zero.mpr distinct.1
  have front : s.queue.count k = 1 := by rw [queued, List.count_cons_self, left]
  rw [Async.resumeEvent, change_eq (by exact at_) resumed]
  apply kept.update at_
  · rw [List.map_append, List.append_assoc, ← kept.inOrder, queued]
    rfl
  · exact List.subset_append_left _ _
  · intro j other
    rw [queued, List.count_cons_of_ne (Ne.symm other)]
  · have nowhere : queue.count k + pending k = 0 := by omega
    exact .inr ⟨nowhere, released, by rw [value]; simp⟩
  · intro j pends
    exact List.mem_append_left _ (kept.pends j pends)

theorem congr (same : ∀ k, pending' k = pending k) : s.Kept pending' := by
  obtain rfl : pending' = pending := funext same
  exact kept

end Kept

/-- The waiters of a `co_async` of one thread are where they should be. -/
abbrev Sound (s : Async) : Prop := s.Kept (s.loop.count ·)

/-- The call passes no value. -/
def Passes (s : Async) : Call → Prop
  | .resume v => s.queue ≠ [] → v = 0
  | _ => True

@[simp] theorem loop_change : (s.change k f).loop = s.loop := by
  unfold change
  split <;> rfl

@[simp] theorem loop_setReserved (x : Int64) : (s.setReserved k x).loop = s.loop := loop_change

@[simp] theorem loop_resumeEvent (x : Int64) : (s.resumeEvent k x).loop = s.loop := loop_change

namespace Sound

variable (sound : s.Sound)

include sound

theorem resume (passes : s.Passes (.resume v)) : (s.resume v).Sound := by
  unfold Async.resume
  split
  next => exact sound
  next k s₁ popped =>
    obtain ⟨queue, queued, rfl⟩ := Kept.popFront_eq popped
    obtain rfl : v = 0 := passes (by rw [queued]; exact List.cons_ne_nil _ _)
    have taken := Kept.popFront sound popped fun _ => rfl
    have valued := taken.setReserved (by simp : 0 < _ + if k = k then 1 else 0) 0
    have resumed := valued.resumeEvent (by simp : 0 < _ + if k = k then 1 else 0) fun _ => rfl
    exact resumed.congr fun j => by simp

theorem resumeNextLoop : s.resumeNextLoop.Sound := by
  unfold Async.resumeNextLoop
  split
  next => exact sound
  next k s₁ popped =>
    have taken := Kept.popFront sound popped fun _ => rfl
    obtain ⟨queue, queued, rfl⟩ := Kept.popFront_eq popped
    have counts : ∀ j, (s.loop ++ [k]).count j = s.loop.count j + if j = k then 1 else 0 := fun j => by
      simp only [List.count_append, List.count_singleton, beq_iff_eq, eq_comm (a := k)]
    have moved := taken.congr counts
    exact ⟨moved.sound, moved.inOrder, moved.placed, moved.pends⟩

theorem localResume : s.localResume.Sound := by
  unfold Async.localResume
  split
  next => exact sound
  next k loop looped =>
    have shorter : Kept { s with loop } (s.loop.count ·) := ⟨sound.sound, sound.inOrder, sound.placed, sound.pends⟩
    have front : 0 < s.loop.count k := by rw [looped, List.count_cons_self]; omega
    have resumed := (shorter.setReserved front 0).resumeEvent front fun _ => rfl
    apply resumed.congr
    intro j
    simp only [loop_resumeEvent, loop_setReserved, looped, List.count_cons, beq_iff_eq, eq_comm (a := k)]
    omega

/-- Every call that passes no value keeps the waiters where they should be. -/
theorem step {c : Call} (passes : s.Passes c) (step : s.Step c s') : s'.Sound := by
  cases c with
  | suspend caller tid reserved => cases step; exact Kept.suspend sound caller tid reserved
  | awaitReady k =>
    obtain ⟨at_, ⟨⟩⟩ := Option.ite_none_right_eq_some.mp step
    exact (Kept.awaitReady sound at_).congr fun j => congrArg (List.count j) loop_change
  | awaitSuspend k =>
    obtain ⟨at_, ⟨⟩⟩ := Option.ite_none_right_eq_some.mp step
    exact (Kept.awaitSuspend sound at_).congr fun j => congrArg (List.count j) loop_change
  | resume v => cases step; exact resume sound passes
  | resumeNextLoop => cases step; exact resumeNextLoop sound
  | localResume => cases step; exact localResume sound

end Sound

end Async

end Coev
