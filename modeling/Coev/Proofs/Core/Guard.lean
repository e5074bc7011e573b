import Coev.Model.Core.Guard
import Coev.Proofs.Core.Async
import Mathlib.Data.List.Count

/-! # Where a waiter of a guarded object is -/

namespace Coev.Guard

variable {σ : Type*} {m : Monitor σ} {s s' : Guard σ} {c : Call σ} {k tid : ℕ} {h : Hand}

/-- The `co_deliver` of a thread. -/
def events (s : Guard σ) (tid : ℕ) : List ℕ := (s.delivers tid).getD []

/-- How often a waiter is in hand. -/
def held (s : Guard σ) (k : ℕ) : ℕ := s.hands.countP fun x => x.waiter = k

/-- How often a waiter is in hand or in the `co_deliver` of its thread. -/
def pending (s : Guard σ) (k : ℕ) : ℕ := s.held k + (s.events (s.async.tid k)).count k

/-- Every waiter is where it should be, and an event is delivered to its own thread. -/
structure Kept (s : Guard σ) : Prop where
  async : s.async.Kept s.pending
  home : ∀ tid, ∀ k ∈ s.events tid, s.async.tid k = tid

/-- The call passes no value, a waiter of another thread is delivered to a `co_deliver`, and no event is left in a
`co_deliver` that stops. -/
def Passes (s : Guard σ) : Call σ → Prop
  | .ev _ _ wake => s.async.queue ≠ [] → wake.value = 0
  | .pass h => h.wake ≠ .resume → s.async.tid h.waiter ≠ h.tid → (s.delivers (s.async.tid h.waiter)).isSome
  | .stop tid => s.events tid = []
  | _ => True

end Coev.Guard

namespace Coev.Waiter

variable {w w' : Waiter} {x : Int64}

/-- What a waiter keeps. -/
def identity (w : Waiter) : ℕ × ℕ := (w.caller, w.event.tid)

theorem identity_awaitReady : w.awaitReady.identity = w.identity := by
  unfold awaitReady
  split <;> rfl

theorem identity_awaitSuspend (suspended : w.awaitSuspend = some w') : w'.identity = w.identity := by
  obtain ⟨⟨e, runs⟩, changed, rfl⟩ := Option.map_eq_some_iff.mp suspended
  simp only [CoEvent.awaitSuspend] at changed
  split at changed <;> cases changed <;> rfl

theorem identity_resume (resumed : w.resume x = some w') : w'.identity = w.identity := by
  obtain ⟨⟨e, runs⟩, changed, rfl⟩ := Option.map_eq_some_iff.mp resumed
  simp only [CoEvent.resume] at changed
  split at changed <;> cases changed <;> rfl

end Coev.Waiter

namespace Coev.Async

variable {s s' : Async} {k : ℕ} {f : Waiter → Option Waiter}

/-- The waiters are who they were. -/
def Same (s s' : Async) : Prop := s'.waiters.map Waiter.identity = s.waiters.map Waiter.identity

theorem same_change (keeps : ∀ w w', f w = some w' → w'.identity = w.identity) : s.Same (s.change k f) := by
  unfold change
  split
  next w changed =>
    obtain ⟨u, at_, changes⟩ := Option.bind_eq_some_iff.mp changed
    obtain ⟨below, rfl⟩ := List.getElem?_eq_some_iff.mp at_
    rw [Same, List.map_set, keeps _ w changes]
    exact List.ext_getElem (by simp) fun i _ _ => by simp [List.getElem_set]; rintro rfl; rfl
  next => rfl

theorem same_awaitReady : s.Same (s.awaitReady k) := by
  apply same_change
  rintro w w' ⟨⟩
  exact Waiter.identity_awaitReady

theorem same_awaitSuspend : s.Same (s.awaitSuspend k) := same_change fun _ _ => Waiter.identity_awaitSuspend

theorem same_resumeEvent {x : Int64} : s.Same (s.resumeEvent k x) := same_change fun _ _ => Waiter.identity_resume

theorem same_setReserved {x : Int64} : s.Same (s.setReserved k x) := by
  apply same_change
  rintro w w' ⟨⟩
  rfl

theorem Same.identity (same : s.Same s') (k : ℕ) :
    s'.waiters[k]?.map Waiter.identity = s.waiters[k]?.map Waiter.identity := by
  simpa using congrArg (·[k]?) same

theorem Same.tid (same : s.Same s') : s'.tid k = s.tid k := by
  have tids := congrArg (Option.map Prod.snd) (same.identity k)
  rw [Option.map_map, Option.map_map] at tids
  exact congrArg (Option.getD · 0) tids

theorem Same.caller (same : s.Same s') : s'.caller k = s.caller k := by
  have callers := congrArg (Option.map Prod.fst) (same.identity k)
  rw [Option.map_map, Option.map_map] at callers
  exact congrArg (Option.getD · 0) callers

theorem tid_suspend {caller tid : ℕ} {reserved : Int64} (below : k < s.waiters.length) :
    (s.suspend caller tid reserved).tid k = s.tid k := by
  simp [suspend, Async.tid, List.getElem?_append_left below]

end Coev.Async

namespace Coev.Guard

variable {σ : Type*} {m : Monitor σ} {s s' : Guard σ} {c : Call σ} {k tid : ℕ} {h : Hand}

namespace Kept

/-- A change of the waiters alone. -/
theorem of_async {async : Async} (kept : s.Kept) (async' : async.Kept s.pending) (same : s.async.Same async) :
    Kept { s with async } where
  async := async'.congr fun k => by
    simp only [pending, events, same.tid]
    rfl
  home tid k member := same.tid.trans (kept.home tid k member)

theorem lt_of_event (kept : s.Kept) (member : k ∈ s.events tid) : k < s.async.waiters.length := by
  have home := kept.home tid k member
  have counted : 0 < (s.events (s.async.tid k)).count k := List.count_pos_iff.mpr (home ▸ member)
  exact kept.async.lt_of_pending (by unfold pending; omega)

theorem enter (kept : s.Kept) (caller tid : ℕ) (reserved : Int64) : (s.enter m caller tid reserved).Kept := by
  simp only [Guard.enter]
  split
  next =>
    refine ⟨(kept.async.suspend caller tid reserved).congr fun k => ?_, fun t k member => ?_⟩
    · by_cases below : k < s.async.waiters.length
      · simp [pending, held, events, Async.tid_suspend below]
      · have absent : ∀ t, (s.events t).count k = 0 := fun t =>
          List.count_eq_zero.mpr fun member => below (kept.lt_of_event member)
        simp only [pending, held, events] at absent ⊢
        rw [absent, absent]
    · exact (Async.tid_suspend (kept.lt_of_event member)).trans (kept.home t k member)
  next => exact ⟨kept.async, kept.home⟩

theorem ev (kept : s.Kept) {set : σ → σ} {wake : Wake} (passes : s.Passes (.ev tid set wake)) :
    (s.ev m tid set wake).Kept := by
  simp only [Guard.ev]
  split
  next => exact ⟨kept.async, kept.home⟩
  next k async popped =>
    have zero : wake.value = 0 := by
      obtain ⟨queue, queued, -⟩ := Async.Kept.popFront_eq popped
      exact passes (by rw [queued]; exact List.cons_ne_nil _ _)
    rw [zero] at popped
    obtain ⟨queue, queued, rfl⟩ := Async.Kept.popFront_eq popped
    refine ⟨kept.async.popFront popped fun j => ?_, kept.home⟩
    simp only [pending, held, List.countP_append, List.countP_singleton, decide_eq_true_eq, eq_comm (a := k)]
    exact Nat.add_right_comm _ _ _

end Kept

theorem held_erase (member : h ∈ s.hands) :
    held { s with hands := s.hands.erase h } k + (if k = h.waiter then 1 else 0) = s.held k := by
  have counted : held { s with hands := s.hands.erase h } k = s.held k - if h ∈ s.hands ∧ h.waiter = k then 1 else 0 := by
    simpa only [held, decide_eq_true_eq] using List.countP_erase (fun x : Hand => decide (x.waiter = k)) s.hands h
  by_cases same : k = h.waiter
  · have inHand : 0 < s.held k := List.countP_pos_iff.mpr ⟨h, member, by simp [same]⟩
    rw [counted, if_pos ⟨member, same.symm⟩, if_pos same]
    omega
  · rw [counted, if_neg fun both => same both.2.symm, if_neg same]
    rfl

theorem held_pos (member : h ∈ s.hands) : 0 < s.held h.waiter := List.countP_pos_iff.mpr ⟨h, member, by simp⟩

theorem pending_erase (member : h ∈ s.hands) :
    pending { s with hands := s.hands.erase h } k = s.pending k - if k = h.waiter then 1 else 0 := by
  have erased := held_erase member (k := k)
  have same : events { s with hands := s.hands.erase h } (s.async.tid k) = s.events (s.async.tid k) := rfl
  simp only [pending, same]
  omega

/-- What `co_deliver::resume` adds to the events of a thread. -/
theorem count_deliverResume {j : ℕ} (registered : (s.delivers (s.async.tid j)).isSome) (tid k : ℕ) :
    ((s.deliverResume j).events tid).count k = (s.events tid).count k + if tid = s.async.tid j ∧ k = j then 1 else 0 := by
  obtain ⟨queued, at_⟩ := Option.isSome_iff_exists.mp registered
  simp only [deliverResume, at_, events, Function.update_apply]
  by_cases here : tid = s.async.tid j
  · rw [if_pos here, here, at_, Option.getD_some, Option.getD_some, List.count_append, List.count_singleton]
    simp only [true_and, beq_iff_eq, eq_comm (a := j)]
  · rw [if_neg here, if_neg fun both => here both.1]
    rfl

namespace Kept

/-- A thread resumes the waiter in its hand. -/
theorem resumes (kept : s.Kept) (member : h ∈ s.hands) :
    Kept { s with hands := s.hands.erase h, async := s.async.resumeEvent h.waiter 0 } where
  async := by
    have inHand : 0 < s.pending h.waiter := Nat.add_pos_left (held_pos member) _
    apply (kept.async.resumeEvent inHand fun j => pending_erase member).congr
    intro k
    simp only [pending, events, Async.same_resumeEvent.tid]
    rfl
  home tid k at_ := Async.same_resumeEvent.tid.trans (kept.home tid k at_)

/-- A thread delivers the waiter in its hand to another. -/
theorem delivers (kept : s.Kept) (member : h ∈ s.hands) (registered : (s.delivers (s.async.tid h.waiter)).isSome) :
    (deliverResume { s with hands := s.hands.erase h } h.waiter).Kept := by
  obtain ⟨queued, at_⟩ := Option.isSome_iff_exists.mp registered
  have counts := count_deliverResume (s := { s with hands := s.hands.erase h }) registered
  have moved : ∀ j, (deliverResume { s with hands := s.hands.erase h } h.waiter).held j =
      held { s with hands := s.hands.erase h } j := fun j => by simp only [deliverResume, at_]; rfl
  have same : (deliverResume { s with hands := s.hands.erase h } h.waiter).async = s.async := by
    simp only [deliverResume, at_]
  constructor
  · rw [same]
    apply kept.async.congr
    intro k
    have erased := held_erase member (k := k)
    have gained := counts (s.async.tid k) k
    have unmoved : events { s with hands := s.hands.erase h } (s.async.tid k) = s.events (s.async.tid k) := rfl
    have home : (s.async.tid k = s.async.tid h.waiter ∧ k = h.waiter) ↔ k = h.waiter :=
      and_iff_right_of_imp fun same => by rw [same]
    simp only [home, unmoved] at gained
    simp only [pending, same, moved]
    omega
  · intro tid k inside
    rw [same]
    have gained := counts tid k
    rw [← List.count_pos_iff, gained] at inside
    split at inside
    next here => rw [here.2, here.1]
    next => exact kept.home tid k (List.count_pos_iff.mp inside)

theorem deliver (kept : s.Kept) (member : h ∈ s.hands)
    (passes : s.async.tid h.waiter ≠ h.tid → (s.delivers (s.async.tid h.waiter)).isSome) :
    (Guard.deliver { s with hands := s.hands.erase h } h.tid h.waiter).Kept := by
  simp only [Guard.deliver]
  split
  next => exact kept.resumes member
  next other => exact kept.delivers member (passes other)

theorem pass (kept : s.Kept) (member : h ∈ s.hands) (passes : s.Passes (.pass h)) : (s.pass h).Kept := by
  unfold Guard.pass
  cases wake : h.wake with
  | resume => exact kept.resumes member
  | deliver => exact kept.deliver member (passes (by rw [wake]; intro eq; cases eq))
  | deliverValue v =>
    have inHand : 0 < s.pending h.waiter := Nat.add_pos_left (held_pos member) _
    have valued := kept.of_async (kept.async.setReserved inHand v) Async.same_setReserved
    apply valued.deliver member
    rw [Async.same_setReserved.tid]
    exact passes (by rw [wake]; intro eq; cases eq)

/-- The event loop of a thread resumes the first event in its `co_deliver`. -/
theorem resumeEv (kept : s.Kept) (tid : ℕ) : (s.resumeEv tid).Kept := by
  simp only [Guard.resumeEv]
  split
  next k events at_ =>
    have queued : s.events tid = k :: events := by rw [Guard.events, at_]; rfl
    have home : s.async.tid k = tid := kept.home tid k (by simp [queued])
    have pends : 0 < s.pending k := by
      simp only [pending, home, queued, List.count_cons_self]
      omega
    have same := Async.same_setReserved (s := s.async) (k := k) (x := 0)
    have same' : s.async.Same ((s.async.setReserved k 0).resumeEvent k 0) := Async.same_resumeEvent.trans same
    constructor
    · refine ((kept.async.setReserved pends 0).resumeEvent pends fun _ => rfl).congr fun j => ?_
      simp only [pending, held, Guard.events, same'.tid, Function.update_apply]
      by_cases here : s.async.tid j = tid
      · rw [if_pos here, here, at_, Option.getD_some, Option.getD_some, List.count_cons]
        simp only [beq_iff_eq, eq_comm (a := k)]
        omega
      · have other : j ≠ k := fun same => here (by rw [same, home])
        rw [if_neg here, if_neg other, Nat.sub_zero]
    · intro t j inside
      rw [same'.tid]
      by_cases here : t = tid
      · subst here
        simp only [Guard.events, Function.update_self, Option.getD_some] at inside
        exact kept.home t j (by rw [queued]; exact List.mem_cons_of_mem _ inside)
      · simp only [Guard.events, Function.update_of_ne here] at inside
        exact kept.home t j inside
  next => exact kept

/-- A `co_deliver` comes or goes without an event. -/
theorem register (kept : s.Kept) (none_ : s.events tid = []) {queue : Option (List ℕ)} (empty : queue.getD [] = []) :
    Kept { s with delivers := Function.update s.delivers tid queue } := by
  have same : ∀ t, events { s with delivers := Function.update s.delivers tid queue } t = s.events t := by
    intro t
    by_cases here : t = tid
    · subst here
      simp only [Guard.events, Function.update_self, empty]
      exact none_.symm
    · simp only [Guard.events, Function.update_of_ne here]
  constructor
  · exact kept.async.congr fun k => by simp only [pending, same]; rfl
  · intro t k inside
    exact kept.home t k (same t ▸ inside)

theorem destroy (kept : s.Kept) : s.destroy.Kept := by
  simp only [Guard.destroy]
  split
  next => exact kept
  next k async popped =>
    have released := kept.async.release popped
    obtain ⟨queue, queued, rfl⟩ := Async.Kept.popFront_eq popped
    exact kept.of_async released Async.same_resumeEvent

/-- Every call keeps the waiters where they should be. -/
theorem step (kept : s.Kept) (passes : s.Passes c) (step : s.Step m c s') : s'.Kept := by
  cases c with
  | enter caller tid reserved => cases step; exact kept.enter caller tid reserved
  | awaitReady k =>
    obtain ⟨at_, ⟨⟩⟩ := Option.ite_none_right_eq_some.mp step
    exact kept.of_async (kept.async.awaitReady at_) Async.same_awaitReady
  | awaitSuspend k =>
    obtain ⟨at_, ⟨⟩⟩ := Option.ite_none_right_eq_some.mp step
    exact kept.of_async (kept.async.awaitSuspend at_) Async.same_awaitSuspend
  | critical set => cases step; exact ⟨kept.async, kept.home⟩
  | ev tid set wake => cases step; exact kept.ev passes
  | pass h =>
    obtain ⟨member, ⟨⟩⟩ := Option.ite_none_right_eq_some.mp step
    exact kept.pass member passes
  | resumeEv tid => cases step; exact kept.resumeEv tid
  | register tid =>
    obtain ⟨none_, ⟨⟩⟩ := Option.ite_none_right_eq_some.mp step
    exact kept.register (by rw [Guard.events, none_]; rfl) rfl
  | stop tid => cases step; exact kept.register passes rfl
  | destroy => cases step; exact kept.destroy

end Kept

end Coev.Guard
