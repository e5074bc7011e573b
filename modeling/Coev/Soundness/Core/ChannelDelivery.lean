import Coev.Proofs.Core.Parked
import Coev.ToMathlib.Transition

/-! # What a channel on one thread delivers

A consumer that `set` has resumed relies on an item that it takes only later. So the channel is sound as long as nobody
else takes that item, and the consumer is there to take it.
-/

namespace Coev.Channel

open Transition

variable {α : Type*} {c c' : Channel α} {a : Call α} {k : ℕ}

/-- Every item went out once and in order or is still there, no consumer popped from an empty queue, and none is left
waiting beside an item when the event loop is idle. -/
structure Delivers (c : Channel α) : Prop where
  once : c.taken.map Prod.snd ++ c.data = c.put
  nonempty : c.underflow = false
  idle : c.waiter.loop = [] → c.waiter.queue = [] ∨ c.data = []

/-- The call takes no item that a resumed consumer relies on, and cancels no resumed consumer while others wait. -/
def Leaves (c : Channel α) : Call α → Prop
  | .get _ _ _ | .tryGet _ => c.data ≠ [] → c.waiter.loop.length < c.data.length
  | .cancel k => k ∈ c.waiter.loop → c.waiter.queue = []
  | _ => True

/-- Every resumed consumer has an item, and the others wait for the rest, of which there is none. -/
structure Invariant (c : Channel α) : Prop where
  once : c.taken.map Prod.snd ++ c.data = c.put
  nonempty : c.underflow = false
  relied : c.waiter.loop.length ≤ c.data.length
  waits : c.waiter.queue ≠ [] → c.waiter.loop.length = c.data.length
  parked : c.waiter.AllParked

theorem Invariant.delivers (inv : c.Invariant) : c.Delivers where
  once := inv.once
  nonempty := inv.nonempty
  idle idle := by
    by_cases queued : c.waiter.queue = []
    · exact .inl queued
    · have none_ := inv.waits queued
      rw [idle] at none_
      exact .inr (List.length_eq_zero_iff.mp none_.symm)

namespace Invariant

/-- A consumer takes an item that is there for it. -/
private theorem of_popFront (once : c.taken.map Prod.snd ++ c.data = c.put) (nonempty : c.underflow = false)
    (parked : c.waiter.AllParked) (spare : c.waiter.loop.length < c.data.length)
    (waits : c.waiter.queue ≠ [] → c.waiter.loop.length + 1 = c.data.length) (who : ℕ) : (c.popFront who).Invariant := by
  obtain ⟨d, data, items⟩ : ∃ d data, c.data = d :: data := by
    cases items : c.data with
    | nil => simp [items] at spare
    | cons d data => exact ⟨d, data, rfl⟩
  have one : c.data.length = data.length + 1 := by rw [items, List.length_cons]
  have popped : c.popFront who = { c with data, taken := c.taken ++ [(who, d)] } := by simp [Channel.popFront, items]
  rw [popped]
  refine ⟨?_, nonempty, ?_, fun queued => ?_, parked⟩
  · rw [← once, items, List.map_append, List.append_assoc]
    rfl
  · change c.waiter.loop.length ≤ data.length
    omega
  · have same := waits queued
    change c.waiter.loop.length = data.length
    omega

theorem popFront (inv : c.Invariant) (spare : c.waiter.loop.length < c.data.length) (who : ℕ) :
    (c.popFront who).Invariant := by
  apply of_popFront inv.once inv.nonempty inv.parked spare
  intro queued
  have same := inv.waits queued
  omega

theorem set (inv : c.Invariant) (d : α) : (c.set d).Invariant := by
  have more : (c.data ++ [d]).length = c.data.length + 1 := by simp
  have relied := inv.relied
  refine ⟨?_, inv.nonempty, ?_, ?_, inv.parked.resumeNextLoop⟩
  · simp [Channel.set, ← inv.once]
  all_goals
    have waits := inv.waits
    simp only [Channel.set, Async.resumeNextLoop, Async.popFront]
    cases queued : c.waiter.queue with
    | nil => simp only [queued, more]; first | omega | exact fun absurd_ => absurd rfl absurd_
    | cons k queue =>
      have same := waits (by rw [queued]; exact List.cons_ne_nil _ _)
      simp only [more, List.length_append, List.length_singleton]
      omega

theorem get (inv : c.Invariant) {who tid : ℕ} {reserved : Int64} (leaves : c.Leaves (.get who tid reserved)) :
    (c.get who tid reserved).Invariant := by
  unfold Channel.get
  split
  next empty =>
    have none_ : c.data = [] := by simpa using empty
    have relied := inv.relied
    have waiter := Async.coAwait_eq (s := c.waiter) who tid reserved
    refine ⟨inv.once, inv.nonempty, ?_, fun _ => ?_, inv.parked.coAwait who tid reserved⟩
    · rw [waiter]
      exact relied
    · rw [waiter]
      rw [none_] at relied ⊢
      exact Nat.le_antisymm relied (Nat.zero_le _)
  next items => exact inv.popFront (leaves (by simpa using items)) who

theorem tryGet (inv : c.Invariant) {who : ℕ} (leaves : c.Leaves (.tryGet who)) : (c.tryGet who).Invariant := by
  unfold Channel.tryGet
  split
  next => exact inv
  next items => exact inv.popFront (leaves (by simpa using items)) who

theorem cancel (inv : c.Invariant) (leaves : c.Leaves (.cancel k)) :
    Invariant { c with waiter := c.waiter.unlink k } := by
  have relied := inv.relied
  refine ⟨inv.once, inv.nonempty, ?_, fun queued => ?_, inv.parked.unlink k⟩
  · exact Nat.le_trans List.length_erase_le relied
  · have waits : c.waiter.queue ≠ [] := by
      intro none_
      exact queued (by simp [Async.unlink, none_])
    have absent : k ∉ c.waiter.loop := fun looped => waits (leaves looped)
    have same : (c.waiter.unlink k).loop = c.waiter.loop := List.erase_of_not_mem absent
    rw [same]
    exact inv.waits waits

/-- The consumer in front takes the item that it relies on. -/
theorem localResume (inv : c.Invariant) : c.localResume.Invariant := by
  unfold Channel.localResume
  cases looped : c.waiter.loop with
  | nil => exact inv
  | cons k loop =>
    obtain ⟨w, at_, resumed, parked⟩ := inv.parked.localResume looped
    obtain ⟨below, -⟩ := List.getElem?_eq_some_iff.mp at_
    have progress : c.waiter.localResume.progress k = some (.returned 0) := by
      rw [resumed]
      exact Async.progress_awake below
    have zero : (0 : Int64) ≠ invalid := by decide
    have relied := inv.relied
    rw [looped, List.length_cons] at relied
    simp only [progress, resumeGet, if_neg zero]
    apply of_popFront (c := { c with waiter := c.waiter.localResume }) inv.once inv.nonempty parked
    · simp only [resumed]
      exact relied
    · simp only [resumed]
      intro queued
      have same := inv.waits queued
      rw [looped, List.length_cons] at same
      exact same

/-- Every call that leaves the items to those who rely on them keeps the invariant. -/
theorem step (inv : c.Invariant) (leaves : c.Leaves a) (step : c.Step a c') : c'.Invariant := by
  cases a with
  | set d => cases step; exact inv.set d
  | get who tid reserved => cases step; exact inv.get leaves
  | tryGet who => cases step; exact inv.tryGet leaves
  | localResume => cases step; exact inv.localResume
  | cancel k =>
    obtain ⟨-, ⟨⟩⟩ := Option.ite_none_right_eq_some.mp step
    exact inv.cancel leaves

theorem start : ({} : Channel α).Invariant where
  once := rfl
  nonempty := rfl
  relied := Nat.le_refl _
  waits queued := absurd rfl queued
  parked := Async.allParked_empty

end Invariant

/-- Along every run in which nobody takes the item of a resumed consumer, and no resumed consumer is cancelled while
others wait, the channel delivers. -/
theorem delivers_of_leaves {c : Channel α} (run : Reaches (When Leaves Step) {} c) : c.Delivers :=
  (run.invariant (fun c _ _ (inv : c.Invariant) step => inv.step step.1 step.2) Invariant.start).delivers

/-- A consumer that waited takes the item that is put in. -/
theorem delivers_to_waiter : ∃ c : Channel ℕ, c.taken = [(1, 5)] ∧ c.Delivers := by
  have run : Reaches (When Leaves Step) ({} : Channel ℕ) _ := .refl _
  have run := run.tail_when (show Step _ (.get 1 0 7) _ from rfl) fun items => absurd rfl items
  have run := run.tail_when (show Step _ (.set 5) _ from rfl) trivial
  have run := run.tail_when (show Step _ .localResume _ from rfl) trivial
  exact ⟨_, rfl, delivers_of_leaves run⟩

/-- A consumer takes the item between the `set` that resumed another and its resumption, which then pops from the empty
queue. -/
theorem pops_from_empty : ∃ c : Channel ℕ, Reaches Step {} c ∧ c.underflow = true ∧ ¬ c.Delivers := by
  have run : Reaches Step ({} : Channel ℕ) _ := .refl _
  have run := run.tail (show Step _ (.get 1 0 7) _ from rfl)
  have run := run.tail (show Step _ (.set 5) _ from rfl)
  have run := run.tail (show Step _ (.tryGet 2) _ from rfl)
  have run := run.tail (show Step _ .localResume _ from rfl)
  refine ⟨_, run, rfl, fun delivers => ?_⟩
  exact absurd delivers.nonempty (by decide)

end Coev.Channel
