import Coev.Model.Core.Task
import Coev.Proofs.Core.Parked
import Coev.ToMathlib.Transition

/-! # Waiting for a group

The end of a coroutine wakes one waiter, with the value 0 in place of its id, and nothing is kept for a wait that comes
later; a coroutine that is destroyed wakes nobody. So a wait for one is right only where the id is 0, and a wait for all is
right as long as it is the only one and the last coroutine is not destroyed under it.
-/

namespace Coev.Task

open Transition

/-! ## Ids of a group

An id is taken in the order of a counter that wraps around, past those in use. -/

variable {ids : List ℕ} {steps id found : ℕ}

private theorem increase_fresh (increased : increase ids steps id = some found) : found ∉ ids := by
  induction steps generalizing id with
  | zero => simp [increase] at increased
  | succ steps ih =>
    simp only [increase] at increased
    split_ifs at increased with wraps used used
    · exact ih increased
    · cases increased
      exact used
    · exact ih increased
    · cases increased
      exact used

variable {t t' : Task} {c : Call} {p id k : ℕ} {kind : WaitKind}

/-- An id as the wait returns it. -/
def idValue (kind : WaitKind) (id : ℕ) : Int64 :=
  match kind with
  | .any => (Int64.ofNat id).toInt32.toInt64
  | _ => Int64.ofNat id

/-- What a wait that is still suspended shows: nothing ended since it began, or for a group of its own ever, or for a wait
for all there is someone left. -/
def Awaits (t : Task) (w : Wait) : Prop :=
  match w.kind with
  | .one => w.since = t.completed.length
  | .any => t.completed = []
  | .all => t.promises ≠ []

/-- A wait for one returned the id of a coroutine that ended, and a wait for all left nobody. -/
def Answers (t : Task) (r : Return) : Prop :=
  match r.kind with
  | .all => r.left = 0
  | kind => ∃ id ∈ t.completed, r.value = idValue kind id

/-- The ids of the live coroutines are distinct, every wait returned what it should, and none waits in vain. -/
structure Waits (t : Task) : Prop where
  distinct : (t.promises.map Prod.snd).Nodup
  answers : ∀ r ∈ t.returned, t.Answers r
  awaits : ∀ k ∈ t.waiter.queue, ∀ w, t.waits[k]? = some w → t.Awaits w

/-- The kind of a waiter. -/
def kindOf (t : Task) (k : ℕ) : Option WaitKind := t.waits[k]?.map Wait.kind

/-- The id of a coroutine in the group. -/
def idOf (t : Task) (p : ℕ) : Option ℕ := (t.promises.find? fun entry => entry.1 = p).map Prod.snd

/-- The waiter that is woken is the only one, or waits for all with others that do so and not in vain; and if it waits for
one, the id is 0, which is what it is told. -/
def WakesRightly (t : Task) (p : ℕ) : Prop :=
  ∀ k rest, t.waiter.queue = k :: rest →
    (t.kindOf k ≠ some .all → 0 ∈ t.completed ∨ t.idOf p = some 0) ∧
    (∀ j ∈ rest, t.kindOf j = some .all) ∧
    (rest ≠ [] → t.kindOf k ≠ some .any ∧ (t.promises.eraseP fun entry => entry.1 = p) ≠ [])

/-- The call signals what the waits need. -/
def Signals (t : Task) : Call → Prop
  | .wait .one _ _ _ => t.promises = [] → 0 ∈ t.completed
  | .wait .any _ _ _ => (t.promises = [] → 0 ∈ t.completed) ∧ (t.promises ≠ [] → t.completed = [])
  | .complete p => t.WakesRightly p
  | .destroy id => (t.destroy id).promises = [] → ∀ k ∈ t.waiter.queue, t.kindOf k ≠ some .all
  | .destroyAll => ∀ k ∈ t.waiter.queue, t.kindOf k ≠ some .all
  | _ => True

structure Invariant (t : Task) : Prop where
  waits : t.Waits
  used : ∀ entry ∈ t.promises, entry.2 ∈ t.ids
  parked : t.waiter.AllParked
  aligned : t.waits.length = t.waiter.waiters.length

theorem Answers.mono {r : Return} (answers : t.Answers r) (more : t.completed ⊆ t'.completed) : t'.Answers r := by
  unfold Answers at answers ⊢
  split at answers
  · exact answers
  · obtain ⟨id, member, value⟩ := answers
    exact ⟨id, more member, value⟩

/-- The group without a coroutine that ended. -/
def without (t : Task) (p id : ℕ) : Task :=
  { t with
    promises := t.promises.eraseP fun entry => entry.1 = p
    ids := t.ids.erase id
    completed := t.completed ++ [id] }

private theorem resume_nobody {v : Int64} (nobody : t.waiter.queue = []) : t.resume v = t := by
  simp [Task.resume, nobody]

/-- The waiter in front goes on with its wait. -/
private theorem resume_front {v r : Int64} {rest : List ℕ} {w : Waiter} {wait : Wait} (queued : t.waiter.queue = k :: rest)
    (woken : (t.waiter.resume v).waiters[k]? = some w) (waits : t.waits[k]? = some wait)
    (returned : w.progress = .returned r) :
    t.resume v = resumeWait { t with waiter := t.waiter.resume v } wait.kind w r := by
  simp [Task.resume, queued, woken, waits, returned]

/-- What every waiter of a group comes to, whoever ended: 0, in place of the id. -/
structure LosesIds (t : Task) : Prop where
  parked : t.waiter.AllParked
  aligned : t.waits.length = t.waiter.waiters.length
  zero : ∀ r ∈ t.returned, r.value = 0

namespace LosesIds

theorem start : ({} : Task).LosesIds := ⟨Async.allParked_empty, rfl, nofun⟩

variable (lost : t.LosesIds)

include lost

theorem load {id : Int32} (loaded : t.load p = some (t', id)) : t'.LosesIds := by
  obtain ⟨_, _, same⟩ := Option.map_eq_some_iff.mp loaded
  cases same
  exact ⟨lost.parked, lost.aligned, lost.zero⟩

theorem finish (kind : WaitKind) : (t.finish kind 0).LosesIds := by
  refine ⟨lost.parked, lost.aligned, fun r member => ?_⟩
  obtain old | new := List.mem_append.mp member
  · exact lost.zero r old
  · rw [List.mem_singleton.mp new]

theorem wait (kind : WaitKind) (caller tid : ℕ) (reserved : Int64) : (t.wait kind caller tid reserved).LosesIds := by
  unfold Task.wait
  split
  · refine ⟨lost.parked.coAwait caller tid reserved, ?_, lost.zero⟩
    simp [Task.suspend, Async.coAwait_eq, lost.aligned]
  · exact lost.finish kind

theorem resume (v : Int64) : (t.resume v).LosesIds := by
  cases queued : t.waiter.queue with
  | nil =>
    rw [resume_nobody queued]
    exact lost
  | cons k rest =>
    obtain ⟨w, at_, resumed, parked⟩ := lost.parked.resume queued v
    obtain ⟨below, -⟩ := List.getElem?_eq_some_iff.mp at_
    have waiters : (t.waiter.resume v).waiters = t.waiter.waiters.set k (Async.awake w) := by rw [resumed]
    have woken : (t.waiter.resume v).waiters[k]? = some (Async.awake w) := by
      rw [waiters]
      exact List.getElem?_set_self below
    obtain ⟨wait, waits⟩ : ∃ wait, t.waits[k]? = some wait :=
      ⟨_, List.getElem?_eq_getElem (by rw [lost.aligned]; exact below)⟩
    have told : LosesIds { t with waiter := t.waiter.resume v } :=
      ⟨parked, by rw [waiters, List.length_set]; exact lost.aligned, lost.zero⟩
    rw [resume_front queued woken waits rfl]
    cases wait.kind with
    | one => exact told.finish .one
    | any =>
      have gone : LosesIds (destroyAll { t with waiter := t.waiter.resume v }) := ⟨told.parked, told.aligned, told.zero⟩
      exact gone.finish .any
    | all => exact told.wait .all _ _ _

theorem unload (p : ℕ) : (t.unload p).LosesIds := by
  unfold Task.unload
  split
  next => exact lost
  next id _ =>
    have left : (t.without p id).LosesIds := ⟨lost.parked, lost.aligned, lost.zero⟩
    exact left.resume (Int64.ofNat id)

end LosesIds

private theorem perm_of_found {promises : List (ℕ × ℕ)} (found : promises.find? (fun entry => entry.1 = p) = some (p, id)) :
    promises.Perm ((p, id) :: promises.eraseP fun entry => entry.1 = p) := by
  obtain ⟨-, before, after, rfl, none_⟩ := List.find?_eq_some_iff_append.mp found
  have others : ∀ entry ∈ before, ¬ decide (entry.1 = p) = true := fun entry member => by simpa using none_ entry member
  rw [List.eraseP_append_right _ others, List.eraseP_cons_of_pos (by simp)]
  exact List.perm_middle

namespace Invariant

theorem start : ({} : Task).Invariant where
  waits := ⟨List.nodup_nil, fun _ member => absurd member List.not_mem_nil, fun _ queued => absurd queued List.not_mem_nil⟩
  used _ member := absurd member List.not_mem_nil
  parked := Async.allParked_empty
  aligned := rfl

theorem load (inv : t.Invariant) (loaded : (t.load p).map Prod.fst = some t') : t'.Invariant := by
  simp only [Task.load, Option.map_map, Option.map_eq_some_iff] at loaded
  obtain ⟨id, increased, rfl⟩ := loaded
  have fresh := increase_fresh increased
  have used : ∀ entry ∈ t.promises ++ [(p, id)], entry.2 ∈ id :: t.ids := by
    intro entry member
    rcases List.mem_append.mp member with old | new
    · exact List.mem_cons_of_mem _ (inv.used entry old)
    · rw [List.mem_singleton.mp new]
      exact List.mem_cons_self
  refine ⟨⟨?_, inv.waits.answers, ?_⟩, used, inv.parked, inv.aligned⟩
  · change ((t.promises ++ [(p, id)]).map Prod.snd).Nodup
    rw [List.map_append, List.map_singleton, List.nodup_append]
    refine ⟨inv.waits.distinct, List.nodup_singleton _, fun x inside y here same => ?_⟩
    obtain ⟨entry, member, rfl⟩ := List.mem_map.mp inside
    rw [List.mem_singleton.mp here] at same
    have used : entry.2 ∈ t.ids := inv.used entry member
    rw [show entry.2 = id from same] at used
    exact fresh used
  · intro k queued w at_
    have awaits := inv.waits.awaits k queued w at_
    unfold Awaits at awaits ⊢
    split at awaits
    · exact awaits
    · exact awaits
    · exact List.append_ne_nil_of_right_ne_nil _ (List.cons_ne_nil _ _)

/-- Coroutines leave the group without a word. -/
theorem destroyed (inv : t.Invariant) {promises : List (ℕ × ℕ)} (fewer : promises.Sublist t.promises)
    (heard : promises = [] → ∀ k ∈ t.waiter.queue, t.kindOf k ≠ some .all) : Invariant { t with promises } where
  waits := by
    refine ⟨inv.waits.distinct.sublist (fewer.map _), inv.waits.answers, fun k queued w at_ => ?_⟩
    have awaits := inv.waits.awaits k queued w at_
    unfold Awaits at awaits ⊢
    split at awaits
    · exact awaits
    · exact awaits
    next all =>
      intro none_
      exact heard none_ k queued (by rw [kindOf, at_, Option.map_some, all])
  used entry member := inv.used entry (fewer.subset member)
  parked := inv.parked
  aligned := inv.aligned

theorem finish (inv : t.Invariant) (kind : WaitKind) (value : Int64) (answers : t.Answers ⟨kind, value, t.promises.length⟩) :
    (t.finish kind value).Invariant where
  waits := by
    refine ⟨inv.waits.distinct, fun r member => ?_, inv.waits.awaits⟩
    rcases List.mem_append.mp member with old | new
    · exact inv.waits.answers r old
    · rw [List.mem_singleton.mp new]
      exact answers
  used := inv.used
  parked := inv.parked
  aligned := inv.aligned

theorem suspend (inv : t.Invariant) (caller tid : ℕ) (reserved : Int64) (awaits : t.Awaits ⟨kind, t.completed.length⟩) :
    (t.suspend kind caller tid reserved).Invariant where
  waits := by
    refine ⟨inv.waits.distinct, inv.waits.answers, fun k queued w at_ => ?_⟩
    have queue : (t.suspend kind caller tid reserved).waiter.queue = t.waiter.queue ++ [t.waiter.waiters.length] := by
      simp [Task.suspend, Async.coAwait_eq]
    rw [queue] at queued
    rcases List.mem_append.mp queued with old | new
    · have below : k < t.waits.length := by
        rw [inv.aligned]
        exact inv.parked.lt_of_mem (List.mem_append_left _ old)
      exact inv.waits.awaits k old w (by simpa [Task.suspend, List.getElem?_append_left below] using at_)
    · rw [List.mem_singleton.mp new, ← inv.aligned] at at_
      obtain rfl : ⟨kind, t.completed.length⟩ = w := by simpa [Task.suspend] using at_
      exact awaits
  used := inv.used
  parked := inv.parked.coAwait caller tid reserved
  aligned := by simp [Task.suspend, Async.coAwait_eq, inv.aligned]

private theorem idValue_zero (kind : WaitKind) : 0 = idValue kind 0 := by cases kind <;> decide

theorem wait (inv : t.Invariant) {caller tid : ℕ} {reserved : Int64} (signals : t.Signals (.wait kind caller tid reserved)) :
    (t.wait kind caller tid reserved).Invariant := by
  unfold Task.wait
  split
  next some_ =>
    have left : t.promises ≠ [] := List.ne_nil_of_length_pos some_
    apply inv.suspend
    cases kind with
    | one => rfl
    | any => exact signals.2 left
    | all => exact left
  next none_ =>
    have left : t.promises = [] := List.eq_nil_of_length_eq_zero (by omega)
    apply inv.finish kind 0
    cases kind with
    | one => exact ⟨0, signals left, idValue_zero _⟩
    | any => exact ⟨0, signals.1 left, idValue_zero _⟩
    | all => exact List.length_eq_zero_iff.mpr left

/-- A coroutine leaves the group, and the waiters that stay may do so. -/
theorem left (inv : t.Invariant) (ended : t.promises.find? (fun entry => entry.1 = p) = some (p, id)) {waiter : Async}
    (parked : waiter.AllParked) (aligned : waiter.waiters.length = t.waiter.waiters.length)
    (stay : ∀ j ∈ waiter.queue, t.kindOf j = some .all)
    (some_ : waiter.queue ≠ [] → (t.promises.eraseP fun entry => entry.1 = p) ≠ []) :
    Invariant { t.without p id with waiter } where
  waits := by
    refine ⟨inv.waits.distinct.sublist (List.eraseP_sublist.map _), fun r member => ?_, fun k queued w at_ => ?_⟩
    · exact (inv.waits.answers r member).mono (List.subset_append_left _ _)
    · have all := stay k queued
      rw [kindOf, show t.waits[k]? = some w from at_, Option.map_some, Option.some.injEq] at all
      simp only [Awaits, all]
      exact some_ (List.ne_nil_of_mem queued)
  used entry member := by
    have kept : entry ∈ t.promises := List.mem_of_mem_eraseP member
    have distinct := ((perm_of_found ended).map Prod.snd).nodup_iff.mp inv.waits.distinct
    have other : entry.2 ≠ id := by
      intro same
      have again : id ∈ (t.promises.eraseP fun entry => entry.1 = p).map Prod.snd := List.mem_map.mpr ⟨entry, member, same⟩
      exact (List.nodup_cons.mp distinct).1 again
    exact (List.mem_erase_of_ne other).mpr (inv.used entry kept)
  parked := parked
  aligned := inv.aligned.trans aligned.symm

theorem complete (inv : t.Invariant) (signals : t.Signals (.complete p)) : (t.unload p).Invariant := by
  unfold unload
  cases ended : t.promises.find? (fun entry => entry.1 = p) with
  | none => exact inv
  | some entry =>
    obtain ⟨q, id⟩ := entry
    obtain rfl : q = p := by simpa using List.find?_some ended
    change ((t.without q id).resume (Int64.ofNat id)).Invariant
    cases queued : t.waiter.queue with
    | nil =>
      rw [resume_nobody (t := t.without q id) queued]
      exact inv.left ended inv.parked rfl (fun j member => by simp [queued] at member) fun some_ => absurd queued some_
    | cons k rest =>
      obtain ⟨answered, others, someone⟩ := signals k rest queued
      obtain ⟨w, at_, resumed, parked⟩ := inv.parked.resume queued (Int64.ofNat id)
      obtain ⟨below, -⟩ := List.getElem?_eq_some_iff.mp at_
      have waiters : (t.waiter.resume (Int64.ofNat id)).waiters = t.waiter.waiters.set k (Async.awake w) := by rw [resumed]
      have queue : (t.waiter.resume (Int64.ofNat id)).queue = rest := by rw [resumed]
      have woken : (t.waiter.resume (Int64.ofNat id)).waiters[k]? = some (Async.awake w) := by
        rw [waiters]
        exact List.getElem?_set_self below
      obtain ⟨wait, waits⟩ : ∃ wait, t.waits[k]? = some wait :=
        ⟨_, List.getElem?_eq_getElem (by rw [inv.aligned]; exact below)⟩
      have kind : t.kindOf k = some wait.kind := by rw [kindOf, waits, Option.map_some]
      have alone := inv.left ended parked (by rw [waiters, List.length_set]) (by rw [queue]; exact others)
        (by rw [queue]; exact fun some_ => (someone some_).2)
      have zero : wait.kind ≠ .all → 0 ∈ t.completed ++ [id] := by
        intro one
        rcases answered (by simpa [kind] using one) with before | now
        · exact List.mem_append_left _ before
        · rw [idOf, ended, Option.map_some, Option.some.injEq] at now
          exact List.mem_append_right _ (by simp [← now])
      rw [resume_front (t := t.without q id) queued woken waits rfl]
      cases waited : wait.kind with
      | one => exact alone.finish .one 0 ⟨0, zero (by simp [waited]), idValue_zero .one⟩
      | any =>
        have last : rest = [] := by
          by_contra some_
          exact (someone some_).1 (by rw [kind, waited])
        have gone := alone.destroyed (List.nil_sublist _) fun _ j member => by simp [queue, last] at member
        exact gone.finish .any _ ⟨0, zero (by simp [waited]), rfl⟩
      | all =>
        apply alone.wait
        trivial

/-- Every call that signals what the waits need keeps the invariant. -/
theorem step (inv : t.Invariant) (signals : t.Signals c) (step : t.Step c t') : t'.Invariant := by
  cases c with
  | load p =>
    obtain ⟨-, loaded⟩ := Option.ite_none_left_eq_some.mp step
    exact inv.load loaded
  | complete p =>
    obtain ⟨-, ⟨⟩⟩ := Option.ite_none_right_eq_some.mp step
    exact inv.complete signals
  | destroy id => cases step; exact inv.destroyed List.eraseP_sublist signals
  | destroyAll => cases step; exact inv.destroyed (List.nil_sublist _) fun _ => signals
  | wait kind caller tid reserved => cases step; exact inv.wait signals

end Invariant

/-- Along every run in which the waits are signalled what they need, the group keeps its promises to them. -/
theorem waits_of_signals {t : Task} (run : Reaches (When Signals Step) {} t) : t.Waits :=
  (run.invariant (fun t _ _ (inv : t.Invariant) step => inv.step step.1 step.2) Invariant.start).waits

/-- `wait_all` returns after the second of two coroutines has ended. -/
theorem wait_all_returns : ∃ t : Task, t.completed = [1, 2] ∧ t.returned = [⟨.all, 0, 0⟩] ∧ t.Waits := by
  have run : Reaches (When Signals Step) {} _ := .refl _
  have run := run.tail_when (show Step _ (.load 10) _ from rfl) trivial
  have run := run.tail_when (show Step _ (.load 11) _ from rfl) trivial
  have run := run.tail_when (show Step _ (.wait .all 0 0 7) _ from rfl) trivial
  have run := run.tail_when (show Step _ (.complete 10) _ from rfl) (by
    rintro k rest ⟨⟩
    exact ⟨fun one => absurd rfl one, by simp, by simp⟩)
  have run := run.tail_when (show Step _ (.complete 11) _ from rfl) (by
    rintro k rest ⟨⟩
    exact ⟨fun one => absurd rfl one, by simp, by simp⟩)
  exact ⟨_, rfl, rfl, waits_of_signals run⟩

/-- `wait` returns 0 when the coroutine with the id 1 has ended, and `wait_all` hangs when the last coroutine is
destroyed. -/
theorem wait_returns_zero : (∃ t, Reaches Step {} t ∧ t.completed = [1] ∧ t.returned = [⟨.one, 0, 0⟩] ∧ ¬ t.Waits) ∧
    ∃ t, Reaches Step {} t ∧ t.promises = [] ∧ t.waiter.queue = [0] ∧ ¬ t.Waits := by
  have loaded : Reaches Step {} _ := .refl _
  have loaded := loaded.tail (show Step _ (.load 10) _ from rfl)
  constructor
  · have run := loaded.tail (show Step _ (.wait .one 0 0 7) _ from rfl)
    have run := run.tail (show Step _ (.complete 10) _ from rfl)
    refine ⟨_, run, rfl, rfl, fun waits => ?_⟩
    obtain ⟨id, member, value⟩ := waits.answers ⟨.one, 0, 0⟩ (List.mem_singleton.mpr rfl)
    rw [List.mem_singleton.mp member] at value
    exact absurd value (by decide)
  · have run := loaded.tail (show Step _ (.wait .all 0 0 7) _ from rfl)
    have run := run.tail (show Step _ (.destroy 1) _ from rfl)
    refine ⟨_, run, rfl, rfl, fun waits => ?_⟩
    exact waits.awaits 0 (List.mem_singleton.mpr rfl) ⟨.all, 0⟩ rfl rfl

end Coev.Task
