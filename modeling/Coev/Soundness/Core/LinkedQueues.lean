import Coev.Model.Core.Queue
import Coev.ToMathlib.Holdings
import Coev.ToMathlib.Transition

/-! # Queues as lists
As long as only queues that stand alone are pushed, what is linked behind a queue is a list, and the calls do to the
links what they mean for the lists: no assertion fails, and no call changes what is linked behind another queue.
-/

namespace Coev

open Links Holdings Queue

/-- Queues with the queues behind them. One that is behind another has none behind itself, and is behind no other. -/
structure Queues (α : Type*) where
  held : α → List α
  holder : α → Option α
  inStep : InStep held holder
  flat : ∀ x k, holder x = some k → held x = [] ∧ holder k = none

namespace Queues

variable {α : Type*} [DecidableEq α] {xs ys : List α} {q q' : Queues α} {s : Links α} {a : Answer α} {c : Call α}
  {k k' x y : α}

/-- Neither behind another queue nor with one behind itself. -/
def Alone (q : Queues α) (x : α) : Prop := q.holder x = none ∧ q.held x = []
deriving Decidable

/-- Every queue stands alone. -/
def start : Queues α where
  held _ := []
  holder _ := none
  inStep := ⟨by simp, fun _ => List.nodup_nil⟩
  flat := nofun

/-- A queue that stands alone goes behind the others. -/
def pushBack (q : Queues α) (k x : α) (free : q.holder k = none ∧ q.Alone x ∧ k ≠ x) : Queues α where
  held := Function.update q.held k (q.held k ++ [x])
  holder := Function.update q.holder x (some k)
  inStep := q.inStep.give free.2.1.1 k
  flat y m holds := by
    obtain ⟨head, alone, apart⟩ := free
    obtain rfl | other := eq_or_ne y x
    · obtain rfl : k = m := by simpa using holds
      simpa [apart.symm, apart, head] using alone.2
    · rw [Function.update_of_ne other] at holds
      have differ : y ≠ k := fun same => by simp [same, head] at holds
      have another : m ≠ x := fun same => by simpa [same, alone.2] using (q.inStep.mem_iff m y).mpr holds
      simpa [differ, another] using q.flat y m holds

/-- A queue that stands alone goes in front of the others. -/
def pushFront (q : Queues α) (k x : α) (free : q.holder k = none ∧ q.Alone x ∧ k ≠ x) : Queues α where
  held := Function.update q.held k (x :: q.held k)
  holder := Function.update q.holder x (some k)
  inStep := (q.pushBack k x free).inStep.reorder fun m => by
    obtain rfl | other := eq_or_ne m k
    · simpa [pushBack] using (List.perm_append_singleton x (q.held m)).symm
    · simp [pushBack, other]
  flat y m holds := by
    obtain ⟨none_, head⟩ := (q.pushBack k x free).flat y m holds
    obtain rfl | other := eq_or_ne y k
    · simp [pushBack] at none_
    · exact ⟨by simpa [pushBack, other] using none_, head⟩

/-- A queue leaves the one that it is behind. -/
def release (q : Queues α) (x : α) (holds : q.holder x = some k) : Queues α where
  held := Function.update q.held k ((q.held k).erase x)
  holder := Function.update q.holder x none
  inStep := q.inStep.release holds
  flat y m holds' := by
    obtain rfl | other := eq_or_ne y x
    · simp at holds'
    · rw [Function.update_of_ne other] at holds'
      have differ : y ≠ k := fun same => by simp [same, (q.flat x k holds).2] at holds'
      obtain ⟨none_, head⟩ := q.flat y m holds'
      obtain rfl | another := eq_or_ne m x
      · simpa [differ] using none_
      · simpa [differ, another] using ⟨none_, head⟩

/-- A queue leaves the one that it is behind, if there is one. -/
def out (q : Queues α) (x : α) : Queues α :=
  match holds : q.holder x with
  | some _ => q.release x holds
  | none => q

private theorem held_out (q : Queues α) (x k : α) : (q.out x).held k = (q.held k).erase x := by
  rw [out]
  split
  · next m holds =>
    obtain rfl | other := eq_or_ne k m
    · simp [release]
    · have absent : x ∉ q.held k := fun member => other (q.inStep.unique member ((q.inStep.mem_iff m x).mpr holds))
      simp [release, other, List.erase_of_not_mem absent]
  · next free =>
    have absent : x ∉ q.held k := fun member => by simp [(q.inStep.mem_iff k x).mp member] at free
    rw [List.erase_of_not_mem absent]

private theorem holder_out (q : Queues α) (x y : α) : (q.out x).holder y = if y = x then none else q.holder y := by
  rw [out]
  split
  · next m holds => simp [release, Function.update_apply]
  · next free => split <;> simp_all

/-- All that is behind one queue goes behind another one, which stands alone. -/
def pass (q : Queues α) (k k' : α) (free : q.holder k = none ∧ q.Alone k' ∧ k ≠ k') : Queues α where
  held := Function.update (Function.update q.held k' (q.held k)) k []
  holder x := if q.holder x = some k then some k' else q.holder x
  inStep := q.inStep.pass free.2.1.2 free.2.2
  flat y m holds := by
    have held_ (another : q.holder y ≠ none) : y ≠ k ∧ y ≠ k' :=
      ⟨fun same => another (same ▸ free.1), fun same => another (same ▸ free.2.1.1)⟩
    split at holds
    · next mine =>
      obtain rfl := Option.some.inj holds
      obtain ⟨first, second⟩ := held_ (by simp [mine])
      simpa [first, second, free.2.1.1] using (q.flat y k mine).1
    · next other =>
      obtain ⟨first, second⟩ := held_ (by simp [holds])
      obtain ⟨none_, head⟩ := q.flat y m holds
      simpa [first, second, head] using none_

/-- What a call means. There is no meaning where a queue is pushed that does not stand alone, where something is linked
behind a queue that is itself behind another one, or where a queue is erased that others are behind. -/
def call (q : Queues α) : Call α → Option (Answer α × Queues α)
  | .pushFront k x => if free : q.holder k = none ∧ q.Alone x ∧ k ≠ x then some (.done, q.pushFront k x free) else none
  | .pushBack k x => if free : q.holder k = none ∧ q.Alone x ∧ k ≠ x then some (.done, q.pushBack k x free) else none
  | .erase x => if q.held x = [] then some (.node (some x), q.out x) else none
  | .popFront k =>
    if q.holder k = none then some (.node (q.held k).head?, (q.held k).head?.elim q q.out) else none
  | .popBack k =>
    if q.holder k = none then some (.node (q.held k).getLast?, (q.held k).getLast?.elim q q.out) else none
  | .moveTo k k' =>
    if free : q.holder k = none ∧ q.Alone k' ∧ k ≠ k' then
      some (.moved (q.held k ≠ []), if q.held k = [] then q else q.pass k k' free)
    else if q.holder k = none then some (.moved false, q)
    else none

/-! ## The links -/

/-- The links are as the lists say. -/
def Represents (s : Links α) (q : Queues α) : Prop := ∀ k, q.holder k = none → s.Ring k (q.held k)

omit [DecidableEq α] in
private theorem represents_start : Represents {} (start : Queues α) := fun _ _ => ring_nil.mpr ⟨rfl, rfl⟩

omit [DecidableEq α] in
/-- Rings of different queues have nothing in common. -/
theorem apart (head : q.holder k = none) (head' : q.holder k' = none) (differ : k ≠ k') (member : x ∈ k :: q.held k) :
    x ∉ k' :: q.held k' := by
  have unheld (m m' : α) (head : q.holder m = none) : m ∉ q.held m' := fun member => by
    simp [(q.inStep.mem_iff m' m).mp member] at head
  obtain rfl | member := List.mem_cons.mp member
  · simpa [differ] using unheld x k' head
  · refine fun other => ?_
    obtain rfl | other := List.mem_cons.mp other
    · exact unheld x k head' member
    · exact differ (q.inStep.unique member other)

omit [DecidableEq α] in
private theorem not_mem_ring (head : q.holder k = none) (alone : q.Alone x) (ne : k ≠ x) : x ∉ k :: q.held k :=
  apart alone.1 head ne.symm List.mem_cons_self

namespace Represents

/-- Whether a queue is empty in the sense of the source. -/
theorem empty_iff (represents : Represents s q) (head : q.holder k = none) : empty s k = true ↔ q.held k = [] := by
  have ring := represents k head
  rw [Queue.empty, Bool.and_eq_true, decide_eq_true_eq, decide_eq_true_eq, ← ring.next_eq_self_iff]
  refine ⟨And.right, fun same => ⟨?_, same⟩⟩
  have path := ring.path
  rw [ring.next_eq_self_iff.mp same] at path
  exact path.2

theorem pushBack (represents : Represents s q) (free : q.holder k = none ∧ q.Alone x ∧ k ≠ x) :
    Represents ((s.link (s.prev k) x).link x k) (q.pushBack k x free) := by
  intro m unheld
  obtain ⟨head, alone, ne⟩ := free
  obtain rfl | other := eq_or_ne m x
  · simp [Queues.pushBack] at unheld
  have head' : q.holder m = none := by simpa [Queues.pushBack, other] using unheld
  obtain rfl | differ := eq_or_ne m k
  · simpa [Queues.pushBack] using (represents m head).pushBack (not_mem_ring head alone ne)
  · have fresh := not_mem_ring head' alone other
    have mine := apart head head' differ.symm ((represents k head).path.prev_mem)
    simpa [Queues.pushBack, differ] using
      ((represents m head').link mine fresh).link fresh (apart head head' differ.symm List.mem_cons_self)

theorem pushFront (represents : Represents s q) (free : q.holder k = none ∧ q.Alone x ∧ k ≠ x) :
    Represents ((s.link k x).link x (s.next k)) (q.pushFront k x free) := by
  intro m unheld
  obtain ⟨head, alone, ne⟩ := free
  obtain rfl | other := eq_or_ne m x
  · simp [Queues.pushFront] at unheld
  have head' : q.holder m = none := by simpa [Queues.pushFront, other] using unheld
  obtain rfl | differ := eq_or_ne m k
  · simpa [Queues.pushFront] using (represents m head).pushFront (not_mem_ring head alone ne)
  · have fresh := not_mem_ring head' alone other
    have mine := apart head head' differ.symm ((represents k head).path.next_mem)
    simpa [Queues.pushFront, differ] using
      ((represents m head').link (apart head head' differ.symm List.mem_cons_self) fresh).link fresh mine

theorem release (represents : Represents s q) (holds : q.holder x = some k) :
    Represents (erase s x) (q.release x holds) := by
  intro m unheld
  have member := (q.inStep.mem_iff k x).mpr holds
  obtain ⟨none_, head⟩ := q.flat x k holds
  obtain rfl | other := eq_or_ne m x
  · have apart_ : m ≠ k := fun same => by simp [same, head] at holds
    rw [show (q.release m holds).held m = [] by simpa [Queues.release, apart_] using none_]
    exact ring_link_self _ m
  have head' : q.holder m = none := by simpa [Queues.release, other] using unheld
  have ring := represents k head
  obtain ⟨xs, ys, split⟩ := List.append_of_mem member
  rw [split] at ring
  obtain ⟨before, behind⟩ := ring.neighbours
  obtain rfl | differ := eq_or_ne m k
  · have gone := ring.not_mem_others
    have left : (q.held m).erase x = xs ++ ys := by
      rw [split, List.erase_append_right _ fun member => gone (by simp [member]), List.erase_cons_head]
    rw [show (q.release x holds).held m = xs ++ ys by simp [Queues.release, left]]
    exact ring.remove.link gone gone
  · have subset : k :: (xs ++ ys) ⊆ k :: q.held k := split ▸ List.cons_subset_cons k (by simp)
    have foreign (y : α) (member : y ∈ k :: q.held k) : y ∉ m :: q.held m := apart head head' differ.symm member
    rw [show (q.release x holds).held m = q.held m by simp [Queues.release, differ]]
    exact ((represents m head').link (foreign _ (subset before)) (foreign _ (subset behind))).link
      (foreign x (List.mem_cons_of_mem k member)) (foreign x (List.mem_cons_of_mem k member))

/-- A queue that stands alone may be erased as well. -/
private theorem erase_of_alone (represents : Represents s q) (alone : q.Alone x) : Represents (erase s x) q := by
  intro m head
  have mine := represents x alone.1
  rw [alone.2, ring_nil] at mine
  obtain rfl | other := eq_or_ne m x
  · exact alone.2 ▸ ring_link_self _ m
  · have away : x ∉ m :: q.held m := not_mem_ring head alone other
    rw [erase, listDel, listClear, mine.1, mine.2]
    exact ((represents m head).link away away).link away away

theorem out (represents : Represents s q) (none_ : q.held x = []) : Represents (erase s x) (q.out x) := by
  rw [Queues.out]
  split
  · next k holds => exact represents.release holds
  · next free => exact represents.erase_of_alone ⟨free, none_⟩

/-- What is taken from behind a queue, if anything is. -/
private theorem out_of_mem (represents : Represents s q) {found : Option α} (behind : ∀ x ∈ found, x ∈ q.held k) :
    Represents (found.elim s (erase s)) (found.elim q q.out) := by
  cases found with
  | none => exact represents
  | some x => exact represents.out (q.flat x k ((q.inStep.mem_iff k x).mp (behind x rfl))).1

theorem pass (represents : Represents s q) (free : q.holder k = none ∧ q.Alone k' ∧ k ≠ k') (some_ : q.held k ≠ []) :
    Represents (listClear ((s.link (s.prev k) k').link k' (s.next k)) k) (q.pass k k' free) := by
  intro m unheld
  obtain ⟨head, alone, ne⟩ := free
  have head' : q.holder m = none := by
    by_contra holds
    simp only [Queues.pass] at unheld
    split at unheld
    · cases unheld
    · exact holds unheld
  obtain rfl | other := eq_or_ne m k
  · rw [show (q.pass m k' _).held m = [] by simp [Queues.pass]]
    exact ring_link_self _ m
  obtain rfl | differ := eq_or_ne m k'
  · rw [show (q.pass k m _).held m = q.held k by simp [Queues.pass, other]]
    have gone : k ∉ m :: q.held k := by
      simpa [other.symm] using (List.nodup_cons.mp (represents k head).nodup).1
    exact ((represents k head).pass some_ (not_mem_ring head alone ne)).link gone gone
  · have foreign (y : α) (member : y ∈ k :: q.held k) : y ∉ m :: q.held m := apart head head' other.symm member
    have fresh := not_mem_ring head' alone differ
    have mine := foreign k List.mem_cons_self
    rw [show (q.pass k k' _).held m = q.held m by simp [Queues.pass, other, differ]]
    exact (((represents m head').link (foreign _ (represents k head).path.prev_mem) fresh).link fresh
      (foreign _ (represents k head).path.next_mem)).link mine mine

end Represents

/-! ## The calls -/

/-- A node that is in neither place is linked between two others. -/
private theorem listAdd_eq {new prev next : α} (left : s.next prev ≠ new) (right : s.prev next ≠ new) (ne : new ≠ next) :
    listAdd s new prev next = some ((s.link prev new).link new next) := by
  simp [listAdd, left, right, link, Function.update_comm ne]

private theorem listMove_eq {prev next : α} (alone : empty s k = true) (ne : k ≠ next) :
    listMove s k prev next = some ((s.link prev k).link k next) := by
  simp [listMove, alone, link, Function.update_comm ne]

namespace Represents

private theorem pushBack_eq (represents : Represents s q) (free : q.holder k = none ∧ q.Alone x ∧ k ≠ x) :
    Queue.pushBack s k x = some ((s.link (s.prev k) x).link x k) := by
  have ring := represents k free.1
  refine listAdd_eq (fun same => free.2.2 (ring.path.next_prev.symm.trans same)) (fun same => ?_) free.2.2.symm
  exact not_mem_ring free.1 free.2.1 free.2.2 (same ▸ ring.path.prev_mem)

private theorem pushFront_eq (represents : Represents s q) (free : q.holder k = none ∧ q.Alone x ∧ k ≠ x) :
    Queue.pushFront s k x = some ((s.link k x).link x (s.next k)) := by
  have ring := represents k free.1
  have absent : s.next k ≠ x := fun same => not_mem_ring free.1 free.2.1 free.2.2 (same ▸ ring.path.next_mem)
  exact listAdd_eq absent (fun same => free.2.2 (ring.path.prev_next.symm.trans same)) absent.symm

theorem popFront_eq (represents : Represents s q) (head : q.holder k = none) :
    Queue.popFront s k = ((q.held k).head?, (q.held k).head?.elim s (erase s)) := by
  have found := represents.empty_iff head
  have path := (represents k head).path
  rw [Queue.popFront]
  cases at_ : q.held k with
  | nil => simp [found.mpr at_]
  | cons x xs =>
    rw [at_] at path
    simp [mt found.mp (at_ ▸ List.cons_ne_nil x xs), path.1.1]

private theorem popBack_eq (represents : Represents s q) (head : q.holder k = none) :
    Queue.popBack s k = ((q.held k).getLast?, (q.held k).getLast?.elim s (erase s)) := by
  have found := represents.empty_iff head
  have last := (represents k head).path.prev_eq
  rw [Queue.popBack]
  obtain at_ | some_ := eq_or_ne (q.held k) []
  · simp [found.mpr at_, at_]
  · rw [List.getLast_cons some_] at last
    simp [mt found.mp some_, last, List.getLast?_eq_getLast_of_ne_nil some_]

private theorem moveTo_eq (represents : Represents s q) (free : q.holder k = none ∧ q.Alone k' ∧ k ≠ k')
    (some_ : q.held k ≠ []) :
    Queue.moveTo s k k' = some (true, listClear ((s.link (s.prev k) k').link k' (s.next k)) k) := by
  obtain ⟨head, alone, ne⟩ := free
  have unused : empty s k' = true := (represents.empty_iff alone.1).mpr alone.2
  have apart_ : k' ≠ s.next k := fun same => not_mem_ring head alone ne (same ▸ (represents k head).path.next_mem)
  simp [Queue.moveTo, mt (represents.empty_iff head).mp some_, unused, listMove_eq unused apart_]

/-- A queue is empty in the sense of the source only if it stands alone. -/
private theorem alone_of_empty (represents : Represents s q) (nothing : empty s x = true) : q.Alone x := by
  suffices head : q.holder x = none from ⟨head, (represents.empty_iff head).mp nothing⟩
  by_contra holds
  obtain ⟨k, holds⟩ := Option.ne_none_iff_exists'.mp holds
  have ring := represents k (q.flat x k holds).2
  obtain ⟨xs, ys, split⟩ := List.append_of_mem ((q.inStep.mem_iff k x).mpr holds)
  rw [split] at ring
  obtain ⟨same, -⟩ : s.prev x = x ∧ s.next x = x := by simpa [Queue.empty] using nothing
  exact ring.not_mem_others (same ▸ ring.neighbours.1)

/-- A call does to the links what it means for the lists. -/
theorem call (represents : Represents s q) (means : q.call c = some (a, q')) :
    ∃ s', Queue.call s c = some (a, s') ∧ Represents s' q' := by
  cases c with
  | pushFront k x =>
    obtain ⟨free, rfl, rfl⟩ : ∃ free, .done = a ∧ q.pushFront k x free = q' := by simpa [Queues.call] using means
    exact ⟨_, by rw [Queue.call, represents.pushFront_eq free]; rfl, represents.pushFront free⟩
  | pushBack k x =>
    obtain ⟨free, rfl, rfl⟩ : ∃ free, .done = a ∧ q.pushBack k x free = q' := by simpa [Queues.call] using means
    exact ⟨_, by rw [Queue.call, represents.pushBack_eq free]; rfl, represents.pushBack free⟩
  | erase x =>
    obtain ⟨none_, rfl, rfl⟩ : q.held x = [] ∧ .node (some x) = a ∧ q.out x = q' := by simpa [Queues.call] using means
    exact ⟨_, rfl, represents.out none_⟩
  | popFront k =>
    obtain ⟨head, rfl, rfl⟩ : q.holder k = none ∧ .node (q.held k).head? = a ∧ (q.held k).head?.elim q q.out = q' := by
      simpa [Queues.call] using means
    refine ⟨_, ?_, represents.out_of_mem (k := k) fun x found => List.mem_of_head? found⟩
    rw [Queue.call, represents.popFront_eq head]
    rfl
  | popBack k =>
    obtain ⟨head, rfl, rfl⟩ :
        q.holder k = none ∧ .node (q.held k).getLast? = a ∧ (q.held k).getLast?.elim q q.out = q' := by
      simpa [Queues.call] using means
    refine ⟨_, ?_, represents.out_of_mem (k := k) fun x found => List.mem_of_getLast? found⟩
    rw [Queue.call, represents.popBack_eq head]
    rfl
  | moveTo k k' =>
    rw [Queues.call] at means
    split_ifs at means with free nothing head
    · obtain ⟨rfl, rfl⟩ : .moved false = a ∧ q = q' := by simpa [nothing] using means
      exact ⟨s, by simp [Queue.call, Queue.moveTo, (represents.empty_iff free.1).mpr nothing], represents⟩
    · obtain ⟨rfl, rfl⟩ : .moved true = a ∧ q.pass k k' free = q' := by simpa [nothing] using means
      exact ⟨_, by rw [Queue.call, represents.moveTo_eq free nothing]; rfl, represents.pass free nothing⟩
    · obtain ⟨rfl, rfl⟩ : .moved false = a ∧ q = q' := by simpa using means
      refine ⟨s, ?_, represents⟩
      have refused : (empty s k || !empty s k') = true := by
        by_contra accepted
        rw [Bool.not_eq_true, Bool.or_eq_false_iff, Bool.not_eq_false'] at accepted
        refine free ⟨head, represents.alone_of_empty accepted.2, fun same => ?_⟩
        rw [same, accepted.2] at accepted
        cases accepted.1
      rw [Queue.call, Queue.moveTo]
      obtain nothing | used := Bool.or_eq_true_iff.mp refused <;> simp_all

end Represents

open Transition in
/-- Over every sequence of calls that mean something for the lists, the links give the same answers, and then they are as the
lists say. -/
theorem calls_on_links {cs : List (Call α)} {as : List (Answer α)} (run : answers Queues.call start cs = some (as, q)) :
    ∃ s, answers Queue.call {} cs = some (as, s) ∧ ∀ k, q.holder k = none → s.Ring k (q.held k) :=
  have simulated : ∃ s, answers Queue.call {} cs = some (as, s) ∧ Represents s q :=
    answers_simulated (fun q s c a q' (represents : Represents s q) (means : q.call c = some (a, q')) =>
      represents.call means) represents_start run
  simulated

open Transition in
theorem calls_on_links_moved : ∃ s, answers Queue.call {} [.pushBack 0 1, .pushFront 0 2, .moveTo 0 3, .popBack 3] =
      some ([.done, .done, .moved true, .node (some 1)], s) ∧ s.Ring 3 [2] := by
  have run : answers Queues.call start [.pushBack 0 1, .pushFront 0 2, .moveTo 0 3, .popBack 3] =
    some ([.done, .done, .moved true, .node (some 1)], _) := rfl
  obtain ⟨s, ran, rings⟩ := calls_on_links run
  exact ⟨s, ran, rings 3 rfl⟩

end Queues

/-! ## Events -/

namespace Async

open Transition

variable {s s' : Async} {m m' : Links Node} {a : Act} {k : ℕ}
variable {queue : List ℕ}

/-- The queues of a thread are those of a `co_async` and of the event loop, and the events that are still to come stand
alone. -/
structure Shown (q : Queues Node) (s : Async) : Prop where
  queue : q.held .queue = s.queue.map .event
  loop : q.held .loop = s.loop.map .event
  events : ∀ k, q.held (.event k) = []
  heads : q.holder .queue = none ∧ q.holder .loop = none
  fresh : ∀ k, s.waiters.length ≤ k → q.holder (.event k) = none

/-- The links of a thread are as its lists say. -/
def Linked (s : Async) (m : Links Node) : Prop := ∃ q, Shown q s ∧ Queues.Represents m q

private theorem linked_start : Linked {} {} :=
  ⟨Queues.start, ⟨rfl, rfl, fun _ => rfl, ⟨rfl, rfl⟩, fun _ _ => rfl⟩, Queues.represents_start⟩

namespace Shown

variable {q : Queues Node} (shown : Shown q s)

include shown

/-- An event leaves the queue that it is in. -/
theorem unlink (k : ℕ) : Shown (q.out (.event k)) (s.unlink k) where
  queue := by
    rw [Queues.held_out, shown.queue, Async.unlink, List.map_erase fun _ _ same => Node.event.inj same]
  loop := by
    rw [Queues.held_out, shown.loop, Async.unlink, List.map_erase fun _ _ same => Node.event.inj same]
  events j := by rw [Queues.held_out, shown.events, List.erase_nil]
  heads := by simp [Queues.holder_out, shown.heads]
  fresh j above := by rw [Queues.holder_out, shown.fresh j above, ite_self]

/-- An event is in one queue only, and there once. -/
private theorem not_mem_loop (queued : k ∈ s.queue) : k ∉ s.loop := fun looped => by
  have first : Node.event k ∈ q.held .queue := shown.queue ▸ List.mem_map_of_mem queued
  have second : Node.event k ∈ q.held .loop := shown.loop ▸ List.mem_map_of_mem looped
  cases q.inStep.unique first second

theorem popQueue (front : s.queue = k :: queue) : Shown (q.out (.event k)) { s with queue } := by
  have absent : k ∉ s.loop := shown.not_mem_loop (front ▸ List.mem_cons_self)
  simpa [Async.unlink, front, List.erase_of_not_mem absent] using shown.unlink k

theorem popLoop {loop : List ℕ} (front : s.loop = k :: loop) : Shown (q.out (.event k)) { s with loop } := by
  have absent : k ∉ s.queue := fun queued => shown.not_mem_loop queued (front ▸ List.mem_cons_self)
  simpa [Async.unlink, front, List.erase_of_not_mem absent] using shown.unlink k

end Shown

namespace Linked

variable (linked : Linked s m)

include linked

/-- What the links show in front is what is in front. -/
private theorem fronts : (Queue.popFront m .queue).1 = s.queue.head?.map .event ∧
    (Queue.popFront m .loop).1 = s.loop.head?.map .event := by
  obtain ⟨q, shown, represents⟩ := linked
  simp [represents.popFront_eq shown.heads.1, represents.popFront_eq shown.heads.2, shown.queue, shown.loop]

private theorem rings : m.Ring .queue (s.queue.map .event) ∧ m.Ring .loop (s.loop.map .event) := by
  obtain ⟨q, shown, represents⟩ := linked
  exact ⟨shown.queue ▸ represents _ shown.heads.1, shown.loop ▸ represents _ shown.heads.2⟩

/-- Only the queues count, and how many events there are. -/
theorem of_same (queue : s'.queue = s.queue) (loop : s'.loop = s.loop)
    (length : s'.waiters.length = s.waiters.length) : Linked s' m := by
  obtain ⟨q, shown, represents⟩ := linked
  exact ⟨q, ⟨queue ▸ shown.queue, loop ▸ shown.loop, shown.events, shown.heads, length ▸ shown.fresh⟩, represents⟩

theorem change (k : ℕ) (f : Waiter → Option Waiter) : Linked (s.change k f) m := by
  rw [Async.change]
  split
  · exact linked.of_same rfl rfl (List.length_set ..)
  · exact linked.of_same rfl rfl rfl

private theorem popNothing : (s.queue = [] → Queue.popFront m .queue = (none, m)) ∧
    (s.loop = [] → Queue.popFront m .loop = (none, m)) := by
  obtain ⟨q, shown, represents⟩ := linked
  constructor
  · exact fun nothing => by simp [represents.popFront_eq shown.heads.1, shown.queue, nothing]
  · exact fun nothing => by simp [represents.popFront_eq shown.heads.2, shown.loop, nothing]

/-- What is in front of the queue of the `co_async`, or of the event loop, leaves it. -/
theorem popQueue (front : s.queue = k :: queue) :
    ∃ m', Queue.popFront m .queue = (some (.event k), m') ∧ Linked { s with queue } m' := by
  obtain ⟨q, shown, represents⟩ := linked
  refine ⟨erase m (.event k), ?_, q.out (.event k), shown.popQueue front, represents.out (shown.events k)⟩
  simp [represents.popFront_eq shown.heads.1, shown.queue, front]

theorem popLoop {loop : List ℕ} (front : s.loop = k :: loop) :
    ∃ m', Queue.popFront m .loop = (some (.event k), m') ∧ Linked { s with loop } m' := by
  obtain ⟨q, shown, represents⟩ := linked
  refine ⟨erase m (.event k), ?_, q.out (.event k), shown.popLoop front, represents.out (shown.events k)⟩
  simp [represents.popFront_eq shown.heads.2, shown.loop, front]

theorem suspend (caller tid : ℕ) (reserved : Int64) :
    ∃ m', Queue.pushBack m .queue (.event s.waiters.length) = some m' ∧ Linked (s.suspend caller tid reserved) m' := by
  obtain ⟨q, shown, represents⟩ := linked
  have free : q.holder .queue = none ∧ q.Alone (.event s.waiters.length) ∧ Node.queue ≠ .event s.waiters.length :=
    ⟨shown.heads.1, ⟨shown.fresh _ (Nat.le_refl _), shown.events _⟩, nofun⟩
  refine ⟨_, represents.pushBack_eq free, q.pushBack _ _ free, ?_, represents.pushBack free⟩
  constructor
  · simp [Queues.pushBack, Async.suspend, shown.queue]
  · simp [Queues.pushBack, Async.suspend, shown.loop]
  · intro j
    simp [Queues.pushBack, shown.events]
  · simp [Queues.pushBack, shown.heads]
  · intro j above
    have later : s.waiters.length + 1 ≤ j := by simpa [Async.suspend] using above
    have other : j ≠ s.waiters.length := by omega
    simpa [Queues.pushBack, other] using shown.fresh j (by omega)

theorem resumeNextLoop (front : s.queue = k :: queue) :
    ∃ m' m'', Queue.popFront m .queue = (some (.event k), m') ∧ Queue.pushBack m' .loop (.event k) = some m'' ∧
      Linked { s with queue, loop := s.loop ++ [k] } m'' := by
  obtain ⟨q, shown, represents⟩ := linked
  have member : Node.event k ∈ q.held .queue := by simp [shown.queue, front]
  have holds := (q.inStep.mem_iff _ _).mp member
  have popped := shown.popQueue front
  have free : (q.out (.event k)).holder .loop = none ∧ (q.out (.event k)).Alone (.event k) ∧ Node.loop ≠ .event k :=
    ⟨popped.heads.2, ⟨by simp [Queues.holder_out], popped.events k⟩, nofun⟩
  have taken := represents.out (shown.events k)
  refine ⟨erase m (.event k), _, ?_, taken.pushBack_eq free, Queues.pushBack _ _ _ free, ?_, taken.pushBack free⟩
  · simp [represents.popFront_eq shown.heads.1, shown.queue, front]
  constructor
  · simp [Queues.pushBack, popped.queue]
  · simp [Queues.pushBack, popped.loop]
  · intro j
    simp [Queues.pushBack, popped.events]
  · simp [Queues.pushBack, popped.heads]
  · intro j above
    have other : j ≠ k := fun same => by simp [shown.fresh j above, ← same] at holds
    simpa [Queues.pushBack, other] using popped.fresh j above

theorem destroy (k : ℕ) : Linked (s.unlink k) (if Queue.empty m (.event k) then m else erase m (.event k)) := by
  obtain ⟨q, shown, represents⟩ := linked
  refine ⟨q.out (.event k), shown.unlink k, ?_⟩
  split
  · next nothing =>
    have alone := represents.alone_of_empty nothing
    have same : q.out (.event k) = q := by
      rw [Queues.out]
      split
      · next holds => simp [alone.1] at holds
      · rfl
    rwa [same]
  · exact represents.out (shown.events k)

/-- An act that the lists allow does not assert, and keeps the links as the lists say. -/
theorem act (acts : s.act a = some s') : ∃ m', linkAct m s.waiters.length a = some m' ∧ Linked s' m' := by
  cases a with
  | destroy k => exact ⟨_, rfl, by cases acts; exact linked.destroy k⟩
  | call c =>
    cases c with
    | suspend caller tid reserved => cases acts; exact linked.suspend caller tid reserved
    | awaitReady k =>
      obtain ⟨-, ⟨⟩⟩ := Option.ite_none_right_eq_some.mp acts
      exact ⟨m, rfl, linked.change _ _⟩
    | awaitSuspend k =>
      obtain ⟨-, ⟨⟩⟩ := Option.ite_none_right_eq_some.mp acts
      exact ⟨m, rfl, linked.change _ _⟩
    | resume v =>
      cases acts
      rw [Async.resume, Async.popFront]
      cases front : s.queue with
      | nil => exact ⟨m, by simp [linkAct, linked.popNothing.1 front], linked⟩
      | cons k queue =>
        obtain ⟨m', popped, taken⟩ := linked.popQueue front
        have woken : Linked { s with queue, woken := s.woken ++ [(k, v)] } m' := taken.of_same rfl rfl rfl
        exact ⟨m', by simp [linkAct, popped], (woken.change _ _).change _ _⟩
    | resumeNextLoop =>
      cases acts
      rw [Async.resumeNextLoop, Async.popFront]
      cases front : s.queue with
      | nil => exact ⟨m, by simp [linkAct, linked.popNothing.1 front], linked⟩
      | cons k queue =>
        obtain ⟨m', m'', popped, pushed, moved⟩ := linked.resumeNextLoop front
        exact ⟨m'', by simp [linkAct, popped, pushed], moved.of_same rfl rfl rfl⟩
    | localResume =>
      cases acts
      rw [Async.localResume]
      cases front : s.loop with
      | nil => exact ⟨m, by simp [linkAct, linked.popNothing.2 front], linked⟩
      | cons k loop =>
        obtain ⟨m', popped, taken⟩ := linked.popLoop front
        exact ⟨m', by simp [linkAct, popped], (taken.change _ _).change _ _⟩

theorem step (step : LinkedStep (s, m) a (s', m')) : Linked s' m' := by
  obtain ⟨m'', links, kept⟩ := linked.act step.1
  obtain rfl : m'' = m' := Option.some.inj (links.symm.trans step.2)
  exact kept

end Linked

/-- In every run the links of a thread are those of its queues: the queue of the `co_async` and that of the event loop
show in front who has waited there the longest, and whatever comes next, no assertion of a queue fails. -/
theorem events_on_links (run : Reaches LinkedStep ({}, {}) (s, m)) :
    (m.Ring .queue (s.queue.map .event) ∧ m.Ring .loop (s.loop.map .event)) ∧
      ((Queue.popFront m .queue).1 = s.queue.head?.map .event ∧ (Queue.popFront m .loop).1 = s.loop.head?.map .event) ∧
      ∀ a s', s.act a = some s' → ∃ m', LinkedStep (s, m) a (s', m') := by
  have keeps (t : Async × Links Node) (a : Act) (t' : Async × Links Node) (linked : Linked t.1 t.2)
    (step : LinkedStep t a t') : Linked t'.1 t'.2 := linked.step step
  have linked := run.invariant keeps linked_start
  refine ⟨linked.rings, linked.fronts, fun a s' acts => ?_⟩
  obtain ⟨m', links, -⟩ := linked.act acts
  exact ⟨m', acts, links⟩

private theorem reaches_act {start : Async × Links Node} (run : Reaches LinkedStep start (s, m)) (acts : s.act a = some s')
    (links : linkAct m s.waiters.length a = some m') : Reaches LinkedStep start (s', m') := run.tail ⟨acts, links⟩

/-- Three coroutines wait: the first is left to the event loop, and the second is destroyed. -/
theorem events_on_links_destroyed : ∃ s m, Reaches LinkedStep ({}, {}) (s, m) ∧ m.Ring .queue [.event 2] ∧
    m.Ring .loop [.event 0] := by
  have first := reaches_act (Reaches.refl ({}, {})) (a := .call (.suspend 7 0 0)) rfl rfl
  have second := reaches_act first (a := .call (.suspend 8 0 0)) rfl rfl
  have third := reaches_act second (a := .call (.suspend 9 0 0)) rfl rfl
  have left := reaches_act third (a := .call .resumeNextLoop) rfl rfl
  have run := reaches_act left (a := .destroy 1) rfl rfl
  exact ⟨_, _, run, (events_on_links run).1⟩

end Async

end Coev
