import Coev.Proofs.Kafka.Subscriptions
import Coev.ToMathlib.Holdings

/-! # A reassignment keeps its maps in step

Whatever is assigned, set aside or moved, what a member has and who has a partition say the same, and each member may consume
what it has. What a reassignment says about a member includes the members that were set aside.
-/

namespace Coev.Kafka

open Std (ExtTreeMap)
open Holdings

/-! ## Assignments as functions -/

namespace Assignment

variable {a : Assignment} {m n : Bytes}

theorem of_insert (a : Assignment) (m : Bytes) (l : List TopicPartition) :
    Assignment.of (a.insert m l) = Function.update a.of m l := by
  funext n
  rw [Assignment.of, ExtTreeMap.getD_insert_eq, Function.update_apply]
  exact if_congr eq_comm rfl rfl

theorem of_eq_nil (absent : m ∉ a) : a.of m = [] := ExtTreeMap.getD_eq_fallback absent

theorem getElem?_eq_some_of (member : m ∈ a) : a[m]? = some (a.of m) := ExtTreeMap.getElem?_eq_some_getD member

theorem of_eq_of_getElem? {l : List TopicPartition} (found : a[m]? = some l) : a.of m = l :=
  ExtTreeMap.getD_of_getElem? found []

/-- Where a member has an entry, `operator[]` changes nothing. -/
theorem touch_eq (member : m ∈ a) : a.touch m = a := ExtTreeMap.insertIfNew_of_mem member []

theorem mem_sort : m ∈ sortMemberIDsByPartitionAssignments a ↔ m ∈ a := by
  rw [sortMemberIDsByPartitionAssignments, List.mem_insertionSort, ExtTreeMap.mem_keys]

end Assignment

/-- What a member has, those set aside included. -/
def held (fixed current : Assignment) (m : Bytes) : List TopicPartition := if m ∈ fixed then fixed.of m else current.of m

variable {fixed current : Assignment} {m n : Bytes} {p q : TopicPartition}

theorem held_of_mem (aside : m ∈ fixed) : held fixed current m = fixed.of m := if_pos aside

theorem held_of_notMem (free : m ∉ fixed) : held fixed current m = current.of m := if_neg free

theorem held_empty (current : Assignment) : held ∅ current = current.of := by
  funext m
  exact held_of_notMem ExtTreeMap.not_mem_empty

theorem held_insert (free : m ∉ fixed) (l : List TopicPartition) :
    held fixed (current.insert m l) = Function.update (held fixed current) m l := by
  funext n
  obtain rfl | other := eq_or_ne n m
  · rw [held_of_notMem free, Assignment.of_insert, Function.update_self, Function.update_self]
  · rw [Function.update_of_ne other, held, held, Assignment.of_insert, Function.update_of_ne other]

/-! ## Moves and their records -/

namespace PartitionMovements

/-- The partitions of a topic that were moved from one member to another. -/
def moved (s : PartitionMovements) (topic : Bytes) (pair : ConsumerMovement) : TopicPartitionMap Bool :=
  (s.partitionMovementsByTopic.getD topic ∅).getD pair ∅

/-- A partition has a record under a topic. -/
def Recorded (s : PartitionMovements) (topic : Bytes) (p : TopicPartition) : Prop := ∃ pair, p ∈ s.moved topic pair

variable {s : PartitionMovements} {topic : Bytes}

theorem recorded_add {pair : ConsumerMovement} (recorded : (s.addPartitionMovementRecord q pair).Recorded topic p) :
    s.Recorded topic p ∨ topic = q.1 ∧ p = q := by
  obtain ⟨pair', member⟩ := recorded
  rw [moved, addPartitionMovementRecord, ExtTreeMap.getD_insert_eq] at member
  split at member
  next same =>
    subst same
    rw [ExtTreeMap.getD_insert_eq] at member
    split at member
    next =>
      obtain rfl | before := ExtTreeMap.mem_insert_eq.mp member
      · exact .inr ⟨rfl, rfl⟩
      · exact .inl ⟨pair, before⟩
    next => exact .inl ⟨pair', member⟩
  next => exact .inl ⟨pair', member⟩

theorem recorded_remove (recorded : (s.removeMovementRecordOfPartition q).2.Recorded topic p) : s.Recorded topic p := by
  obtain ⟨pair, member⟩ := recorded
  rw [moved, removeMovementRecordOfPartition, ExtTreeMap.getD_erase_or_insert] at member
  split at member
  next same =>
    subst same
    rw [ExtTreeMap.getD_erase_or_insert] at member
    split at member
    next => exact ⟨_, (ExtTreeMap.mem_erase_eq.mp member).2⟩
    next => exact ⟨pair, member⟩
  next => exact ⟨pair, member⟩

theorem recorded_move {oldConsumer newConsumer : Bytes}
    (recorded : (s.movePartition q oldConsumer newConsumer).Recorded topic p) :
    s.Recorded topic p ∨ topic = q.1 ∧ p = q := by
  unfold movePartition at recorded
  split at recorded
  next =>
    change (if (s.removeMovementRecordOfPartition q).1.1 ≠ newConsumer then
      (s.removeMovementRecordOfPartition q).2.addPartitionMovementRecord q _
      else (s.removeMovementRecordOfPartition q).2).Recorded topic p at recorded
    split at recorded
    next =>
      obtain before | added := recorded_add recorded
      · exact .inl (recorded_remove before)
      · exact .inr added
    next => exact .inl (recorded_remove recorded)
  next => exact recorded_add recorded

/-- What is moved is the partition itself, or one with a record under its topic. -/
theorem actual_eq_or_recorded {oldConsumer newConsumer : Bytes}
    (actual : s.getTheActualPartitionToBeMoved q oldConsumer newConsumer = some p) : p = q ∨ s.Recorded q.1 p := by
  unfold getTheActualPartitionToBeMoved at actual
  split at actual
  next => exact .inl (Option.some.inj actual).symm
  next pairs found =>
    -- a record of the partition itself only chooses the pair
    split at actual
    all_goals
      dsimp only at actual
      split at actual
      next => exact .inl (Option.some.inj actual).symm
      next partitions inner =>
        have member := ExtTreeMap.mem_keys.mp (List.mem_of_head? actual)
        rw [← ExtTreeMap.getD_of_getElem? inner ∅, ← ExtTreeMap.getD_of_getElem? found ∅] at member
        exact .inr ⟨_, member⟩

end PartitionMovements

/-! ## Reassignments -/

/-- The member that has a partition. -/
def Reassignment.holder (r : Reassignment) (p : TopicPartition) : Option Bytes := r.currentPartitionConsumer[p]?

theorem holder_insert (owners : TopicPartitionMap Bytes) (p : TopicPartition) (m : Bytes) :
    (fun q => (owners.insert p m)[q]?) = Function.update (fun q => owners[q]?) p (some m) := by
  funext q
  rw [ExtTreeMap.getElem?_insert_eq, Function.update_apply]
  exact if_congr eq_comm rfl rfl

/-- The maps of a reassignment are in step; each member has what it may consume, and the moved partitions are with members
that take part. -/
structure Consistent (s : Subscriptions) (fixed : Assignment) (r : Reassignment) : Prop where
  inStep : InStep (held fixed r.currentAssignment) r.holder
  allowed : ∀ m p, p ∈ held fixed r.currentAssignment m → s.include m p
  present : ∀ m, m ∈ r.currentAssignment ↔ m ∈ s.consumer2AllPotentialPartitions ∧ m ∉ fixed
  sorted : ∀ m, m ∈ r.sortedCurrentSubscriptions ↔ m ∈ r.currentAssignment
  records : ∀ t p, r.movements.Recorded t p → p.1 = t ∧ ∃ m, m ∉ fixed ∧ r.holder p = some m

/-- A member that was set aside has all that it may consume, and nobody else may consume that. -/
def Settled (s : Subscriptions) (fixed : Assignment) : Prop :=
  ∀ m ∈ fixed, ∀ p, s.include m p → p ∈ fixed.of m ∧ (s.partition2AllPotentialConsumers.getD p []).length ≤ 1

variable {s : Subscriptions} {members : Members} {topics : Topics} {r r' : Reassignment} {source target : Bytes}

theorem Reassignment.consumerOf_eq (holds : r.holder p = some source) : r.consumerOf p = (source, r) := by
  have member : p ∈ r.currentPartitionConsumer := ExtTreeMap.mem_iff_isSome_getElem?.mpr (Option.isSome_of_eq_some holds)
  rw [consumerOf, ExtTreeMap.getD_of_getElem? holds, ExtTreeMap.insertIfNew_of_mem member]

namespace Consistent

theorem mem_of_holder (consistent : Consistent s fixed r) (holds : r.holder p = some m) :
    p ∈ held fixed r.currentAssignment m :=
  (consistent.inStep.mem_iff m p).mpr holds

theorem include_of_holder (consistent : Consistent s fixed r) (holds : r.holder p = some m) : s.include m p :=
  consistent.allowed m p (consistent.mem_of_holder holds)

theorem mem_of_include (consistent : Consistent s fixed r) (may : s.include m p) (free : m ∉ fixed) :
    m ∈ r.currentAssignment :=
  (consistent.present m).mpr ⟨Subscriptions.mem_of_include may, free⟩

theorem notMem_of_mem (consistent : Consistent s fixed r) (member : m ∈ r.currentAssignment) : m ∉ fixed :=
  ((consistent.present m).mp member).2

/-- A partition without a holder is given to the first member that may consume it. -/
theorem assign (consistent : Consistent s ∅ r) (free : r.holder p = none) (may : s.include m p) :
    ∃ n, Consistent s ∅ (assignPartition s r p) ∧
      (assignPartition s r p).holder = Function.update r.holder p (some n) := by
  cases found : r.sortedCurrentSubscriptions.find? (s.include · p) with
  | none =>
    have member : m ∈ r.sortedCurrentSubscriptions :=
      (consistent.sorted m).mpr (consistent.mem_of_include may ExtTreeMap.not_mem_empty)
    exact absurd may (List.find?_eq_none.mp found m member)
  | some n =>
    have listed : n ∈ r.currentAssignment := (consistent.sorted n).mp (List.mem_of_find?_eq_some found)
    have takes : s.include n p := List.find?_some (p := fun n => s.include n p) found
    have given := consistent.inStep.give free n
    have holder_eq : (assignPartition s r p).holder = Function.update r.holder p (some n) := by
      funext q
      simp only [Reassignment.holder, assignPartition, found]
      exact congrFun (holder_insert _ _ _) q
    have current_eq : (assignPartition s r p).currentAssignment =
        r.currentAssignment.insert n (r.currentAssignment.of n ++ [p]) := by
      simp only [assignPartition, found]
    have held_eq : held ∅ (assignPartition s r p).currentAssignment =
        Function.update (held ∅ r.currentAssignment) n (held ∅ r.currentAssignment n ++ [p]) := by
      rw [current_eq, held_insert ExtTreeMap.not_mem_empty, held_empty]
    refine ⟨n, ⟨?_, ?_, ?_, ?_, ?_⟩, holder_eq⟩
    · rw [held_eq, holder_eq]
      exact given
    · intro m' q member
      rw [held_eq] at member
      obtain rfl | other := eq_or_ne m' n
      · rw [Function.update_self, List.mem_append, List.mem_singleton] at member
        obtain before | rfl := member
        · exact consistent.allowed m' q before
        · exact takes
      · rw [Function.update_of_ne other] at member
        exact consistent.allowed m' q member
    · intro m'
      rw [current_eq, ExtTreeMap.mem_insert_eq, ← consistent.present]
      exact or_iff_right_of_imp fun same => same ▸ listed
    · intro m'
      exact Assignment.mem_sort
    · intro t q recorded
      simp only [assignPartition, found] at recorded
      obtain ⟨same, m', free', holds⟩ := consistent.records t q recorded
      refine ⟨same, m', free', ?_⟩
      rw [holder_eq, Function.update_of_ne, holds]
      rintro rfl
      rw [holds] at free
      cases free

/-- A partition is moved from its member to another one, neither of them set aside. -/
theorem process (consistent : Consistent s fixed r) (holds : r.holder p = some source) (freeSource : source ∉ fixed)
    (may : s.include target p) (freeTarget : target ∉ fixed) :
    Consistent s fixed (processPartitionMovement p target r) ∧
      (processPartitionMovement p target r).holder = Function.update r.holder p (some target) := by
  have listed : source ∈ r.currentAssignment := consistent.mem_of_include (consistent.include_of_holder holds) freeSource
  have listed' : target ∈ r.currentAssignment := consistent.mem_of_include may freeTarget
  let removed : Assignment := r.currentAssignment.insert source ((r.currentAssignment.of source).erase p)
  have current_eq :
      (processPartitionMovement p target r).currentAssignment = removed.insert target (removed.of target ++ [p]) := by
    rw [processPartitionMovement, Reassignment.consumerOf_eq holds]
  have holder_eq : (processPartitionMovement p target r).holder = Function.update r.holder p (some target) := by
    funext q
    rw [processPartitionMovement, Reassignment.consumerOf_eq holds]
    exact congrFun (holder_insert _ _ _) q
  have held_eq : held fixed (processPartitionMovement p target r).currentAssignment =
      move (held fixed r.currentAssignment) p source target := by
    have ofTarget : held fixed removed target = removed.of target := held_of_notMem freeTarget
    have ofSource : held fixed r.currentAssignment source = r.currentAssignment.of source := held_of_notMem freeSource
    rw [current_eq, held_insert freeTarget, ← ofTarget, held_insert freeSource, ← ofSource]
    rfl
  have moved := consistent.inStep.move holds target
  refine ⟨⟨?_, ?_, ?_, ?_, ?_⟩, holder_eq⟩
  · rw [held_eq, holder_eq]
    exact moved
  · intro m q member
    rw [held_eq, mem_move consistent.inStep holds] at member
    split at member
    next same =>
      subst same member
      exact may
    next => exact consistent.allowed m q member
  · intro m
    rw [current_eq, ExtTreeMap.mem_insert_eq, ExtTreeMap.mem_insert_eq, ← consistent.present]
    constructor
    · rintro (rfl | rfl | before)
      · exact listed'
      · exact listed
      · exact before
    · exact fun before => .inr (.inr before)
  · intro m
    rw [processPartitionMovement, Reassignment.consumerOf_eq holds]
    exact Assignment.mem_sort
  · intro t q recorded
    rw [processPartitionMovement, Reassignment.consumerOf_eq holds] at recorded
    rw [holder_eq]
    obtain before | ⟨rfl, rfl⟩ := PartitionMovements.recorded_move recorded
    · obtain ⟨same, m, free, holds'⟩ := consistent.records t q before
      refine ⟨same, ?_⟩
      obtain rfl | other := eq_or_ne q p
      · rw [Function.update_self]
        exact ⟨target, freeTarget, rfl⟩
      · rw [Function.update_of_ne other]
        exact ⟨m, free, holds'⟩
    · rw [Function.update_self]
      exact ⟨rfl, target, freeTarget, rfl⟩

end Consistent

end Coev.Kafka
