import Coev.Proofs.Kafka.Reassignment

/-! # Where a reassignment ends

Every move keeps the maps in step, and goes between members that take part. A round that modifies nothing leaves the state
as it is, so the members are then balanced with respect to each partition that could have been moved.
-/

namespace Coev.Kafka

open Std (ExtTreeMap)
open Holdings

variable {s : Subscriptions} {members : Members} {topics : Topics} {fixed : Assignment} {r r' : Reassignment}
  {m n source target consumer : Bytes} {p q : TopicPartition}
variable {modified : Bool}

/-- The maps are in step, and every partition that somebody may consume has a member. -/
structure Placed (s : Subscriptions) (fixed : Assignment) (r : Reassignment) : Prop where
  consistent : Consistent s fixed r
  complete : ∀ m p, s.include m p → ∃ n, r.holder p = some n

/-- No member that may consume the partition has at least two less than the member that has it. The empty string stands for
no member. -/
def FairAt (s : Subscriptions) (fixed : Assignment) (r : Reassignment) (p : TopicPartition) : Prop :=
  ∀ m n, r.holder p = some m → m ≠ [] → s.include n p →
    (held fixed r.currentAssignment m).length ≤ (held fixed r.currentAssignment n).length + 1

/-- A partition that several members may consume is with none that was set aside. -/
theorem Settled.notMem (settled : Settled s fixed) (may : s.include m p)
    (shared : 1 < (s.partition2AllPotentialConsumers.getD p []).length) : m ∉ fixed :=
  fun aside => absurd (settled m aside p may).2 (not_le.mpr shared)

theorem Placed.process (placed : Placed s fixed r) (holds : r.holder p = some source) (freeSource : source ∉ fixed)
    (may : s.include target p) (freeTarget : target ∉ fixed) : Placed s fixed (processPartitionMovement p target r) := by
  obtain ⟨consistent, holder_eq⟩ := placed.consistent.process holds freeSource may freeTarget
  refine ⟨consistent, ?_⟩
  intro m q may'
  rw [holder_eq]
  obtain rfl | other := eq_or_ne q p
  · exact ⟨target, Function.update_self ..⟩
  · rw [Function.update_of_ne other]
    exact placed.complete m q may'

/-- The partition that is moved in place of another one is of the same topic, and with a member that takes part. -/
theorem Placed.reassignPartition (placed : Placed s fixed r) (matches_ : s.Matches members topics)
    (holds : r.holder p = some source) (freeSource : source ∉ fixed) (may : s.include target p) (freeTarget : target ∉ fixed)
    (run : reassignPartition p target r = some r') : Placed s fixed r' := by
  rw [Kafka.reassignPartition, Reassignment.consumerOf_eq holds] at run
  obtain ⟨q, actual, rest⟩ := Option.bind_eq_some_iff.mp run
  obtain rfl := Option.some.inj rest
  obtain rfl | recorded := PartitionMovements.actual_eq_or_recorded actual
  · exact placed.process holds freeSource may freeTarget
  · obtain ⟨same, n, free, holds'⟩ := placed.consistent.records p.1 q recorded
    have may' : s.include target q := matches_.topicwise may same (placed.consistent.include_of_holder holds')
    exact placed.process holds' free may' freeTarget

theorem Placed.reassignPartitionToNewConsumer (placed : Placed s fixed r) (matches_ : s.Matches members topics)
    (holds : r.holder p = some source) (freeSource : source ∉ fixed)
    (run : reassignPartitionToNewConsumer s p r = some r') : Placed s fixed r' := by
  have loop (list : List Bytes) (listed : ∀ m ∈ list, m ∈ r.currentAssignment)
      (run : reassignPartitionToNewConsumer.go s p r list = some r') : Placed s fixed r' := by
    induction list with
    | nil =>
      obtain rfl := Option.some.inj run
      exact placed
    | cons anotherConsumer rest ih =>
      obtain ⟨potential, found, run⟩ := Option.bind_eq_some_iff.mp run
      obtain ⟨here, others⟩ := List.forall_mem_cons.mp listed
      split at run
      next member =>
        have may : s.include anotherConsumer p := by
          rw [Subscriptions.include_eq, ExtTreeMap.getD_of_getElem? found]
          exact member
        exact placed.reassignPartition matches_ holds freeSource may (placed.consistent.notMem_of_mem here) run
      next => exact ih others run
  exact loop r.sortedCurrentSubscriptions (fun m member => (placed.consistent.sorted m).mp member) run

/-! ## The loops -/

theorem tryOthers_spec (placed : Placed s fixed r) (matches_ : s.Matches members topics) (settled : Settled s fixed)
    (shared : 1 < (s.partition2AllPotentialConsumers.getD p []).length) (holds : r.holder p = some consumer)
    {others : List Bytes} (may : ∀ o ∈ others, s.include o p)
    (run : tryOthers s p consumer others r = some (r', modified)) :
    Placed s fixed r' ∧ (modified = false → r' = r ∧
      ∀ o ∈ others, (held fixed r.currentAssignment consumer).length ≤ (held fixed r.currentAssignment o).length + 1) := by
  have mine := placed.consistent.include_of_holder holds
  have free : consumer ∉ fixed := settled.notMem mine shared
  have listed := placed.consistent.mem_of_include mine free
  induction others with
  | nil =>
    cases run
    exact ⟨placed, fun _ => ⟨rfl, fun o member => by cases member⟩⟩
  | cons other others ih =>
    obtain ⟨may, mays⟩ := List.forall_mem_cons.mp may
    have free' : other ∉ fixed := settled.notMem may shared
    have listed' := placed.consistent.mem_of_include may free'
    rw [tryOthers, Assignment.touch_eq listed, Assignment.touch_eq listed'] at run
    split at run
    next =>
      obtain ⟨moved, reassigned, rest⟩ := Option.bind_eq_some_iff.mp run
      cases rest
      exact ⟨placed.reassignPartitionToNewConsumer matches_ holds free reassigned, fun same => by cases same⟩
    next close =>
      obtain ⟨placed', unchanged⟩ := ih mays run
      refine ⟨placed', fun same => ?_⟩
      obtain ⟨rfl, fair⟩ := unchanged same
      refine ⟨rfl, List.forall_mem_cons.mpr ⟨?_, fair⟩⟩
      rw [held_of_notMem free, held_of_notMem free']
      exact not_lt.mp close

theorem tryPartition_spec (placed : Placed s fixed r) (matches_ : s.Matches members topics) (settled : Settled s fixed)
    (run : tryPartition ∅ s p r = some (r', modified)) : Placed s fixed r' ∧ (modified = false → r' = r ∧
      (1 < (s.partition2AllPotentialConsumers.getD p []).length → FairAt s fixed r p)) := by
  obtain ⟨consumers, found, run⟩ := Option.bind_eq_some_iff.mp run
  have consumers_eq := ExtTreeMap.getD_of_getElem? found []
  split at run
  next few =>
    cases run
    exact ⟨placed, fun _ => ⟨rfl, fun shared => absurd few (by rw [consumers_eq] at shared; omega)⟩⟩
  next many =>
    have shared : 1 < (s.partition2AllPotentialConsumers.getD p []).length := by
      rw [consumers_eq]
      omega
    have mays : ∀ o ∈ consumers, s.include o p := by
      intro o member
      rw [← matches_.consumers_iff, consumers_eq]
      exact member
    obtain ⟨first, others, rfl⟩ : ∃ first others, consumers = first :: others := by
      cases consumers with
      | nil => simp at many
      | cons first others => exact ⟨first, others, rfl⟩
    obtain ⟨consumer, holds⟩ := placed.complete first p (mays first List.mem_cons_self)
    rw [Reassignment.consumerOf_eq holds] at run
    dsimp only at run
    split at run
    next empty =>
      cases run
      refine ⟨placed, fun _ => ⟨rfl, ?_⟩⟩
      rintro - m n holds' named -
      obtain rfl := Option.some.inj (holds.symm.trans holds')
      exact absurd (List.isEmpty_iff.mp empty) named
    next =>
      rw [ExtTreeMap.getElem?_empty] at run
      obtain ⟨placed', unchanged⟩ := tryOthers_spec placed matches_ settled shared holds mays run
      refine ⟨placed', fun same => ?_⟩
      obtain ⟨rfl, fair⟩ := unchanged same
      refine ⟨rfl, ?_⟩
      rintro - m n holds' - may
      obtain rfl := Option.some.inj (holds.symm.trans holds')
      rw [← matches_.consumers_iff, consumers_eq] at may
      exact fair n may

/-- A round of the outer loop keeps the maps in step; if it modified nothing, it ended at a balanced assignment or could not
move any partition. -/
theorem tryPartitions_spec (placed : Placed s fixed r) (matches_ : s.Matches members topics) (settled : Settled s fixed)
    {list : List TopicPartition} (run : tryPartitions ∅ s list r = some (r', modified)) :
    Placed s fixed r' ∧ (modified = false → r' = r ∧
      (isBalanced r.currentAssignment s.consumer2AllPotentialPartitions = some true ∨
        ∀ p ∈ list, 1 < (s.partition2AllPotentialConsumers.getD p []).length → FairAt s fixed r p)) := by
  induction list generalizing r modified with
  | nil =>
    cases run
    exact ⟨placed, fun _ => ⟨rfl, .inr fun p member => by cases member⟩⟩
  | cons p list ih =>
    obtain ⟨balanced, judged, run⟩ := Option.bind_eq_some_iff.mp run
    split at run
    next yes =>
      cases run
      exact ⟨placed, fun _ => ⟨rfl, .inl (judged.trans (congrArg some yes))⟩⟩
    next =>
      obtain ⟨⟨moved, first⟩, tried, run⟩ := Option.bind_eq_some_iff.mp run
      obtain ⟨⟨last, more⟩, others, run⟩ := Option.bind_eq_some_iff.mp run
      cases run
      obtain ⟨placed', unchanged⟩ := tryPartition_spec placed matches_ settled tried
      obtain ⟨placed'', unchanged'⟩ := ih placed' others
      refine ⟨placed'', fun same => ?_⟩
      obtain ⟨rfl, rfl⟩ := Bool.or_eq_false_iff.mp same
      obtain ⟨rfl, fair⟩ := unchanged rfl
      obtain ⟨rfl, fairs⟩ := unchanged' rfl
      exact ⟨rfl, fairs.imp_right fun fairs => List.forall_mem_cons.mpr ⟨fair, fairs⟩⟩

/-- Where the outer loop ends, its last round modified nothing. -/
theorem performReassignments_spec (placed : Placed s fixed r) (matches_ : s.Matches members topics)
    (settled : Settled s fixed) {list : List TopicPartition} {fuel : ℕ} {performed : Bool}
    (run : performReassignments ∅ s list fuel r = some (r', performed)) :
    Placed s fixed r' ∧ (isBalanced r'.currentAssignment s.consumer2AllPotentialPartitions = some true ∨
      ∀ p ∈ list, 1 < (s.partition2AllPotentialConsumers.getD p []).length → FairAt s fixed r' p) := by
  induction fuel generalizing r performed with
  | zero => cases run
  | succ fuel ih =>
    obtain ⟨⟨moved, modified⟩, tried, run⟩ := Option.bind_eq_some_iff.mp run
    obtain ⟨placed', unchanged⟩ := tryPartitions_spec placed matches_ settled tried
    cases modified with
    | false =>
      cases run
      obtain ⟨rfl, ends⟩ := unchanged rfl
      exact ⟨placed', ends⟩
    | true =>
      obtain ⟨⟨last, again⟩, others, run⟩ := Option.bind_eq_some_iff.mp run
      cases run
      exact ih placed' others

end Coev.Kafka
