import Coev.Proofs.Kafka.PerformReassignments
import Mathlib.Data.List.Perm.Subperm

/-! # What `isBalanced` and `canConsumerParticipateInReassignment` judge

An assignment that is judged balanced is fair at every partition: either no two members differ by more than one, or every
member was compared with those that have what it may consume. A member that is set aside has all that it may consume.
-/

namespace Coev.Kafka

open Std (ExtTreeMap)
open Holdings

variable {s : Subscriptions} {members : Members} {topics : Topics} {fixed : Assignment} {r : Reassignment}
  {m n : Bytes} {p : TopicPartition} {a : Assignment}

/-! ## The order of the members -/

/-- The members are in the order of their numbers of partitions. -/
theorem pairwise_sort (a : Assignment) :
    (sortMemberIDsByPartitionAssignments a).Pairwise fun x y => (a.of x).length ≤ (a.of y).length := by
  let order (x y : Bytes) : Prop :=
    (a.of x).length < (a.of y).length ∨ (a.of x).length = (a.of y).length ∧ (compare x y).isLE
  have total : Std.Total order := by
    constructor
    intro x y
    obtain less | same | more := lt_trichotomy (a.of x).length (a.of y).length
    · exact .inl (.inl less)
    · cases le : (compare x y).isLE with
      | true => exact .inl (.inr ⟨same, le⟩)
      | false => exact .inr (.inr ⟨same.symm, Std.OrientedCmp.isLE_of_isGE (by revert le; cases compare x y <;> simp)⟩)
    · exact .inr (.inl more)
  have transitive : IsTrans Bytes order := by
    constructor
    rintro x y z (less | ⟨same, le⟩) (less' | ⟨same', le'⟩)
    · exact .inl (less.trans less')
    · exact .inl (same' ▸ less)
    · exact .inl (same ▸ less')
    · exact .inr ⟨same.trans same', Std.TransCmp.isLE_trans le le'⟩
  apply (List.pairwise_insertionSort order a.keys).imp
  rintro x y (less | ⟨same, -⟩)
  · exact less.le
  · exact same.le

theorem le_getLast {α : Type} {f : α → ℕ} {l : List α} (sorted : l.Pairwise fun x y => f x ≤ f y) (some_ : l ≠ []) {x : α}
    (member : x ∈ l) : f x ≤ f (l.getLast some_) := by
  rw [← List.dropLast_append_getLast some_, List.mem_append, List.mem_singleton] at member
  rw [← List.dropLast_append_getLast some_, List.pairwise_append] at sorted
  obtain earlier | rfl := member
  · exact sorted.2.2 x earlier _ (List.mem_singleton_self _)
  · exact le_rfl

/-! ## The members of the partitions -/

/-- The last member that was noted for a partition has it. -/
theorem mem_of_allPartitions (found : (allPartitions a)[p]? = some m) : p ∈ a.of m := by
  have inner (n : Bytes) (partitions : List TopicPartition) (has : ∀ q ∈ partitions, q ∈ a.of n)
      (owners : TopicPartitionMap Bytes) (before : owners[p]? = some m → p ∈ a.of m) :
      (partitions.foldl (fun owners partition => owners.insert partition n) owners)[p]? = some m → p ∈ a.of m := by
    induction partitions generalizing owners with
    | nil => exact before
    | cons q partitions ih =>
      obtain ⟨here, rest⟩ := List.forall_mem_cons.mp has
      apply ih rest
      rw [ExtTreeMap.getElem?_insert_eq]
      split
      next same =>
        rintro ⟨⟩
        exact same ▸ here
      next => exact before
  have outer (entries : List (Bytes × List TopicPartition)) (has : ∀ entry ∈ entries, a.of entry.1 = entry.2)
      (owners : TopicPartitionMap Bytes) (before : owners[p]? = some m → p ∈ a.of m) :
      (entries.foldl (fun owners entry =>
        entry.2.foldl (fun owners partition => owners.insert partition entry.1) owners) owners)[p]? = some m →
          p ∈ a.of m := by
    induction entries generalizing owners with
    | nil => exact before
    | cons entry entries ih =>
      obtain ⟨here, rest⟩ := List.forall_mem_cons.mp has
      apply ih rest
      exact inner entry.1 entry.2 (fun q member => here ▸ member) owners before
  refine outer a.toList (fun entry member => ?_) ∅ (fun none_ => ?_) found
  · exact Assignment.of_eq_of_getElem? (ExtTreeMap.mem_toList_iff_getElem?_eq_some.mp member)
  · rw [ExtTreeMap.getElem?_empty] at none_
    cases none_

theorem allM_eq_some_true {α : Type} {f : α → Option Bool} {l : List α} (all : l.allM f = some true) :
    ∀ x ∈ l, f x = some true := by
  induction l with
  | nil =>
    intro x member
    cases member
  | cons x l ih =>
    rw [List.allM_cons] at all
    obtain ⟨first, head, rest⟩ := Option.bind_eq_some_iff.mp all
    cases first with
    | false => cases rest
    | true => exact List.forall_mem_cons.mpr ⟨head, ih rest⟩

/-! ## Judgments -/

/-- Two members for a partition make it shared. -/
theorem Subscriptions.Matches.shared (matches_ : s.Matches members topics) (first : s.include m p) (second : s.include n p)
    (differ : m ≠ n) : 1 < (s.partition2AllPotentialConsumers.getD p []).length := by
  rw [← matches_.consumers_iff] at first second
  match consumers : s.partition2AllPotentialConsumers.getD p [] with
  | [] =>
    rw [consumers] at first
    cases first
  | [only] =>
    rw [consumers, List.mem_singleton] at first second
    exact absurd (first.trans second.symm) differ
  | _ :: _ :: _ => exact Nat.succ_lt_succ (Nat.succ_pos _)

/-- A member that has as many partitions as it may consume has all of them. -/
theorem Consistent.mem_of_length (consistent : Consistent s fixed r)
    (full : (s.consumer2AllPotentialPartitions.getD m []).length ≤ (held fixed r.currentAssignment m).length)
    (may : s.include m p) : p ∈ held fixed r.currentAssignment m := by
  have within : held fixed r.currentAssignment m ⊆ s.consumer2AllPotentialPartitions.getD m [] :=
    fun q member => Subscriptions.include_eq.mp (consistent.allowed m q member)
  have perm := ((consistent.inStep.nodup m).subperm within).perm_of_length_le full
  exact perm.mem_iff.mpr (Subscriptions.include_eq.mp may)

theorem isBalanced_spec (placed : Placed s fixed r) (matches_ : s.Matches members topics) (settled : Settled s fixed)
    (balanced : isBalanced r.currentAssignment s.consumer2AllPotentialPartitions = some true) (p : TopicPartition) :
    FairAt s fixed r p := by
  intro m n holds _ may
  obtain rfl | differ := eq_or_ne m n
  · exact Nat.le_succ _
  have mine := placed.consistent.include_of_holder holds
  have shared := matches_.shared mine may differ
  have free := settled.notMem mine shared
  have free' := settled.notMem may shared
  have listed := placed.consistent.mem_of_include mine free
  have listed' := placed.consistent.mem_of_include may free'
  have sorted := pairwise_sort r.currentAssignment
  rw [← Assignment.mem_sort] at listed listed'
  rw [held_of_notMem free, held_of_notMem free']
  unfold isBalanced at balanced
  cases order : sortMemberIDsByPartitionAssignments r.currentAssignment with
  | nil =>
    rw [order] at listed
    cases listed
  | cons first rest =>
    rw [order] at balanced sorted listed listed'
    dsimp only at balanced
    split at balanced
    next close =>
      have most := le_getLast sorted (List.cons_ne_nil _ _) listed
      have least : (r.currentAssignment.of first).length ≤ (r.currentAssignment.of n).length := by
        obtain rfl | later := List.mem_cons.mp listed'
        · exact le_rfl
        · exact (List.pairwise_cons.mp sorted).1 n later
      omega
    next =>
      have judged := allM_eq_some_true balanced n listed'
      have notMine : p ∉ held fixed r.currentAssignment n :=
        fun member => differ (placed.consistent.inStep.unique (placed.consistent.mem_of_holder holds) member)
      obtain ⟨own, found, judged⟩ := Option.bind_eq_some_iff.mp judged
      obtain ⟨potential, found', judged⟩ := Option.bind_eq_some_iff.mp judged
      have own_eq := Assignment.of_eq_of_getElem? found
      have potential_eq := ExtTreeMap.getD_of_getElem? found' []
      split at judged
      next full =>
        refine absurd (placed.consistent.mem_of_length ?_ may) notMine
        rw [potential_eq, held_of_notMem free', own_eq, full]
      next =>
        have member : p ∈ potential := potential_eq ▸ Subscriptions.include_eq.mp may
        have compared := allM_eq_some_true judged p member
        split at compared
        next own_ =>
          rw [held_of_notMem free', own_eq] at notMine
          exact absurd own_ notMine
        next =>
          obtain ⟨other, has, compared⟩ := Option.bind_eq_some_iff.mp compared
          obtain ⟨others, found'', noMore⟩ := Option.bind_eq_some_iff.mp compared
          have holds' := mem_of_allPartitions has
          have listed'' : other ∈ r.currentAssignment :=
            ExtTreeMap.mem_iff_isSome_getElem?.mpr (Option.isSome_of_eq_some found'')
          rw [← held_of_notMem (placed.consistent.notMem_of_mem listed'')] at holds'
          obtain rfl := placed.consistent.inStep.unique (placed.consistent.mem_of_holder holds) holds'
          rw [own_eq, Assignment.of_eq_of_getElem? found'']
          exact (of_decide_eq_true (Option.some.inj noMore)).trans (Nat.le_succ _)

/-! ## Setting members aside -/

/-- A member that cannot take part has what it may consume, and shares none of it. -/
theorem settled_of_cannot (consistent : Consistent s fixed r) (listed : m ∈ r.currentAssignment)
    (cannot : canConsumerParticipateInReassignment m r.currentAssignment s = false) (may : s.include m p) :
    p ∈ r.currentAssignment.of m ∧ (s.partition2AllPotentialConsumers.getD p []).length ≤ 1 := by
  have free := consistent.notMem_of_mem listed
  have known : s.consumer2AllPotentialPartitions[m]? = some (s.consumer2AllPotentialPartitions.getD m []) :=
    ExtTreeMap.getElem?_eq_some_getD (Subscriptions.mem_of_include may)
  unfold canConsumerParticipateInReassignment at cannot
  rw [known, Assignment.getElem?_eq_some_of listed] at cannot
  simp only [Bool.or_eq_false_iff, decide_eq_false_iff_not, not_lt] at cannot
  obtain ⟨full, unshared⟩ := cannot
  have member : p ∈ r.currentAssignment.of m := by
    rw [← held_of_notMem free]
    apply consistent.mem_of_length _ may
    rw [held_of_notMem free]
    exact full
  refine ⟨member, ?_⟩
  have alone : canTopicPartitionParticipateInReassignment p s.partition2AllPotentialConsumers = false := by
    simpa using List.any_eq_false.mp unshared p member
  unfold canTopicPartitionParticipateInReassignment at alone
  split at alone
  next absent =>
    rw [ExtTreeMap.getD_eq_getD_getElem?, absent]
    exact Nat.zero_le _
  next consumers found =>
    rw [ExtTreeMap.getD_of_getElem? found]
    simpa [Nat.lt_succ_iff] using alone

end Coev.Kafka
