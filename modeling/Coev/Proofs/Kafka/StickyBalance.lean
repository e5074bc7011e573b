import Coev.Proofs.Kafka.IsBalanced

/-! # What `balance` makes of an assignment in which nobody has anything
Every partition is assigned, the members that cannot take part are set aside, the others are balanced, and those set
aside are put back.
-/

namespace Coev.Kafka

open Std (ExtTreeMap)
open Holdings

variable {s : Subscriptions} {members : Members} {topics : Topics} {fixed : Assignment} {r r' : Reassignment}
  {m n : Bytes} {p : TopicPartition} {a : Assignment}

/-- Each partition that somebody may consume is with exactly one member, which may consume it, and the members are
balanced. -/
structure Distributed (s : Subscriptions) (a : Assignment) : Prop where
  nodup : ∀ m, (a.of m).Nodup
  unique : ∀ m n p, p ∈ a.of m → p ∈ a.of n → m = n
  allowed : ∀ m p, p ∈ a.of m → s.include m p
  complete : ∀ m p, s.include m p → ∃ n, p ∈ a.of n
  fair : ∀ m n p, p ∈ a.of m → m ≠ [] → s.include n p → (a.of m).length ≤ (a.of n).length + 1

/-! ## The unassigned partitions -/

/-- The partitions that nobody has are assigned one after another. -/
theorem assignAll_spec (consistent : Consistent s ∅ r) {list : List TopicPartition} (distinct : list.Nodup)
    (free : ∀ p ∈ list, r.holder p = none) (possible : ∀ p ∈ list, ∃ m, s.include m p) :
    Consistent s ∅ (list.foldl (assignPartition s) r) ∧ (list.foldl (assignPartition s) r).movements = r.movements ∧
      ∀ p, p ∈ list ∨ (r.holder p).isSome → ((list.foldl (assignPartition s) r).holder p).isSome := by
  induction list generalizing r with
  | nil => exact ⟨consistent, rfl, fun p had => had.resolve_left List.not_mem_nil⟩
  | cons p list ih =>
    obtain ⟨new, distinct⟩ := List.nodup_cons.mp distinct
    obtain ⟨here, rest⟩ := List.forall_mem_cons.mp free
    obtain ⟨⟨m, may⟩, possible⟩ := List.forall_mem_cons.mp possible
    obtain ⟨n, consistent', holder_eq⟩ := consistent.assign here may
    have still : ∀ q ∈ list, (assignPartition s r p).holder q = none := by
      intro q member
      rw [holder_eq, Function.update_of_ne (ne_of_mem_of_not_mem member new), rest q member]
    obtain ⟨consistent'', same, all⟩ := ih consistent' distinct still possible
    have kept : (assignPartition s r p).movements = r.movements := by
      simp only [assignPartition]
      split <;> rfl
    refine ⟨consistent'', same.trans kept, fun q had => all q ?_⟩
    rw [holder_eq]
    obtain rfl | other := eq_or_ne q p
    · rw [Function.update_self]
      exact .inr rfl
    · rw [Function.update_of_ne other]
      exact had.imp_left fun member => (List.mem_cons.mp member).resolve_left other

/-! ## Members set aside -/

theorem setAside_spec (placed : Placed s fixed r) (settled : Settled s fixed) (fresh : r.movements = {})
    (known : m ∈ s.consumer2AllPotentialPartitions) (free : m ∉ fixed) :
    Placed s (setAside s (r, fixed) m).2 (setAside s (r, fixed) m).1 ∧ Settled s (setAside s (r, fixed) m).2 ∧
      (setAside s (r, fixed) m).1.movements = {} ∧ ∀ n, n ≠ m → n ∉ fixed → n ∉ (setAside s (r, fixed) m).2 := by
  have listed : m ∈ r.currentAssignment := (placed.consistent.present m).mpr ⟨known, free⟩
  unfold setAside
  dsimp only
  split
  next => exact ⟨placed, settled, fresh, fun n _ absent => absent⟩
  next cannot =>
    have cannot : canConsumerParticipateInReassignment m r.currentAssignment s = false := Bool.eq_false_iff.mpr cannot
    have held_eq : held (fixed.insert m (r.currentAssignment.of m)) (r.currentAssignment.erase m) =
        held fixed r.currentAssignment := by
      funext n
      obtain rfl | other := eq_or_ne n m
      · rw [held_of_mem ExtTreeMap.mem_insert_self, held_of_notMem free, Assignment.of_insert, Function.update_self]
      · have same : n ∈ fixed.insert m (r.currentAssignment.of m) ↔ n ∈ fixed := by
          rw [ExtTreeMap.mem_insert_eq]
          exact or_iff_right other.symm
        have without : Assignment.of (r.currentAssignment.erase m) n = r.currentAssignment.of n := by
          rw [Assignment.of, ExtTreeMap.getD_erase_eq, if_neg other.symm]
          rfl
        rw [held, held, if_congr same rfl rfl, Assignment.of_insert, Function.update_of_ne other, without]
    refine ⟨⟨⟨?_, ?_, ?_, ?_, ?_⟩, placed.complete⟩, ?_, fresh, ?_⟩
    · rw [held_eq]
      exact placed.consistent.inStep
    · rw [held_eq]
      exact placed.consistent.allowed
    · intro n
      rw [ExtTreeMap.mem_erase_eq, ExtTreeMap.mem_insert_eq, placed.consistent.present, not_or]
      tauto
    · intro n
      exact Assignment.mem_sort
    · rintro t p ⟨pair, member⟩
      dsimp only at member
      rw [fresh, PartitionMovements.moved, ExtTreeMap.getD_empty, ExtTreeMap.getD_empty] at member
      cases ExtTreeMap.not_mem_empty member
    · intro n aside p may
      rw [ExtTreeMap.mem_insert_eq] at aside
      obtain rfl | other := eq_or_ne n m
      · rw [Assignment.of_insert, Function.update_self]
        exact settled_of_cannot placed.consistent listed cannot may
      · rw [Assignment.of_insert, Function.update_of_ne other]
        exact settled n (aside.resolve_left other.symm) p may
    · intro n other absent
      rw [ExtTreeMap.mem_insert_eq, not_or]
      exact ⟨other.symm, absent⟩

theorem setAsideAll_spec (placed : Placed s fixed r) (settled : Settled s fixed) (fresh : r.movements = {})
    {list : List Bytes}
    (distinct : list.Nodup) (known : ∀ m ∈ list, m ∈ s.consumer2AllPotentialPartitions) (free : ∀ m ∈ list, m ∉ fixed) :
    Placed s (list.foldl (setAside s) (r, fixed)).2 (list.foldl (setAside s) (r, fixed)).1 ∧
      Settled s (list.foldl (setAside s) (r, fixed)).2 := by
  induction list generalizing r fixed with
  | nil => exact ⟨placed, settled⟩
  | cons m list ih =>
    obtain ⟨new, distinct⟩ := List.nodup_cons.mp distinct
    obtain ⟨here, rest⟩ := List.forall_mem_cons.mp known
    obtain ⟨absent, absents⟩ := List.forall_mem_cons.mp free
    obtain ⟨placed', settled', fresh', apart⟩ := setAside_spec placed settled fresh here absent
    exact ih placed' settled' fresh' distinct rest
      fun n member => apart n (ne_of_mem_of_not_mem member new) (absents n member)

/-! ## Members put back -/

theorem of_foldl_insert {entries : List (Bytes × List TopicPartition)} (distinct : entries.Pairwise fun x y => x.1 ≠ y.1)
    (a : Assignment) (m : Bytes) :
    (∀ l, (m, l) ∈ entries → Assignment.of (entries.foldl (fun a entry => a.insert entry.1 entry.2) a) m = l) ∧
      ((∀ l, (m, l) ∉ entries) → Assignment.of (entries.foldl (fun a entry => a.insert entry.1 entry.2) a) m = a.of m) := by
  induction entries generalizing a with
  | nil => exact ⟨fun l member => (by cases member), fun _ => rfl⟩
  | cons entry entries ih =>
    obtain ⟨first, distinct⟩ := List.pairwise_cons.mp distinct
    obtain ⟨later, none_⟩ := ih distinct (a.insert entry.1 entry.2)
    constructor
    · intro l member
      obtain rfl | member := List.mem_cons.mp member
      · refine (none_ fun l' member' => first _ member' rfl).trans ?_
        rw [Assignment.of_insert, Function.update_self]
      · exact later l member
    · intro absent
      refine (none_ fun l member => absent l (List.mem_cons_of_mem _ member)).trans ?_
      rw [Assignment.of_insert, Function.update_of_ne]
      rintro rfl
      exact absent entry.2 List.mem_cons_self

theorem of_putBack (fixed current : Assignment) :
    Assignment.of (fixed.toList.foldl (fun current entry => current.insert entry.1 entry.2) current) =
      held fixed current := by
  funext m
  obtain ⟨there, absent⟩ := of_foldl_insert (ExtTreeMap.pairwise_of_perm_toList (.refl fixed.toList)) current m
  by_cases aside : m ∈ fixed
  · rw [held_of_mem aside]
    exact there _ (ExtTreeMap.mem_toList_iff_getElem?_eq_some.mpr (Assignment.getElem?_eq_some_of aside))
  · rw [held_of_notMem aside]
    apply absent
    intro l member
    exact aside (ExtTreeMap.mem_iff_isSome_getElem?.mpr
      (Option.isSome_of_eq_some (ExtTreeMap.mem_toList_iff_getElem?_eq_some.mp member)))

/-! ## The whole of `balance` -/

/-- A partition that several members may consume stays among the reassignable ones. -/
theorem mem_reassignable {consumers : TopicPartitionMap (List Bytes)} (shared : 1 < (consumers.getD p []).length)
    (keys sorted : List TopicPartition) (member : p ∈ sorted) : p ∈ keys.foldl (fun sorted partition =>
      if canTopicPartitionParticipateInReassignment partition consumers then sorted
      else sorted.filter (· ≠ partition)) sorted := by
  have can : canTopicPartitionParticipateInReassignment p consumers := by
    unfold canTopicPartitionParticipateInReassignment
    split
    next absent =>
      rw [ExtTreeMap.getD_eq_getD_getElem?, absent] at shared
      cases shared
    next list found =>
      rw [ExtTreeMap.getD_of_getElem? found] at shared
      exact decide_eq_true shared
  induction keys generalizing sorted with
  | nil => exact member
  | cons q keys ih =>
    apply ih
    dsimp only
    split
    next => exact member
    next cannot =>
      rw [List.mem_filter]
      refine ⟨member, decide_eq_true ?_⟩
      rintro rfl
      exact cannot can

/-- Where nobody has anything, the maps are in step. -/
theorem consistent_start (present : ∀ m, m ∈ a ↔ m ∈ s.consumer2AllPotentialPartitions) (empty : ∀ m, a.of m = []) :
    Consistent s ∅ ⟨a, ∅, sortMemberIDsByPartitionAssignments a, {}⟩ := by
  have nobody (m : Bytes) (p : TopicPartition) : p ∉ held ∅ a m := by
    rw [held_empty, empty]
    exact List.not_mem_nil
  refine ⟨⟨?_, ?_⟩, ?_, ?_, ?_, ?_⟩
  · intro m p
    refine iff_of_false (nobody m p) ?_
    rw [Reassignment.holder, ExtTreeMap.getElem?_empty]
    exact (Option.some_ne_none m).symm
  · intro m
    rw [held_empty, empty]
    exact List.nodup_nil
  · exact fun m p member => absurd member (nobody m p)
  · intro m
    rw [present]
    exact (and_iff_left ExtTreeMap.not_mem_empty).symm
  · exact fun m => Assignment.mem_sort
  · rintro t p ⟨pair, member⟩
    cases ExtTreeMap.not_mem_empty member

/-- The first member that was sorted has nothing. -/
theorem initializing_start (empty : ∀ m, a.of m = []) :
    Reassignment.initializing ⟨a, ∅, sortMemberIDsByPartitionAssignments a, {}⟩ = true := by
  unfold Reassignment.initializing
  cases order : sortMemberIDsByPartitionAssignments a with
  | nil => rfl
  | cons first rest =>
    have listed : first ∈ a := Assignment.mem_sort.mp (order ▸ List.mem_cons_self)
    have nothing : a[first]? = some [] := (Assignment.getElem?_eq_some_of listed).trans (congrArg some (empty first))
    exact beq_iff_eq.mpr nothing

/-- Where the reassignment ends, it is fair at every partition. -/
theorem Placed.fair (placed : Placed s fixed r) (matches_ : s.Matches members topics) (settled : Settled s fixed)
    {list : List TopicPartition} (ends : isBalanced r.currentAssignment s.consumer2AllPotentialPartitions = some true ∨
      ∀ p ∈ list, 1 < (s.partition2AllPotentialConsumers.getD p []).length → FairAt s fixed r p)
    (listed : ∀ p m, s.include m p → 1 < (s.partition2AllPotentialConsumers.getD p []).length → p ∈ list)
    (p : TopicPartition) : FairAt s fixed r p := by
  obtain judged | tried := ends
  · exact isBalanced_spec placed matches_ settled judged p
  · intro m n holds named may
    obtain rfl | differ := eq_or_ne m n
    · exact Nat.le_succ _
    · have shared := matches_.shared (placed.consistent.include_of_holder holds) may differ
      exact tried p (listed p n may shared) shared m n holds named may

/-- What was balanced and set aside makes up a balanced distribution. -/
theorem Placed.distributed (placed : Placed s fixed r) (fair : ∀ p, FairAt s fixed r p)
    (whole : a.of = held fixed r.currentAssignment) : Distributed s a where
  nodup m := whole ▸ placed.consistent.inStep.nodup m
  unique m n p first second := by
    rw [whole] at first second
    exact placed.consistent.inStep.unique first second
  allowed m p member := placed.consistent.allowed m p (whole ▸ member)
  complete m p may := by
    obtain ⟨n, holds⟩ := placed.complete m p may
    exact ⟨n, whole ▸ placed.consistent.mem_of_holder holds⟩
  fair m n p member named may := by
    rw [whole] at member ⊢
    exact fair p m n ((placed.consistent.inStep.mem_iff m p).mp member) named may

/-- What `balance` does before `performReassignments`: the partitions to go through, the state, and what is set aside. -/
def beforeReassignments (s : Subscriptions) (sortedPartitions unassignedPartitions : List TopicPartition)
    (r : Reassignment) :
    List TopicPartition × Reassignment × Assignment :=
  let assignable := unassignedPartitions.filter fun partition =>
    !(s.partition2AllPotentialConsumers.getD partition []).isEmpty
  let r := assignable.foldl (assignPartition s) r
  (s.partition2AllPotentialConsumers.keys.foldl
    (fun sorted partition =>
      if canTopicPartitionParticipateInReassignment partition s.partition2AllPotentialConsumers then sorted
      else sorted.filter (· ≠ partition)) sortedPartitions,
    s.consumer2AllPotentialPartitions.keys.foldl (setAside s) (r, ∅))

/-- The members are in the order of what they have. -/
def Reassignment.Ordered (r : Reassignment) : Prop :=
  r.sortedCurrentSubscriptions = sortMemberIDsByPartitionAssignments r.currentAssignment

theorem ordered_assignAll (list : List TopicPartition) (ordered : r.Ordered) :
    (list.foldl (assignPartition s) r).Ordered := by
  induction list generalizing r with
  | nil => exact ordered
  | cons p list ih => exact ih rfl

theorem fresh_ordered_setAside (list : List Bytes) (fresh : r.movements = {}) (ordered : r.Ordered) (fixed : Assignment) :
    (list.foldl (setAside s) (r, fixed)).1.movements = {} ∧ (list.foldl (setAside s) (r, fixed)).1.Ordered := by
  induction list generalizing r fixed with
  | nil => exact ⟨fresh, ordered⟩
  | cons m list ih =>
    rw [List.foldl_cons, setAside]
    split
    next => exact ih fresh ordered fixed
    next =>
      refine ih ?_ ?_ _
      · exact fresh
      · rfl

section Start

variable (matches_ : s.Matches members topics) (present : ∀ m, m ∈ a ↔ m ∈ s.consumer2AllPotentialPartitions)
  (empty : ∀ m, a.of m = []) {sorted unassigned : List TopicPartition} (distinct : unassigned.Nodup)
  (all : ∀ p ∈ s.partition2AllPotentialConsumers, p ∈ unassigned)

include matches_ present empty distinct all

/-- Where nobody has anything, `performReassignments` begins with every partition assigned. -/
theorem beforeReassignments_spec (sorted : List TopicPartition) :
    (beforeReassignments s sorted unassigned ⟨a, ∅, sortMemberIDsByPartitionAssignments a, {}⟩).2.1.movements = {} ∧
      (beforeReassignments s sorted unassigned ⟨a, ∅, sortMemberIDsByPartitionAssignments a, {}⟩).2.1.Ordered ∧
      Settled s (beforeReassignments s sorted unassigned ⟨a, ∅, sortMemberIDsByPartitionAssignments a, {}⟩).2.2 ∧
      Placed s (beforeReassignments s sorted unassigned ⟨a, ∅, sortMemberIDsByPartitionAssignments a, {}⟩).2.2
        (beforeReassignments s sorted unassigned ⟨a, ∅, sortMemberIDsByPartitionAssignments a, {}⟩).2.1 := by
  have wanted {p : TopicPartition} {m : Bytes} (may : s.include m p) : p ∈ s.partition2AllPotentialConsumers :=
    (matches_.partitions_iff p).mpr ((matches_.include_iff m p).mp may).2
  have possible : ∀ p ∈ unassigned.filter fun p => !(s.partition2AllPotentialConsumers.getD p []).isEmpty,
      ∃ m, s.include m p := by
    intro p member
    obtain ⟨m, rest, consumers⟩ := List.exists_cons_of_ne_nil (l := s.partition2AllPotentialConsumers.getD p [])
      (by simpa using (List.mem_filter.mp member).2)
    exact ⟨m, (matches_.consumers_iff m p).mp (consumers ▸ List.mem_cons_self)⟩
  obtain ⟨consistent, fresh, given⟩ := assignAll_spec (consistent_start present empty) (distinct.filter _)
    (fun p _ => ExtTreeMap.getElem?_empty) possible
  have placed := Placed.mk consistent fun m p may => by
    apply Option.isSome_iff_exists.mp (given p (.inl (List.mem_filter.mpr ⟨all p (wanted may), ?_⟩)))
    have consumers := List.ne_nil_of_mem ((matches_.consumers_iff m p).mpr may)
    simpa using consumers
  have nobody : Settled s ∅ := fun m aside => absurd aside ExtTreeMap.not_mem_empty
  obtain ⟨placed', settled⟩ := setAsideAll_spec placed nobody fresh ExtTreeMap.nodup_keys
    (fun m => ExtTreeMap.mem_keys.mp) fun m _ => ExtTreeMap.not_mem_empty
  obtain ⟨fresh', ordered⟩ := fresh_ordered_setAside s.consumer2AllPotentialPartitions.keys fresh (ordered_assignAll _ rfl) ∅
  exact ⟨fresh', ordered, settled, placed'⟩

/-- Where nobody has anything, what `balance` returns is a balanced distribution. -/
theorem balance_spec (sorts : ∀ p ∈ s.partition2AllPotentialConsumers, p ∈ sorted) {fuel : ℕ}
    (run : balance fuel ∅ s sorted unassigned ⟨a, ∅, sortMemberIDsByPartitionAssignments a, {}⟩ = some r) :
    Distributed s r.currentAssignment := by
  obtain ⟨-, -, settled, placed⟩ := beforeReassignments_spec matches_ present empty distinct all sorted
  obtain ⟨⟨last, performed⟩, reassigned, run⟩ := Option.bind_eq_some_iff.mp run
  obtain ⟨placed', ends⟩ := performReassignments_spec placed matches_ settled reassigned
  have fair := placed'.fair matches_ settled ends fun p m may shared =>
    mem_reassignable shared _ _ (sorts p ((matches_.partitions_iff p).mpr ((matches_.include_iff m p).mp may).2))
  dsimp only at run
  rw [initializing_start empty] at run
  cases run
  exact placed'.distributed fair (of_putBack _ _)

end Start

end Coev.Kafka
