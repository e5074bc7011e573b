import Coev.Proofs.Kafka.ReassignmentProgress
import Coev.Proofs.Kafka.StickyPlan

/-! # Whether a sticky reassignment ends

A member that could take a partition may get another one instead, which undoes an earlier move of the topic and comes from
a member that need not have more. Such a move and the one that follows it can cancel each other for ever. Nothing else
keeps the loop going: where from some round on no such move is made, the plan is returned.
-/

namespace Coev.Kafka

open Std (ExtTreeMap)

variable {members : Members} {topics : Topics}

/-- The partitions that `performReassignments` goes through, and the state it begins in. -/
def reassignmentStart (members : Members) (topics : Topics) : List TopicPartition × Reassignment :=
  let s := subscriptions members topics
  let (list, r, _) := beforeReassignments s (sortPartitionsByPotentialConsumerAssignments s.partition2AllPotentialConsumers)
    s.partition2AllPotentialConsumers.keys (planStart members)
  (list, r)

/-- The state in which round `n + 1` of the loop begins, if there is one. -/
def roundState (members : Members) (topics : Topics) (n : ℕ) : Option Reassignment :=
  afterRounds (subscriptions members topics) (reassignmentStart members topics).1 n (reassignmentStart members topics).2

/-- From some round on, a partition that is moved in place of another one is with a member that has at least two more than
the one it is moved to. -/
def EventuallyDownhill (members : Members) (topics : Topics) : Prop :=
  ∃ n, ∀ k r, n ≤ k → roundState members topics k = some r →
    DownhillRound (subscriptions members topics) (reassignmentStart members topics).1 r

private theorem balance_returns_iff {s : Subscriptions} {sorted unassigned : List TopicPartition} {r : Reassignment}
    {fuel : ℕ} :
    (∃ r', balance fuel ∅ s sorted unassigned r = some r') ↔
      ∃ result, performReassignments ∅ s (beforeReassignments s sorted unassigned r).1 fuel
        (beforeReassignments s sorted unassigned r).2.1 = some result := by
  constructor
  · rintro ⟨r', run⟩
    obtain ⟨result, reassigned, -⟩ := Option.bind_eq_some_iff.mp run
    exact ⟨result, reassigned⟩
  · rintro ⟨result, reassigned⟩
    exact ⟨_, Option.bind_eq_some_iff.mpr ⟨result, reassigned, rfl⟩⟩

private theorem mem_of_mem_reassignable {consumers : TopicPartitionMap (List Bytes)} {p : TopicPartition}
    (keys sorted : List TopicPartition) (member : p ∈ keys.foldl (fun sorted partition =>
      if canTopicPartitionParticipateInReassignment partition consumers then sorted
      else sorted.filter (· ≠ partition)) sorted) : p ∈ sorted := by
  induction keys generalizing sorted with
  | nil => exact member
  | cons q keys ih =>
    have before := ih _ member
    dsimp only at before
    split at before
    next => exact before
    next => exact List.mem_of_mem_filter before

private theorem known_reassignmentStart {p : TopicPartition} (member : p ∈ (reassignmentStart members topics).1) :
    p ∈ (subscriptions members topics).partition2AllPotentialConsumers := by
  have sorted := mem_of_mem_reassignable _ _ member
  rw [sortPartitionsByPotentialConsumerAssignments, List.mem_insertionSort, ExtTreeMap.mem_keys] at sorted
  exact sorted

private theorem ready_reassignmentStart (members : Members) (topics : Topics) :
    ∃ fixed, Settled (subscriptions members topics) fixed ∧
      Ready (subscriptions members topics) fixed (reassignmentStart members topics).2 := by
  have matches_ := subscriptions_matches members topics
  obtain ⟨fresh, ordered, settled, placed⟩ := beforeReassignments_spec matches_
    (fun m => mem_nothingAssigned.trans (matches_.known m).symm) of_nothingAssigned ExtTreeMap.nodup_keys
    (fun p => ExtTreeMap.mem_keys.mpr)
    (sortPartitionsByPotentialConsumerAssignments (subscriptions members topics).partition2AllPotentialConsumers)
  have filled : PartitionMovements.Filled (reassignmentStart members topics).2.movements :=
    fresh.symm ▸ PartitionMovements.filled_empty
  exact ⟨_, settled, ⟨placed, filled, ordered⟩⟩

/-- Without topics there is nothing to go through. -/
private theorem roundState_of_isEmpty (none_ : topics.isEmpty = true) : roundState members topics 1 = none := by
  have nothing : (reassignmentStart members topics).1 = [] := by
    refine List.eq_nil_iff_forall_not_mem.mpr fun p member => ?_
    obtain ⟨partitions, found, -⟩ :=
      ((subscriptions_matches members topics).partitions_iff p).mp (known_reassignmentStart member)
    rw [ExtTreeMap.isEmpty_iff.mp none_, ExtTreeMap.getElem?_empty] at found
    cases found
  rw [roundState, nothing]
  rfl

/-- A plan is returned exactly if some round of the loop is the last one. -/
theorem stickyPlan_returns_iff :
    (∃ fuel plan, stickyPlan fuel members topics = some plan) ↔ ∃ n, roundState members topics n = none := by
  cases none_ : topics.isEmpty with
  | true =>
    refine iff_of_true ⟨0, ∅, ?_⟩ ⟨1, roundState_of_isEmpty none_⟩
    rw [stickyPlan, none_]
    rfl
  | false =>
    obtain ⟨fixed, settled, ready⟩ := ready_reassignmentStart members topics
    refine Iff.trans ?_ (performReassignments_ends_iff ready (subscriptions_matches members topics) settled
      fun p member => known_reassignmentStart member)
    refine exists_congr fun fuel => Iff.trans ?_ balance_returns_iff
    rw [stickyPlan_eq none_]
    constructor
    · rintro ⟨plan, run⟩
      obtain ⟨r, balanced, -⟩ := Option.map_eq_some_iff.mp run
      exact ⟨r, balanced⟩
    · rintro ⟨r, balanced⟩
      exact ⟨planOf r.currentAssignment, Option.map_eq_some_iff.mpr ⟨r, balanced, rfl⟩⟩

/-- A plan is returned exactly if from some round on every move is downhill. -/
theorem stickyPlan_ends_iff (members : Members) (topics : Topics) :
    (∃ fuel plan, stickyPlan fuel members topics = some plan) ↔ EventuallyDownhill members topics := by
  obtain ⟨fixed, settled, ready⟩ := ready_reassignmentStart members topics
  exact stickyPlan_returns_iff.trans (ends_iff_downhill ready (subscriptions_matches members topics) settled
    fun p member => known_reassignmentStart member)

/-! ## A loop that does not end -/

/-- Five members, each with topics of its own kind. -/
def circlingMembers : Members :=
  (((((∅ : Members).insert [1] { topics := [[10], [12]] }).insert [2] { topics := [[11], [12], [13]] }).insert [3]
    { topics := [[11], [12], [13]] }).insert [4] { topics := [[10], [14]] }).insert [5] { topics := [[10], [11]] }

def circlingTopics : Topics :=
  (((((∅ : Topics).insert [10] [0, 1]).insert [11] [0, 1, 2, 3, 4, 5]).insert [12] [0, 1, 2, 3]).insert [13]
    [0, 1, 2, 3, 4, 5, 6, 7, 8]).insert [14] [0, 1, 2]

/-- The first partition of the first topic goes to the fourth member, and comes back in place of the second one. -/
private theorem circling_round : ∃ r, roundState circlingMembers circlingTopics 2 = some r ∧
    tryPartitions ∅ (subscriptions circlingMembers circlingTopics) (reassignmentStart circlingMembers circlingTopics).1 r =
      some (r, true) := by
  have evaluated : (roundState circlingMembers circlingTopics 2).any (fun r =>
      tryPartitions ∅ (subscriptions circlingMembers circlingTopics) (reassignmentStart circlingMembers circlingTopics).1 r =
        some (r, true)) := by
    decide +kernel
  obtain ⟨r, second, same⟩ := (Option.any_eq_true ..).mp evaluated
  exact ⟨r, second, of_decide_eq_true same⟩

/-- After two rounds every round ends in the state in which it began, so no plan is ever returned. -/
theorem circling_never_ends : (∀ n, (roundState circlingMembers circlingTopics n).isSome) ∧
      ∀ fuel, stickyPlan fuel circlingMembers circlingTopics = none := by
  obtain ⟨r, second, same⟩ := circling_round
  have stays (n : ℕ) : afterRounds (subscriptions circlingMembers circlingTopics)
      (reassignmentStart circlingMembers circlingTopics).1 n r = some r := by
    induction n with
    | zero => rfl
    | succ n ih => exact (afterRounds_succ same n).trans ih
  have later (n : ℕ) : roundState circlingMembers circlingTopics (2 + n) = some r := by
    refine (afterRounds_add 2 n).trans ?_
    rw [← roundState, second]
    exact stays n
  have goesOn (n : ℕ) : roundState circlingMembers circlingTopics n ≠ none := by
    intro ends
    have after := later n
    rw [Nat.add_comm, roundState, afterRounds_add, ← roundState, ends] at after
    cases after
  refine ⟨fun n => Option.isSome_iff_ne_none.mpr (goesOn n), fun fuel => ?_⟩
  refine Option.eq_none_iff_forall_ne_some.mpr fun plan run => ?_
  obtain ⟨n, ends⟩ := stickyPlan_returns_iff.mp ⟨fuel, plan, run⟩
  exact goesOn n ends

end Coev.Kafka
