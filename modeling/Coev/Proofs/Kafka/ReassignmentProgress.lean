import Coev.Proofs.Kafka.StickyBalance
import Mathlib.Tactic.Ring

/-! # What a round of a reassignment does
No round fails. When one gives a partition away, the target is the member with the least among those that may consume
it, and what is moved is the partition or another one in its place. A move to a member that has at least two less makes
the sum of the squares of what the members have smaller, so a loop that goes on must make other moves again and again.
-/

namespace Coev.Kafka

open Std (ExtTreeMap)
open Holdings

/-! ## Records of moves -/

namespace PartitionMovements

variable {s : PartitionMovements} {p q : TopicPartition} {pair : ConsumerMovement}
  {pairs : ExtTreeMap ConsumerMovement (TopicPartitionMap Bool)}

/-- A pair of members that is noted has a partition. -/
def Occupied (pairs : ExtTreeMap ConsumerMovement (TopicPartitionMap Bool)) : Prop :=
  ∀ (pair : ConsumerMovement) (moved : TopicPartitionMap Bool), pairs[pair]? = some moved → moved ≠ ∅

/-- Every pair of members that is noted under a topic has a partition. -/
def Filled (s : PartitionMovements) : Prop :=
  ∀ (topic : Bytes) (pairs : ExtTreeMap ConsumerMovement (TopicPartitionMap Bool)),
    s.partitionMovementsByTopic[topic]? = some pairs → Occupied pairs

theorem filled_empty : Filled {} := by
  intro topic pairs found
  rw [ExtTreeMap.getElem?_empty] at found
  cases found

theorem Filled.getD (filled : Filled s) (topic : Bytes) : Occupied (s.partitionMovementsByTopic.getD topic ∅) := by
  rw [ExtTreeMap.getD_eq_getD_getElem?]
  cases found : s.partitionMovementsByTopic[topic]? with
  | none =>
    intro pair moved none_
    rw [Option.getD_none, ExtTreeMap.getElem?_empty] at none_
    cases none_
  | some pairs => exact filled topic pairs found

theorem Occupied.insert {moved : TopicPartitionMap Bool} (occupied : Occupied pairs) (some_ : moved ≠ ∅) :
    Occupied (pairs.insert pair moved) := by
  intro pair' moved' found
  rw [ExtTreeMap.getElem?_insert_eq] at found
  split at found
  next =>
    cases found
    exact some_
  next => exact occupied pair' moved' found

theorem Occupied.erase (occupied : Occupied pairs) : Occupied (pairs.erase pair) := by
  intro pair' moved found
  rw [ExtTreeMap.getElem?_erase_eq] at found
  split at found
  next => cases found
  next => exact occupied pair' moved found

theorem Filled.add (filled : Filled s) (q : TopicPartition) (pair : ConsumerMovement) :
    Filled (s.addPartitionMovementRecord q pair) := by
  intro topic pairs found
  rw [addPartitionMovementRecord, ExtTreeMap.getElem?_insert_eq] at found
  split at found
  next =>
    cases found
    exact (filled.getD q.1).insert ExtTreeMap.insert_ne_empty
  next => exact filled topic pairs found

/-- A topic without pairs is not noted. -/
theorem Filled.put (filled : Filled s) (occupied : Occupied pairs) (topic : Bytes)
    (movements : TopicPartitionMap ConsumerMovement) :
    Filled ⟨movements, if pairs.isEmpty then s.partitionMovementsByTopic.erase topic
      else s.partitionMovementsByTopic.insert topic pairs⟩ := by
  intro topic' pairs' found
  dsimp only at found
  split at found
  next =>
    rw [ExtTreeMap.getElem?_erase_eq] at found
    split at found
    next => cases found
    next => exact filled topic' pairs' found
  next =>
    rw [ExtTreeMap.getElem?_insert_eq] at found
    split at found
    next =>
      cases found
      exact occupied
    next => exact filled topic' pairs' found

theorem Filled.remove (filled : Filled s) (q : TopicPartition) : Filled (s.removeMovementRecordOfPartition q).2 := by
  refine filled.put ?_ q.1 _
  split
  next => exact (filled.getD q.1).erase
  next some_ => exact (filled.getD q.1).insert fun none_ => some_ (ExtTreeMap.isEmpty_iff.mpr none_)

theorem Filled.move (filled : Filled s) (q : TopicPartition) (oldConsumer newConsumer : Bytes) :
    Filled (s.movePartition q oldConsumer newConsumer) := by
  unfold movePartition
  split
  next =>
    dsimp only
    split
    next => exact (filled.remove q).add q _
    next => exact filled.remove q
  next => exact filled.add q _

/-- A partition to be moved is found. -/
theorem Filled.actual (filled : Filled s) (p : TopicPartition) (oldConsumer newConsumer : Bytes) :
    ∃ q, s.getTheActualPartitionToBeMoved p oldConsumer newConsumer = some q := by
  unfold getTheActualPartitionToBeMoved
  split
  next => exact ⟨p, rfl⟩
  next pairs found =>
    dsimp only
    split
    next => exact ⟨p, rfl⟩
    next moved inner =>
      have some_ : moved.keys ≠ [] := fun none_ => filled _ _ found _ _ inner (ExtTreeMap.keys_eq_nil_iff.mp none_)
      exact ⟨moved.keys.head some_, List.head?_eq_some_head some_⟩

end PartitionMovements

/-! ## No round fails -/

variable {s : Subscriptions} {members : Members} {topics : Topics} {fixed : Assignment} {r r' : Reassignment}
  {m n source target consumer : Bytes} {p q : TopicPartition} {a : Assignment}

theorem allM_total {α : Type} {f : α → Option Bool} {l : List α} (total : ∀ x ∈ l, ∃ b, f x = some b) :
    ∃ b, l.allM f = some b := by
  induction l with
  | nil => exact ⟨true, rfl⟩
  | cons x l ih =>
    obtain ⟨⟨first, head⟩, tail⟩ := List.forall_mem_cons.mp total
    rw [List.allM_cons, head]
    cases first with
    | false => exact ⟨false, rfl⟩
    | true => exact ih tail

/-- A partition that a member has is noted with some member. -/
theorem allPartitions_of_mem (listed : m ∈ a) (has : p ∈ a.of m) :
    ∃ other, (allPartitions a)[p]? = some other ∧ other ∈ a := by
  have inner (n : Bytes) (known : n ∈ a) (partitions : List TopicPartition) (owners : TopicPartitionMap Bytes)
      (before : p ∈ partitions ∨ ∃ other, owners[p]? = some other ∧ other ∈ a) :
      ∃ other, (partitions.foldl (fun owners partition => owners.insert partition n) owners)[p]? = some other ∧
        other ∈ a := by
    induction partitions generalizing owners with
    | nil => exact before.resolve_left List.not_mem_nil
    | cons q partitions ih =>
      apply ih
      obtain member | before := before
      · obtain rfl | later := List.mem_cons.mp member
        · exact .inr ⟨n, ExtTreeMap.getElem?_insert_self, known⟩
        · exact .inl later
      · rw [ExtTreeMap.getElem?_insert_eq]
        right
        split
        · exact ⟨n, rfl, known⟩
        · exact before
  have outer (entries : List (Bytes × List TopicPartition)) (known : ∀ entry ∈ entries, entry.1 ∈ a)
      (owners : TopicPartitionMap Bytes)
      (before : (∃ entry ∈ entries, p ∈ entry.2) ∨ ∃ other, owners[p]? = some other ∧ other ∈ a) :
      ∃ other, (entries.foldl (fun owners entry =>
        entry.2.foldl (fun owners partition => owners.insert partition entry.1) owners) owners)[p]? = some other ∧
          other ∈ a := by
    induction entries generalizing owners with
    | nil =>
      refine before.resolve_left ?_
      rintro ⟨entry, member, -⟩
      cases member
    | cons entry entries ih =>
      obtain ⟨here, rest⟩ := List.forall_mem_cons.mp known
      apply ih rest
      obtain ⟨entry', member, has⟩ | before := before
      · obtain rfl | later := List.mem_cons.mp member
        · exact .inr (inner entry'.1 here entry'.2 owners (.inl has))
        · exact .inl ⟨entry', later, has⟩
      · exact .inr (inner entry.1 here entry.2 owners (.inr before))
  refine outer a.toList (fun entry member => ?_) ∅ (.inl ⟨(m, a.of m), ?_, has⟩)
  · exact ExtTreeMap.mem_iff_isSome_getElem?.mpr
      (Option.isSome_of_eq_some (ExtTreeMap.mem_toList_iff_getElem?_eq_some.mp member))
  · exact ExtTreeMap.mem_toList_iff_getElem?_eq_some.mpr (Assignment.getElem?_eq_some_of listed)

/-- What was not set aside and may be consumed by a member that was not set aside is with such a member. -/
theorem Placed.holds (placed : Placed s fixed r) (matches_ : s.Matches members topics) (settled : Settled s fixed)
    (may : s.include m p) (free : m ∉ fixed) : ∃ n, r.holder p = some n ∧ n ∉ fixed := by
  obtain ⟨n, holds⟩ := placed.complete m p may
  refine ⟨n, holds, ?_⟩
  obtain rfl | differ := eq_or_ne m n
  · exact free
  · have mine := placed.consistent.include_of_holder holds
    exact settled.notMem mine (matches_.shared may mine differ)

theorem isBalanced_total (placed : Placed s fixed r) (matches_ : s.Matches members topics) (settled : Settled s fixed) :
    ∃ b, isBalanced r.currentAssignment s.consumer2AllPotentialPartitions = some b := by
  unfold isBalanced
  cases order : sortMemberIDsByPartitionAssignments r.currentAssignment with
  | nil => exact ⟨true, rfl⟩
  | cons first rest =>
    dsimp only
    split
    next => exact ⟨true, rfl⟩
    next =>
      refine allM_total fun m member => ?_
      have listed : m ∈ r.currentAssignment := Assignment.mem_sort.mp (order ▸ member)
      have free := placed.consistent.notMem_of_mem listed
      obtain ⟨known, -⟩ := (placed.consistent.present m).mp listed
      rw [Assignment.getElem?_eq_some_of listed, ExtTreeMap.getElem?_eq_some_getD known]
      dsimp only [Option.bind_eq_bind, Option.bind_some]
      split
      next => exact ⟨true, rfl⟩
      next =>
        refine allM_total fun p potential => ?_
        split
        next => exact ⟨true, rfl⟩
        next =>
          obtain ⟨n, holds, freeHolder⟩ := placed.holds matches_ settled (Subscriptions.include_eq.mpr potential) free
          have listedHolder := placed.consistent.mem_of_include (placed.consistent.include_of_holder holds) freeHolder
          have has := placed.consistent.mem_of_holder holds
          rw [held_of_notMem freeHolder] at has
          obtain ⟨other, noted, listedOther⟩ := allPartitions_of_mem listedHolder has
          rw [noted, Option.bind_some, Assignment.getElem?_eq_some_of listedOther]
          exact ⟨_, rfl⟩

/-! ## Moves -/

/-- When it gives away `p`, `reassignPartitionToNewConsumer` moves `q` to `target`. -/
structure Chosen (s : Subscriptions) (r : Reassignment) (p : TopicPartition) (target : Bytes) (q : TopicPartition) :
    Prop where
  first : r.sortedCurrentSubscriptions.find? (s.include · p) = some target
  actual : r.movements.getTheActualPartitionToBeMoved p (r.currentPartitionConsumer.getD p []) target = some q

/-- The maps are in step, a pair of members that is noted has a partition, and the members are in the order of what they
have. -/
structure Ready (s : Subscriptions) (fixed : Assignment) (r : Reassignment) : Prop extends Placed s fixed r where
  filled : r.movements.Filled
  ordered : r.Ordered

theorem Ready.process (ready : Ready s fixed r) (placed : Placed s fixed (processPartitionMovement q target r)) :
    Ready s fixed (processPartitionMovement q target r) where
  toPlaced := placed
  filled := ready.filled.move q _ target
  ordered := rfl

/-- The target has the least among those that may consume the partition. -/
theorem Chosen.least (chosen : Chosen s r p target q) (ready : Ready s fixed r) (may : s.include m p)
    (listed : m ∈ r.currentAssignment) : (r.currentAssignment.of target).length ≤ (r.currentAssignment.of m).length := by
  obtain ⟨-, front, rest, split_, skipped⟩ := List.find?_eq_some_iff_append.mp chosen.first
  have sorted := pairwise_sort r.currentAssignment
  rw [← Assignment.mem_sort, ← ready.ordered, split_, List.mem_append] at listed
  rw [← ready.ordered, split_, List.pairwise_append] at sorted
  obtain earlier | later := listed
  · simpa [may] using skipped m earlier
  · obtain rfl | after := List.mem_cons.mp later
    · exact le_rfl
    · exact (List.pairwise_cons.mp sorted.2.1).1 m after

theorem reassignPartitionToNewConsumer_eq (ready : Ready s fixed r) (holds : r.holder p = some source)
    (may : s.include m p) (free : m ∉ fixed) : ∃ target q, Chosen s r p target q ∧
      reassignPartitionToNewConsumer s p r = some (processPartitionMovement q target r) := by
  have loop (list : List Bytes) (known : ∀ n ∈ list, n ∈ s.consumer2AllPotentialPartitions) :
      reassignPartitionToNewConsumer.go s p r list =
        (list.find? (s.include · p)).elim (some r) fun target => reassignPartition p target r := by
    induction list with
    | nil => rfl
    | cons n list ih =>
      obtain ⟨here, rest⟩ := List.forall_mem_cons.mp known
      rw [reassignPartitionToNewConsumer.go, ExtTreeMap.getElem?_eq_some_getD here, List.find?_cons]
      cases takes : s.include n p with
      | true => exact if_pos (Subscriptions.include_eq.mp takes)
      | false =>
        refine (if_neg fun member => ?_).trans (ih rest)
        rw [Subscriptions.include_eq.mpr member] at takes
        cases takes
  have listed (n : Bytes) (member : n ∈ r.sortedCurrentSubscriptions) : n ∈ s.consumer2AllPotentialPartitions :=
    ((ready.consistent.present n).mp ((ready.consistent.sorted n).mp member)).1
  cases first : r.sortedCurrentSubscriptions.find? (s.include · p) with
  | none =>
    have member := (ready.consistent.sorted m).mpr (ready.consistent.mem_of_include may free)
    exact absurd may (List.find?_eq_none.mp first m member)
  | some target =>
    obtain ⟨q, actual⟩ := ready.filled.actual p source target
    have known : r.currentPartitionConsumer.getD p [] = source := ExtTreeMap.getD_of_getElem? holds []
    refine ⟨target, q, ⟨first, known ▸ actual⟩, ?_⟩
    rw [reassignPartitionToNewConsumer, loop _ listed, first, Option.elim_some]
    rw [reassignPartition, Reassignment.consumerOf_eq holds]
    dsimp only
    rw [actual]
    rfl

theorem tryOthers_eq (ready : Ready s fixed r) (settled : Settled s fixed)
    (shared : 1 < (s.partition2AllPotentialConsumers.getD p []).length) (holds : r.holder p = some consumer)
    {others : List Bytes} (may : ∀ o ∈ others, s.include o p) : tryOthers s p consumer others r = some (r, false) ∨
      ∃ target q, Chosen s r p target q ∧
        (q = p → (r.currentAssignment.of target).length + 1 < (r.currentAssignment.of consumer).length) ∧
        tryOthers s p consumer others r = some (processPartitionMovement q target r, true) := by
  have mine := ready.consistent.include_of_holder holds
  have listed := ready.consistent.mem_of_include mine (settled.notMem mine shared)
  induction others with
  | nil => exact .inl rfl
  | cons other others ih =>
    obtain ⟨may, mays⟩ := List.forall_mem_cons.mp may
    have free := settled.notMem may shared
    have listed' := ready.consistent.mem_of_include may free
    rw [tryOthers, Assignment.touch_eq listed, Assignment.touch_eq listed']
    split
    next less =>
      obtain ⟨target, q, chosen, moved⟩ := reassignPartitionToNewConsumer_eq ready holds may free
      refine .inr ⟨target, q, chosen, fun _ => ?_, ?_⟩
      · exact (Nat.succ_le_succ (chosen.least ready may listed')).trans_lt less
      · rw [moved]
        rfl
    next => exact ih mays

/-- A partition stays where it is, or one is moved. -/
theorem tryPartition_eq (ready : Ready s fixed r) (matches_ : s.Matches members topics) (settled : Settled s fixed)
    (known : p ∈ s.partition2AllPotentialConsumers) : tryPartition ∅ s p r = some (r, false) ∨
      ∃ target q, Chosen s r p target q ∧ (q = p → (r.currentAssignment.of target).length + 1 <
          (r.currentAssignment.of (r.currentPartitionConsumer.getD p [])).length) ∧
        tryPartition ∅ s p r = some (processPartitionMovement q target r, true) := by
  have consumers : s.partition2AllPotentialConsumers[p]? = some (s.partition2AllPotentialConsumers.getD p []) :=
    ExtTreeMap.getElem?_eq_some_getD known
  rw [tryPartition, consumers]
  dsimp only [Option.bind_eq_bind, Option.bind_some]
  split
  next => exact .inl rfl
  next many =>
    have mays : ∀ o ∈ s.partition2AllPotentialConsumers.getD p [], s.include o p :=
      fun o member => (matches_.consumers_iff o p).mp member
    obtain ⟨first, member⟩ :=
      List.exists_mem_of_length_pos (show 0 < (s.partition2AllPotentialConsumers.getD p []).length by omega)
    obtain ⟨consumer, holds⟩ := ready.complete first p (mays first member)
    have owner : r.currentPartitionConsumer.getD p [] = consumer := ExtTreeMap.getD_of_getElem? holds []
    rw [Reassignment.consumerOf_eq holds, owner]
    dsimp only
    split
    next => exact .inl rfl
    next =>
      rw [ExtTreeMap.getElem?_empty]
      exact tryOthers_eq ready settled (not_le.mp many) holds mays

/-! ## The measure -/

/-- The sum of the squares of how much the members have. -/
def Reassignment.spread (r : Reassignment) : ℕ := r.currentAssignment.total fun _ partitions => partitions.length ^ 2

theorem total_assignment (a : Assignment) (m : Bytes) : a.total (fun _ partitions => partitions.length ^ 2) =
      (a.of m).length ^ 2 + (a.erase m).total fun _ partitions => partitions.length ^ 2 := by
  rw [ExtTreeMap.total_eq _ a m, Assignment.of, ExtTreeMap.getD_eq_getD_getElem?]
  cases a[m]? <;> rfl

/-- A move to a member that has at least two less makes the members more alike. -/
theorem Ready.spread_lt (ready : Ready s fixed r) (holds : r.holder q = some source) (freeSource : source ∉ fixed)
    (less : (r.currentAssignment.of target).length + 1 < (r.currentAssignment.of source).length) :
    (processPartitionMovement q target r).spread < r.spread := by
  have differ : target ≠ source := by
    rintro rfl
    omega
  have member := ready.consistent.mem_of_holder holds
  rw [held_of_notMem freeSource] at member
  have left := List.length_erase_of_mem member
  let removed : Assignment := r.currentAssignment.insert source ((r.currentAssignment.of source).erase q)
  have current :
      (processPartitionMovement q target r).currentAssignment = removed.insert target (removed.of target ++ [q]) := by
    rw [processPartitionMovement, Reassignment.consumerOf_eq holds]
  have target_eq : removed.of target = r.currentAssignment.of target := by
    rw [Assignment.of_insert, Function.update_of_ne differ]
  have source_eq : Assignment.of (removed.erase target) source = (r.currentAssignment.of source).erase q := by
    rw [Assignment.of, ExtTreeMap.getD_erase_eq, if_neg differ, ← Assignment.of, Assignment.of_insert, Function.update_self]
  have source_eq' : Assignment.of (r.currentAssignment.erase target) source = r.currentAssignment.of source := by
    rw [Assignment.of, ExtTreeMap.getD_erase_eq, if_neg differ, ← Assignment.of]
  have others : (removed.erase target).erase source = (r.currentAssignment.erase target).erase source := by
    apply ExtTreeMap.ext_getElem?
    intro m
    simp only [removed, ExtTreeMap.getElem?_erase_eq, ExtTreeMap.getElem?_insert_eq]
    split <;> rfl
  rw [Reassignment.spread, current, ExtTreeMap.total_insert, total_assignment (removed.erase target) source, source_eq,
    others,
    Reassignment.spread, total_assignment r.currentAssignment target,
      total_assignment (r.currentAssignment.erase target) source,
    source_eq', target_eq, List.length_append, List.length_singleton, left]
  obtain ⟨k, more⟩ := Nat.exists_eq_add_of_lt less
  rw [more, Nat.add_sub_cancel]
  have squares (b : ℕ) : b ^ 2 + (b + 1 + k + 1) ^ 2 = (b + 1) ^ 2 + (b + 1 + k) ^ 2 + 2 * (k + 1) := by ring
  have balance := squares (r.currentAssignment.of target).length
  omega

/-! ## Rounds -/

/-- A partition that is moved in place of `p` is with a member that has at least two more than the one it is moved to. -/
def Downhill (s : Subscriptions) (r : Reassignment) (p : TopicPartition) : Prop :=
  ∀ target q, Chosen s r p target q → q ≠ p →
    (r.currentAssignment.of target).length + 1 <
      (r.currentAssignment.of (r.currentPartitionConsumer.getD q [])).length

/-- Whenever a round over the partitions moves something, it does not take it from a member that has as little as the
target. -/
def DownhillRound (s : Subscriptions) : List TopicPartition → Reassignment → Prop
  | [], _ => True
  | p :: rest, r => isBalanced r.currentAssignment s.consumer2AllPotentialPartitions = some false →
      ∀ r' modified, tryPartition ∅ s p r = some (r', modified) → (modified = true → Downhill s r p) ∧
        DownhillRound s rest r'

/-- What is moved is with a member that takes part. -/
theorem Chosen.holds (chosen : Chosen s r p target q) (placed : Placed s fixed r) (matches_ : s.Matches members topics)
    (settled : Settled s fixed) (known : p ∈ s.partition2AllPotentialConsumers) : ∃ n, r.holder q = some n ∧ n ∉ fixed := by
  have takes : s.include target p := List.find?_some (p := fun n => s.include n p) chosen.first
  have listed := (placed.consistent.sorted target).mp (List.mem_of_find?_eq_some chosen.first)
  obtain rfl | recorded := PartitionMovements.actual_eq_or_recorded chosen.actual
  · exact placed.holds matches_ settled takes (placed.consistent.notMem_of_mem listed)
  · obtain ⟨-, n, free, holds⟩ := placed.consistent.records p.1 q recorded
    exact ⟨n, holds, free⟩

theorem tryPartition_step (ready : Ready s fixed r) (matches_ : s.Matches members topics) (settled : Settled s fixed)
    (known : p ∈ s.partition2AllPotentialConsumers) :
    ∃ r' modified, tryPartition ∅ s p r = some (r', modified) ∧ Ready s fixed r' ∧
      (modified = false → r' = r) ∧ (modified = true → Downhill s r p → r'.spread < r.spread) := by
  obtain stays | ⟨target, q, chosen, own, moves⟩ := tryPartition_eq ready matches_ settled known
  · exact ⟨r, false, stays, ready, fun _ => rfl, fun moved => by cases moved⟩
  · obtain ⟨placed, -⟩ := tryPartition_spec ready.toPlaced matches_ settled moves
    refine ⟨_, true, moves, ready.process placed, Bool.noConfusion, fun _ downhill => ?_⟩
    obtain ⟨n, holds, free⟩ := chosen.holds ready.toPlaced matches_ settled known
    have owner : r.currentPartitionConsumer.getD q [] = n := ExtTreeMap.getD_of_getElem? holds []
    refine ready.spread_lt holds free ?_
    obtain rfl | other := eq_or_ne q p
    · exact owner ▸ own rfl
    · exact owner ▸ downhill target q chosen other

theorem tryPartitions_step (ready : Ready s fixed r) (matches_ : s.Matches members topics) (settled : Settled s fixed)
    {list : List TopicPartition} (known : ∀ p ∈ list, p ∈ s.partition2AllPotentialConsumers) :
    ∃ r' modified, tryPartitions ∅ s list r = some (r', modified) ∧ Ready s fixed r' ∧
      (DownhillRound s list r → r'.spread ≤ r.spread ∧ (modified = true → r'.spread < r.spread)) := by
  induction list generalizing r with
  | nil => exact ⟨r, false, rfl, ready, fun _ => ⟨le_rfl, fun moved => by cases moved⟩⟩
  | cons p list ih =>
    obtain ⟨here, rest⟩ := List.forall_mem_cons.mp known
    obtain ⟨balanced, judged⟩ := isBalanced_total ready.toPlaced matches_ settled
    rw [tryPartitions, judged]
    cases balanced with
    | true => exact ⟨r, false, rfl, ready, fun _ => ⟨le_rfl, fun moved => by cases moved⟩⟩
    | false =>
      obtain ⟨r₁, first, tried, ready₁, unchanged, less⟩ := tryPartition_step ready matches_ settled here
      obtain ⟨r₂, more, others, ready₂, lesser⟩ := ih ready₁ rest
      refine ⟨r₂, first || more, ?_, ready₂, fun downhill => ?_⟩
      · simp only [tried, others, Option.bind_eq_bind, Option.bind_some, Bool.false_eq_true, if_false, pure]
      · obtain ⟨head, tail⟩ := downhill judged r₁ first tried
        obtain ⟨noMore, fewer⟩ := lesser tail
        cases first with
        | true =>
          have drop := noMore.trans_lt (less rfl (head rfl))
          exact ⟨drop.le, fun _ => drop⟩
        | false =>
          obtain rfl := unchanged rfl
          exact ⟨noMore, fewer⟩

/-! ## The loop of `performReassignments` -/

/-- The state in which the next round begins after `n` rounds, if the loop goes on for so long. -/
def afterRounds (s : Subscriptions) (list : List TopicPartition) : ℕ → Reassignment → Option Reassignment
  | 0, r => some r
  | n + 1, r => do
    let (r, modified) ← tryPartitions ∅ s list r
    if modified then afterRounds s list n r else none

variable {list : List TopicPartition}

theorem afterRounds_succ {modified : Bool} (tried : tryPartitions ∅ s list r = some (r', modified)) (n : ℕ) :
    afterRounds s list (n + 1) r = if modified then afterRounds s list n r' else none := by
  rw [afterRounds, tried]
  rfl

theorem afterRounds_add (n k : ℕ) : afterRounds s list (n + k) r = (afterRounds s list n r).bind (afterRounds s list k) := by
  induction n generalizing r with
  | zero =>
    rw [Nat.zero_add]
    rfl
  | succ n ih =>
    rw [Nat.add_right_comm, afterRounds, afterRounds]
    cases tryPartitions ∅ s list r with
    | none => rfl
    | some result =>
      obtain ⟨r', modified⟩ := result
      cases modified with
      | false => rfl
      | true => exact ih

/-- The call returns exactly if some round is the last one. -/
theorem performReassignments_ends_iff (ready : Ready s fixed r) (matches_ : s.Matches members topics)
    (settled : Settled s fixed) (known : ∀ p ∈ list, p ∈ s.partition2AllPotentialConsumers) :
    (∃ fuel result, performReassignments ∅ s list fuel r = some result) ↔ ∃ n, afterRounds s list n r = none := by
  constructor
  · rintro ⟨fuel, result, run⟩
    induction fuel generalizing r result with
    | zero => cases run
    | succ fuel ih =>
      obtain ⟨r', modified, tried, ready', -⟩ := tryPartitions_step ready matches_ settled known
      rw [performReassignments, tried] at run
      cases modified with
      | false => exact ⟨1, afterRounds_succ tried 0⟩
      | true =>
        obtain ⟨last, others, -⟩ := Option.bind_eq_some_iff.mp ((Option.bind_some ..).symm.trans run)
        obtain ⟨n, ends⟩ := ih ready' last others
        exact ⟨n + 1, (afterRounds_succ tried n).trans ends⟩
  · rintro ⟨n, ends⟩
    induction n generalizing r with
    | zero => cases ends
    | succ n ih =>
      obtain ⟨r', modified, tried, ready', -⟩ := tryPartitions_step ready matches_ settled known
      rw [afterRounds_succ tried] at ends
      cases modified with
      | false =>
        refine ⟨1, (r', false), ?_⟩
        rw [performReassignments, tried]
        rfl
      | true =>
        obtain ⟨fuel, ⟨last, performed⟩, others⟩ := ih ready' ends
        refine ⟨fuel + 1, (last, true), ?_⟩
        rw [performReassignments, tried]
        simp only [Option.bind_eq_bind, Option.bind_some, if_true, others, pure]

/-- The loop ends exactly if from some round on every move is downhill. -/
theorem ends_iff_downhill (ready : Ready s fixed r) (matches_ : s.Matches members topics) (settled : Settled s fixed)
    (known : ∀ p ∈ list, p ∈ s.partition2AllPotentialConsumers) : (∃ n, afterRounds s list n r = none) ↔
      ∃ n, ∀ k r', n ≤ k → afterRounds s list k r = some r' → DownhillRound s list r' := by
  constructor
  · rintro ⟨n, ends⟩
    refine ⟨n, fun k r' later runs => ?_⟩
    obtain ⟨j, rfl⟩ := Nat.exists_eq_add_of_le later
    rw [afterRounds_add, ends] at runs
    cases runs
  · rintro ⟨n, downhill⟩
    induction n generalizing r with
    | zero =>
      induction size : r.spread using Nat.strong_induction_on generalizing r with
      | _ size ih =>
        subst size
        obtain ⟨r', modified, tried, ready', less⟩ := tryPartitions_step ready matches_ settled known
        cases modified with
        | false => exact ⟨1, afterRounds_succ tried 0⟩
        | true =>
          obtain ⟨-, fewer⟩ := less (downhill 0 r le_rfl rfl)
          obtain ⟨n, ends⟩ := ih r'.spread (fewer rfl) ready'
            (fun k r'' _ runs => downhill (k + 1) r'' (Nat.zero_le _) ((afterRounds_succ tried k).trans runs)) rfl
          exact ⟨n + 1, (afterRounds_succ tried n).trans ends⟩
    | succ n ih =>
      obtain ⟨r', modified, tried, ready', -⟩ := tryPartitions_step ready matches_ settled known
      cases modified with
      | false => exact ⟨1, afterRounds_succ tried 0⟩
      | true =>
        obtain ⟨m, ends⟩ := ih ready' fun k r'' later runs =>
          downhill (k + 1) r'' (Nat.succ_le_succ later) ((afterRounds_succ tried k).trans runs)
        exact ⟨m + 1, (afterRounds_succ tried m).trans ends⟩

end Coev.Kafka
