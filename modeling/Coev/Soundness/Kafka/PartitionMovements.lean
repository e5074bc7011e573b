import Coev.Proofs.Kafka.ReassignmentProgress

/-! # The two records of the movements
`Movements` has the net movement of each partition and `PartitionMovementsByTopic` has the partitions of each net
movement. After any calls of `move_partition` the second record is the inverse of the first one, so the first one alone
decides what both are.
-/

namespace Coev.Kafka.PartitionMovements

open Std (ExtTreeMap)

variable {s t : PartitionMovements} {p q : TopicPartition} {pair : ConsumerMovement} {topic oldConsumer newConsumer : Bytes}

/-! ## The second record -/

/-- The partitions of each net movement are those that have it, and nothing empty is kept. -/
structure Coherent (s : PartitionMovements) : Prop where
  inverse : ∀ (topic : Bytes) (pair : ConsumerMovement) (p : TopicPartition),
    (s.moved topic pair)[p]? = if p.1 = topic ∧ s.movements[p]? = some pair then some true else none
  filled : s.Filled
  topics : ∀ (topic : Bytes) (pairs : ExtTreeMap ConsumerMovement (TopicPartitionMap Bool)),
    s.partitionMovementsByTopic[topic]? = some pairs → pairs ≠ ∅

private theorem moved_add (s : PartitionMovements) (q : TopicPartition) (pair : ConsumerMovement) (topic : Bytes)
    (pair' : ConsumerMovement) : (s.addPartitionMovementRecord q pair).moved topic pair' =
      if q.1 = topic ∧ pair = pair' then (s.moved topic pair').insert q true else s.moved topic pair' := by
  unfold moved addPartitionMovementRecord
  rw [ExtTreeMap.getD_insert_eq]
  obtain rfl | other := eq_or_ne q.1 topic
  · rw [if_pos rfl, ExtTreeMap.getD_insert_eq]
    obtain rfl | differ := eq_or_ne pair pair'
    · rw [if_pos rfl, if_pos ⟨rfl, rfl⟩]
    · rw [if_neg differ, if_neg fun both => differ both.2]
  · rw [if_neg other, if_neg fun both => other both.1]

private theorem moved_remove (s : PartitionMovements) (q : TopicPartition) (topic : Bytes) (pair' : ConsumerMovement) :
    (s.removeMovementRecordOfPartition q).2.moved topic pair' =
      if q.1 = topic ∧ s.movements.getD q ([], []) = pair' then (s.moved topic pair').erase q else s.moved topic pair' := by
  unfold moved removeMovementRecordOfPartition
  rw [ExtTreeMap.getD_erase_or_insert]
  obtain rfl | other := eq_or_ne q.1 topic
  · rw [if_pos rfl, ExtTreeMap.getD_erase_or_insert]
    obtain rfl | differ := eq_or_ne (s.movements.getD q ([], [])) pair'
    · rw [if_pos rfl, if_pos ⟨rfl, rfl⟩]
    · rw [if_neg differ, if_neg fun both => differ both.2]
  · rw [if_neg other, if_neg fun both => other both.1]

/-! ## What a call does to the first record -/

private theorem movements_add (s : PartitionMovements) (q p : TopicPartition) (pair : ConsumerMovement) :
    (s.addPartitionMovementRecord q pair).movements[p]? = if q = p then some pair else s.movements[p]? :=
  ExtTreeMap.getElem?_insert_eq _ _ _ _

private theorem movements_remove (s : PartitionMovements) (q p : TopicPartition) :
    (s.removeMovementRecordOfPartition q).2.movements[p]? = if q = p then none else s.movements[p]? :=
  ExtTreeMap.getElem?_erase_eq _ _ _

/-- What is left of a movement when the partition moves on. -/
def net (existing : Option ConsumerMovement) (oldConsumer newConsumer : Bytes) : Option ConsumerMovement :=
  match existing with
  | none => some (oldConsumer, newConsumer)
  | some (source, _) => if source = newConsumer then none else some (source, newConsumer)

private theorem getElem?_movements_move (s : PartitionMovements) (q p : TopicPartition) (oldConsumer newConsumer : Bytes) :
    (s.movePartition q oldConsumer newConsumer).movements[p]? =
      if q = p then net s.movements[q]? oldConsumer newConsumer else s.movements[p]? := by
  unfold movePartition
  split
  · next recorded =>
    have found : s.movements[q]? = some (s.movements.getD q ([], [])) := ExtTreeMap.getElem?_eq_some_getD recorded
    rw [found]
    dsimp only [net]
    have out : (s.removeMovementRecordOfPartition q).1 = s.movements.getD q ([], []) := rfl
    obtain same | other := eq_or_ne (s.movements.getD q ([], [])).1 newConsumer
    · rw [out, if_neg (not_not_intro same), if_pos same, movements_remove]
    · rw [out, if_pos other, if_neg other, movements_add, movements_remove]
      split <;> rfl
  · next absent => rw [ExtTreeMap.getElem?_eq_none absent, movements_add, net]

/-! ## Every call keeps both records in step -/

private theorem coherent_empty : Coherent {} where
  inverse topic pair p := by
    rw [moved, ExtTreeMap.getD_empty, ExtTreeMap.getD_empty, ExtTreeMap.getElem?_empty, ExtTreeMap.getElem?_empty]
    exact (if_neg (by rintro ⟨-, ⟨⟩⟩)).symm
  filled := filled_empty
  topics topic pairs found := by
    rw [ExtTreeMap.getElem?_empty] at found
    cases found

theorem Coherent.add (coherent : Coherent s) (absent : s.movements[q]? = none) (pair : ConsumerMovement) :
    Coherent (s.addPartitionMovementRecord q pair) where
  inverse topic pair' p := by
    simp only [moved_add, movements_add]
    obtain rfl | other := eq_or_ne q p
    · simp only [if_pos, Option.some.injEq]
      split
      · rw [ExtTreeMap.getElem?_insert_eq, if_pos rfl]
      · rw [coherent.inverse, absent, if_neg (by rintro ⟨-, ⟨⟩⟩)]
    · simp only [if_neg other, ← coherent.inverse]
      split
      · rw [ExtTreeMap.getElem?_insert_eq, if_neg other]
      · rfl
  filled := coherent.filled.add q pair
  topics topic pairs found := by
    rw [addPartitionMovementRecord, ExtTreeMap.getElem?_insert_eq] at found
    split at found
    · cases found
      exact ExtTreeMap.insert_ne_empty
    · exact coherent.topics topic pairs found

theorem Coherent.remove (coherent : Coherent s) (recorded : s.movements[q]? = some pair) :
    Coherent (s.removeMovementRecordOfPartition q).2 where
  inverse topic pair' p := by
    have known : s.movements.getD q ([], []) = pair := ExtTreeMap.getD_of_getElem? recorded _
    simp only [moved_remove, movements_remove, known]
    obtain rfl | other := eq_or_ne q p
    · simp only [if_pos, reduceCtorEq, and_false, if_false]
      split
      · rw [ExtTreeMap.getElem?_erase_eq, if_pos rfl]
      · next differ =>
        simp only [coherent.inverse, recorded, Option.some.injEq, if_neg differ]
    · simp only [if_neg other, ← coherent.inverse]
      split
      · rw [ExtTreeMap.getElem?_erase_eq, if_neg other]
      · rfl
  filled := coherent.filled.remove q
  topics topic pairs found := ExtTreeMap.ne_empty_of_erase_or_insert coherent.topics found

theorem Coherent.move (coherent : Coherent s) (q : TopicPartition) (oldConsumer newConsumer : Bytes) :
    Coherent (s.movePartition q oldConsumer newConsumer) := by
  unfold movePartition
  split
  · next recorded =>
    have found : s.movements[q]? = some (s.movements.getD q ([], [])) := ExtTreeMap.getElem?_eq_some_getD recorded
    have removed := coherent.remove found
    dsimp only
    split
    · apply removed.add
      dsimp only [removeMovementRecordOfPartition]
      rw [ExtTreeMap.getElem?_erase_eq, if_pos rfl]
    · exact removed
  · next absent => exact coherent.add (ExtTreeMap.getElem?_eq_none absent) _

/-- Two coherent states with the same net movements are the same. -/
theorem Coherent.ext (left : Coherent s) (right : Coherent t) (same : s.movements = t.movements) : s = t := by
  have moved (topic : Bytes) (pair : ConsumerMovement) : s.moved topic pair = t.moved topic pair := by
    apply ExtTreeMap.ext_getElem?
    intro p
    rw [left.inverse, right.inverse, same]
  have pairs (topic : Bytes) : s.partitionMovementsByTopic.getD topic ∅ = t.partitionMovementsByTopic.getD topic ∅ :=
    ExtTreeMap.eq_of_getD (left.filled.getD topic) (right.filled.getD topic) (moved topic)
  have byTopic := ExtTreeMap.eq_of_getD left.topics right.topics pairs
  obtain ⟨movements, partitionMovementsByTopic⟩ := s
  obtain rfl : movements = t.movements := same
  obtain rfl : partitionMovementsByTopic = t.partitionMovementsByTopic := byTopic
  rfl

/-! ## Any calls -/

/-- The records after calls of `move_partition`. -/
def afterMoves (moves : List (TopicPartition × ConsumerMovement)) : PartitionMovements :=
  moves.foldl (fun s move => s.movePartition move.1 move.2.1 move.2.2) {}

private theorem coherent_afterMoves (moves : List (TopicPartition × ConsumerMovement)) : Coherent (afterMoves moves) := by
  have keeps (start : PartitionMovements) (coherent : Coherent start) :
      Coherent (moves.foldl (fun s move => s.movePartition move.1 move.2.1 move.2.2) start) := by
    induction moves generalizing start with
    | nil => exact coherent
    | cons move moves ih => exact ih _ (coherent.move move.1 move.2.1 move.2.2)
  exact keeps {} coherent_empty

/-- No partition went back to where it came from. -/
def Apart (s : PartitionMovements) : Prop :=
  ∀ (p : TopicPartition) (pair : ConsumerMovement), s.movements[p]? = some pair → pair.1 ≠ pair.2

theorem Apart.move (apart : Apart s) (q : TopicPartition) (differ : oldConsumer ≠ newConsumer) :
    Apart (s.movePartition q oldConsumer newConsumer) := by
  intro p pair found
  rw [getElem?_movements_move] at found
  split at found
  · cases existing : s.movements[q]? with
    | none =>
      rw [existing] at found
      cases found
      exact differ
    | some source =>
      rw [existing, net] at found
      split at found
      · cases found
      · next away =>
        cases found
        exact away
  · exact apart p pair found

private theorem apart_afterMoves {moves : List (TopicPartition × ConsumerMovement)}
    (differ : ∀ move ∈ moves, move.2.1 ≠ move.2.2) :
    Apart (afterMoves moves) := by
  have keeps (start : PartitionMovements) (apart : Apart start) :
      Apart (moves.foldl (fun s move => s.movePartition move.1 move.2.1 move.2.2) start) := by
    induction moves generalizing start with
    | nil => exact apart
    | cons move moves ih =>
      obtain ⟨first, rest⟩ := List.forall_mem_cons.mp differ
      exact ih rest _ (apart.move move.1 first)
  apply keeps {}
  intro p pair found
  rw [ExtTreeMap.getElem?_empty] at found
  cases found

/-- A partition that moves on from the member that has it, and back again, has the net movement that it had. -/
private theorem net_net {existing : Option ConsumerMovement} (apart : ∀ pair ∈ existing, pair.1 ≠ pair.2)
    (follows : ∀ pair ∈ existing, pair.2 = oldConsumer) (differ : oldConsumer ≠ newConsumer) :
    net (net existing oldConsumer newConsumer) newConsumer oldConsumer = existing := by
  cases existing with
  | none =>
    dsimp only [net]
    rw [if_pos rfl]
  | some pair =>
    obtain ⟨source, target⟩ := pair
    have away : source ≠ target := apart _ rfl
    obtain rfl : target = oldConsumer := follows _ rfl
    have first : net (some (source, target)) target newConsumer =
      if source = newConsumer then none else some (source, newConsumer) := rfl
    obtain rfl | other := eq_or_ne source newConsumer
    · rw [first, if_pos rfl, net]
    · rw [first, if_neg other, net, if_neg away]

theorem Coherent.cancels (coherent : Coherent s) (apart : Apart s) (differ : oldConsumer ≠ newConsumer)
    (follows : ∀ pair, s.movements[p]? = some pair → pair.2 = oldConsumer) :
    (s.movePartition p oldConsumer newConsumer).movePartition p newConsumer oldConsumer = s := by
  apply Coherent.ext ((coherent.move p oldConsumer newConsumer).move p newConsumer oldConsumer) coherent
  apply ExtTreeMap.ext_getElem?
  intro q
  rw [getElem?_movements_move, getElem?_movements_move, getElem?_movements_move, if_pos rfl]
  split
  · next same =>
    rw [← same]
    exact net_net (apart p) follows differ
  · rfl

/-- Whatever was moved, the partitions of each net movement are those that have it, and nothing empty is kept. Where no
call names one member twice, each net movement is from one member to another one, and a call that moves a partition on
from the member that has it is cancelled by its reverse. -/
theorem movements_represented (moves : List (TopicPartition × ConsumerMovement)) :
    (∀ (topic : Bytes) (pair : ConsumerMovement) (p : TopicPartition), p ∈ (afterMoves moves).moved topic pair ↔
        p.1 = topic ∧ (afterMoves moves).movements[p]? = some pair) ∧
      (∀ (topic : Bytes) (pairs : ExtTreeMap ConsumerMovement (TopicPartitionMap Bool)),
        (afterMoves moves).partitionMovementsByTopic[topic]? = some pairs →
        pairs ≠ ∅ ∧ ∀ (pair : ConsumerMovement) (partitions : TopicPartitionMap Bool), pairs[pair]? = some partitions →
          partitions ≠ ∅) ∧ ((∀ move ∈ moves, move.2.1 ≠ move.2.2) →
        (∀ (p : TopicPartition) (pair : ConsumerMovement), (afterMoves moves).movements[p]? = some pair →
          pair.1 ≠ pair.2) ∧ ∀ (p : TopicPartition) (oldConsumer newConsumer : Bytes), oldConsumer ≠ newConsumer →
            (∀ pair : ConsumerMovement, (afterMoves moves).movements[p]? = some pair → pair.2 = oldConsumer) →
              ((afterMoves moves).movePartition p oldConsumer newConsumer).movePartition p newConsumer oldConsumer =
                afterMoves moves) := by
  have coherent := coherent_afterMoves moves
  refine ⟨fun topic pair p => ?_, fun topic pairs found => ?_, ?_⟩
  · rw [ExtTreeMap.mem_iff_isSome_getElem?, coherent.inverse]
    split
    · next both => exact iff_of_true rfl both
    · next differ => exact iff_of_false (by decide) differ
  · exact ⟨coherent.topics topic pairs found, coherent.filled topic pairs found⟩
  · intro differ
    have apart := apart_afterMoves differ
    exact ⟨apart, fun p oldConsumer newConsumer other follows => coherent.cancels apart other follows⟩

/-- The partition `0` of the topic `t` goes from the member `1` to the member `2`, and on to `3` and back. -/
theorem movements_represented_once :
    ((afterMoves [(([116], 0), ([1], [2]))]).movePartition ([116], 0) [2] [3]).movePartition ([116], 0) [3] [2] =
      afterMoves [(([116], 0), ([1], [2]))] := by
  apply ((movements_represented [(([116], 0), ([1], [2]))]).2.2 (by decide)).2
  · decide
  · intro pair found
    have recorded : (afterMoves [(([116], 0), ([1], [2]))]).movements[(([116], 0) : TopicPartition)]? = some ([1], [2]) := by
      decide +kernel
    rw [recorded] at found
    cases found
    rfl

/-- A movement from a member to itself is recorded, and one that does not begin where the partition is does not come back. -/
theorem movements_misrepresented :
    (afterMoves [(([116], 0), ([1], [1]))]).movements[(([116], 0) : TopicPartition)]? = some ([1], [1]) ∧
      (afterMoves [(([116], 0), ([1], [2]))]).movements[(([116], 0) : TopicPartition)]? = some ([1], [2]) ∧
      (afterMoves [(([116], 0), ([1], [2])), (([116], 0), ([3], [4])), (([116], 0), ([4], [3]))]).movements[(([116], 0) :
        TopicPartition)]? = some ([1], [3]) := by
  decide +kernel

end Coev.Kafka.PartitionMovements
