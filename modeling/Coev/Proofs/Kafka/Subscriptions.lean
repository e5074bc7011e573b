import Coev.Model.Kafka.StickyBalanceStrategy
import Coev.ToMathlib.OrderedMap

/-! # Who may consume what

The two maps that a plan is made from say the same: a member is listed for a partition if the partition is listed for the
member, which is so if the topic has the partition and the member subscribes to it.
-/

namespace Coev.Kafka

open Std (ExtTreeMap)

variable {p : TopicPartition}

/-- The subscriptions of the members to the topics, told by both maps. -/
structure Subscriptions.Matches (s : Subscriptions) (members : Members) (topics : Topics) : Prop where
  known : ∀ m, m ∈ s.consumer2AllPotentialPartitions ↔ m ∈ members
  include_iff : ∀ m p, s.include m p ↔ members.Subscribes m p.1 ∧ topics.Has p
  consumers_iff : ∀ m p, m ∈ s.partition2AllPotentialConsumers.getD p [] ↔ s.include m p
  partitions_iff : ∀ p, p ∈ s.partition2AllPotentialConsumers ↔ topics.Has p

theorem Subscriptions.include_eq {s : Subscriptions} {m : Bytes} :
    s.include m p ↔ p ∈ s.consumer2AllPotentialPartitions.getD m [] := by
  simp [Subscriptions.include]

/-- A member that may consume something is known. -/
theorem Subscriptions.mem_of_include {s : Subscriptions} {m : Bytes} (may : s.include m p) :
    m ∈ s.consumer2AllPotentialPartitions := by
  by_contra absent
  rw [include_eq, ExtTreeMap.getD_eq_fallback absent] at may
  cases may

/-- Of a topic, a member may consume all partitions or none. -/
theorem Subscriptions.Matches.topicwise {s : Subscriptions} {members : Members} {topics : Topics}
    (matches_ : s.Matches members topics)
    {m n : Bytes} {p q : TopicPartition} (may : s.include n p) (same : q.1 = p.1) (other : s.include m q) :
    s.include n q := by
  rw [matches_.include_iff] at *
  rw [same]
  exact ⟨may.1, other.2⟩

theorem mem_potentialPartitions {topics : Topics} {metadata : ConsumerGroupMemberMetadata} :
    p ∈ potentialPartitions topics metadata ↔ p.1 ∈ metadata.topics ∧ topics.Has p := by
  obtain ⟨t, i⟩ := p
  simp only [potentialPartitions, List.mem_flatMap, List.mem_map, Prod.mk.injEq, Topics.Has]
  constructor
  · rintro ⟨t, subscribed, i, member, rfl, rfl⟩
    refine ⟨subscribed, ?_⟩
    cases found : topics[t]? with
    | none =>
      rw [ExtTreeMap.getD_eq_getD_getElem?, found] at member
      cases member
    | some partitions => exact ⟨partitions, rfl, ExtTreeMap.getD_of_getElem? found [] ▸ member⟩
  · rintro ⟨subscribed, partitions, found, member⟩
    exact ⟨t, subscribed, i, (ExtTreeMap.getD_of_getElem? found []).symm ▸ member, rfl, rfl⟩

namespace Subscriptions

/-- The loop of `Plan` over the partitions of a member. -/
def enlist (memberID : Bytes) (consumers : TopicPartitionMap (List Bytes)) (tpa : TopicPartition) :
    TopicPartitionMap (List Bytes) :=
  consumers.insert tpa (consumers.getD tpa [] ++ [memberID])

theorem mem_foldl_enlist (memberID : Bytes) (list : List TopicPartition) (consumers : TopicPartitionMap (List Bytes))
    (p : TopicPartition) : p ∈ list.foldl (enlist memberID) consumers ↔ p ∈ list ∨ p ∈ consumers := by
  induction list generalizing consumers with
  | nil => simp
  | cons tpa list ih =>
    rw [List.foldl_cons, ih, enlist, ExtTreeMap.mem_insert_eq, List.mem_cons]
    tauto

theorem mem_getD_foldl_enlist (memberID : Bytes) (list : List TopicPartition) (consumers : TopicPartitionMap (List Bytes))
    (m : Bytes) (p : TopicPartition) :
    m ∈ (list.foldl (enlist memberID) consumers).getD p [] ↔ m = memberID ∧ p ∈ list ∨ m ∈ consumers.getD p [] := by
  induction list generalizing consumers with
  | nil => simp
  | cons tpa list ih =>
    rw [List.foldl_cons, ih, enlist, ExtTreeMap.getD_insert_eq, List.mem_cons]
    split
    next same =>
      subst same
      rw [List.mem_append, List.mem_singleton]
      tauto
    next other =>
      have differ : p ≠ tpa := fun same => other same.symm
      tauto

/-- The loop of `Plan` over the members. -/
def enroll (topics : Topics) (s : Subscriptions) (it : Bytes × ConsumerGroupMemberMetadata) : Subscriptions where
  consumer2AllPotentialPartitions := s.consumer2AllPotentialPartitions.insert it.1 (potentialPartitions topics it.2)
  partition2AllPotentialConsumers := (potentialPartitions topics it.2).foldl (enlist it.1) s.partition2AllPotentialConsumers

variable {topics : Topics} {entries : List (Bytes × ConsumerGroupMemberMetadata)} {s : Subscriptions}

theorem consumer2_foldl_enroll : (entries.foldl (enroll topics) s).consumer2AllPotentialPartitions =
    entries.foldl (fun m entry => m.insert entry.1 (potentialPartitions topics entry.2))
      s.consumer2AllPotentialPartitions := by
  induction entries generalizing s with
  | nil => rfl
  | cons entry entries ih => exact ih

theorem mem_partition2_foldl_enroll (p : TopicPartition) (has : ∀ p ∈ s.partition2AllPotentialConsumers, topics.Has p) :
    (∀ p ∈ (entries.foldl (enroll topics) s).partition2AllPotentialConsumers, topics.Has p) ∧
      (p ∈ s.partition2AllPotentialConsumers → p ∈ (entries.foldl (enroll topics) s).partition2AllPotentialConsumers) := by
  induction entries generalizing s with
  | nil => exact ⟨has, id⟩
  | cons entry entries ih =>
    obtain ⟨within, grows⟩ := ih (s := enroll topics s entry) (by
      intro q member
      rw [enroll, mem_foldl_enlist, mem_potentialPartitions] at member
      exact member.elim (·.2) (has q))
    refine ⟨within, fun member => grows ?_⟩
    rw [enroll, mem_foldl_enlist]
    exact .inr member

theorem mem_consumers_foldl_enroll (m : Bytes) (p : TopicPartition) :
    m ∈ (entries.foldl (enroll topics) s).partition2AllPotentialConsumers.getD p [] ↔
      (∃ metadata, (m, metadata) ∈ entries ∧ p ∈ potentialPartitions topics metadata) ∨
        m ∈ s.partition2AllPotentialConsumers.getD p [] := by
  induction entries generalizing s with
  | nil => simp
  | cons entry entries ih =>
    obtain ⟨n, metadata⟩ := entry
    rw [List.foldl_cons, ih, enroll, mem_getD_foldl_enlist]
    simp only [List.mem_cons, Prod.mk.injEq]
    constructor
    · rintro (⟨other, member, may⟩ | ⟨rfl, may⟩ | before)
      · exact .inl ⟨other, .inr member, may⟩
      · exact .inl ⟨metadata, .inl ⟨rfl, rfl⟩, may⟩
      · exact .inr before
    · rintro (⟨other, ⟨rfl, rfl⟩ | member, may⟩ | before)
      · exact .inr (.inl ⟨rfl, may⟩)
      · exact .inl ⟨other, member, may⟩
      · exact .inr (.inr before)

/-- The loop of `Plan` over the partitions of the topics. -/
theorem foldl_topics_iff (entries : List (Bytes × List Int32)) (consumers : TopicPartitionMap (List Bytes))
    (p : TopicPartition) :
    let listed :=
      entries.foldl (fun consumers it => it.2.foldl (fun consumers i => consumers.insert (it.1, i) []) consumers)
        consumers
    (p ∈ listed ↔ (∃ partitions, (p.1, partitions) ∈ entries ∧ p.2 ∈ partitions) ∨ p ∈ consumers) ∧
      (consumers.getD p [] = [] → listed.getD p [] = []) := by
  have inner (t : Bytes) (partitions : List Int32) (consumers : TopicPartitionMap (List Bytes)) :
      (p ∈ partitions.foldl (fun consumers i => consumers.insert (t, i) []) consumers ↔
        (p.1 = t ∧ p.2 ∈ partitions) ∨ p ∈ consumers) ∧
        (consumers.getD p [] = [] →
          (partitions.foldl (fun consumers i => consumers.insert (t, i) []) consumers).getD p [] = []) := by
    induction partitions generalizing consumers with
    | nil => simp
    | cons i partitions ih =>
      obtain ⟨members, values⟩ := ih (consumers.insert (t, i) [])
      refine ⟨?_, fun empty => values ?_⟩
      · rw [List.foldl_cons, members, ExtTreeMap.mem_insert_eq, List.mem_cons, Prod.ext_iff]
        simp only [eq_comm]
        tauto
      · rw [ExtTreeMap.getD_insert_eq]
        split
        · rfl
        · exact empty
  induction entries generalizing consumers with
  | nil => simp
  | cons entry entries ih =>
    obtain ⟨t, partitions⟩ := entry
    obtain ⟨members, values⟩ := ih (partitions.foldl (fun consumers i => consumers.insert (t, i) []) consumers)
    obtain ⟨innerMembers, innerValues⟩ := inner t partitions consumers
    refine ⟨?_, fun empty => values (innerValues empty)⟩
    rw [List.foldl_cons, members, innerMembers]
    simp only [List.mem_cons, Prod.mk.injEq]
    constructor
    · rintro (⟨other, member, has⟩ | ⟨rfl, has⟩ | before)
      · exact .inl ⟨other, .inr member, has⟩
      · exact .inl ⟨partitions, .inl ⟨rfl, rfl⟩, has⟩
      · exact .inr before
    · rintro (⟨other, ⟨rfl, rfl⟩ | member, has⟩ | before)
      · exact .inr (.inl ⟨rfl, has⟩)
      · exact .inl ⟨other, member, has⟩
      · exact .inr (.inr before)

end Subscriptions

/-- The maps of `Plan` tell the subscriptions. -/
theorem subscriptions_matches (members : Members) (topics : Topics) :
    (subscriptions members topics).Matches members topics := by
  have listed (p : TopicPartition) := Subscriptions.foldl_topics_iff topics.toList ∅ p
  have perPartition (p : TopicPartition) :
      p ∈ topics.toList.foldl (fun consumers it => it.2.foldl (fun consumers i => consumers.insert (it.1, i) []) consumers)
        (∅ : TopicPartitionMap (List Bytes)) ↔ topics.Has p := by
    rw [(listed p).1]
    simp [Topics.Has, ExtTreeMap.mem_toList_iff_getElem?_eq_some]
  have consumer2 : (subscriptions members topics).consumer2AllPotentialPartitions =
      members.map fun _ metadata => potentialPartitions topics metadata := by
    refine Subscriptions.consumer2_foldl_enroll.trans ?_
    exact ExtTreeMap.foldl_insert_order (.refl _) _
  have include_iff (m : Bytes) (p : TopicPartition) :
      (subscriptions members topics).include m p ↔
        ∃ metadata, members[m]? = some metadata ∧ p ∈ potentialPartitions topics metadata := by
    rw [Subscriptions.include_eq, consumer2, ExtTreeMap.getD_eq_getD_getElem?, ExtTreeMap.getElem?_map]
    cases members[m]? with
    | none => simp
    | some metadata => simp
  constructor
  · intro m
    rw [consumer2, ExtTreeMap.mem_map]
  · intro m p
    rw [include_iff]
    simp only [mem_potentialPartitions, Members.Subscribes]
    tauto
  · intro m p
    rw [include_iff]
    refine (Subscriptions.mem_consumers_foldl_enroll m p).trans ?_
    rw [(listed p).2 rfl]
    simp [ExtTreeMap.mem_toList_iff_getElem?_eq_some]
  · intro p
    have loop : (∀ q ∈ (subscriptions members topics).partition2AllPotentialConsumers, topics.Has q) ∧
        (p ∈ _ → p ∈ (subscriptions members topics).partition2AllPotentialConsumers) :=
      Subscriptions.mem_partition2_foldl_enroll (s := ⟨∅, _⟩) p fun q member => (perPartition q).mp member
    exact ⟨loop.1 p, fun has => loop.2 ((perPartition p).mpr has)⟩

end Coev.Kafka
