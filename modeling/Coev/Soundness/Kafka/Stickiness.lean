import Coev.Proofs.Kafka.StickyPlan
import Mathlib.Data.Set.Card

/-! # A sticky plan is complete and valid

Whatever the members subscribe to, a plan that is returned gives each partition of a topic with subscribers to one of them,
and gives nothing else.
-/

namespace Coev.Kafka

open Std (ExtTreeMap)

variable {members : Members} {topics : Topics} {plan : BalanceStrategyPlan}

theorem Distributed.valid {a : Assignment} (distributed : Distributed (subscriptions members topics) a) :
    (planOf a).Valid members topics := by
  have matches_ := subscriptions_matches members topics
  constructor
  · rintro p has ⟨m, subscribes⟩
    obtain ⟨n, member⟩ := distributed.complete m p ((matches_.include_iff m p).mpr ⟨subscribes, has⟩)
    refine ⟨n, (assigns_planOf a n p).mpr member, ?_⟩
    intro other assigned
    exact distributed.unique other n p ((assigns_planOf a other p).mp assigned) member
  · intro m p assigned
    have may := distributed.allowed m p ((assigns_planOf a m p).mp assigned)
    exact ((matches_.include_iff m p).mp may).1
  · intro m p assigned
    have may := distributed.allowed m p ((assigns_planOf a m p).mp assigned)
    exact ((matches_.include_iff m p).mp may).2

/-- A plan of the sticky strategy is a plan for the subscriptions. -/
theorem stickyPlan_valid {fuel : ℕ} (run : stickyPlan fuel members topics = some plan) : plan.Valid members topics := by
  obtain ⟨a, rfl, distributed⟩ := stickyPlan_spec run
  exact distributed.valid

/-- Three members with overlapping and different subscriptions. -/
def overlappingMembers : Members :=
  (((∅ : Members).insert [1] { topics := [[10], [11]] }).insert [2] { topics := [[11], [12], [13]] }).insert [3] {}

/-- A topic that nobody else subscribes to, one that two members share, and one without subscribers. -/
def overlappingTopics : Topics :=
  (((∅ : Topics).insert [10] [0, 1, 2]).insert [11] [0, 1]).insert [14] [0]

theorem stickyPlan_valid_overlapping : ∃ plan, stickyPlan 3 overlappingMembers overlappingTopics = some plan ∧
    plan.Valid overlappingMembers overlappingTopics ∧ plan.toList.map (fun entry => (entry.1, entry.2.toList)) =
      [([1], [([10], [0, 1, 2])]), ([2], [([11], [0, 1])]), ([3], [])] := by
  have run : (stickyPlan 3 overlappingMembers overlappingTopics).map
      (fun plan => plan.toList.map fun entry => (entry.1, entry.2.toList)) =
      some [([1], [([10], [0, 1, 2])]), ([2], [([11], [0, 1])]), ([3], [])] := by
    decide +kernel
  obtain ⟨plan, returned, given⟩ := Option.map_eq_some_iff.mp run
  exact ⟨plan, returned, stickyPlan_valid returned, given⟩

end Coev.Kafka

/-! # When a sticky plan keeps the previous one
The data that a member reports about its partitions is empty, and a plan does not look at it. So whatever was assigned
before, the next plan is the same, and it keeps each balanced plan exactly if there is only one.
-/

namespace Coev.Kafka

open Std (ExtTreeMap)

variable {members : Members} {topics : Topics} {plan : BalanceStrategyPlan}

namespace BalanceStrategyPlan

/-- How many partitions a plan gives to a member. -/
noncomputable def load (plan : BalanceStrategyPlan) (m : Bytes) : ℕ := {p | plan.Assigns m p}.ncard

/-- No subscriber of a topic has at least two partitions less than a member that has a partition of the topic. -/
def Balanced (plan : BalanceStrategyPlan) (members : Members) : Prop :=
  ∀ m n p, plan.Assigns m p → members.Subscribes n p.1 → plan.load m ≤ plan.load n + 1

/-- The plans give the same to each member. -/
def Same (plan other : BalanceStrategyPlan) : Prop := ∀ m p, plan.Assigns m p ↔ other.Assigns m p

end BalanceStrategyPlan

/-- The members of the next generation: each reports what `AssignmentData` made of its part of the previous plan. -/
def reports (members : Members) (prev : BalanceStrategyPlan) (generation : Int32) : Members :=
  members.map fun m metadata => { metadata with userData := stickyAssignmentData m (prev.getD m ∅) generation }

/-- The next plan is sticky: it is returned, it keeps a previous plan that is still valid and balanced, and in general no
valid and balanced plan keeps all of the previous one that it keeps and more. -/
structure Sticky (members : Members) (topics : Topics) : Prop where
  returns : ∀ prev generation, ∃ fuel plan, stickyPlan fuel (reports members prev generation) topics = some plan
  same : ∀ prev generation fuel plan, stickyPlan fuel (reports members prev generation) topics = some plan →
    prev.Valid members topics → prev.Balanced members → plan.Same prev
  keeps : ∀ prev generation fuel plan, stickyPlan fuel (reports members prev generation) topics = some plan →
    ∀ other : BalanceStrategyPlan, other.Valid members topics → other.Balanced members →
      (∀ m p, prev.Assigns m p → plan.Assigns m p → other.Assigns m p) →
      ∀ m p, prev.Assigns m p → other.Assigns m p → plan.Assigns m p

/-- There are no two valid and balanced plans. -/
def AtMostOneBalanced (members : Members) (topics : Topics) : Prop :=
  ∀ plan other : BalanceStrategyPlan, plan.Valid members topics → plan.Balanced members →
    other.Valid members topics → other.Balanced members → plan.Same other

/-! ## What is reported makes no difference -/

private theorem subscriptions_map (f : Bytes → ConsumerGroupMemberMetadata → ConsumerGroupMemberMetadata)
    (same : ∀ m metadata, (f m metadata).topics = metadata.topics) :
    subscriptions (members.map f) topics = subscriptions members topics := by
  unfold subscriptions
  rw [ExtTreeMap.toList_map, List.foldl_map]
  simp only [potentialPartitions, same]

private theorem stickyPlan_map (f : Bytes → ConsumerGroupMemberMetadata → ConsumerGroupMemberMetadata)
    (same : ∀ m metadata, (f m metadata).topics = metadata.topics) (fuel : ℕ) :
    stickyPlan fuel (members.map f) topics = stickyPlan fuel members topics := by
  have nothing (entry : Bytes × List TopicPartition)
      (member : entry ∈ (members.keys.foldl Assignment.touch ∅).toList) : entry.2 = [] := by
    rw [← Assignment.of_eq_of_getElem? (ExtTreeMap.mem_toList_iff_getElem?_eq_some.mp member)]
    exact (foldl_touch members.keys ∅ fun m => ExtTreeMap.getD_empty).2 entry.1
  unfold stickyPlan
  rw [prepopulateCurrentAssignments_eq, prepopulateCurrentAssignments_eq, subscriptions_map f same, ExtTreeMap.keys_map]
  dsimp only
  rw [foldlM_keepAssignment _ nothing, foldlM_keepAssignment _ nothing]

private theorem stickyPlan_reports (prev : BalanceStrategyPlan) (generation : Int32) (fuel : ℕ) :
    stickyPlan fuel (reports members prev generation) topics = stickyPlan fuel members topics := by
  rw [reports, stickyPlan_map]
  exact fun _ _ => rfl

/-! ## What is returned is balanced -/

private theorem load_planOf {a : Assignment} {m : Bytes} (distinct : (a.of m).Nodup) :
    (planOf a).load m = (a.of m).length := by
  have same : {p | (planOf a).Assigns m p} = ((a.of m).toFinset : Set TopicPartition) := by
    ext p
    rw [Set.mem_ofPred_eq, assigns_planOf, Finset.mem_coe, List.mem_toFinset]
  rw [BalanceStrategyPlan.load, same, Set.ncard_coe_finset, List.toFinset_card_of_nodup distinct]

/-- Where no member is named by the empty string, a distribution is balanced. -/
theorem Distributed.balanced {a : Assignment} (distributed : Distributed (subscriptions members topics) a)
    (named : [] ∉ members) : (planOf a).Balanced members := by
  have valid := distributed.valid
  intro m n p assigned subscribes
  have member := (assigns_planOf a m p).mp assigned
  have may : (subscriptions members topics).include n p :=
    ((subscriptions_matches members topics).include_iff n p).mpr ⟨subscribes, valid.exists_ m p assigned⟩
  rw [load_planOf (distributed.nodup m), load_planOf (distributed.nodup n)]
  refine distributed.fair m n p member ?_ may
  rintro rfl
  obtain ⟨metadata, found, -⟩ := valid.subscribed [] p assigned
  exact named (ExtTreeMap.mem_iff_isSome_getElem?.mpr (Option.isSome_of_eq_some found))

/-- The only valid and balanced plan is the one that is returned. -/
theorem AtMostOneBalanced.same_of_run (atMostOne : AtMostOneBalanced members topics) (named : [] ∉ members) {fuel : ℕ}
    (run : stickyPlan fuel members topics = some plan) {other : BalanceStrategyPlan} (valid : other.Valid members topics)
    (balanced : other.Balanced members) : plan.Same other := by
  obtain ⟨a, rfl, distributed⟩ := stickyPlan_spec run
  exact atMostOne _ other distributed.valid (distributed.balanced named) valid balanced

/-- A plan keeps what it should exactly if it is returned, and no other one is valid and balanced. -/
theorem sticky_iff (named : [] ∉ members) : Sticky members topics ↔
      (∃ fuel plan, stickyPlan fuel members topics = some plan) ∧ AtMostOneBalanced members topics := by
  constructor
  · intro sticky
    obtain ⟨fuel, plan, run⟩ := sticky.returns ∅ 0
    rw [stickyPlan_reports] at run
    refine ⟨⟨fuel, plan, run⟩, ?_⟩
    intro first second valid balanced valid' balanced' m p
    have toFirst := sticky.same first 0 fuel plan ((stickyPlan_reports first 0 fuel).trans run) valid balanced
    have toSecond := sticky.same second 0 fuel plan ((stickyPlan_reports second 0 fuel).trans run) valid' balanced'
    exact (toFirst m p).symm.trans (toSecond m p)
  · rintro ⟨⟨fuel, plan, run⟩, atMostOne⟩
    constructor
    · intro prev generation
      exact ⟨fuel, plan, (stickyPlan_reports prev generation fuel).trans run⟩
    · intro prev generation fuel plan run valid balanced
      rw [stickyPlan_reports] at run
      exact atMostOne.same_of_run named run valid balanced
    · intro prev generation fuel plan run other valid balanced _ m p _ assigned
      rw [stickyPlan_reports] at run
      exact (atMostOne.same_of_run named run valid balanced m p).mpr assigned

/-! ## A topic that is shared -/

/-- A member with a topic of its own, and one that shares its only topic with it. -/
def sharingMembers : Members := ((∅ : Members).insert [1] { topics := [[10], [11]] }).insert [2] { topics := [[11]] }

/-- Two partitions of the topic of one member, and one of the shared topic. -/
def sharingTopics : Topics := ((∅ : Topics).insert [10] [0, 1]).insert [11] [0]

private theorem subscribes_sharingMembers {m topic : Bytes} :
    sharingMembers.Subscribes m topic ↔ m = [1] ∧ (topic = [10] ∨ topic = [11]) ∨ m = [2] ∧ topic = [11] := by
  rw [Members.Subscribes, sharingMembers, ExtTreeMap.getElem?_insert_eq, ExtTreeMap.getElem?_insert_eq]
  split
  next same =>
    subst same
    simp
  next differ =>
    split
    next same =>
      subst same
      simp
    next differ' => simp [Ne.symm differ, Ne.symm differ']

private theorem has_sharingTopics {p : TopicPartition} :
    sharingTopics.Has p ↔ p = ([10], 0) ∨ p = ([10], 1) ∨ p = ([11], 0) := by
  obtain ⟨topic, i⟩ := p
  rw [Topics.Has, sharingTopics, ExtTreeMap.getElem?_insert_eq, ExtTreeMap.getElem?_insert_eq]
  split
  next same =>
    subst same
    simp
  next differ =>
    split
    next same =>
      subst same
      simp
    next differ' => simp [Ne.symm differ, Ne.symm differ']

/-- A valid plan gives each partition of the topic that is not shared to its only subscriber. -/
theorem assigns_own (valid : plan.Valid sharingMembers sharingTopics) {i : Int32} (has : sharingTopics.Has ([10], i)) :
    plan.Assigns [1] ([10], i) := by
  obtain ⟨m, assigned, -⟩ := valid.complete ([10], i) has ⟨[1], subscribes_sharingMembers.mpr (by simp)⟩
  have subscribes := subscribes_sharingMembers.mp (valid.subscribed m _ assigned)
  obtain rfl : m = [1] := by simpa using subscribes
  exact assigned

/-- Whoever has two partitions already does not get the shared one in a balanced plan. -/
theorem assigns_shared (valid : plan.Valid sharingMembers sharingTopics) (balanced : plan.Balanced sharingMembers) :
    plan.Assigns [2] ([11], 0) ∧ ¬ plan.Assigns [1] ([11], 0) := by
  obtain ⟨m, assigned, only⟩ := valid.complete ([11], 0) (has_sharingTopics.mpr (by simp))
    ⟨[2], subscribes_sharingMembers.mpr (by simp)⟩
  suffices notFirst : ¬ plan.Assigns [1] ([11], 0) by
    have subscribes := subscribes_sharingMembers.mp (valid.subscribed m _ assigned)
    obtain ⟨rfl, -⟩ | ⟨rfl, -⟩ := subscribes
    · exact absurd assigned notFirst
    · exact ⟨assigned, notFirst⟩
  intro first
  have everything : {p | plan.Assigns [1] p} = {([10], 0), ([10], 1), ([11], 0)} := by
    ext p
    constructor
    · intro assigned
      exact has_sharingTopics.mp (valid.exists_ [1] p assigned)
    · rintro (rfl | rfl | rfl)
      · exact assigns_own valid (has_sharingTopics.mpr (by simp))
      · exact assigns_own valid (has_sharingTopics.mpr (by simp))
      · exact first
  have nothing : {p | plan.Assigns [2] p} = ∅ := by
    ext p
    refine ⟨fun assigned => ?_, False.elim⟩
    have subscribes := subscribes_sharingMembers.mp (valid.subscribed [2] p assigned)
    have topic : p.1 = [11] := by simpa using subscribes
    obtain rfl | rfl | rfl := has_sharingTopics.mp (valid.exists_ [2] p assigned)
    · simp at topic
    · simp at topic
    · exact absurd ((only [1] first).trans (only [2] assigned).symm) (by decide)
  have fair := balanced [1] [2] ([11], 0) first (subscribes_sharingMembers.mpr (by simp))
  have three : plan.load [1] = 3 := by
    rw [BalanceStrategyPlan.load, everything]
    exact Set.ncard_eq_three.mpr ⟨_, _, _, by decide, by decide, by decide, rfl⟩
  have none : plan.load [2] = 0 := by rw [BalanceStrategyPlan.load, nothing, Set.ncard_empty]
  omega

private theorem assigns_sharing (valid : plan.Valid sharingMembers sharingTopics) (balanced : plan.Balanced sharingMembers)
    (m : Bytes) (p : TopicPartition) :
    plan.Assigns m p ↔ m = [1] ∧ (p = ([10], 0) ∨ p = ([10], 1)) ∨ m = [2] ∧ p = ([11], 0) := by
  obtain ⟨second, notFirst⟩ := assigns_shared valid balanced
  constructor
  · intro assigned
    have subscribes := subscribes_sharingMembers.mp (valid.subscribed m p assigned)
    obtain rfl | rfl | rfl := has_sharingTopics.mp (valid.exists_ m p assigned)
    · simpa using subscribes
    · simpa using subscribes
    · obtain ⟨rfl, -⟩ | ⟨rfl, -⟩ := subscribes
      · exact absurd assigned notFirst
      · exact .inr ⟨rfl, rfl⟩
  · rintro (⟨rfl, rfl | rfl⟩ | ⟨rfl, rfl⟩)
    · exact assigns_own valid (has_sharingTopics.mpr (by simp))
    · exact assigns_own valid (has_sharingTopics.mpr (by simp))
    · exact second

/-- Both members keep what they have: the shared partition stays with the one that has nothing else. -/
theorem sticky_sharing : Sticky sharingMembers sharingTopics := by
  apply (sticky_iff (by decide +kernel)).mpr
  refine ⟨⟨3, Option.isSome_iff_exists.mp (by decide +kernel)⟩, ?_⟩
  intro plan other valid balanced valid' balanced' m p
  rw [assigns_sharing valid balanced, assigns_sharing valid' balanced']

/-! ## A plan that is not kept -/

/-- Two members that subscribe to the same topic. -/
def twoMembers : Members := ((∅ : Members).insert [1] { topics := [[10]] }).insert [2] { topics := [[10]] }

/-- A topic with two partitions. -/
def twoPartitions : Topics := (∅ : Topics).insert [10] [0, 1]

/-- Each member has one partition, the second member the first one. -/
def crossed : Assignment := ((∅ : Assignment).insert [1] [([10], 1)]).insert [2] [([10], 0)]

private theorem mem_crossed (m : Bytes) (p : TopicPartition) :
    p ∈ crossed.of m ↔ m = [1] ∧ p = ([10], 1) ∨ m = [2] ∧ p = ([10], 0) := by
  rw [crossed, Assignment.of_insert, Assignment.of_insert, Function.update_apply, Function.update_apply]
  split
  next same =>
    subst same
    simp
  next =>
    split
    next same =>
      subst same
      simp
    next => simp [Assignment.of, *]

private theorem subscribes_twoMembers {m topic : Bytes} :
    twoMembers.Subscribes m topic ↔ (m = [1] ∨ m = [2]) ∧ topic = [10] := by
  rw [Members.Subscribes, twoMembers, ExtTreeMap.getElem?_insert_eq, ExtTreeMap.getElem?_insert_eq]
  split
  next same =>
    subst same
    simp
  next differ =>
    split
    next same =>
      subst same
      simp
    next differ' => simp [Ne.symm differ, Ne.symm differ']

private theorem has_twoPartitions {p : TopicPartition} : twoPartitions.Has p ↔ p = ([10], 0) ∨ p = ([10], 1) := by
  obtain ⟨topic, i⟩ := p
  rw [Topics.Has, twoPartitions, ExtTreeMap.getElem?_insert_eq]
  split
  next same =>
    subst same
    simp
  next differ => simp [Ne.symm differ]

private theorem crossed_valid : (planOf crossed).Valid twoMembers twoPartitions := by
  constructor
  · intro p has _
    simp only [assigns_planOf, mem_crossed]
    obtain rfl | rfl := has_twoPartitions.mp has
    · exact ⟨[2], by simp, by simp⟩
    · exact ⟨[1], by simp, by simp⟩
  · intro m p assigned
    rw [assigns_planOf, mem_crossed] at assigned
    rw [subscribes_twoMembers]
    obtain ⟨rfl, rfl⟩ | ⟨rfl, rfl⟩ := assigned <;> simp
  · intro m p assigned
    rw [assigns_planOf, mem_crossed] at assigned
    rw [has_twoPartitions]
    tauto

private theorem crossed_balanced : (planOf crossed).Balanced twoMembers := by
  have one (m : Bytes) (either : m = [1] ∨ m = [2]) : (planOf crossed).load m = 1 := by
    obtain rfl | rfl := either
    · exact load_planOf (a := crossed) (m := [1]) (by decide +kernel)
    · exact load_planOf (a := crossed) (m := [2]) (by decide +kernel)
  intro m n p assigned subscribes
  rw [assigns_planOf, mem_crossed] at assigned
  rw [one m (by tauto), one n (subscribes_twoMembers.mp subscribes).1]
  exact Nat.le_succ 1

/-- The members hold valid and balanced shares and report them, and the next plan exchanges the shares. -/
theorem not_sticky : ¬ ∀ (members : Members) (topics : Topics), [] ∉ members → Sticky members topics := by
  intro holds
  have sticky := holds twoMembers twoPartitions (by decide +kernel)
  have share : (stickyPlan 1 (reports twoMembers (planOf crossed) 1) twoPartitions).map (·.given [1] [10]) = some [0] := by
    decide +kernel
  obtain ⟨plan, run, given⟩ := Option.map_eq_some_iff.mp share
  have same := sticky.same (planOf crossed) 1 1 plan run crossed_valid crossed_balanced [1] ([10], 0)
  have now : plan.Assigns [1] ([10], 0) := by
    change 0 ∈ plan.given [1] [10]
    rw [given]
    exact List.mem_singleton_self 0
  have before := same.mp now
  rw [assigns_planOf, mem_crossed] at before
  simp at before

end Coev.Kafka

/-! # A sticky plan is balanced
In a plan that is returned, no subscriber of a topic has at least two partitions less than a member that has a partition
of the topic. Only what is assigned to the empty string stays there: it stands for a partition without a member.
-/

namespace Coev.Kafka

open Std (ExtTreeMap)

variable {members : Members} {topics : Topics} {plan : BalanceStrategyPlan}

/-- No subscriber of a topic has at least two partitions less than a member with a name that has a partition of the topic. -/
theorem stickyPlan_fair {fuel : ℕ} (run : stickyPlan fuel members topics = some plan) (m n : Bytes) (p : TopicPartition)
    (assigned : plan.Assigns m p) (named : m ≠ []) (subscribes : members.Subscribes n p.1) :
    plan.load m ≤ plan.load n + 1 := by
  obtain ⟨a, rfl, distributed⟩ := stickyPlan_spec run
  have exists_ := distributed.valid.exists_ m p assigned
  have may := ((subscriptions_matches members topics).include_iff n p).mpr ⟨subscribes, exists_⟩
  rw [load_planOf (distributed.nodup m), load_planOf (distributed.nodup n)]
  exact distributed.fair m n p ((assigns_planOf a m p).mp assigned) named may

/-- Two members share a topic. -/
theorem stickyPlan_fair_two : ∃ plan, stickyPlan 1 twoMembers twoPartitions = some plan ∧ plan.Assigns [1] ([10], 0) ∧
    plan.load [1] ≤ plan.load [2] + 1 := by
  have share : (stickyPlan 1 twoMembers twoPartitions).map (·.given [1] [10]) = some [0] := by decide +kernel
  obtain ⟨plan, run, given⟩ := Option.map_eq_some_iff.mp share
  have assigned : plan.Assigns [1] ([10], 0) := by
    change 0 ∈ plan.given [1] [10]
    rw [given]
    exact List.mem_singleton_self 0
  exact ⟨plan, run, assigned,
    stickyPlan_fair run [1] [2] ([10], 0) assigned (List.cons_ne_nil _ _) (subscribes_twoMembers.mpr ⟨.inr rfl, rfl⟩)⟩

/-! ## A member that is named by the empty string -/

/-- One of the members has the empty name, and shares a topic with the other one. -/
def unnamedMembers : Members := ((∅ : Members).insert [] { topics := [[10], [11]] }).insert [1] { topics := [[10]] }

def sharedTopics : Topics := ((∅ : Topics).insert [10] [0]).insert [11] [0, 1]

/-- The member without a name has all three partitions, and the other one nothing; nothing was assigned before. -/
theorem unnamed_keeps : ∃ plan, stickyPlan 1 unnamedMembers sharedTopics = some plan ∧
    ¬ plan.Same (planOf (prepopulateCurrentAssignments unnamedMembers).1) ∧ ¬ plan.Balanced unnamedMembers := by
  have shares : (balance 1 ∅ (subscriptions unnamedMembers sharedTopics)
      (sortPartitionsByPotentialConsumerAssignments
        (subscriptions unnamedMembers sharedTopics).partition2AllPotentialConsumers)
      (subscriptions unnamedMembers sharedTopics).partition2AllPotentialConsumers.keys (planStart unnamedMembers)).map
        (fun r => (r.currentAssignment.of [], r.currentAssignment.of [1])) =
      some ([([10], 0), ([11], 0), ([11], 1)], []) := by
    decide +kernel
  obtain ⟨r, run, shares⟩ := Option.map_eq_some_iff.mp shares
  obtain ⟨all, nothing⟩ := Prod.mk.inj shares
  have returned : stickyPlan 1 unnamedMembers sharedTopics = some (planOf r.currentAssignment) := by
    rw [stickyPlan_eq (by decide +kernel), run]
    rfl
  have assigned : (planOf r.currentAssignment).Assigns [] ([10], 0) := by
    rw [assigns_planOf, all]
    exact List.mem_cons_self
  refine ⟨_, returned, fun same => ?_, fun balanced => ?_⟩
  · have before := (same [] ([10], 0)).mp assigned
    rw [prepopulateCurrentAssignments_eq, assigns_planOf, Assignment.of_eq_nil ExtTreeMap.not_mem_empty] at before
    cases before
  · have close := balanced [] [1] ([10], 0) assigned ⟨{ topics := [[10]] }, by decide +kernel, by decide +kernel⟩
    rw [load_planOf (by rw [all]; decide), load_planOf (by rw [nothing]; exact List.nodup_nil), all, nothing] at close
    simp at close

end Coev.Kafka
