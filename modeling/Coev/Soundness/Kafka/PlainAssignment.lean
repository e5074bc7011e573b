import Coev.Proofs.Kafka.RoundRobin
import Mathlib.Data.List.Pairwise

/-! # When a round-robin plan is complete
A plan gives partitions only to subscribers, and no partition twice. It is complete exactly if the search for
subscribers never copies a member over the last one that subscribes to a topic with partitions still to come.
-/

namespace Coev.Kafka

open Std (ExtTreeMap)

variable {members : Members} {topics : Topics} {order : List TopicPartition} {plan : BalanceStrategyPlan} {m topic : Bytes}

/-- No round of `Plan` passes over a member that is missed later. -/
def PlansLossless (members : Members) (order : List TopicPartition) : Prop :=
  match memberAndTopics members with
  | [] => True
  | first :: others => (RoundRobin.start first others).Lossless order

instance (members : Members) (order : List TopicPartition) : Decidable (PlansLossless members order) := by
  unfold PlansLossless
  split <;> infer_instance

/-! ## The start -/

private theorem mem_topicPartitions {p : TopicPartition} : p ∈ topicPartitions topics ↔ topics.Has p := by
  obtain ⟨topic, partition⟩ := p
  simp only [topicPartitions, List.mem_flatMap, List.mem_map, Prod.mk.injEq]
  constructor
  · rintro ⟨entry, member, p, has, rfl, rfl⟩
    exact ⟨entry.2, ExtTreeMap.mem_toList_iff_getElem?_eq_some.mp member, has⟩
  · rintro ⟨partitions, found, has⟩
    exact ⟨(topic, partitions), ExtTreeMap.mem_toList_iff_getElem?_eq_some.mpr found, partition, has, rfl, rfl⟩

private theorem distinct_of_entries (distinct : ∀ entry ∈ topics.toList, entry.2.Nodup) : topics.Distinct := by
  intro topic partitions found
  exact distinct (topic, partitions) (ExtTreeMap.mem_toList_iff_getElem?_eq_some.mpr found)

private theorem nodup_topicPartitions (distinct : topics.Distinct) : (topicPartitions topics).Nodup := by
  rw [topicPartitions, List.nodup_flatMap]
  constructor
  · intro entry member
    refine (distinct entry.1 entry.2 (ExtTreeMap.mem_toList_iff_getElem?_eq_some.mp member)).map ?_
    exact fun p q same => (Prod.mk.injEq .. ▸ same).2
  · refine (ExtTreeMap.pairwise_of_perm_toList (.refl topics.toList)).imp fun differ => ?_
    change List.Disjoint _ _
    rw [List.disjoint_left]
    intro p first second
    obtain ⟨i, -, rfl⟩ := List.mem_map.mp first
    obtain ⟨j, -, same⟩ := List.mem_map.mp second
    exact differ (congrArg Prod.fst same).symm

private theorem mem_memberAndTopics {a : MemberAndTopic} (member : a ∈ memberAndTopics members) (has : a.hasTopic topic) :
    members.Subscribes a.memberID topic := by
  obtain ⟨entry, listed, rfl⟩ := List.mem_map.mp member
  exact ⟨entry.2, ExtTreeMap.mem_toList_iff_getElem?_eq_some.mp listed, of_decide_eq_true has⟩

namespace RoundRobin

variable {first : MemberAndTopic} {others : List MemberAndTopic}

private theorem genuine_start (list : memberAndTopics members = first :: others) : (start first others).Genuine members := by
  intro k topic has
  exact mem_memberAndTopics (list ▸ List.get_mem (first :: others) k) has

private theorem serves_start (list : memberAndTopics members = first :: others) (subscribes : members.Subscribes m topic) :
    (start first others).Serves topic := by
  obtain ⟨metadata, found, has⟩ := subscribes
  have member : { memberID := m, topics := metadata.topics } ∈ first :: others :=
    list ▸ List.mem_map.mpr ⟨(m, metadata), ExtTreeMap.mem_toList_iff_getElem?_eq_some.mpr found, rfl⟩
  obtain ⟨k, same⟩ := List.get_of_mem member
  refine ⟨k, ?_⟩
  change ((first :: others).get k).hasTopic topic = true
  rw [same]
  exact decide_eq_true has

private theorem not_assigns_start {p : TopicPartition} : ¬ (start first others).plan.Assigns m p := List.not_mem_nil

end RoundRobin

/-! ## The plan -/

/-- A plan of the round-robin strategy is a plan for the subscriptions exactly if nobody who is missed is passed over. -/
theorem roundRobinPlan_valid_iff (distinct : topics.Distinct)
    (sorts : SortsPartitions order topics) (run : roundRobinPlan order members topics = .ok plan) :
    plan.Valid members topics ↔ PlansLossless members order := by
  have listed (p : TopicPartition) : p ∈ order ↔ topics.Has p := sorts.perm.mem_iff.trans mem_topicPartitions
  have nodup : order.Nodup := sorts.perm.nodup_iff.mpr (nodup_topicPartitions distinct)
  unfold roundRobinPlan at run
  unfold PlansLossless
  cases list : memberAndTopics members with
  | nil =>
    rw [list] at run
    cases run
  | cons first others =>
    rw [list] at run
    dsimp only at run ⊢
    have planned : plan = (order.foldl RoundRobin.assignNext (RoundRobin.start first others)).plan := by
      split at run
      next none_ =>
        have nothing : topicPartitions topics = [] := by
          rw [ExtTreeMap.isEmpty_iff.mp none_]
          rfl
        have perm := sorts.perm
        rw [nothing] at perm
        rw [← Except.ok.inj run, perm.eq_nil]
        rfl
      next => exact (Except.ok.inj run).symm
    have genuine := RoundRobin.genuine_start list
    have new : ∀ p ∈ order, ∀ m, ¬ (RoundRobin.start first others).plan.Assigns m p :=
      fun _ _ _ => RoundRobin.not_assigns_start
    have assigned {m : Bytes} {p : TopicPartition} (assigns : plan.Assigns m p) : p ∈ order ∧ members.Subscribes m p.1 := by
      rw [planned] at assigns
      rcases RoundRobin.assigned_of_foldl genuine assigns with before | ⟨member, -, subscribes⟩
      · exact absurd before RoundRobin.not_assigns_start
      · exact ⟨member, subscribes⟩
    rw [← RoundRobin.complete_iff_lossless genuine nodup new, ← planned]
    constructor
    · intro valid p member serves
      obtain ⟨k, has⟩ := serves
      obtain ⟨m, assigns, -⟩ := valid.complete p ((listed p).mp member) ⟨_, genuine k p.1 has⟩
      exact ⟨m, assigns⟩
    · intro complete
      constructor
      · rintro p has ⟨n, subscribes⟩
        obtain ⟨m, assigns⟩ := complete p ((listed p).mpr has) (RoundRobin.serves_start list subscribes)
        refine ⟨m, assigns, fun m' assigns' => ?_⟩
        rw [planned] at assigns assigns'
        exact RoundRobin.unique_foldl nodup new
          (fun _ _ _ before => absurd before RoundRobin.not_assigns_start) assigns' assigns
      · exact fun m p assigns => (assigned assigns).2
      · exact fun m p assigns => (listed p).mp (assigned assigns).1

/-- Two members that subscribe to the same topics. -/
def alikeMembers : Members := ((∅ : Members).insert [1] { topics := [[84], [85]] }).insert [2] { topics := [[85], [84]] }

def twoTopics : Topics := ((∅ : Topics).insert [84] [0, 1]).insert [85] [0]

theorem roundRobinPlan_valid_alike :
    ∃ plan, roundRobinPlan [([84], 0), ([84], 1), ([85], 0)] alikeMembers twoTopics = .ok plan ∧
      plan.Valid alikeMembers twoTopics ∧ plan[([1] : Bytes)]?.map (·.toList) = some [([84], [0]), ([85], [0])] := by
  obtain ⟨plan, run, first⟩ : ∃ plan, roundRobinPlan [([84], 0), ([84], 1), ([85], 0)] alikeMembers twoTopics = .ok plan ∧
      plan[([1] : Bytes)]?.map (·.toList) = some [([84], [0]), ([85], [0])] := ⟨_, rfl, by decide +kernel⟩
  have distinct : twoTopics.Distinct := distinct_of_entries (by decide +kernel)
  have valid := (roundRobinPlan_valid_iff distinct ⟨by decide +kernel, by decide +kernel⟩ run).mpr (by decide +kernel)
  exact ⟨plan, run, valid, first⟩

/-- Two members that share no topic: the first is passed over for the topic of the second, and its own topic goes to
nobody. -/
def apartMembers : Members := ((∅ : Members).insert [1] { topics := [[85]] }).insert [2] { topics := [[84]] }

def apartTopics : Topics := ((∅ : Topics).insert [84] [0]).insert [85] [0]

theorem not_roundRobinPlan_valid : apartTopics.Distinct ∧ SortsPartitions [([84], 0), ([85], 0)] apartTopics ∧
      ∃ plan, roundRobinPlan [([84], 0), ([85], 0)] apartMembers apartTopics = .ok plan ∧
        ¬ plan.Valid apartMembers apartTopics := by
  refine ⟨distinct_of_entries (by decide +kernel), ⟨by decide +kernel, by decide +kernel⟩,
    (∅ : BalanceStrategyPlan).insert [2] ((∅ : Topics).insert [84] [0]), by rfl, fun valid => ?_⟩
  obtain ⟨m, assigns, -⟩ := valid.complete ([85], 0) ⟨[0], by rfl, by decide⟩ ⟨[1], { topics := [[85]] }, by rfl, by decide⟩
  rw [BalanceStrategyPlan.Assigns, ExtTreeMap.getD_insert_eq] at assigns
  split at assigns
  · rw [ExtTreeMap.getD_insert_eq] at assigns
    simp at assigns
  · simp at assigns

end Coev.Kafka

/-! # Range plans

The bounds of the slices meet: the upper one of a member is the lower one of the next, so the slices are the list of
partitions, cut where the members of a topic follow each other.
-/

namespace Coev.Kafka

open Std (ExtTreeMap)

variable {members : Members} {topics : Topics} {topic m : Bytes} {partitions : List Int32}
variable {ss : List Bytes}

/-! ## Names -/

private theorem mem_eraseRepeated : m ∈ eraseRepeated ss ↔ m ∈ ss := by
  induction ss using eraseRepeated.induct with
  | case1 => rfl
  | case2 a => rfl
  | case3 a rest ih =>
    rw [eraseRepeated, if_pos rfl, ih, List.mem_cons (l := a :: rest), or_iff_right_of_imp]
    rintro rfl
    exact List.mem_cons_self
  | case4 a b rest differ ih => rw [eraseRepeated, if_neg differ, List.mem_cons, ih, List.mem_cons (l := b :: rest)]

private theorem pairwise_eraseRepeated (sorted : ss.Pairwise (· ≤ ·)) : (eraseRepeated ss).Pairwise (· < ·) := by
  induction ss using eraseRepeated.induct with
  | case1 => exact .nil
  | case2 a => exact List.pairwise_singleton _ _
  | case3 a rest ih =>
    rw [eraseRepeated, if_pos rfl]
    exact ih sorted.tail
  | case4 a b rest differ ih =>
    obtain ⟨above, tail⟩ := List.pairwise_cons.mp sorted
    rw [eraseRepeated, if_neg differ, List.pairwise_cons]
    refine ⟨fun c member => ?_, ih tail⟩
    have next : a < b := Std.lt_of_le_of_ne (above b List.mem_cons_self) differ
    obtain rfl | later := List.mem_cons.mp (mem_eraseRepeated.mp member)
    · exact next
    · exact Std.lt_of_lt_of_le next ((List.pairwise_cons.mp tail).1 c later)

private theorem pairwise_sortNames (ss : List Bytes) : (sortNames ss).Pairwise (· ≤ ·) := by
  have sorted := @List.pairwise_mergeSort _ (fun a b : Bytes => decide (a ≤ b))
    (fun a b c first next => decide_eq_true (List.le_trans (of_decide_eq_true first) (of_decide_eq_true next)))
    (fun a b => by simpa using List.le_total a b) ss
  exact sorted.imp fun le => of_decide_eq_true le

private theorem mem_uniq : m ∈ uniq ss ↔ m ∈ ss := by
  unfold uniq
  split
  next => rfl
  next => rw [mem_eraseRepeated, sortNames, List.mem_mergeSort]

private theorem pairwise_uniq (ss : List Bytes) : (uniq ss).Pairwise (· < ·) := by
  unfold uniq
  split
  next short =>
    match ss, short with
    | [], _ => exact .nil
    | [a], _ => exact List.pairwise_singleton _ _
  next => exact pairwise_eraseRepeated (pairwise_sortNames ss)

private theorem nodup_of_pairwise_lt {ids : List Bytes} (sorted : ids.Pairwise (· < ·)) : ids.Nodup := by
  have ne {a b : Bytes} (less : a < b) : a ≠ b := by
    rintro rfl
    exact List.lt_irrefl a less
  exact sorted.imp ne

/-! ## Who names a topic -/

/-- Lists under keys, with a value appended to those of some keys. -/
private theorem mem_getD_foldl_append {keys : List Bytes} {mbt : ExtTreeMap Bytes (List Bytes)} {a : Bytes} :
    m ∈ (keys.foldl (fun mbt topic => mbt.insert topic (mbt.getD topic [] ++ [a])) mbt).getD topic [] ↔
      m ∈ mbt.getD topic [] ∨ m = a ∧ topic ∈ keys := by
  induction keys generalizing mbt with
  | nil => simp
  | cons key keys ih =>
    rw [List.foldl_cons, ih, ExtTreeMap.getD_insert_eq, List.mem_cons]
    split
    next same =>
      subst same
      rw [List.mem_append, List.mem_singleton]
      tauto
    next differ =>
      have other : ¬ topic = key := fun same => differ same.symm
      tauto

private theorem mem_membersByTopic : m ∈ (membersByTopic members).getD topic [] ↔ members.Subscribes m topic := by
  have fold : ∀ (entries : List (Bytes × ConsumerGroupMemberMetadata)) (mbt : ExtTreeMap Bytes (List Bytes)),
      m ∈
        (entries.foldl
          (fun mbt it => it.2.topics.foldl (fun mbt topic => mbt.insert topic (mbt.getD topic [] ++ [it.1])) mbt)
        mbt).getD topic [] ↔ m ∈ mbt.getD topic [] ∨ ∃ metadata, (m, metadata) ∈ entries ∧ topic ∈ metadata.topics := by
    intro entries
    induction entries with
    | nil => simp
    | cons entry entries ih =>
      intro mbt
      obtain ⟨id, metadata⟩ := entry
      rw [List.foldl_cons, ih, mem_getD_foldl_append, or_assoc]
      refine or_congr_right ?_
      constructor
      · rintro (⟨rfl, named⟩ | ⟨other, member, named⟩)
        · exact ⟨metadata, List.mem_cons_self, named⟩
        · exact ⟨other, List.mem_cons_of_mem _ member, named⟩
      · rintro ⟨other, member, named⟩
        obtain same | later := List.mem_cons.mp member
        · obtain ⟨rfl, rfl⟩ := Prod.mk.inj same
          exact .inl ⟨rfl, named⟩
        · exact .inr ⟨other, later, named⟩
  rw [membersByTopic, fold, ExtTreeMap.getD_empty]
  simp only [List.not_mem_nil, false_or, Members.Subscribes, ExtTreeMap.mem_toList_iff_getElem?_eq_some]

namespace RangeBalancer

variable {ids : List Bytes}

/-! ## The bounds -/

variable {n i : ℕ}

private theorem upper_eq (partitions : List Int32) (n i : ℕ) : upper partitions n i = lower partitions n (i + 1) := by
  unfold upper lower
  rw [Nat.add_mul, Nat.one_mul]
  split <;> omega

private theorem lower_zero (partitions : List Int32) (n : ℕ) : lower partitions n 0 = 0 := by
  unfold lower
  omega

/-- The last slice ends with the partitions. -/
private theorem lower_self (partitions : List Int32) (some_ : 0 < n) : lower partitions n n = partitions.length := by
  have extra := Nat.mod_lt partitions.length some_
  rw [lower, Nat.min_eq_left extra.le, Nat.div_add_mod]

private theorem lower_mono (partitions : List Int32) (n : ℕ) : Monotone (lower partitions n) := by
  refine monotone_nat_of_le_succ fun i => ?_
  rw [← upper_eq, upper, Nat.add_assoc]
  exact Nat.le_add_right _ _

private theorem lower_le (partitions : List Int32) (less : i < n) : lower partitions n (i + 1) ≤ partitions.length := by
  rw [← lower_self partitions (Nat.zero_lt_of_lt less)]
  exact lower_mono partitions n less

private theorem length_slice (partitions : List Int32) (less : i < n) : (slice partitions n i).length =
    partitions.length / n + if i < partitions.length % n then 1 else 0 := by
  have last := lower_le partitions less
  rw [← upper_eq] at last
  have size : upper partitions n i - lower partitions n i =
      partitions.length / n + if i < partitions.length % n then 1 else 0 := by
    rw [upper, Nat.add_assoc, Nat.add_sub_cancel_left]
  rw [slice, List.length_take, List.length_drop, ← size]
  omega

example : (List.range 3).map (slice [0, 1, 2, 3, 4] 3) = [[0, 1], [2, 3], [4]] := by decide

/-- The slices of the first members are the beginning of the list. -/
private theorem flatMap_slice (partitions : List Int32) {k : ℕ} (few : k ≤ n) :
    (List.range k).flatMap (slice partitions n) = partitions.take (lower partitions n k) := by
  induction k with
  | zero => rw [List.range_zero, List.flatMap_nil, lower_zero, List.take_zero]
  | succ k ih =>
    rw [List.range_succ, List.flatMap_append, ih (Nat.le_of_succ_le few), List.flatMap_singleton, slice, upper_eq]
    have grows : lower partitions n k ≤ lower partitions n (k + 1) := lower_mono partitions n (Nat.le_succ k)
    conv_rhs => rw [← Nat.add_sub_cancel' grows, List.take_add]

/-! ## Plans -/

/-- The place of a name. -/
private theorem filter_zipIdx (nodup : ids.Nodup) (k i : ℕ) (less : i < ids.length) :
    (ids.zipIdx k).filter (·.1 = ids[i]) = [(ids[i], k + i)] := by
  induction ids generalizing k i with
  | nil => cases less
  | cons a rest ih =>
    obtain ⟨fresh, nodup⟩ := List.nodup_cons.mp nodup
    rw [List.zipIdx_cons, List.filter_cons]
    cases i with
    | zero =>
      have none_ : (rest.zipIdx (k + 1)).filter (·.1 = a) = [] := by
        refine List.filter_eq_nil_iff.mpr fun it member => ?_
        have other : it.1 ≠ a := fun same => fresh (same ▸ List.fst_mem_of_mem_zipIdx member)
        simpa using other
      rw [if_pos (by simp), List.getElem_cons_zero, none_, Nat.add_zero]
    | succ i =>
      have within : i < rest.length := Nat.lt_of_succ_lt_succ less
      have other : a ≠ rest[i] := fun same => fresh (same ▸ List.getElem_mem _)
      rw [if_neg (by simpa using other), List.getElem_cons_succ, ih nodup (k + 1) i within]
      congr 2
      omega

/-- A loop that gives something of a topic to some members. -/
private theorem given_foldl (plan : BalanceStrategyPlan) (share : ℕ → List Int32) (its : List (Bytes × ℕ)) (other : Bytes) :
    (its.foldl (fun plan it => addToPlan plan it.1 topic (share it.2)) plan).given m other =
      plan.given m other ++ if topic = other then (its.filter (·.1 = m)).flatMap (share ·.2) else [] := by
  induction its generalizing plan with
  | nil => simp
  | cons it its ih =>
    rw [List.foldl_cons, ih, given_addToPlan, List.filter_cons]
    by_cases same : topic = other
    · by_cases here : it.1 = m
      · simp [same, here]
      · simp [same, here]
    · simp [same]

/-- What a topic with these members gives to each of them. -/
private theorem given_core (sorted : ids.Pairwise (· < ·)) (plan : BalanceStrategyPlan) (partitions : List Int32) :
    (∀ i (less : i < ids.length), (core plan ids topic partitions).given ids[i] topic =
      plan.given ids[i] topic ++ slice partitions ids.length i) ∧
    (∀ m ∉ ids, (core plan ids topic partitions).given m topic = plan.given m topic) ∧
    ∀ m other, topic ≠ other → (core plan ids topic partitions).given m other = plan.given m other := by
  have same : sortNames ids = ids := List.mergeSort_of_pairwise (sorted.imp fun less => decide_eq_true (List.le_of_lt less))
  have nodup : ids.Nodup := nodup_of_pairwise_lt sorted
  unfold core
  simp only [same, given_foldl]
  refine ⟨fun i less => ?_, fun m absent => ?_, fun m other differ => ?_⟩
  · rw [if_pos trivial, filter_zipIdx nodup 0 i less, List.flatMap_singleton, Nat.zero_add]
  · have none_ : ids.zipIdx.filter (·.1 = m) = [] := by
      refine List.filter_eq_nil_iff.mpr fun it member => ?_
      have other : it.1 ≠ m := fun equal => absent (equal ▸ List.fst_mem_of_mem_zipIdx member)
      simpa using other
    rw [if_pos trivial, none_, List.flatMap_nil, List.append_nil]
  · rw [if_neg differ, List.append_nil]

/-- The round of a topic, in the loop over all of them. -/
def assignTopic (topics : Topics) (plan : BalanceStrategyPlan) (it : Bytes × List Bytes) : BalanceStrategyPlan :=
  match topics[it.1]? with
  | none => plan
  | some partitions => core plan (uniq it.2) it.1 partitions

private theorem given_assignTopic_of_ne (plan : BalanceStrategyPlan) {it : Bytes × List Bytes} (differ : it.1 ≠ topic) :
    (assignTopic topics plan it).given m topic = plan.given m topic := by
  unfold assignTopic
  cases topics[it.1]? with
  | none => rfl
  | some partitions => exact (given_core (pairwise_uniq it.2) plan partitions).2.2 m topic differ

private theorem given_foldl_of_ne {its : List (Bytes × List Bytes)} (differ : ∀ it ∈ its, it.1 ≠ topic)
    (plan : BalanceStrategyPlan) : (its.foldl (assignTopic topics) plan).given m topic = plan.given m topic := by
  induction its generalizing plan with
  | nil => rfl
  | cons it its ih =>
    obtain ⟨first, rest⟩ := List.forall_mem_cons.mp differ
    rw [List.foldl_cons, ih rest, given_assignTopic_of_ne plan first]

/-- What is given of a topic is what its own round gives. -/
private theorem given_plan (topics : Topics) (named : (membersByTopic members)[topic]? = some ids) :
    ∃ before : BalanceStrategyPlan, (∀ m, before.given m topic = []) ∧
      ∀ m, (plan members topics).given m topic = (assignTopic topics before (topic, ids)).given m topic := by
  have distinct := ExtTreeMap.pairwise_of_perm_toList (.refl (membersByTopic members).toList)
  obtain ⟨earlier, later, entries⟩ := List.append_of_mem (ExtTreeMap.mem_toList_iff_getElem?_eq_some.mpr named)
  rw [entries, List.pairwise_append, List.pairwise_cons] at distinct
  obtain ⟨-, ⟨after, -⟩, apart⟩ := distinct
  refine ⟨earlier.foldl (assignTopic topics) ∅, fun m => ?_, fun m => ?_⟩
  · exact given_foldl_of_ne (fun it member => apart it member _ List.mem_cons_self) ∅
  · change ((membersByTopic members).toList.foldl (assignTopic topics) ∅).given m topic = _
    rw [entries, List.foldl_append, List.foldl_cons]
    exact given_foldl_of_ne (fun it member => (after it member).symm) _

/-- Nothing is given of a topic that nobody names. -/
private theorem given_plan_of_absent (absent : (membersByTopic members)[topic]? = none) (m : Bytes) :
    (plan members topics).given m topic = [] := by
  change ((membersByTopic members).toList.foldl (assignTopic topics) ∅).given m topic = []
  refine given_foldl_of_ne (fun it member same => ?_) ∅
  have found := ExtTreeMap.mem_toList_iff_getElem?_eq_some.mp member
  rw [same, absent] at found
  cases found

end RangeBalancer

/-- How a plan splits the partitions of a topic among these members. -/
structure BalanceStrategyPlan.SplitsTopic (plan : BalanceStrategyPlan) (members : Members) (topic : Bytes)
    (partitions : List Int32) (ids : List Bytes) : Prop where
  sorted : ids.Pairwise (· < ·)
  subscribers : ∀ m, m ∈ ids ↔ members.Subscribes m topic
  /-- The members have segments of the list, in their order. -/
  segments : (ids.map fun m => plan.given m topic).flatten = partitions
  even : ∀ a ∈ ids, ∀ b ∈ ids, (plan.given a topic).length ≤ (plan.given b topic).length + 1
  exactly : partitions.Nodup → ∀ p ∈ partitions, ∃! m, plan.Assigns m (topic, p)

/-- A plan splits the partitions of each topic with subscribers among these, and gives nothing else. -/
structure BalanceStrategyPlan.SplitsRanges (plan : BalanceStrategyPlan) (members : Members) (topics : Topics) : Prop where
  splits : ∀ (topic : Bytes) partitions, topics[topic]? = some partitions → (∃ m, members.Subscribes m topic) →
    ∃ ids, plan.SplitsTopic members topic partitions ids
  others : ∀ m topic, plan.given m topic ≠ [] → members.Subscribes m topic ∧ topic ∈ topics

namespace RangeBalancer

variable {ids : List Bytes}

private theorem mem_uniq_named (named : (membersByTopic members)[topic]? = some ids) :
    m ∈ uniq ids ↔ members.Subscribes m topic := by
  rw [mem_uniq, ← mem_membersByTopic, ExtTreeMap.getD_of_getElem? named]

private theorem given_getElem (named : (membersByTopic members)[topic]? = some ids)
    (found : topics[topic]? = some partitions)
    (i : ℕ) (less : i < (uniq ids).length) :
    (plan members topics).given (uniq ids)[i] topic = slice partitions (uniq ids).length i := by
  obtain ⟨before, nothing, same⟩ := given_plan topics named
  rw [same, assignTopic]
  simp only [found]
  rw [(given_core (pairwise_uniq ids) before partitions).1 i less, nothing, List.nil_append]

/-- A partition of a topic goes to one of its members. -/
private theorem mem_of_given (named : (membersByTopic members)[topic]? = some ids)
    (some_ : (plan members topics).given m topic ≠ []) : m ∈ uniq ids ∧ topic ∈ topics := by
  obtain ⟨before, nothing, same⟩ := given_plan topics named
  rw [same, assignTopic] at some_
  dsimp only at some_
  cases found : topics[topic]? with
  | none =>
    rw [found] at some_
    exact absurd (nothing m) some_
  | some partitions =>
    rw [found] at some_
    refine ⟨?_, ExtTreeMap.mem_iff_isSome_getElem?.mpr (by rw [found]; rfl)⟩
    by_contra absent
    exact some_ (((given_core (pairwise_uniq ids) before partitions).2.1 m absent).trans (nothing m))

theorem splits (found : topics[topic]? = some partitions) (some_ : ∃ m, members.Subscribes m topic) :
    ∃ ids, (plan members topics).SplitsTopic members topic partitions ids := by
  obtain ⟨m, subscribes⟩ := some_
  cases named : (membersByTopic members)[topic]? with
  | none =>
    have absent := mem_membersByTopic.mpr subscribes
    rw [ExtTreeMap.getD_eq_getD_getElem?, named] at absent
    cases absent
  | some ids =>
    have segments : ((uniq ids).map fun m => (plan members topics).given m topic).flatten = partitions := by
      have slices : (uniq ids).map (fun m => (plan members topics).given m topic) =
          (List.range (uniq ids).length).map (slice partitions (uniq ids).length) := by
        refine List.ext_getElem (by simp) fun i less _ => ?_
        rw [List.getElem_map, List.getElem_map, List.getElem_range, given_getElem named found i (by simpa using less)]
      have nonempty : 0 < (uniq ids).length := List.length_pos_of_mem ((mem_uniq_named named).mpr subscribes)
      rw [slices, ← List.flatMap_def, flatMap_slice partitions le_rfl, lower_self partitions nonempty, List.take_length]
    refine ⟨uniq ids, pairwise_uniq ids, fun m => mem_uniq_named named, segments, fun a aMember b bMember => ?_,
      fun nodup p member => ?_⟩
    · obtain ⟨i, less, rfl⟩ := List.getElem_of_mem aMember
      obtain ⟨j, less', rfl⟩ := List.getElem_of_mem bMember
      rw [given_getElem named found i less, given_getElem named found j less', length_slice partitions less,
        length_slice partitions less']
      split <;> split <;> omega
    · rw [← segments] at nodup member
      obtain ⟨-, disjoint⟩ := List.nodup_flatten.mp nodup
      obtain ⟨segment, isSegment, inSegment⟩ := List.mem_flatten.mp member
      obtain ⟨a, aMember, rfl⟩ := List.mem_map.mp isSegment
      refine ⟨a, inSegment, fun b assigned => ?_⟩
      have bMember := (mem_of_given named (List.ne_nil_of_mem assigned)).1
      by_contra differ
      have symmetric : Std.Symm fun a b =>
          ((plan members topics).given a topic).Disjoint ((plan members topics).given b topic) :=
            ⟨fun _ _ apart => List.disjoint_comm.mp apart⟩
      exact (List.pairwise_map.mp disjoint).forall bMember aMember differ assigned inSegment

/-- The range strategy splits every topic. -/
theorem range_plan_splits (members : Members) (topics : Topics) : (plan members topics).SplitsRanges members topics := by
  refine ⟨fun topic partitions found some_ => splits found some_, fun m topic some_ => ?_⟩
  cases named : (membersByTopic members)[topic]? with
  | none => exact absurd (given_plan_of_absent named m) some_
  | some ids =>
    obtain ⟨member, has⟩ := mem_of_given named some_
    exact ⟨(mem_uniq_named named).mp member, has⟩

end RangeBalancer

end Coev.Kafka
