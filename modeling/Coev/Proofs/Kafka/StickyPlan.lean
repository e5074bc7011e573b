import Coev.Proofs.Kafka.StickyBalance

/-! # What `Plan` of the sticky strategy returns

No member is known to own anything when a plan is begun, so every partition is assigned anew. The plan that is returned is
that of a balanced distribution.
-/

namespace Coev.Kafka

open Std (ExtTreeMap)

variable {members : Members} {topics : Topics} {a : Assignment} {m : Bytes} {p : TopicPartition} {plan : BalanceStrategyPlan}

/-! ## The plan of an assignment -/

/-- What a plan gives to a member of a topic. -/
def BalanceStrategyPlan.given (plan : BalanceStrategyPlan) (m topic : Bytes) : List Int32 := (plan.getD m ∅).getD topic []

theorem given_addToPlan (plan : BalanceStrategyPlan) (m n topic other : Bytes) (partitions : List Int32) :
    BalanceStrategyPlan.given (addToPlan plan m topic partitions) n other =
      if m = n ∧ topic = other then plan.given n other ++ partitions else plan.given n other := by
  unfold addToPlan
  split
  next empty => rw [List.isEmpty_iff.mp empty, List.append_nil, ite_self]
  next =>
    simp only [BalanceStrategyPlan.given, ExtTreeMap.getD_insert_eq]
    split
    next same =>
      subst same
      rw [ExtTreeMap.getD_insert_eq]
      split
      next same =>
        subst same
        rw [if_pos ⟨rfl, rfl⟩]
      next differ => rw [if_neg fun both => differ both.2]
    next differ => rw [if_neg fun both => differ both.1]

theorem assigns_addToPlan (plan : BalanceStrategyPlan) (m n : Bytes) (p q : TopicPartition) :
    BalanceStrategyPlan.Assigns (addToPlan plan m p.1 [p.2]) n q ↔ m = n ∧ p = q ∨ plan.Assigns n q := by
  obtain ⟨t, i⟩ := p
  obtain ⟨t', i'⟩ := q
  change i' ∈ BalanceStrategyPlan.given _ n t' ↔ _ ∨ i' ∈ plan.given n t'
  rw [given_addToPlan]
  split
  next same =>
    obtain ⟨rfl, rfl⟩ := same
    rw [List.mem_append, List.mem_singleton, Prod.mk.injEq]
    tauto
  next differ =>
    rw [Prod.mk.injEq]
    tauto

theorem assigns_foldl_addToPlan (partitions : List TopicPartition) (plan : BalanceStrategyPlan) (m n : Bytes)
    (q : TopicPartition) : BalanceStrategyPlan.Assigns (partitions.foldl
      (fun plan partition => addToPlan plan m partition.1 [partition.2]) plan) n q ↔
      m = n ∧ q ∈ partitions ∨ plan.Assigns n q := by
  induction partitions generalizing plan with
  | nil => simp
  | cons p partitions ih =>
    rw [List.foldl_cons, ih, assigns_addToPlan, List.mem_cons, eq_comm (a := q)]
    tauto

/-- A round of the loop that writes the plan. -/
theorem assigns_planOf_step (entry : Bytes × List TopicPartition) (plan : BalanceStrategyPlan)
    (new : ∀ q, ¬ plan.Assigns entry.1 q) (n : Bytes) (q : TopicPartition) :
    BalanceStrategyPlan.Assigns (if entry.2.isEmpty then plan.insert entry.1 ∅
      else entry.2.foldl (fun plan partition => addToPlan plan entry.1 partition.1 [partition.2]) plan) n q ↔
      entry.1 = n ∧ q ∈ entry.2 ∨ plan.Assigns n q := by
  split
  next empty =>
    rw [List.isEmpty_iff.mp empty, BalanceStrategyPlan.Assigns, ExtTreeMap.getD_insert_eq]
    split
    next same =>
      subst same
      simp [new]
    next differ => simp [BalanceStrategyPlan.Assigns]
  next => exact assigns_foldl_addToPlan entry.2 plan entry.1 n q

/-- The plan of an assignment gives to a member what it has. -/
theorem assigns_planOf (a : Assignment) (m : Bytes) (p : TopicPartition) : (planOf a).Assigns m p ↔ p ∈ a.of m := by
  have loop (entries : List (Bytes × List TopicPartition)) (distinct : entries.Pairwise fun x y => x.1 ≠ y.1)
      (plan : BalanceStrategyPlan) (new : ∀ entry ∈ entries, ∀ q, ¬ plan.Assigns entry.1 q) :
      BalanceStrategyPlan.Assigns (entries.foldl (fun plan it =>
        if it.2.isEmpty then plan.insert it.1 ∅
        else it.2.foldl (fun plan partition => addToPlan plan it.1 partition.1 [partition.2]) plan) plan) m p ↔
        (∃ l, (m, l) ∈ entries ∧ p ∈ l) ∨ plan.Assigns m p := by
    induction entries generalizing plan with
    | nil => simp
    | cons entry entries ih =>
      obtain ⟨first, distinct⟩ := List.pairwise_cons.mp distinct
      obtain ⟨newHead, newTail⟩ := List.forall_mem_cons.mp new
      have step := assigns_planOf_step entry plan newHead
      rw [List.foldl_cons, ih distinct, step]
      · obtain ⟨n, l⟩ := entry
        simp only [List.mem_cons, Prod.mk.injEq]
        constructor
        · rintro (⟨l', member, has⟩ | ⟨rfl, has⟩ | before)
          · exact .inl ⟨l', .inr member, has⟩
          · exact .inl ⟨l, .inl ⟨rfl, rfl⟩, has⟩
          · exact .inr before
        · rintro (⟨l', ⟨rfl, rfl⟩ | member, has⟩ | before)
          · exact .inr (.inl ⟨rfl, has⟩)
          · exact .inl ⟨l', member, has⟩
          · exact .inr (.inr before)
      · intro other member q
        rw [step]
        rintro (⟨same, -⟩ | before)
        · exact first other member same
        · exact newTail other member q before
  refine (loop a.toList (ExtTreeMap.pairwise_of_perm_toList (.refl _)) ∅ fun entry _ q => ?_).trans ?_
  · exact List.not_mem_nil
  · constructor
    · rintro (⟨l, member, has⟩ | before)
      · rw [Assignment.of_eq_of_getElem? (ExtTreeMap.mem_toList_iff_getElem?_eq_some.mp member)]
        exact has
      · cases before
    · intro has
      have listed : m ∈ a := by
        by_contra absent
        rw [Assignment.of_eq_nil absent] at has
        cases has
      exact .inl ⟨a.of m, ExtTreeMap.mem_toList_iff_getElem?_eq_some.mpr (Assignment.getElem?_eq_some_of listed), has⟩

/-! ## The start -/

/-- Nothing is taken from what the members say. -/
theorem prepopulateCurrentAssignments_eq (members : Members) : prepopulateCurrentAssignments members = (∅, ∅) := by
  have unchanged (entries : List (Bytes × ConsumerGroupMemberMetadata)) (sorted : TopicPartitionMap (ExtTreeMap ℤ Bytes)) :
      entries.foldl (fun sorted it =>
        ([] : List TopicPartition).foldl (recordUserPartition it.1 defaultGeneration false) sorted) sorted = sorted := by
    induction entries with
    | nil => rfl
    | cons entry entries ih => exact ih
  unfold prepopulateCurrentAssignments
  dsimp only
  rw [unchanged]
  rfl

theorem foldl_touch (list : List Bytes) (a : Assignment) (empty : ∀ m, a.of m = []) :
    (∀ m, m ∈ list.foldl Assignment.touch a ↔ m ∈ list ∨ m ∈ a) ∧ ∀ m, (list.foldl Assignment.touch a).of m = [] := by
  induction list generalizing a with
  | nil => exact ⟨fun m => by simp, empty⟩
  | cons n list ih =>
    have still (m : Bytes) : (a.touch n).of m = [] := (ExtTreeMap.getD_insertIfNew_same a n m []).trans (empty m)
    obtain ⟨present, nothing⟩ := ih (a.touch n) still
    refine ⟨fun m => ?_, nothing⟩
    rw [List.foldl_cons, present, Assignment.touch, ExtTreeMap.mem_insertIfNew, Std.LawfulEqCmp.compare_eq_iff_eq,
      List.mem_cons,
      eq_comm (a := m)]
    tauto

/-- Where nobody has anything, the loop over the assignments changes nothing but makes them anew. -/
theorem foldlM_keepAssignment {s : Subscriptions} (entries : List (Bytes × List TopicPartition))
    (empty : ∀ entry ∈ entries, entry.2 = []) (kept : Kept) : entries.foldlM (keepAssignment members s) kept =
      some { kept with
        currentAssignment := (entries.map Prod.fst).foldl (fun a m => a.insert m []) kept.currentAssignment } := by
  induction entries generalizing kept with
  | nil => rfl
  | cons entry entries ih =>
    obtain ⟨head, tail⟩ := List.forall_mem_cons.mp empty
    have step : keepAssignment members s kept entry =
        some { kept with currentAssignment := kept.currentAssignment.insert entry.1 [] } := by
      unfold keepAssignment
      rw [head]
      rfl
    rw [List.foldlM_cons, step]
    exact ih tail _

theorem foldl_insert_nil (list : List Bytes) (a : Assignment) (empty : ∀ m, a.of m = []) :
    (∀ m, m ∈ list.foldl (fun a m => a.insert m []) a ↔ m ∈ list ∨ m ∈ a) ∧
      ∀ m, Assignment.of (list.foldl (fun a m => a.insert m []) a) m = [] := by
  induction list generalizing a with
  | nil => exact ⟨fun m => by simp, empty⟩
  | cons n list ih =>
    have still (m : Bytes) : Assignment.of (a.insert n []) m = [] := by
      rw [Assignment.of_insert, Function.update_apply]
      split
      · rfl
      · exact empty m
    obtain ⟨present, nothing⟩ := ih (a.insert n []) still
    refine ⟨fun m => ?_, nothing⟩
    rw [List.foldl_cons, present, ExtTreeMap.mem_insert_eq, List.mem_cons, eq_comm (a := m)]
    tauto

/-- What `Plan` starts from: nobody has anything. -/
def nothingAssigned (members : Members) : Assignment :=
  ((members.keys.foldl Assignment.touch ∅).toList.map Prod.fst).foldl (fun a m => a.insert m [])
    (members.keys.foldl Assignment.touch ∅)

theorem mem_nothingAssigned : m ∈ nothingAssigned members ↔ m ∈ members := by
  obtain ⟨touched, nobody⟩ := foldl_touch members.keys ∅ fun _ => ExtTreeMap.getD_empty
  rw [nothingAssigned, (foldl_insert_nil _ _ nobody).1, touched, ExtTreeMap.map_fst_toList_eq_keys, ExtTreeMap.mem_keys,
    touched,
    ExtTreeMap.mem_keys]
  have absent : m ∉ (∅ : Assignment) := ExtTreeMap.not_mem_empty
  tauto

theorem of_nothingAssigned (m : Bytes) : (nothingAssigned members).of m = [] :=
  (foldl_insert_nil _ _ (foldl_touch members.keys ∅ fun _ => ExtTreeMap.getD_empty).2).2 m

/-- The state that `Plan` hands to `balance`. -/
def planStart (members : Members) : Reassignment where
  currentAssignment := nothingAssigned members
  currentPartitionConsumer := ∅
  sortedCurrentSubscriptions := sortMemberIDsByPartitionAssignments (nothingAssigned members)
  movements := {}

/-- Where there are topics, `Plan` is `balance` for partitions that nobody has. -/
theorem stickyPlan_eq (some_ : topics.isEmpty = false) (fuel : ℕ) : stickyPlan fuel members topics =
      (balance fuel ∅ (subscriptions members topics)
        (sortPartitionsByPotentialConsumerAssignments (subscriptions members topics).partition2AllPotentialConsumers)
        (subscriptions members topics).partition2AllPotentialConsumers.keys (planStart members)).map
          fun r => planOf r.currentAssignment := by
  have nothing (entry : Bytes × List TopicPartition)
      (member : entry ∈ (members.keys.foldl Assignment.touch ∅).toList) : entry.2 = [] := by
    rw [← Assignment.of_eq_of_getElem? (ExtTreeMap.mem_toList_iff_getElem?_eq_some.mp member)]
    exact (foldl_touch members.keys ∅ fun _ => ExtTreeMap.getD_empty).2 entry.1
  unfold stickyPlan
  rw [some_, prepopulateCurrentAssignments_eq]
  dsimp only
  rw [foldlM_keepAssignment _ nothing, if_neg Bool.false_ne_true, Option.map_eq_bind]
  rfl

/-! ## The plan -/

/-- A plan that is returned is that of a balanced distribution. -/
theorem stickyPlan_spec {fuel : ℕ} (run : stickyPlan fuel members topics = some plan) :
    ∃ a, plan = planOf a ∧ Distributed (subscriptions members topics) a := by
  have matches_ := subscriptions_matches members topics
  cases none_ : topics.isEmpty with
  | true =>
    rw [stickyPlan, none_] at run
    cases run
    have nothing (m : Bytes) (p : TopicPartition) : ¬ (subscriptions members topics).include m p := by
      rw [matches_.include_iff]
      rintro ⟨-, partitions, found, -⟩
      rw [ExtTreeMap.isEmpty_iff.mp none_, ExtTreeMap.getElem?_empty] at found
      cases found
    have noOne (m : Bytes) : Assignment.of ∅ m = [] := ExtTreeMap.getD_empty
    exact ⟨∅, rfl,
      { nodup := fun m => noOne m ▸ List.nodup_nil
        unique := fun m n p first => absurd first (noOne m ▸ List.not_mem_nil)
        allowed := fun m p first => absurd first (noOne m ▸ List.not_mem_nil)
        complete := fun m p may => absurd may (nothing m p)
        fair := fun m n p first => absurd first (noOne m ▸ List.not_mem_nil) }⟩
  | false =>
    rw [stickyPlan_eq none_] at run
    obtain ⟨r, balanced, rfl⟩ := Option.map_eq_some_iff.mp run
    refine ⟨r.currentAssignment, rfl, balance_spec matches_
      (fun m => ?_) of_nothingAssigned ExtTreeMap.nodup_keys ?_ ?_ balanced⟩
    · rw [mem_nothingAssigned, matches_.known]
    · exact fun p => ExtTreeMap.mem_keys.mpr
    · intro p member
      rw [sortPartitionsByPotentialConsumerAssignments, List.mem_insertionSort, ExtTreeMap.mem_keys]
      exact member

end Coev.Kafka
