import Coev.Model.Kafka.AdminItems

/-! # Success of an operation on several items

An error of the whole exchange is returned. An item that the answer leaves out is not missed, the errors of access
rules are not read, and a broker that fails is not even counted when groups are listed.
-/

namespace Coev.Kafka.AdminItems

open Std (ExtTreeMap)

variable {group type : Bytes} {reply : AdminReply ListGroupsResponse} {topic : Bytes}

/-! ## The property -/

/-- An operation with all that it meets. -/
inductive Call where
  | deleteRecords (cluster : RecordsCluster) (topic : Bytes) (partitionOffsets : List (Int32 × Int64))
  | createACLs (cluster : AclCluster) (resourceAcls : List ResourceAcls)
  | deleteACL (cluster : AclCluster) (filter : AclFilter) (validateOnly : Bool) (out : List MatchingAcl)
  | deleteConsumerGroupOffset (topic : Bytes) (partition : Int32) (met : ℕ → OffsetAttempt)
  | listConsumerGroups (replies : List (AdminReply ListGroupsResponse)) (out : ExtTreeMap Bytes Bytes)

/-- The reply of the broker that leads a partition. -/
def leaderReply (conf : AdminConfig) (cluster : RecordsCluster) (topic : Bytes) (partitionOffsets : List (Int32 × Int64))
    (entry : Int32 × Int64) : AdminReply (ExtTreeMap Bytes DeleteRecordsResponseTopic) :=
  let broker := (cluster.leader topic entry.1).2
  cluster.deleteRecords broker (deleteRecordsRequest conf cluster topic partitionOffsets broker)

/-- An answer with the topic in it. -/
def Answers {α : Type} (reply : AdminReply α) (response : α) : Prop := reply.err = 0 ∧ reply.response = some response

/-- The answer has the partition, without an error. -/
def Confirms (topic : Bytes) (partition : Int32) (met : OffsetAttempt) : Prop :=
  met.coordinator = 0 ∧ ∃ response, Answers met.reply response ∧ response.code = 0 ∧
    response.errors[topic]?.bind (·[partition]?) = some 0

/-- The attempt fails with a code that is retried. -/
def Retried (topic : Bytes) (partition : Int32) (met : OffsetAttempt) : Prop :=
  deleteOffsetAttempt topic partition met ≠ 0 ∧
    isRetriableGroupCoordinatorError (deleteOffsetAttempt topic partition met) = true

/-- A broker lists the group. -/
def Listed (replies : List (AdminReply ListGroupsResponse)) (group type : Bytes) : Prop :=
  ∃ reply ∈ replies, ∃ response, Answers reply response ∧ response.groups[group]? = some type

/-- The groups are those that some broker lists. -/
def Union (replies : List (AdminReply ListGroupsResponse)) (groups : ExtTreeMap Bytes Bytes) : Prop :=
  (∀ group type, groups[group]? = some type → Listed replies group type) ∧
    ∀ group type, Listed replies group type → group ∈ groups

/-- Success means that every item is in the answers that were received, without an error. -/
def Acknowledged (conf : AdminConfig) : Call → Prop
  | .deleteRecords cluster topic partitionOffsets => deleteRecords conf cluster topic partitionOffsets = 0 →
      ∀ entry ∈ partitionOffsets, (cluster.leader topic entry.1).1 = 0 ∧
        ∃ response, Answers (leaderReply conf cluster topic partitionOffsets entry) response ∧
          response[topic]?.bind (·[entry.1]?) = some 0
  | .createACLs cluster resourceAcls => createACLs conf cluster resourceAcls = 0 →
      ∃ responses, Answers (createAclsReply conf cluster resourceAcls) responses ∧
        ∀ i < (aclCreations resourceAcls).length, ∃ response, responses[i]? = some response ∧ response.err = 0
  | .deleteACL cluster filter validateOnly out => (deleteACL conf cluster filter validateOnly out).1 = 0 →
      ∃ response, Answers (deleteAclsReply conf cluster filter) response ∧ response.filterResponses ≠ [] ∧
        ∀ answer ∈ response.filterResponses, answer.err = 0 ∧ ∀ acl ∈ answer.matchingAcls, acl.err = 0
  | .deleteConsumerGroupOffset topic partition met => deleteConsumerGroupOffset conf topic partition met = 0 →
      ∃ k < adminAttempts conf, (∀ j < k, Retried topic partition (met j)) ∧ Confirms topic partition (met k)
  | .listConsumerGroups replies out => (listConsumerGroups replies out).1 = 0 →
      (∀ reply ∈ replies, ∃ response, Answers reply response ∧ response.err = 0) ∧
        Union replies (listConsumerGroups replies out).2

/-! ## When it holds -/

/-- The leader of the partition is not found, or its reply is no answer or has an error. -/
def RecordsFail (conf : AdminConfig) (cluster : RecordsCluster) (topic : Bytes) (partitionOffsets : List (Int32 × Int64))
    (entry : Int32 × Int64) : Prop :=
  (cluster.leader topic entry.1).1 ≠ 0 ∨ deleteRecordsErrs topic (leaderReply conf cluster topic partitionOffsets entry) ≠ []

/-- The answer of the leader, where it has the topic, has the partition. -/
def RecordsComplete (conf : AdminConfig) (cluster : RecordsCluster) (topic : Bytes) (partitionOffsets : List (Int32 × Int64))
    (entry : Int32 × Int64) : Prop :=
  ∀ partitions, (leaderReply conf cluster topic partitionOffsets entry).response.bind (·[topic]?) = some partitions →
    entry.1 ∈ partitions

/-- The answer has no code, and leaves the partition out. -/
def LeavesOut (topic : Bytes) (partition : Int32) (met : OffsetAttempt) : Prop :=
  met.coordinator = 0 ∧ ∃ response, Answers met.reply response ∧ response.code = 0 ∧
    response.errors[topic]?.bind (·[partition]?) = none

/-- The call fails as a whole, or the items it was answered without an error are all it asked for. -/
def Told (conf : AdminConfig) : Call → Prop
  | .deleteRecords cluster topic partitionOffsets => topic = [] ∨
      (∃ entry ∈ partitionOffsets, RecordsFail conf cluster topic partitionOffsets entry) ∨
      ∀ entry ∈ partitionOffsets, RecordsComplete conf cluster topic partitionOffsets entry
  | .createACLs cluster resourceAcls => cluster.controller ≠ 0 ∨ ∀ responses,
      Answers (createAclsReply conf cluster resourceAcls) responses →
        ∀ i < (aclCreations resourceAcls).length, ∃ response, responses[i]? = some response ∧ response.err = 0
  | .deleteACL cluster filter _ _ => cluster.controller ≠ 0 ∨ ∀ response,
      Answers (deleteAclsReply conf cluster filter) response → response.filterResponses ≠ [] ∧
        ∀ answer ∈ response.filterResponses, answer.err = 0 ∧ ∀ acl ∈ answer.matchingAcls, acl.err = 0
  | .deleteConsumerGroupOffset topic partition met => adminAttempts conf ≠ 0 ∧
      ∀ k < adminAttempts conf, (∀ j < k, Retried topic partition (met j)) → ¬ LeavesOut topic partition (met k)
  | .listConsumerGroups replies out =>
      (∀ reply ∈ replies, ∃ response, Answers reply response ∧ response.err = 0) ∧
        ∀ group type, out[group]? = some type → Listed replies group type

/-! ## Records -/

private theorem deleteRecordsErrs_eq_nil_iff {reply : AdminReply (ExtTreeMap Bytes DeleteRecordsResponseTopic)} :
    deleteRecordsErrs topic reply = [] ↔ ∃ response, Answers reply response ∧ ∃ partitions,
      response[topic]? = some partitions ∧ ∀ (partition : Int32) (err : KError), partitions[partition]? = some err →
        err = 0 := by
  unfold deleteRecordsErrs Answers
  split_ifs with failed
  · simp [failed]
  · rw [not_not] at failed
    cases given : reply.response with
    | none => simp [failed]
    | some response =>
      cases held : response[topic]? with
      | none => simp [failed, held]
      | some partitions =>
        simp only [Option.bind_some, held, List.filter_eq_nil_iff, List.mem_map, Prod.exists, exists_eq_right, failed,
          ExtTreeMap.mem_toList_iff_getElem?_eq_some, decide_eq_true_eq, ne_eq, not_not, true_and, Option.some.injEq,
          exists_eq_left', forall_exists_index]
        exact forall_comm

/-- Deletion of records succeeds exactly if no partition fails. -/
private theorem deleteRecords_eq_zero_iff {conf : AdminConfig} {cluster : RecordsCluster}
    {partitionOffsets : List (Int32 × Int64)} : deleteRecords conf cluster topic partitionOffsets = 0 ↔
      topic ≠ [] ∧ ∀ entry ∈ partitionOffsets, ¬ RecordsFail conf cluster topic partitionOffsets entry := by
  have code : ErrDeleteRecords ≠ 0 := by decide
  have invalid : ErrInvalidTopic ≠ 0 := by decide
  unfold deleteRecords
  by_cases empty : topic = []
  · simp [empty, invalid]
  simp only [List.isEmpty_iff, empty, if_false, Bool.not_eq_true', ne_eq, not_false_eq_true, true_and]
  rw [ite_eq_right_iff]
  simp only [code, imp_false, Bool.not_eq_false, List.isEmpty_iff, List.append_eq_nil_iff, List.filter_eq_nil_iff,
    List.flatMap_eq_nil_iff, List.mem_dedup, List.mem_map, List.mem_filter, RecordsFail, not_or, not_not]
  constructor
  · rintro ⟨lookups, replies⟩ entry member
    have found : (cluster.leader topic entry.1).1 = 0 := by
      simpa using lookups _ ⟨_, ⟨entry, member, rfl⟩, rfl⟩
    exact ⟨found, replies _ ⟨_, ⟨⟨entry, member, rfl⟩, by simpa using found⟩, rfl⟩⟩
  · intro fine
    constructor
    · rintro err ⟨_, ⟨entry, member, rfl⟩, rfl⟩
      simpa using (fine entry member).1
    · rintro broker ⟨_, ⟨⟨entry, member, rfl⟩, _⟩, rfl⟩
      exact (fine entry member).2

private theorem deleteRecords_acknowledged_iff (conf : AdminConfig) (cluster : RecordsCluster) (topic : Bytes)
    (partitionOffsets : List (Int32 × Int64)) : Acknowledged conf (.deleteRecords cluster topic partitionOffsets) ↔
      Told conf (.deleteRecords cluster topic partitionOffsets) := by
  simp only [Acknowledged, Told, deleteRecords_eq_zero_iff]
  constructor
  · intro acknowledged
    by_cases empty : topic = []
    · exact .inl empty
    by_cases fails : ∃ entry ∈ partitionOffsets, RecordsFail conf cluster topic partitionOffsets entry
    · exact .inr (.inl fails)
    refine .inr (.inr fun entry member partitions held => ?_)
    obtain ⟨_, response, ⟨_, given⟩, listed⟩ := acknowledged ⟨empty, fun entry member fail => fails ⟨entry, member, fail⟩⟩
      entry member
    rw [given, Option.bind_some] at held
    rw [held, Option.bind_some] at listed
    exact ExtTreeMap.mem_iff_isSome_getElem?.mpr (listed ▸ rfl)
  · rintro told ⟨nonempty, fine⟩ entry member
    have complete := (told.resolve_left nonempty).resolve_left fun ⟨entry, member, fail⟩ => fine entry member fail
    have well := fine entry member
    rw [RecordsFail, not_or, not_not, not_not, deleteRecordsErrs_eq_nil_iff] at well
    obtain ⟨found, response, answers, partitions, held, noErrors⟩ := well
    have listed := complete entry member partitions (by rw [answers.2, Option.bind_some, held])
    obtain ⟨err, code⟩ := Option.isSome_iff_exists.mp (ExtTreeMap.mem_iff_isSome_getElem?.mp listed)
    refine ⟨found, response, answers, ?_⟩
    rw [held, Option.bind_some, code, noErrors entry.1 err code]

/-! ## Access rules -/

private theorem read_eq_zero_iff {α : Type} {reply : AdminReply α} {answered : α → KError} :
    reply.read answered = 0 ↔ ∃ response, Answers reply response ∧ answered response = 0 := by
  have incomplete : ErrIncompleteResponse ≠ 0 := by decide
  unfold AdminReply.read Answers
  split_ifs with failed
  · exact iff_of_false failed fun ⟨_, answers, _⟩ => failed answers.1
  · cases given : reply.response with
    | none => simp [incomplete]
    | some response => simp [not_not.mp failed]

private theorem createACLs_acknowledged_iff (conf : AdminConfig) (cluster : AclCluster) (resourceAcls : List ResourceAcls) :
    Acknowledged conf (.createACLs cluster resourceAcls) ↔ Told conf (.createACLs cluster resourceAcls) := by
  simp only [Acknowledged, Told, createACLs]
  split_ifs with failed
  · exact iff_of_true (fun succeeded => absurd succeeded failed) (.inl failed)
  · rw [read_eq_zero_iff]
    constructor
    · refine fun acknowledged => .inr fun responses answers => ?_
      obtain ⟨given, answers', items⟩ := acknowledged ⟨responses, answers, rfl⟩
      cases Option.some.inj (answers.2.symm.trans answers'.2)
      exact items
    · rintro told ⟨responses, answers, _⟩
      exact ⟨responses, answers, told.resolve_left failed responses answers⟩

private theorem deleteACL_acknowledged_iff (conf : AdminConfig) (cluster : AclCluster) (filter : AclFilter)
    (validateOnly : Bool) (out : List MatchingAcl) : Acknowledged conf (.deleteACL cluster filter validateOnly out) ↔
      Told conf (.deleteACL cluster filter validateOnly out) := by
  have code : (deleteACL conf cluster filter validateOnly out).1 =
      if cluster.controller ≠ 0 then cluster.controller else (deleteAclsReply conf cluster filter).read fun _ => 0 := by
    unfold deleteACL AdminReply.read
    split_ifs
    · rfl
    · rfl
    · cases (deleteAclsReply conf cluster filter).response <;> rfl
  simp only [Acknowledged, Told, code]
  split_ifs with failed
  · exact iff_of_true (fun succeeded => absurd succeeded failed) (.inl failed)
  · rw [read_eq_zero_iff]
    constructor
    · refine fun acknowledged => .inr fun response answers => ?_
      obtain ⟨given, answers', items⟩ := acknowledged ⟨response, answers, rfl⟩
      cases Option.some.inj (answers.2.symm.trans answers'.2)
      exact items
    · rintro told ⟨response, answers, _⟩
      exact ⟨response, answers, told.resolve_left failed response answers⟩

/-! ## The offset of a group -/

/-- `RetryOnError` returns success if it makes no attempt, or if the first that is not retried succeeds. -/
private theorem retryOnError_eq_zero_iff {retryable : KError → Bool} {attempt : ℕ → KError} (left k : ℕ) (err : KError) :
    retryOnError retryable attempt left k err = 0 ↔ (left = 0 ∧ err = 0) ∨
      ∃ i < left, (∀ j < i, attempt (k + j) ≠ 0 ∧ retryable (attempt (k + j)) = true) ∧ attempt (k + i) = 0 := by
  induction left generalizing k err with
  | zero => simp [retryOnError]
  | succ left ih =>
    rw [retryOnError]
    by_cases success : attempt k = 0
    · simp only [success, decide_true, Bool.true_or, if_true, true_iff]
      exact .inr ⟨0, Nat.succ_pos left, fun j small => absurd small (Nat.not_lt_zero j), success⟩
    by_cases retried : retryable (attempt k) = true
    · rw [if_neg (by simp [success, retried]), ih]
      simp only [success, and_false, false_or, Nat.succ_ne_zero, false_and]
      constructor
      · rintro ⟨i, small, before, last⟩
        refine ⟨i + 1, by omega, fun j earlier => ?_, by rw [← last]; congr 1; omega⟩
        cases j with
        | zero => exact ⟨success, retried⟩
        | succ j =>
          have shifted : k + (j + 1) = k + 1 + j := by omega
          rw [shifted]
          exact before j (by omega)
      · rintro ⟨i, small, before, last⟩
        cases i with
        | zero => exact absurd last success
        | succ i =>
          refine ⟨i, by omega, fun j earlier => ?_, by rw [← last]; congr 1; omega⟩
          have shifted : k + 1 + j = k + (j + 1) := by omega
          rw [shifted]
          exact before (j + 1) (by omega)
    · rw [if_pos (by simp [retried])]
      refine iff_of_false success ?_
      rintro (⟨none_, _⟩ | ⟨i, small, before, last⟩)
      · exact Nat.succ_ne_zero left none_
      · cases i with
        | zero => exact success last
        | succ i => exact retried (before 0 (Nat.succ_pos i)).2

private theorem deleteOffsetAttempt_eq_zero_iff {partition : Int32} {met : OffsetAttempt} :
    deleteOffsetAttempt topic partition met = 0 ↔ Confirms topic partition met ∨ LeavesOut topic partition met := by
  unfold deleteOffsetAttempt Confirms LeavesOut
  split_ifs with failed
  · exact iff_of_false failed (by rintro (⟨found, _⟩ | ⟨found, _⟩) <;> exact failed found)
  · have found := not_not.mp failed
    simp only [read_eq_zero_iff, found, true_and, ← exists_or, ← and_or_left]
    refine exists_congr fun response => and_congr_right fun _ => ?_
    unfold deletedOffset
    split_ifs with coded
    · exact iff_of_false coded fun both => coded both.1
    · cases held : response.errors[topic]?.bind (·[partition]?) with
      | none => simpa [ErrNoError] using coded
      | some err =>
        by_cases fine : err = ErrNoError <;> simp_all [ErrNoError]

private theorem deleteConsumerGroupOffset_acknowledged_iff (conf : AdminConfig) (topic : Bytes) (partition : Int32)
    (met : ℕ → OffsetAttempt) : Acknowledged conf (.deleteConsumerGroupOffset topic partition met) ↔
      Told conf (.deleteConsumerGroupOffset topic partition met) := by
  have success : deleteConsumerGroupOffset conf topic partition met = 0 ↔ adminAttempts conf = 0 ∨
      ∃ k < adminAttempts conf, (∀ j < k, Retried topic partition (met j)) ∧
        (Confirms topic partition (met k) ∨ LeavesOut topic partition (met k)) := by
    simp only [deleteConsumerGroupOffset, retryOnError_eq_zero_iff, and_true, Nat.zero_add, deleteOffsetAttempt_eq_zero_iff,
      Retried]
  simp only [Acknowledged, Told, success]
  constructor
  · intro acknowledged
    refine ⟨fun none_ => ?_, fun k small before leaves => ?_⟩
    · obtain ⟨k, small, _⟩ := acknowledged (.inl none_)
      exact absurd small (none_ ▸ Nat.not_lt_zero k)
    · obtain ⟨i, _, before', confirms⟩ := acknowledged (.inr ⟨k, small, before, .inr leaves⟩)
      -- an attempt that ends the loop is not one that is retried
      have last : deleteOffsetAttempt topic partition (met k) = 0 := deleteOffsetAttempt_eq_zero_iff.mpr (.inr leaves)
      have last' : deleteOffsetAttempt topic partition (met i) = 0 := deleteOffsetAttempt_eq_zero_iff.mpr (.inl confirms)
      rcases Nat.lt_trichotomy i k with earlier | rfl | later
      · exact (before i earlier).1 last'
      · obtain ⟨_, response, answers, _, missing⟩ := leaves
        obtain ⟨_, given, answers', _, held⟩ := confirms
        cases Option.some.inj (answers.2.symm.trans answers'.2)
        cases missing.symm.trans held
      · exact (before' k later).1 last
  · rintro ⟨some_, complete⟩ (none_ | ⟨k, small, before, confirms | leaves⟩)
    · exact absurd none_ some_
    · exact ⟨k, small, before, confirms⟩
    · exact absurd leaves (complete k small before)

/-! ## The groups of all brokers -/

/-- The groups of one answer go to the groups that are not there yet. -/
private theorem getElem?_insertGroups (groups : List (Bytes × Bytes)) (out : ExtTreeMap Bytes Bytes) (group type : Bytes) :
    (groups.foldl (fun out entry => out.insertIfNew entry.1 entry.2) out)[group]? = some type →
      out[group]? = some type ∨ (group, type) ∈ groups := by
  induction groups generalizing out with
  | nil => exact .inl
  | cons entry groups ih =>
    intro held
    rcases ih _ held with before | listed
    · rw [ExtTreeMap.getElem?_insertIfNew] at before
      split_ifs at before with new
      · cases Option.some.inj before
        exact .inr (Std.compare_eq_iff_eq.mp new.1 ▸ List.mem_cons_self)
      · exact .inl before
    · exact .inr (List.mem_cons_of_mem _ listed)

/-- Groups that are there stay as they are. -/
private theorem kept_insertGroups (groups : List (Bytes × Bytes)) {out : ExtTreeMap Bytes Bytes}
    (held : out[group]? = some type) :
    (groups.foldl (fun out entry => out.insertIfNew entry.1 entry.2) out)[group]? = some type := by
  induction groups generalizing out with
  | nil => exact held
  | cons entry groups ih =>
    refine ih ?_
    rw [ExtTreeMap.getElem?_insertIfNew, if_neg, held]
    rintro ⟨same, absent⟩
    rw [Std.compare_eq_iff_eq.mp same] at absent
    exact absent (ExtTreeMap.mem_iff_isSome_getElem?.mpr (held ▸ rfl))

private theorem mem_insertGroups (groups : List (Bytes × Bytes)) (out : ExtTreeMap Bytes Bytes) {entry : Bytes × Bytes}
    (member : entry ∈ groups) : entry.1 ∈ groups.foldl (fun out entry => out.insertIfNew entry.1 entry.2) out := by
  induction groups generalizing out with
  | nil => cases member
  | cons first groups ih =>
    rcases List.mem_cons.mp member with rfl | later
    · have held : entry.1 ∈ out.insertIfNew entry.1 entry.2 := ExtTreeMap.mem_insertIfNew_self
      obtain ⟨type, there⟩ := Option.isSome_iff_exists.mp (ExtTreeMap.mem_iff_isSome_getElem?.mp held)
      exact ExtTreeMap.mem_iff_isSome_getElem?.mpr (kept_insertGroups groups there ▸ rfl)
    · exact ih _ later

private theorem listGroups_held {sofar : List KError × ExtTreeMap Bytes Bytes}
    (held : (listGroups sofar reply).2[group]? = some type) :
    sofar.2[group]? = some type ∨ ∃ response, Answers reply response ∧ response.groups[group]? = some type := by
  unfold listGroups at held
  split_ifs at held with failed
  · exact .inl held
  · cases given : reply.response with
    | none => exact .inl (by simpa only [given] using held)
    | some response =>
      rw [given] at held
      refine (getElem?_insertGroups _ _ group type held).imp_right fun listed => ?_
      exact ⟨response, ⟨not_not.mp failed, given⟩, ExtTreeMap.mem_toList_iff_getElem?_eq_some.mp listed⟩

private theorem listGroups_kept {sofar : List KError × ExtTreeMap Bytes Bytes} (held : sofar.2[group]? = some type) :
    (listGroups sofar reply).2[group]? = some type := by
  unfold listGroups
  split_ifs with failed
  · exact held
  · cases given : reply.response with
    | none => exact held
    | some response => exact kept_insertGroups _ held

private theorem listGroups_added (sofar : List KError × ExtTreeMap Bytes Bytes) {response : ListGroupsResponse}
    (answers : Answers reply response) (listed : response.groups[group]? = some type) :
    group ∈ (listGroups sofar reply).2 := by
  have member : (group, type) ∈ response.groups.toList := ExtTreeMap.mem_toList_iff_getElem?_eq_some.mpr listed
  simp only [listGroups, answers.1, answers.2, ne_eq, not_true_eq_false, if_false]
  exact mem_insertGroups _ _ member

/-- All replies leave the groups that were there and those that they list. -/
private theorem foldl_listGroups_held (replies : List (AdminReply ListGroupsResponse))
    (sofar : List KError × ExtTreeMap Bytes Bytes) (held : (replies.foldl listGroups sofar).2[group]? = some type) :
    sofar.2[group]? = some type ∨ Listed replies group type := by
  induction replies generalizing sofar with
  | nil => exact .inl held
  | cons reply replies ih =>
    rcases ih _ held with before | ⟨other, member, listed⟩
    · exact (listGroups_held before).imp_right fun listed => ⟨reply, List.mem_cons_self, listed⟩
    · exact .inr ⟨other, List.mem_cons_of_mem _ member, listed⟩

private theorem foldl_listGroups_kept (replies : List (AdminReply ListGroupsResponse))
    (sofar : List KError × ExtTreeMap Bytes Bytes) (held : sofar.2[group]? = some type) :
    (replies.foldl listGroups sofar).2[group]? = some type := by
  induction replies generalizing sofar with
  | nil => exact held
  | cons reply replies ih => exact ih _ (listGroups_kept held)

private theorem foldl_listGroups_added (replies : List (AdminReply ListGroupsResponse))
    (sofar : List KError × ExtTreeMap Bytes Bytes) (listed : Listed replies group type) :
    group ∈ (replies.foldl listGroups sofar).2 := by
  induction replies generalizing sofar with
  | nil =>
    obtain ⟨_, member, _⟩ := listed
    cases member
  | cons reply replies ih =>
    obtain ⟨other, member, response, answers, there⟩ := listed
    rcases List.mem_cons.mp member with rfl | later
    · have added := listGroups_added sofar answers there
      obtain ⟨kind, held⟩ := Option.isSome_iff_exists.mp (ExtTreeMap.mem_iff_isSome_getElem?.mp added)
      exact ExtTreeMap.mem_iff_isSome_getElem?.mpr (foldl_listGroups_kept replies _ held ▸ rfl)
    · exact ih _ ⟨other, later, response, answers, there⟩

private theorem listConsumerGroups_acknowledged_iff (conf : AdminConfig) (replies : List (AdminReply ListGroupsResponse))
    (out : ExtTreeMap Bytes Bytes) :
    Acknowledged conf (.listConsumerGroups replies out) ↔ Told conf (.listConsumerGroups replies out) := by
  simp only [Acknowledged, Told, listConsumerGroups, true_imp_iff]
  refine and_congr_right fun answered => ?_
  constructor
  · exact fun union group type held => union.1 group type (foldl_listGroups_kept replies ([], out) held)
  · intro union
    constructor
    · intro group type held
      exact (foldl_listGroups_held replies _ held).elim (union group type) id
    · exact fun group type listed => foldl_listGroups_added replies _ listed

/-! ## All operations -/

/-- Success of an operation is acknowledged exactly if the operation fails as a whole, or the answers it gets without an
error have every item, without an error. -/
theorem acknowledged_iff (conf : AdminConfig) (call : Call) : Acknowledged conf call ↔ Told conf call := by
  cases call with
  | deleteRecords cluster topic partitionOffsets => exact deleteRecords_acknowledged_iff conf cluster topic partitionOffsets
  | createACLs cluster resourceAcls => exact createACLs_acknowledged_iff conf cluster resourceAcls
  | deleteACL cluster filter validateOnly out => exact deleteACL_acknowledged_iff conf cluster filter validateOnly out
  | deleteConsumerGroupOffset topic partition met =>
    exact deleteConsumerGroupOffset_acknowledged_iff conf topic partition met
  | listConsumerGroups replies out => exact listConsumerGroups_acknowledged_iff conf replies out

def ErrClusterAuthorizationFailed : KError := 31

/-- A controller that refuses the one rule it is asked to create. -/
def refusingCluster : AclCluster where
  controller := 0
  createAcls request := ⟨0, some (request.aclCreations.map fun _ => ⟨ErrClusterAuthorizationFailed, []⟩)⟩
  deleteAcls _ := ⟨0, none⟩

/-- The refusal is success, and so are groups of a broker that is down. -/
theorem refusal_is_success :
    createACLs {} refusingCluster [⟨{}, [{}]⟩] = 0 ∧ ¬ Acknowledged {} (.createACLs refusingCluster [⟨{}, [{}]⟩]) ∧
      ¬ Acknowledged {} (.listConsumerGroups [⟨ErrBrokerNotAvailable, none⟩] ∅) := by
  refine ⟨rfl, fun acknowledged => ?_, fun acknowledged => ?_⟩
  · obtain ⟨responses, answers, items⟩ := acknowledged rfl
    cases Option.some.inj answers.2
    obtain ⟨response, first, fine⟩ := items 0 Nat.zero_lt_one
    cases Option.some.inj first
    exact absurd fine (by decide)
  · obtain ⟨response, answers, _⟩ := (acknowledged rfl).1 _ List.mem_cons_self
    cases answers.2

end Coev.Kafka.AdminItems
