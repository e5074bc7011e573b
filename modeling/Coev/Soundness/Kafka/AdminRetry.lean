import Coev.Model.Kafka.ClusterAdmin

/-! # Retries of the admin operations and refreshes of the node

An answer that names the wrong node is followed by an attempt on a broker that a later refresh gave only where
the operation awaits its refresh. The numbers of the refreshes tell which brokers are later.
-/

namespace Coev.Kafka

namespace NodeCache

/-- The broker that is or will be found here comes from a refresh after the first `r`. -/
def Newer (r : ℕ) (c : NodeCache) : Prop := r ≤ c.refreshes ∧ ∀ b ∈ c.broker, r < b

private theorem newer_forget (c : NodeCache) : Newer c.refreshes c.forget := by simp [Newer, forget]

private theorem newer_renew (c : NodeCache) (found : Bool) : Newer c.refreshes (c.renew found) := by
  cases found <;> simp [Newer, renew]

variable {r : ℕ} {c d : NodeCache}

theorem Newer.trans (newer : Newer r c) (next : Newer c.refreshes d) : Newer r d :=
  ⟨newer.1.trans next.1, fun b member => newer.1.trans_lt (next.2 b member)⟩

end NodeCache

open NodeCache

namespace AdminCall

variable (call : AdminCall) (conf : AdminConfig)

/-- The codes that the response has for the operation. -/
def reported : AdminCall → AdminAttempt → List KError
  | createTopic, a | deleteTopic, a | createPartitions, a | deleteConsumerGroup, a => a.items.head?.toList
  | alterPartitionReassignments, a => a.code :: a.items
  | deleteConsumerGroupOffset, a => a.code :: a.items.head?.toList
  | listPartitionReassignments, a | electLeaders, a | listConsumerGroupOffsets, a
  | removeMemberFromConsumerGroup, a => [a.code]
  | describeTopics, _ | describeCluster, _ | alterUserScramCredentials, _ => []

/-- The answer that the node is another one. -/
def moved (a : AdminAttempt) : Prop :=
  let code := if call.ofGroup then ErrNotCoordinatorForConsumer else ErrNotController
  a.transport = code ∨ a.transport = 0 ∧ code ∈ call.reported a

/-- There was an answer, and no code in it is an error. -/
def Accepted (a : AdminAttempt) : Prop := a.transport = 0 ∧ ∀ code ∈ call.reported a, code = 0

/-- The attempt gets as far as sending its request. -/
def Reaches (m : Made) : Prop :=
  (call.getNode conf m.met m.cache).1 = 0 ∧ (call.reopens → m.met.reopened = 0)

/-- The cache at the time of sending. -/
def sending (m : Made) : NodeCache := (call.getNode conf m.met m.cache).2

/-- What is asked of the attempts made and of the code returned. -/
structure RetriesFaithfully (made : List Made) (err : KError) : Prop where
  refreshed : made.Pairwise fun x y => call.Reaches conf x → call.moved x.met → call.Reaches conf y →
    ∀ broker ∈ (call.sending conf y).broker, (call.sending conf x).refreshes < broker
  bounded : (made.length : ℤ) ≤ conf.retryMax.toInt + 1
  succeeded : err = 0 → ∃ last ∈ made.getLast?, call.Reaches conf last ∧ call.Accepted last.met

/-- The operation calls a refresh and awaits it. -/
def awaits : AdminCall → AdminAttempt → Bool
  | describeTopics, a | listPartitionReassignments, a => isRetriableControllerError a.transport
  | deleteConsumerGroup, a => a.transport = 0 && a.items.head?.any isRetriableGroupCoordinatorError
  | _, _ => false

/-- The refresh it awaits takes the old broker from the cache. A coordinator leaves it only for another. -/
def renews (a : AdminAttempt) : Prop :=
  call.awaits a ∧ a.renewal.closed = false ∧ (call.ofGroup → a.renewal.err = 0)

/-- The operation takes what it met for a success. -/
def overlooks : AdminCall → AdminAttempt → Prop
  | alterPartitionReassignments, a => a.transport = 0 ∧ a.code < 0 ∧ ∀ code ∈ a.items, code = 0
  | listPartitionReassignments, a => a.transport = 0 ∧ a.code ≠ 0 ∨
      isRetriableControllerError a.transport ∧ ∀ c, (refreshController a.renewal c).1 = 0
  | _, _ => False

/-- What the steps of a faithful operation are like. -/
structure NeedsNoRefresh (made : List Made) : Prop where
  retries : 0 ≤ conf.retryMax ∧ conf.retryMax ≠ Int32.maxValue
  renewed : made.Pairwise fun x y => call.Reaches conf x → call.moved x.met → call.Reaches conf y → call.renews x.met
  heard : ∀ x ∈ made, call.Reaches conf x → ¬ call.overlooks x.met

/-! ## The client -/

/-- The refresh of the operation's node. -/
def refresh (r : Renewal) : NodeCache → KError × NodeCache :=
  if call.ofGroup then refreshCoordinator r else refreshController r

variable {call conf} {a : AdminAttempt} {r : ℕ} {c : NodeCache}

/-- A refresh fails before anything changes, fails after the old controller is gone, or is answered. -/
private theorem refresh_cases (call : AdminCall) (c : NodeCache) (renewal : Renewal) :
    (call.refresh renewal c).2 = c ∧ (renewal.closed ∨ call.ofGroup ∧ renewal.err ≠ 0) ∨
    (call.refresh renewal c).2 = c.forget ∧ ¬ call.ofGroup ∨ ∃ found, (call.refresh renewal c).2 = c.renew found := by
  unfold refresh refreshCoordinator refreshController
  by_cases closed : renewal.closed
  · simp [closed]
  by_cases ofGroup : call.ofGroup <;> by_cases failed : renewal.err ≠ 0
  · simp [closed, ofGroup, failed]
  · exact .inr (.inr ⟨renewal.found, by simp [closed, ofGroup, failed]⟩)
  · simp [closed, ofGroup, failed]
  · exact .inr (.inr ⟨renewal.found, by cases renewal.found <;> simp [closed, ofGroup, failed]⟩)

private theorem getNode_cached (cached : c.broker.isSome) : (call.getNode conf a c).2 = c := by
  unfold getNode
  split <;> simp only [getCoordinator, getController, cached, if_true] <;> repeat' split
  all_goals rfl

/-- With nothing cached the node is asked for: this fails, or one refresh is answered. -/
private theorem getNode_cases (call : AdminCall) (conf : AdminConfig) (a : AdminAttempt) (empty : c.broker = none) :
    (call.getNode conf a c).2 = c ∧ (call.getNode conf a c).1 ≠ 0 ∨
    ∃ found, (call.getNode conf a c).2 = c.renew found ∧ ((call.getNode conf a c).1 = 0 → found) := by
  unfold getNode
  by_cases closed : a.closed
  · exact .inl (by split <;> simp [getCoordinator, getController, closed, ErrClosedClient])
  split
  · unfold getCoordinator refreshCoordinator
    by_cases refused : a.lookup.closed
    · exact .inl (by simp [closed, empty, refused, ErrClosedClient])
    by_cases failed : a.lookup.err ≠ 0
    · exact .inl (by simp [closed, empty, refused, failed])
    refine .inr ⟨a.lookup.found, ?_⟩
    cases a.lookup.found <;>
      simp [closed, empty, refused, failed, renew, ErrConsumerCoordinatorNotAvailable]
  · unfold getController
    by_cases old : conf.version.isAtLeast V0_10_0_0
    · by_cases failed : a.lookup.err ≠ 0
      · exact .inl (by simp [closed, empty, old, failed])
      refine .inr ⟨a.lookup.found, ?_⟩
      cases a.lookup.found <;> simp [closed, empty, old, failed, ErrControllerNotAvailable]
    · exact .inl (by simp [closed, old, ErrUnsupportedVersion])

private theorem isSome_of_getNode (ready : (call.getNode conf a c).1 = 0) : (call.getNode conf a c).2.broker.isSome := by
  cases cached : c.broker with
  | some broker => rw [getNode_cached (by simp [cached]), cached]; rfl
  | none =>
    obtain ⟨-, failed⟩ | ⟨found, same, obtained⟩ := getNode_cases call conf a cached
    · exact absurd ready failed
    · simp [same, obtained ready, renew]

private theorem newer_refresh (newer : Newer r c) (renewal : Renewal) : Newer r (call.refresh renewal c).2 := by
  obtain ⟨same, -⟩ | ⟨same, -⟩ | ⟨found, same⟩ := refresh_cases call c renewal
  · rwa [same]
  · exact same ▸ newer.trans c.newer_forget
  · exact same ▸ newer.trans (c.newer_renew found)

private theorem newer_getNode (newer : Newer r c) : Newer r (call.getNode conf a c).2 := by
  cases cached : c.broker with
  | some broker => rwa [getNode_cached (by simp [cached])]
  | none =>
    obtain ⟨same, -⟩ | ⟨found, same, -⟩ := getNode_cases call conf a cached
    · rwa [same]
    · exact same ▸ newer.trans (c.newer_renew found)

/-- An answered refresh leaves no broker from before it. -/
theorem renews.newer (renews : call.renews a) (c : NodeCache) : Newer c.refreshes (call.refresh a.renewal c).2 := by
  obtain ⟨-, opened, answered⟩ := renews
  obtain ⟨-, closed | ⟨ofGroup, failed⟩⟩ | ⟨same, -⟩ | ⟨found, same⟩ :=
    refresh_cases call c a.renewal
  · simp [opened] at closed
  · exact absurd (answered ofGroup) failed
  · exact same ▸ c.newer_forget
  · exact same ▸ c.newer_renew found

/-- A refresh that does not take the broker away leaves the cache as it is. -/
private theorem refresh_of_not_renews (awaits : call.awaits a) (not : ¬ call.renews a) :
    (call.refresh a.renewal c).2 = c := by
  unfold refresh refreshCoordinator refreshController
  by_cases closed : a.renewal.closed
  · simp [closed]
  by_cases ofGroup : call.ofGroup
  · have failed : a.renewal.err ≠ 0 := by
      intro answered
      exact not ⟨awaits, by simpa using closed, fun _ => answered⟩
    simp [closed, ofGroup, failed]
  · exact absurd ⟨awaits, by simpa using closed, fun group => absurd group ofGroup⟩ not

/-! ## One attempt -/

/-- Only an awaited refresh changes the cache after the request was sent. -/
private theorem answered_cache : (call.answered a c).2 = if call.awaits a then (call.refresh a.renewal c).2 else c := by
  cases call <;>
    simp [answered, awaits, refresh, ofGroup, ClusterAdmin.createTopic, ClusterAdmin.deleteTopic,
      ClusterAdmin.createPartitions, ClusterAdmin.readTopic, ClusterAdmin.describeTopics,
      ClusterAdmin.describeCluster, ClusterAdmin.alterPartitionReassignments,
      ClusterAdmin.listPartitionReassignments, ClusterAdmin.electLeaders,
      ClusterAdmin.alterUserScramCredentials, ClusterAdmin.listConsumerGroupOffsets,
      ClusterAdmin.removeMemberFromConsumerGroup, ClusterAdmin.readGroup, ClusterAdmin.failGroup,
      ClusterAdmin.deleteConsumerGroupOffset, ClusterAdmin.deleteConsumerGroup, unawaited] <;> grind

private theorem answered_newer (newer : Newer r c) : Newer r (call.answered a c).2 := by
  rw [answered_cache]
  split
  · exact newer_refresh newer a.renewal
  · exact newer

variable {m : Made}

private theorem attempt_of_reaches (reaches : call.Reaches conf m) :
    call.attempt conf m.met m.cache = call.answered m.met (call.sending conf m) := by
  obtain ⟨ready, reopened⟩ := reaches
  unfold attempt sending
  by_cases reopens : call.reopens <;> simp_all

/-- An attempt that ends before its request changes what looking for the node changes. -/
private theorem attempt_of_not_reaches (not : ¬ call.Reaches conf m) :
    (call.attempt conf m.met m.cache).1 ≠ 0 ∧ (call.attempt conf m.met m.cache).2 = call.sending conf m := by
  unfold attempt sending
  by_cases ready : (call.getNode conf m.met m.cache).1 = 0
  · have failed : call.reopens ∧ m.met.reopened ≠ 0 := by
      by_contra reached
      exact not ⟨ready, fun reopens => by_contra fun failed => reached ⟨reopens, failed⟩⟩
    simp [ready, failed]
  · simp [ready]

private theorem attempt_newer (newer : Newer r c) : Newer r (call.attempt conf a c).2 := by
  have sending : Newer r (call.sending conf ⟨a, c⟩) := newer_getNode newer
  by_cases reaches : call.Reaches conf ⟨a, c⟩
  · exact attempt_of_reaches reaches ▸ answered_newer sending
  · exact (attempt_of_not_reaches reaches).2 ▸ sending

private theorem refreshController_code (renewal : Renewal) (c d : NodeCache) :
    (refreshController renewal c).1 = (refreshController renewal d).1 := by
  unfold refreshController
  repeat' split
  all_goals rfl

/-- What the operation reads as a success was one, or was overlooked. -/
private theorem answered_eq_zero (succeeds : (call.answered a c).1 = 0) : call.Accepted a ∨ call.overlooks a := by
  cases call with
  | createTopic | deleteTopic | createPartitions =>
    left
    simp only [answered, ClusterAdmin.createTopic, ClusterAdmin.deleteTopic, ClusterAdmin.createPartitions,
      ClusterAdmin.readTopic] at succeeds
    simp only [Accepted, reported]
    grind [ErrIncompleteResponse, ErrNoError]
  | describeTopics => exact .inl ⟨succeeds, by simp [reported]⟩
  | describeCluster => exact .inl ⟨succeeds, by simp [reported]⟩
  | alterUserScramCredentials => exact .inl ⟨succeeds, by simp [reported]⟩
  | alterPartitionReassignments =>
    simp only [answered, ClusterAdmin.alterPartitionReassignments] at succeeds
    have answeredWell : a.transport = 0 ∧ ¬ 0 < a.code ∧ ∀ code ∈ a.items, code = 0 := by
      by_cases sent : a.transport = 0 <;> by_cases positive : 0 < a.code <;>
        simp [sent, positive, ErrReassignPartitions, ErrNoError] at succeeds ⊢
      exact fun code member => not_not.mp (of_decide_eq_false (succeeds code member))
    obtain ⟨sent, code, items⟩ := answeredWell
    rcases lt_or_eq_of_le (not_lt.mp code) with negative | zero
    · exact .inr ⟨sent, negative, items⟩
    · exact .inl ⟨sent, by simpa [reported, zero] using items⟩
  | listPartitionReassignments =>
    simp only [answered, ClusterAdmin.listPartitionReassignments] at succeeds
    by_cases retriable : isRetriableControllerError a.transport
    · simp only [retriable, if_true] at succeeds
      exact .inr (.inr ⟨retriable, fun d => refreshController_code _ d c ▸ succeeds⟩)
    · simp only [retriable] at succeeds
      by_cases code : a.code = 0
      · exact .inl ⟨succeeds, by simp [reported, code]⟩
      · exact .inr (.inl ⟨succeeds, code⟩)
  | electLeaders =>
    left
    simp only [answered, ClusterAdmin.electLeaders] at succeeds
    simp only [Accepted, reported]
    grind [ErrNoError]
  | listConsumerGroupOffsets | removeMemberFromConsumerGroup =>
    left
    simp only [answered, ClusterAdmin.listConsumerGroupOffsets, ClusterAdmin.removeMemberFromConsumerGroup,
      ClusterAdmin.readGroup, ClusterAdmin.failGroup] at succeeds
    simp only [Accepted, reported]
    grind [ErrNoError]
  | deleteConsumerGroupOffset =>
    left
    simp only [answered, ClusterAdmin.deleteConsumerGroupOffset, ClusterAdmin.failGroup] at succeeds
    simp only [Accepted, reported]
    grind [ErrNoError]
  | deleteConsumerGroup =>
    left
    simp only [answered, ClusterAdmin.deleteConsumerGroup, ClusterAdmin.failGroup] at succeeds
    simp only [Accepted, reported]
    grind [ErrIncompleteResponse, isRetriableGroupCoordinatorError, ErrNotCoordinatorForConsumer,
      ErrConsumerCoordinatorNotAvailable, ErrIOEOF]

theorem overlooks.spec (overlooks : call.overlooks a) (c : NodeCache) :
    (call.answered a c).1 = 0 ∧ ¬ call.Accepted a := by
  cases call with
  | alterPartitionReassignments =>
    obtain ⟨sent, negative, items⟩ := overlooks
    constructor
    · have noItems : a.items.filter (· ≠ ErrNoError) = [] :=
        List.filter_eq_nil_iff.mpr fun code member => by simp [items code member, ErrNoError]
      simp only [answered, ClusterAdmin.alterPartitionReassignments, sent, not_lt.mpr negative.le, noItems]
      rfl
    · intro accepted
      exact negative.ne (accepted.2 a.code (by simp [reported]))
  | listPartitionReassignments =>
    obtain ⟨sent, failed⟩ | ⟨retriable, renewed⟩ := overlooks
    · constructor
      · simp [answered, ClusterAdmin.listPartitionReassignments, sent, isRetriableControllerError,
          ErrNotController, ErrIOEOF]
      · exact fun accepted => failed (accepted.2 a.code (by simp [reported]))
    · constructor
      · simp [answered, ClusterAdmin.listPartitionReassignments, retriable, renewed]
      · intro accepted
        simp [accepted.1, isRetriableControllerError, ErrNotController, ErrIOEOF] at retriable
  | _ => exact overlooks.elim

/-- The code of an attempt is 0 when its request was sent and the answer read as a success. -/
private theorem attempt_eq_zero_iff : (call.attempt conf m.met m.cache).1 = 0 ↔
    call.Reaches conf m ∧ (call.answered m.met (call.sending conf m)).1 = 0 := by
  constructor
  · intro succeeds
    have reaches : call.Reaches conf m := by_contra fun not => (attempt_of_not_reaches not).1 succeeds
    exact ⟨reaches, attempt_of_reaches reaches ▸ succeeds⟩
  · rintro ⟨reaches, succeeds⟩
    rwa [attempt_of_reaches reaches]

/-! ## The loop -/

variable {n : ℕ} {err : KError} {met : ℕ → AdminAttempt}

/-- The loop has ended with the first attempt, or goes on with the cache that it left. -/
private theorem retryLoop_cases (call : AdminCall) (conf : AdminConfig) (n : ℕ) (err : KError) (met : ℕ → AdminAttempt)
    (c : NodeCache) : (call.retryLoop conf (n + 1) err met c = ([⟨met 0, c⟩], (call.attempt conf (met 0) c).1)) ∨
    ((call.attempt conf (met 0) c).1 ≠ 0 ∧ call.retryLoop conf (n + 1) err met c =
      (⟨met 0, c⟩ :: (call.retryLoop conf n (call.attempt conf (met 0) c).1 (fun i => met (i + 1))
          (call.attempt conf (met 0) c).2).1,
        (call.retryLoop conf n (call.attempt conf (met 0) c).1 (fun i => met (i + 1))
          (call.attempt conf (met 0) c).2).2)) := by
  by_cases ends : (call.attempt conf (met 0) c).1 = 0 || !call.retryable (call.attempt conf (met 0) c).1
  · exact .inl (by simp only [retryLoop, ends, if_true])
  · refine .inr ⟨fun zero => ends (by simp [zero]), ?_⟩
    simp only [retryLoop, ends]
    rfl

private theorem length_retryLoop_le (call : AdminCall) (conf : AdminConfig) (n : ℕ) (err : KError) (met : ℕ → AdminAttempt)
    (c : NodeCache) : (call.retryLoop conf n err met c).1.length ≤ n := by
  induction n generalizing err met c with
  | zero => simp [retryLoop]
  | succ n ih =>
    obtain same | ⟨-, same⟩ := retryLoop_cases call conf n err met c
    · simp [same]
    · simpa [same] using ih _ _ _

/-- From a cache without older brokers no later attempt goes to one. -/
private theorem retryLoop_newer (newer : Newer r c) :
    ∀ y ∈ (call.retryLoop conf n err met c).1, Newer r (call.sending conf y) := by
  induction n generalizing err met c with
  | zero => simp [retryLoop]
  | succ n ih =>
    have first : Newer r (call.sending conf ⟨met 0, c⟩) := newer_getNode newer
    obtain same | ⟨-, same⟩ := retryLoop_cases call conf n err met c
    · simpa [same] using first
    · simp only [same, List.forall_mem_cons]
      exact ⟨first, ih (attempt_newer newer)⟩

/-- While an older broker is cached, the next request goes to it. -/
private theorem not_reaches_of_old {broker : ℕ} (cached : broker ∈ c.broker) (old : broker ≤ r)
    (refreshed : ∀ y ∈ (call.retryLoop conf n err met c).1, call.Reaches conf y →
      ∀ b ∈ (call.sending conf y).broker, r < b) :
    ∀ y ∈ (call.retryLoop conf n err met c).1, ¬ call.Reaches conf y := by
  induction n generalizing err met c with
  | zero => simp [retryLoop]
  | succ n ih =>
    have kept : call.sending conf ⟨met 0, c⟩ = c := getNode_cached (by simp [Option.mem_def.mp cached])
    have first : ⟨met 0, c⟩ ∈ (call.retryLoop conf (n + 1) err met c).1 := by
      obtain same | ⟨-, same⟩ := retryLoop_cases call conf n err met c <;> simp [same]
    have stopped : ¬ call.Reaches conf ⟨met 0, c⟩ := by
      intro reaches
      have later := refreshed _ first reaches broker (by rwa [kept])
      omega
    obtain same | ⟨-, same⟩ := retryLoop_cases call conf n err met c
    · simpa [same] using stopped
    · have unchanged : (call.attempt conf (met 0) c).2 = c := (attempt_of_not_reaches stopped).2.trans kept
      simp only [same, unchanged, List.forall_mem_cons] at refreshed ⊢
      exact ⟨stopped, ih cached refreshed.2⟩

/-- After an answer that the node is another one, the attempts that follow are on newer brokers just when the
operation renewed the cache or none of them gets to its request. -/
private theorem refreshed_iff_renews (n : ℕ) (err : KError) (reaches : call.Reaches conf ⟨met 0, c⟩) :
    (∀ y ∈ (call.retryLoop conf n err (fun i => met (i + 1)) (call.attempt conf (met 0) c).2).1,
      call.Reaches conf y → ∀ b ∈ (call.sending conf y).broker, (call.sending conf ⟨met 0, c⟩).refreshes < b) ↔
    ∀ y ∈ (call.retryLoop conf n err (fun i => met (i + 1)) (call.attempt conf (met 0) c).2).1,
      call.Reaches conf y → call.renews (met 0) := by
  have left : (call.attempt conf (met 0) c).2 = (call.answered (met 0) (call.sending conf ⟨met 0, c⟩)).2 :=
    congrArg Prod.snd (attempt_of_reaches reaches)
  by_cases renews : call.renews (met 0)
  · have newer : Newer (call.sending conf ⟨met 0, c⟩).refreshes (call.attempt conf (met 0) c).2 := by
      rw [left, answered_cache, if_pos renews.1]
      exact renews.newer _
    simp only [renews, implies_true, iff_true]
    intro y member _
    exact (retryLoop_newer newer y member).2
  · have unchanged : (call.attempt conf (met 0) c).2 = call.sending conf ⟨met 0, c⟩ := by
      rw [left, answered_cache]
      split
      · exact refresh_of_not_renews ‹_› renews
      · rfl
    obtain ⟨broker, cached⟩ := Option.isSome_iff_exists.mp (isSome_of_getNode reaches.1)
    simp only [renews, unchanged]
    constructor
    · intro refreshed
      exact not_reaches_of_old cached ((call.sending conf ⟨met 0, c⟩).known broker cached) refreshed
    · intro none y member sent
      exact (none y member sent).elim

private theorem pairwise_refreshed_iff :
    ((call.retryLoop conf n err met c).1.Pairwise fun x y => call.Reaches conf x → call.moved x.met →
      call.Reaches conf y → ∀ b ∈ (call.sending conf y).broker, (call.sending conf x).refreshes < b) ↔
    (call.retryLoop conf n err met c).1.Pairwise fun x y => call.Reaches conf x → call.moved x.met →
      call.Reaches conf y → call.renews x.met := by
  induction n generalizing err met c with
  | zero => simp [retryLoop]
  | succ n ih =>
    obtain same | ⟨-, same⟩ := retryLoop_cases call conf n err met c
    · simp [same]
    · simp only [same, List.pairwise_cons, ih]
      refine and_congr_left fun _ => ?_
      by_cases sent : call.Reaches conf ⟨met 0, c⟩ ∧ call.moved (met 0)
      · have iff := refreshed_iff_renews n (call.attempt conf (met 0) c).1 sent.1
        simpa only [sent.1, sent.2, true_imp_iff] using iff
      · have vacuous : ∀ P : Prop, call.Reaches conf ⟨met 0, c⟩ → call.moved (met 0) → P :=
          fun _ reaches moved => absurd ⟨reaches, moved⟩ sent
        exact iff_of_true (fun _ _ => vacuous _) (fun _ _ => vacuous _)

/-- After a code that is not 0, the loop returns 0 just when its last attempt did. -/
private theorem retryLoop_eq_zero_iff (failed : err ≠ 0) : (call.retryLoop conf n err met c).2 = 0 ↔
    ∃ last ∈ (call.retryLoop conf n err met c).1.getLast?, (call.attempt conf last.met last.cache).1 = 0 := by
  induction n generalizing err met c with
  | zero => simp [retryLoop, failed]
  | succ n ih =>
    obtain same | ⟨again, same⟩ := retryLoop_cases call conf n err met c
    · simp [same]
    · rw [same, ih again, List.getLast?_cons]
      cases (call.retryLoop conf n (call.attempt conf (met 0) c).1 (fun i => met (i + 1))
        (call.attempt conf (met 0) c).2).1.getLast? with
      | none => simp [again]
      | some last => simp

/-- An attempt whose code is 0 is the last one. -/
private theorem getLast_of_attempt_eq_zero {x : Made} (member : x ∈ (call.retryLoop conf n err met c).1)
    (succeeds : (call.attempt conf x.met x.cache).1 = 0) : x ∈ (call.retryLoop conf n err met c).1.getLast? := by
  induction n generalizing err met c with
  | zero => simp [retryLoop] at member
  | succ n ih =>
    obtain same | ⟨again, same⟩ := retryLoop_cases call conf n err met c
    · simpa [same, eq_comm] using member
    · simp only [same, List.mem_cons] at member ⊢
      obtain rfl | member := member
      · exact absurd succeeds again
      · rw [List.getLast?_cons, Option.mem_def.mp (ih member)]
        rfl

/-! ## The operations -/

/-- The loop makes an attempt just when the number of retries is one that a user means. -/
private theorem attempts_pos_iff : 0 < (conf.retryMax + 1).toInt ↔ 0 ≤ conf.retryMax ∧ conf.retryMax ≠ Int32.maxValue := by
  have lower := conf.retryMax.le_toInt
  have upper := conf.retryMax.toInt_lt
  have one : (1 : Int32).toInt = 1 := rfl
  have max : Int32.maxValue.toInt = 2147483647 := rfl
  rw [Int32.le_iff_toInt_le, ne_eq, ← Int32.toInt_inj, Int32.toInt_add, Int.bmod_def, one, max, Int32.toInt_zero]
  split <;> omega

private theorem attempts_eq (retries : 0 ≤ conf.retryMax ∧ conf.retryMax ≠ Int32.maxValue) :
    (conf.retryMax + 1).toInt = conf.retryMax.toInt + 1 := by
  have lower := conf.retryMax.le_toInt
  have upper := conf.retryMax.toInt_lt
  have one : (1 : Int32).toInt = 1 := rfl
  have max : Int32.maxValue.toInt = 2147483647 := rfl
  rw [Int32.le_iff_toInt_le, ne_eq, ← Int32.toInt_inj, max, Int32.toInt_zero] at retries
  rw [Int32.toInt_add, Int.bmod_def, one]
  split <;> omega

/-- Retries are faithful exactly when no attempt of theirs needs a refresh that is not awaited, and no answer
is overlooked. -/
theorem admin_retry_iff (conf : AdminConfig) (call : AdminCall) (met : ℕ → AdminAttempt) (c : NodeCache) :
    call.RetriesFaithfully conf (call.retryOnError conf met c).1 (call.retryOnError conf met c).2 ↔
      call.NeedsNoRefresh conf (call.retryOnError conf met c).1 := by
  by_cases retries : 0 ≤ conf.retryMax ∧ conf.retryMax ≠ Int32.maxValue
  · obtain ⟨n, attempts⟩ : ∃ n, (conf.retryMax + 1).toInt.toNat = n + 1 :=
      Nat.exists_eq_succ_of_ne_zero (by have positive := attempts_pos_iff.mpr retries; omega)
    have run : call.retryOnError conf met c = call.retryLoop conf (n + 1) 1 met c := by
      rw [retryOnError, attempts, retryLoop, retryLoop]
    rw [run]
    constructor
    · intro faithful
      refine ⟨retries, pairwise_refreshed_iff.mp faithful.refreshed, ?_⟩
      intro x member reaches overlooks
      have succeeds : (call.attempt conf x.met x.cache).1 = 0 :=
        attempt_eq_zero_iff.mpr ⟨reaches, (overlooks.spec _).1⟩
      have isLast := getLast_of_attempt_eq_zero member succeeds
      have returns := (retryLoop_eq_zero_iff (by decide)).mpr ⟨x, isLast, succeeds⟩
      obtain ⟨last, lastMember, -, accepted⟩ := faithful.succeeded returns
      obtain rfl := Option.mem_unique isLast lastMember
      exact (overlooks.spec c).2 accepted
    · intro needs
      refine ⟨pairwise_refreshed_iff.mpr needs.renewed, ?_, ?_⟩
      · have length := length_retryLoop_le call conf (n + 1) 1 met c
        have sum := attempts_eq retries
        omega
      · intro returns
        obtain ⟨last, lastMember, succeeds⟩ := (retryLoop_eq_zero_iff (by decide)).mp returns
        obtain ⟨reaches, read⟩ := attempt_eq_zero_iff.mp succeeds
        refine ⟨last, lastMember, reaches, (answered_eq_zero read).resolve_right ?_⟩
        exact needs.heard last (List.mem_of_getLast? lastMember) reaches
  · have none : call.retryOnError conf met c = ([], 0) := by
      have attempts : (conf.retryMax + 1).toInt.toNat = 0 := by
        have notPositive := mt attempts_pos_iff.mp retries
        omega
      rw [retryOnError, attempts, retryLoop]
    rw [none]
    refine iff_of_false (fun faithful => ?_) (fun needs => retries needs.retries)
    simpa using faithful.succeeded rfl

/-- The controller answers that it is the controller no longer; the second request goes to it all the same. -/
theorem resent_unrefreshed :
    let met : ℕ → AdminAttempt := fun i => { items := [if i = 0 then ErrNotController else 0] }
    ¬ createTopic.RetriesFaithfully {} (createTopic.retryOnError {} met {}).1 (createTopic.retryOnError {} met {}).2 := by
  intro met faithful
  have cached : (NodeCache.renew {} true).broker = some 1 := rfl
  have made : (createTopic.retryOnError {} met {}).1 = [⟨met 0, {}⟩, ⟨met 1, NodeCache.renew {} true⟩] := rfl
  have refreshed := faithful.refreshed
  rw [made, List.pairwise_pair] at refreshed
  have later := refreshed ⟨rfl, nofun⟩ (.inr ⟨rfl, List.mem_singleton.mpr rfl⟩) ⟨rfl, nofun⟩ 1 cached
  exact absurd later (Nat.lt_irrefl 1)

end AdminCall

end Coev.Kafka
