import Coev.Model.Kafka.ProducerIdentity
import Coev.Soundness.Kafka.VersionOrder

/-! # Where a producer gets its identity

No answer reaches a request that does not exist. A call that returns at all has given up after its last attempt,
with the code of success and without an identity; only an epoch that is counted on locally is installed.
-/

namespace Coev.Kafka.ProducerIdentity

open TransactionManager EStateM

variable {out : IdentityOut} {answers : ℕ → InitProducerIDAnswer} {isEpochBump : Bool} {w : IdentityWorld}

/-! ## The property -/

/-- Every sequence number is 0. -/
def Restarted (m : TransactionManager) : Prop := ∀ (key : Bytes) (sequence : Int32),
  m.sequenceNumbers[key]? = some sequence → sequence = 0

/-- The identity of the last answer without an error is that of the manager, whose sequence numbers start again if its
epoch is not that of the manager before. -/
structure Installed (before : TransactionManager) (w : IdentityWorld) : Prop where
  identity : w.answered.head? = some (w.manager.producerId, w.manager.producerEpoch)
  restarted : w.manager.producerEpoch ≠ before.producerEpoch → Restarted w.manager

/-- The next epoch of the same producer. -/
structure LocallyBumped (before m : TransactionManager) : Prop where
  notLast : before.producerEpoch ≠ Int16.maxValue
  producerId : m.producerId = before.producerId
  producerEpoch : m.producerEpoch = before.producerEpoch + 1
  restarted : Restarted m

def InitInstalls (out : IdentityOut) (answers : ℕ → InitProducerIDAnswer) (locals : Int64 × Int16) (m : TransactionManager) :
    Prop :=
  ∀ w, initProducerId out answers ⟨m, locals, []⟩ = .ok 0 w → Installed m w

def NewInstalls (closed : Bool) (answers : ℕ → InitProducerIDAnswer) (locals : Int64 × Int16) (conf : TxnConfig) : Prop :=
  conf.idempotent = true → ∀ w, newAsyncProducer closed answers ⟨create conf, locals, []⟩ = .ok 0 w →
    Installed (create conf) w

def BumpInstalls (answers : ℕ → InitProducerIDAnswer) (locals : Int64 × Int16) (m : TransactionManager) : Prop :=
  m.conf.idempotent = true → ∀ w, bumpIdempotentProducerEpoch answers ⟨m, locals, []⟩ = .ok () w →
    Installed m w ∨ LocallyBumped m w.manager

/-- The manager has no transactional id, the cluster is older than 2.0.0, and no attempt finds a broker that is ready. -/
def GivesUp (m : TransactionManager) (answers : ℕ → InitProducerIDAnswer) : Prop :=
  m.isTransactional = false ∧ m.conf.version.isAtLeast V2_0_0_0 = false ∧
    ∀ k < attempts m.conf, (answers k).leastLoadedBroker ≠ 0 ∨ (answers k).transport ≠ 0

/-! ## An attempt and all of them -/

/-- The identity that the references hold is none. -/
def forgotten : IdentityOut → IdentityWorld → IdentityWorld
  | .members, w => { w with manager := { w.manager with producerId := noProducerID, producerEpoch := noProducerEpoch } }
  | .locals, w => { w with locals := (noProducerID, noProducerEpoch) }

@[simp] theorem answered_forgotten : (forgotten out w).answered = w.answered := by cases out <;> rfl

@[simp] theorem isTransactional_forgotten : (forgotten out w).manager.isTransactional = w.manager.isTransactional := by
  cases out <;> rfl

@[simp] theorem forgotten_forgotten : forgotten out (forgotten out w) = forgotten out w := by cases out <;> rfl

private theorem withoutIdentity_apply (result : TxnResult) :
    withoutIdentity out result w = .ok result (forgotten out w) := by
  cases out <;> rfl

private theorem identityAttempt_refused (out : IdentityOut) (isEpochBump : Bool) (plain : w.manager.isTransactional = false)
    {answer : InitProducerIDAnswer} (refused : answer.leastLoadedBroker ≠ 0 ∨ answer.transport ≠ 0) :
    ∃ result, result.retry = true ∧ identityAttempt out isEpochBump none answer w = .ok result (forgotten out w) := by
  unfold identityAttempt
  rw [get_bind_apply]
  by_cases missing : answer.leastLoadedBroker ≠ 0
  · refine ⟨{ retry := true, error := -1 }, rfl, ?_⟩
    rw [if_pos (by simp [noBroker, plain, missing]), withoutIdentity_apply]
  · have unready : answer.transport ≠ ErrNoError := refused.resolve_left missing
    refine ⟨{ retry := true, error := answer.transport }, rfl, ?_⟩
    rw [if_neg (by simp [noBroker, plain, not_not.mp missing]), askIdentity, if_pos unready, withoutIdentity_apply]

private theorem identityAttempt_reached (plain : w.manager.isTransactional = false) {answer : InitProducerIDAnswer}
    (reached : ¬ (answer.leastLoadedBroker ≠ 0 ∨ answer.transport ≠ 0)) :
    identityAttempt out isEpochBump none answer w = .error .nullPointer w := by
  rw [not_or, not_not, not_not] at reached
  unfold identityAttempt
  rw [get_bind_apply, if_neg (by simp [noBroker, plain, reached.1]), askIdentity, if_neg (by simp [reached.2]; rfl)]
  rfl

/-- Attempts that are all refused end in the code of success. -/
private theorem identityLoop_refused (plain : w.manager.isTransactional = false) (left k : ℕ)
    (refused : ∀ j < left, (answers (k + j)).leastLoadedBroker ≠ 0 ∨ (answers (k + j)).transport ≠ 0) :
    ∃ w', identityLoop (fun k => identityAttempt out isEpochBump none (answers k)) left k w = .ok 0 w' ∧
      (w' = w ∨ w' = forgotten out w) := by
  induction left generalizing k w with
  | zero => exact ⟨w, rfl, .inl rfl⟩
  | succ left ih =>
    obtain ⟨result, again, attempted⟩ := identityAttempt_refused out isEpochBump plain
      (refused 0 (Nat.succ_pos left))
    obtain ⟨w', looped, kept⟩ :=
      ih (w := forgotten out w) (by rw [isTransactional_forgotten, plain]) (k + 1) fun j small => by
      simpa only [Nat.add_assoc, Nat.add_comm 1 j] using refused (j + 1) (by omega)
    refine ⟨w', ?_, .inr (by simpa using kept)⟩
    rw [Nat.add_zero] at attempted
    rw [identityLoop, bind_of_ok attempted]
    simpa only [again, Bool.not_true, Bool.false_eq_true, if_false] using looped

/-- An attempt that reaches a broker goes through the pointer. -/
private theorem identityLoop_reached (plain : w.manager.isTransactional = false) (left k : ℕ)
    (reached : ¬ ∀ j < left, (answers (k + j)).leastLoadedBroker ≠ 0 ∨ (answers (k + j)).transport ≠ 0) :
    ∃ w', identityLoop (fun k => identityAttempt out isEpochBump none (answers k)) left k w = .error .nullPointer w' := by
  induction left generalizing k w with
  | zero => exact absurd (fun j small => absurd small (Nat.not_lt_zero j)) reached
  | succ left ih =>
    by_cases first : (answers (k + 0)).leastLoadedBroker ≠ 0 ∨ (answers (k + 0)).transport ≠ 0
    · obtain ⟨result, again, attempted⟩ := identityAttempt_refused out isEpochBump plain first
      have later : ¬ ∀ j < left, (answers (k + 1 + j)).leastLoadedBroker ≠ 0 ∨ (answers (k + 1 + j)).transport ≠ 0 := by
        intro all
        refine reached fun j small => ?_
        cases j with
        | zero => exact first
        | succ j => simpa only [Nat.add_assoc, Nat.add_comm 1 j] using all j (by omega)
      obtain ⟨w', looped⟩ := ih (w := forgotten out w) (by rw [isTransactional_forgotten, plain]) (k + 1) later
      refine ⟨w', ?_⟩
      rw [Nat.add_zero] at attempted
      rw [identityLoop, bind_of_ok attempted]
      simpa only [again, Bool.not_true, Bool.false_eq_true, if_false] using looped
    · rw [Nat.add_zero] at first
      refine ⟨w, ?_⟩
      rw [identityLoop]
      exact bind_of_error (identityAttempt_reached plain first) _

/-! ## The three calls -/

private theorem isAtLeast_of_newer {v o older : KafkaVersion} (newer : v.isAtLeast o = true) (le : older.key ≤ o.key) :
    v.isAtLeast older = true :=
  KafkaVersion.isAtLeast_iff.mpr (le.trans (KafkaVersion.isAtLeast_iff.mp newer))

/-- A request for a version from 2.0.0 on is written through the pointer. -/
private theorem identityRequest_none (out : IdentityOut) (w : IdentityWorld) (conf : TxnConfig) :
    identityRequest out conf none w =
      if conf.version.isAtLeast V2_0_0_0 then .error .nullPointer w else .ok (none, false) w := by
  unfold identityRequest
  by_cases newest : conf.version.isAtLeast V2_5_0_0 = true
  · have new : conf.version.isAtLeast V2_0_0_0 = true := isAtLeast_of_newer newest (by decide)
    rw [if_pos newest, if_pos new]
    rfl
  rw [if_neg newest]
  by_cases newer : conf.version.isAtLeast V2_4_0_0 = true
  · have new : conf.version.isAtLeast V2_0_0_0 = true := isAtLeast_of_newer newer (by decide)
    rw [if_pos newer, if_pos new]
    rfl
  rw [if_neg newer]
  by_cases new : conf.version.isAtLeast V2_0_0_0 = true
  · rw [if_pos new, if_pos new]
    rfl
  · rw [if_neg new, if_neg new]
    rfl

/-- `init_producer_id` gives up with the code of success, or goes through the pointer. -/
private theorem initProducerId_cases (out : IdentityOut) (answers : ℕ → InitProducerIDAnswer) (w : IdentityWorld) :
    (GivesUp w.manager answers ∧ ∃ w', initProducerId out answers w = .ok 0 w' ∧ (w' = w ∨ w' = forgotten out w)) ∨
      (¬ GivesUp w.manager answers ∧ ∃ w', initProducerId out answers w = .error .nullPointer w') := by
  cases plain : w.manager.isTransactional with
  | true =>
    refine .inr ⟨fun givesUp => Bool.noConfusion (plain.symm.trans givesUp.1), w, ?_⟩
    simp only [initProducerId, get_bind_apply, plain, if_true]
    exact bind_of_error rfl _
  | false =>
    have asks : initProducerId out answers w = (do
        let asked ← identityRequest out w.manager.conf none
        identityLoop (fun k => identityAttempt out asked.2 asked.1 (answers k)) (attempts w.manager.conf) 0 :
          Identifying KError) w := by
      simp only [initProducerId, get_bind_apply, plain]
      rfl
    rw [asks]
    have request := identityRequest_none out w w.manager.conf
    cases old : w.manager.conf.version.isAtLeast V2_0_0_0 with
    | true =>
      rw [old, if_pos rfl] at request
      exact .inr ⟨fun givesUp => Bool.noConfusion (old.symm.trans givesUp.2.1), w, bind_of_error request _⟩
    | false =>
      rw [old, if_neg Bool.false_ne_true] at request
      rw [bind_of_ok request]
      by_cases refused : ∀ k < attempts w.manager.conf, (answers k).leastLoadedBroker ≠ 0 ∨ (answers k).transport ≠ 0
      · refine .inl ⟨⟨plain, old, refused⟩, ?_⟩
        exact identityLoop_refused plain (attempts w.manager.conf) 0 (by simpa only [Nat.zero_add] using refused)
      · refine .inr ⟨fun givesUp => refused givesUp.2.2, ?_⟩
        exact identityLoop_reached plain (attempts w.manager.conf) 0 (by simpa only [Nat.zero_add] using refused)

private theorem initInstalls_iff (out : IdentityOut) (answers : ℕ → InitProducerIDAnswer) (locals : Int64 × Int16)
    (m : TransactionManager) : InitInstalls out answers locals m ↔ ¬ GivesUp m answers := by
  rcases initProducerId_cases out answers ⟨m, locals, []⟩ with ⟨givesUp, w', returned, left⟩ | ⟨reached, w', thrown⟩
  · refine iff_of_false (fun installs => ?_) (not_not.mpr givesUp)
    have answered : w'.answered = [] := by
      rcases left with rfl | rfl
      · rfl
      · rw [answered_forgotten]
    have identity := (installs w' returned).identity
    rw [answered] at identity
    cases identity
  · refine iff_of_true (fun w returned => ?_) reached
    cases thrown.symm.trans returned

private theorem newInstalls_iff (closed : Bool) (answers : ℕ → InitProducerIDAnswer) (locals : Int64 × Int16)
    (conf : TxnConfig) :
    NewInstalls closed answers locals conf ↔
      ¬ (conf.idempotent = true ∧ closed = false ∧ GivesUp (create conf) answers) := by
  cases closed with
  | true =>
    refine iff_of_true (fun _ w returned => ?_) fun givesUp => Bool.noConfusion givesUp.2.1
    have refused : newAsyncProducer true answers ⟨create conf, locals, []⟩ = .ok ErrClosedClient ⟨create conf, locals, []⟩ :=
      rfl
    rw [refused] at returned
    cases returned
  | false =>
    by_cases idempotent : conf.idempotent = true
    · have asks : newAsyncProducer false answers ⟨create conf, locals, []⟩ =
          initProducerId .locals answers ⟨create conf, locals, []⟩ := by
        unfold newAsyncProducer
        rw [if_neg Bool.false_ne_true, get_bind_apply]
        exact if_pos idempotent ▸ rfl
      have init := initInstalls_iff .locals answers locals (create conf)
      simp only [InitInstalls, ← asks] at init
      simpa only [NewInstalls, idempotent, true_imp_iff, true_and] using init
    · exact iff_of_true (fun set => absurd set idempotent) fun givesUp => idempotent givesUp.1

private theorem restarted_bumpEpoch (m : TransactionManager) : Restarted m.bumpEpoch := by
  intro key sequence held
  rw [bumpEpoch, Std.ExtTreeMap.getElem?_map, Option.map_eq_some_iff] at held
  obtain ⟨_, _, zero⟩ := held
  exact zero.symm

private theorem bumpInstalls_iff (answers : ℕ → InitProducerIDAnswer) (locals : Int64 × Int16) (m : TransactionManager) :
    BumpInstalls answers locals m ↔
      ¬ (m.conf.idempotent = true ∧ m.producerEpoch = Int16.maxValue ∧ GivesUp (create m.conf) answers) := by
  by_cases idempotent : m.conf.idempotent = true
  swap
  · exact iff_of_true (fun set => absurd set idempotent) fun givesUp => idempotent givesUp.1
  by_cases last : m.producerEpoch = Int16.maxValue
  swap
  · refine iff_of_true (fun _ w returned => ?_) fun givesUp => last givesUp.2.1
    have bumped : bumpIdempotentProducerEpoch answers ⟨m, locals, []⟩ = .ok () ⟨m.bumpEpoch, locals, []⟩ := by
      unfold bumpIdempotentProducerEpoch
      rw [get_bind_apply, if_neg last]
      rfl
    rw [bumped] at returned
    cases returned
    exact .inr ⟨last, rfl, rfl, restarted_bumpEpoch m⟩
  -- a new manager asks for its identity, and takes the place of the one there is when it gives up
  have asks : bumpIdempotentProducerEpoch answers ⟨m, locals, []⟩ = (do
      let err ← initProducerId .locals answers
      if err ≠ ErrNoError then modify fun w => { w with manager := m } : Identifying Unit) ⟨create m.conf, locals, []⟩ := by
    unfold bumpIdempotentProducerEpoch
    rw [get_bind_apply, if_pos last]
    simp only [idempotent, if_true]
    rfl
  rw [BumpInstalls, asks]
  rcases initProducerId_cases .locals answers ⟨create m.conf, locals, []⟩ with
    ⟨givesUp, w', returned, left⟩ | ⟨reached, w', thrown⟩
  · refine iff_of_false (fun installs => ?_) (not_not.mpr ⟨idempotent, last, givesUp⟩)
    rw [bind_of_ok returned] at installs
    have answered : w'.answered = [] := by
      rcases left with rfl | rfl
      · rfl
      · rw [answered_forgotten]
    rcases installs idempotent w' rfl with installed | bumped
    · have identity := installed.identity
      rw [answered] at identity
      cases identity
    · exact bumped.notLast last
  · refine iff_of_true (fun _ w returned => ?_) fun givesUp => reached givesUp.2.2
    rw [bind_of_error thrown] at returned
    cases returned

/-- A call that returns success has installed the identity of the last answer exactly if it has not given up: its request
does not exist, so that no answer is ever received. -/
theorem identity_installed_iff (out : IdentityOut) (closed : Bool) (answers : ℕ → InitProducerIDAnswer)
    (locals : Int64 × Int16) (m : TransactionManager) : (NewInstalls closed answers locals m.conf ↔
        ¬ (m.conf.idempotent = true ∧ closed = false ∧ GivesUp (create m.conf) answers)) ∧
      (InitInstalls out answers locals m ↔ ¬ GivesUp m answers) ∧ (BumpInstalls answers locals m ↔
        ¬ (m.conf.idempotent = true ∧ m.producerEpoch = Int16.maxValue ∧ GivesUp (create m.conf) answers)) :=
  ⟨newInstalls_iff closed answers locals m.conf, initInstalls_iff out answers locals m, bumpInstalls_iff answers locals m⟩

/-- An idempotent producer for version 1.0.0 that retries once. -/
def idempotentConfig : TxnConfig := ⟨V1_0_0_0, true, [], 1⟩

/-- With no broker to ask the producer is made, and has no identity. -/
theorem producer_without_identity : ¬ NewInstalls false (fun _ => { leastLoadedBroker := 1 }) (0, 0) idempotentConfig ∧
      ∃ w, newAsyncProducer false (fun _ => { leastLoadedBroker := 1 }) ⟨create idempotentConfig, (0, 0), []⟩ = .ok 0 w ∧
        w.manager.producerId = noProducerID := by
  constructor
  · rw [newInstalls_iff, not_not]
    exact ⟨rfl, rfl, by decide, by decide, fun _ _ => .inl (show (1 : KError) ≠ 0 by decide)⟩
  · exact ⟨_, rfl, rfl⟩

end Coev.Kafka.ProducerIdentity
