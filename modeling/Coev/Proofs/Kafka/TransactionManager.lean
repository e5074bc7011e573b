import Coev.Model.Kafka.TransactionManager
import Coev.ToMathlib.EStateM

/-! # What the calls of the transaction manager leave of its state -/

namespace Coev.Kafka.TransactionManager

variable {cluster : TxnCluster} {m : TransactionManager}
variable {target : TxnStatus} {attempt : Txn TxnResult} {err : KError} {α : Type}

/-! ## Status and error -/

/-- The statuses that the transitions lead to. -/
def txnStatuses : List TxnStatus :=
  [ProducerTxnFlagUninitialized, ProducerTxnFlagInitializing, ProducerTxnFlagReady, ProducerTxnFlagInTransaction,
    ProducerTxnFlagEndTransaction ||| ProducerTxnFlagCommittingTransaction,
    ProducerTxnFlagEndTransaction ||| ProducerTxnFlagAbortingTransaction, abortable, fatal]

/-- The status is one of those, and there is a last error exactly in an error status. -/
structure WellFormed (m : TransactionManager) : Prop where
  status : m.status ∈ txnStatuses
  error : m.lastError ≠ 0 ↔ m.has ProducerTxnFlagInError = true

theorem wellFormed_create (conf : TxnConfig) : (create conf).WellFormed :=
  ⟨List.mem_cons_self, iff_of_false (fun error => error rfl)
    (show ¬ decide (ProducerTxnFlagUninitialized &&& ProducerTxnFlagInError ≠ 0) = true by decide)⟩

/-- A transition is refused, or moves to an error status with an error, or to another one without. -/
theorem transitionTo_cases (m : TransactionManager) (target : TxnStatus) (err : KError) :
    (m.transitionTo target err).2 = m ∨ (target &&& ProducerTxnFlagInError ≠ 0 ∧ err ≠ 0 ∧
        (m.transitionTo target err).2 = { m with lastError := err, status := target }) ∨
      target &&& ProducerTxnFlagInError = 0 ∧
        (m.transitionTo target err).2 = { m with lastError := 0, status := target } := by
  unfold transitionTo
  split
  · exact .inl rfl
  · split
    · next inError =>
      split
      · exact .inl rfl
      · next some_ => exact .inr (.inl ⟨inError, some_, rfl⟩)
    · next notError => exact .inr (.inr ⟨not_not.mp notError, rfl⟩)

/-- A transition to one of the statuses, with any code, keeps the manager well formed. -/
theorem WellFormed.transitionTo (wellFormed : m.WellFormed) (member : target ∈ txnStatuses) (err : KError) :
    (m.transitionTo target err).2.WellFormed := by
  rcases m.transitionTo_cases target err with same | ⟨inError, error, moved⟩ | ⟨notError, moved⟩
  · rw [same]
    exact wellFormed
  · rw [moved]
    exact ⟨member, iff_of_true error (decide_eq_true inError)⟩
  · rw [moved]
    exact ⟨member, iff_of_false (fun error => error rfl) (fun inError => of_decide_eq_true inError notError)⟩

/-- A refused transition, or one with an error, returns an error. -/
theorem transitionTo_fst_ne (target : TxnStatus) (error : err ≠ 0) : (m.transitionTo target err).1 ≠ 0 := by
  have refused : ErrTransitionNotAllowed ≠ 0 := by decide
  unfold transitionTo
  split
  · exact refused
  · split <;> exact error

theorem WellFormed.fatal_of_not_error (wellFormed : m.WellFormed) (notError : m.has ProducerTxnFlagInError = false) :
    m.has ProducerTxnFlagFatalError = false := by
  have statuses : txnStatuses.all (fun status =>
      status &&& ProducerTxnFlagInError ≠ 0 || status &&& ProducerTxnFlagFatalError = 0) = true := by decide
  have either := List.all_eq_true.mp statuses m.status wellFormed.status
  rw [has, decide_eq_false_iff_not, not_not] at notError ⊢
  simpa [notError] using either

theorem WellFormed.lastError_of_not_error (wellFormed : m.WellFormed) (notError : m.has ProducerTxnFlagInError = false) :
    m.lastError = 0 := by
  by_contra error
  exact absurd (notError.symm.trans (wellFormed.error.mp error)) Bool.false_ne_true

/-- A successful transition without an error moves to the target. -/
theorem transitionTo_of_valid (notError : target &&& ProducerTxnFlagInError = 0) : m.transitionTo target 0 =
      if m.isTransitionValid target then (0, { m with lastError := 0, status := target }) else
        (ErrTransitionNotAllowed, m) := by
  unfold transitionTo
  cases m.isTransitionValid target with
  | false => rfl
  | true => rw [if_neg (by decide), if_neg (not_not.mpr notError), if_pos rfl]

/-- The status that ends a transaction. -/
def endStatus (m : TransactionManager) : TxnStatus :=
  if m.epochBumpRequired then ProducerTxnFlagInitializing else ProducerTxnFlagReady

theorem completeTransaction_eq : m.completeTransaction =
    if m.isTransitionValid m.endStatus then
      (0, { m with
        status := m.endStatus, lastError := 0, epochBumpRequired := false, partitions := ∅, pendingPartitions :=
          ∅, offsets := ∅ })
    else (ErrTransitionNotAllowed, m) := by
  have notError : m.endStatus &&& ProducerTxnFlagInError = 0 := by
    unfold endStatus
    split <;> decide
  have moved := transitionTo_of_valid (m := m) notError
  unfold completeTransaction
  change (let r := m.transitionTo m.endStatus 0
    if r.1 ≠ 0 then (r.1, r.2)
    else (0, { r.2 with
      lastError := 0, epochBumpRequired := false, partitions := ∅, pendingPartitions := ∅, offsets := ∅ })) = _
  rw [moved]
  cases m.isTransitionValid m.endStatus with
  | false => exact if_pos (show ErrTransitionNotAllowed ≠ 0 by decide)
  | true => rfl

/-! ## Everything a call does

Every call is put together from exchanges, transitions to the statuses and changes of the other fields. A
relation that holds across each of these holds across every call.
-/

/-- A preorder of worlds that holds across the steps an attempt to publish offsets is made of. -/
structure Attempts (r : TxnWorld → TxnWorld → Prop) : Prop where
  exchange (w : TxnWorld) (entry : TxnExchange) : r w { w with log := entry :: w.log }
  transition (w : TxnWorld) {target : TxnStatus} (err : KError) : target ∈ txnStatuses →
    r w { w with manager := (w.manager.transitionTo target err).2 }
  bump (w : TxnWorld) : r w { w with manager := { w.manager with epochBumpRequired := true } }

/-- A preorder of worlds that also holds across the steps of the end of a transaction with partitions. -/
structure Finishes (r : TxnWorld → TxnWorld → Prop) : Prop extends Attempts r where
  offsets (w : TxnWorld) (offsets : Std.ExtTreeMap Bytes TopicPartitionOffsets) :
    r w { w with manager := { w.manager with offsets } }
  producer (w : TxnWorld) (producerId : Int64) (producerEpoch : Int16) :
    r w { w with manager := { w.manager with producerId, producerEpoch } }

/-- A preorder of worlds that holds across the steps a call is made of. -/
structure Closed (r : TxnWorld → TxnWorld → Prop) : Prop extends Attempts r where
  fields (w : TxnWorld) (m : TransactionManager) : m.status = w.manager.status → m.lastError = w.manager.lastError →
    r w { w with manager := m }

theorem Closed.finishes {r : TxnWorld → TxnWorld → Prop} (closed : Closed r) : Finishes r :=
  { closed.toAttempts with
    offsets := fun w _ => closed.fields w _ rfl rfl
    producer := fun w _ _ => closed.fields w _ rfl rfl }

variable {r : TxnWorld → TxnWorld → Prop} [IsPreorder TxnWorld r] (allows : Attempts r) (finishes : Finishes r)
  (closed : Closed r)

theorem moves_getManager : EStateM.Moves r getManager := fun w => refl_of r w

theorem moves_retryLoop (moves : EStateM.Moves r attempt) (n : ℕ) : EStateM.Moves r (retryLoop attempt n) := by
  induction n with
  | zero => exact .pure _
  | succ n ih => exact .bind moves fun _ => .ite (fun _ => .pure _) fun _ => ih

theorem moves_retry (moves : EStateM.Moves r attempt) : EStateM.Moves r (retry attempt) :=
  .bind moves_getManager fun _ => moves_retryLoop moves _

theorem moves_fail {f : TransactionManager → KError × TransactionManager} (moves : EStateM.Moves r (act f)) :
    EStateM.Moves r (fail f) :=
  .bind moves fun _ => .pure _

include allows

omit [IsPreorder TxnWorld r] in
theorem moves_exchange (answer : List TxnExchange → α) (entry : α → TxnExchange) :
    EStateM.Moves r (TransactionManager.exchange answer entry) :=
  fun w => allows.exchange w _

omit [IsPreorder TxnWorld r] in
theorem moves_transition (member : target ∈ txnStatuses) (err : KError) :
    EStateM.Moves r (act (·.transitionTo target err)) :=
  fun w => allows.transition w err member

theorem moves_abortable (err : KError) : EStateM.Moves r (act (·.abortableErrorIfPossible err)) := by
  intro w
  change r w { w with manager := (w.manager.abortableErrorIfPossible err).2 }
  unfold abortableErrorIfPossible
  split
  · exact trans_of r (allows.bump w)
      (allows.transition { w with manager := { w.manager with epochBumpRequired := true } } err (by decide))
  · exact allows.transition w err (by decide)

theorem moves_addOffsetAnswered (answer : KError) : EStateM.Moves r (addOffsetAnswered cluster answer) := by
  refine .ite (fun _ => .pure _) fun _ => ?_
  refine .ite (fun _ => .bind (moves_exchange allows _ _) fun _ => .pure _) fun _ => ?_
  refine .ite (fun _ => .pure _) fun _ => ?_
  refine .ite (fun _ => moves_fail (moves_abortable allows _)) fun _ => ?_
  refine .ite (fun _ => moves_fail (moves_transition allows (by decide) _)) fun _ => ?_
  exact moves_fail (moves_transition allows (by decide) _)

theorem moves_addOffset (groupId : Bytes) : EStateM.Moves r (publishOffsetsToTxnAddOffset cluster groupId) := by
  refine .bind (moves_exchange allows _ _) fun _ => ?_
  refine .ite (fun _ => .pure _) fun _ => ?_
  refine .bind moves_getManager fun _ => ?_
  refine .bind (moves_exchange allows _ _) fun _ => ?_
  refine .ite (fun _ => ?_) fun _ => moves_addOffsetAnswered allows _
  refine .bind (moves_exchange allows _ _) fun _ => ?_
  exact .ite (fun _ => .pure _) fun _ => moves_addOffsetAnswered allows _

theorem moves_scanOffsetErrors (offsets : TopicPartitionOffsets) (answer : PartitionErrors)
    (failedTxn : TopicPartitionOffsets) : EStateM.Moves r (scanOffsetErrors offsets answer failedTxn) := by
  induction answer generalizing failedTxn with
  | nil => exact .ite (fun _ => .pure _) fun _ => .pure _
  | cons entry rest ih =>
    obtain ⟨tp, err⟩ := entry
    unfold scanOffsetErrors
    split
    · exact ih _
    · split
      · exact .throw _
      · exact ih _
    · next target verdict =>
      refine moves_fail (moves_transition allows ?_ _)
      unfold offsetVerdict at verdict
      split_ifs at verdict
      · cases verdict
        decide
      · cases verdict
        decide

theorem moves_offsetCommit (offsets : TopicPartitionOffsets) (groupId : Bytes) :
    EStateM.Moves r (publishOffsetsToTxnCommit cluster offsets groupId) := by
  refine .bind (moves_exchange allows _ _) fun _ => ?_
  refine .ite (fun _ => .pure _) fun _ => ?_
  refine .bind moves_getManager fun _ => ?_
  refine .bind (moves_exchange allows _ _) fun _ => ?_
  exact .ite (fun _ => .pure _) fun _ => moves_scanOffsetErrors allows _ _ _

theorem moves_publishOffsets (offsets : TopicPartitionOffsets) (groupId : Bytes) :
    EStateM.Moves r (publishOffsetsToTxn cluster offsets groupId) := by
  refine .bind (moves_retry (moves_addOffset allows _)) fun _ => ?_
  exact .ite (fun _ => .pure _) fun _ => moves_retry (moves_offsetCommit allows _ _)

omit allows
include finishes

theorem moves_publishGroups (groups : List (Bytes × TopicPartitionOffsets)) :
    EStateM.Moves r (publishGroups cluster groups) := by
  induction groups with
  | nil => exact .pure _
  | cons entry rest ih =>
    refine .bind (moves_publishOffsets finishes.toAttempts _ _) fun _ => ?_
    refine .ite (fun _ => ?_) fun _ => ?_
    · exact .bind (fun w => finishes.offsets w _) fun _ => .pure _
    · exact .bind (fun w => finishes.offsets w _) fun _ => ih

theorem moves_initializeTransactions : EStateM.Moves r (initializeTransactions cluster) := by
  refine .bind moves_getManager fun _ => .ite (fun _ => .throw _) fun _ => moves_retry ?_
  have dropped (result : TxnResult) : EStateM.Moves r (do
      change fun m => { m with producerId := noProducerID, producerEpoch := noProducerEpoch }
      return result) :=
    .bind (fun w => finishes.producer w _ _) fun _ => .pure _
  refine .bind (moves_exchange finishes.toAttempts _ _) fun _ => .ite (fun _ => dropped _) fun _ => ?_
  exact .bind (moves_exchange finishes.toAttempts _ _) fun _ => .ite (fun _ => dropped _) fun _ => .throw _

theorem moves_endTxn (commit : Bool) : EStateM.Moves r (endTxn cluster commit) := by
  refine moves_retry (.bind (moves_exchange finishes.toAttempts _ _) fun _ => ?_)
  exact .ite (fun _ => .pure _) fun _ => .pure _

theorem moves_endTransaction (commit epochBump : Bool) : EStateM.Moves r (endTransaction cluster commit epochBump) := by
  refine .bind moves_getManager fun _ => .ite (fun _ => .pure _) fun _ => ?_
  refine .ite (fun _ => ?_) fun _ => moves_initializeTransactions finishes
  refine .bind (moves_endTxn finishes _) fun _ => .ite (fun _ => .pure _) fun _ => ?_
  exact .ite (fun _ => .pure _) fun _ => moves_initializeTransactions finishes

omit finishes
include closed

omit [IsPreorder TxnWorld r] in
theorem moves_change {f : TransactionManager → TransactionManager} (status : ∀ m, (f m).status = m.status)
    (error : ∀ m, (f m).lastError = m.lastError) : EStateM.Moves r (change f) :=
  fun w => closed.fields w _ (status _) (error _)

theorem moves_complete : EStateM.Moves r (act completeTransaction) := by
  intro w
  change r w { w with manager := w.manager.completeTransaction.2 }
  have member : w.manager.endStatus ∈ txnStatuses := by
    unfold endStatus
    split <;> decide
  have notError : w.manager.endStatus &&& ProducerTxnFlagInError = 0 := by
    unfold endStatus
    split <;> decide
  have moved := closed.transition w 0 member
  rw [completeTransaction_eq]
  rw [transitionTo_of_valid notError] at moved
  split
  · next valid =>
    rw [if_pos valid] at moved
    have cleared := closed.fields { w with manager := { w.manager with lastError := 0, status := w.manager.endStatus } }
      { w.manager with
        status := w.manager.endStatus, lastError := 0, epochBumpRequired := false, partitions := ∅,
        pendingPartitions := ∅, offsets := ∅ } rfl rfl
    exact trans_of r moved cleared
  · exact refl_of r w

theorem moves_finishTransaction (commit : Bool) : EStateM.Moves r (finishTransaction cluster commit) := by
  refine .bind moves_getManager fun _ => .ite (fun _ => .pure _) fun _ => .ite (fun _ => .pure _) fun _ => ?_
  refine .ite (fun _ => moves_complete closed) fun _ => ?_
  refine .ite (fun _ => ?_) fun _ => moves_endTransaction closed.finishes _ _
  refine .bind (moves_publishGroups closed.finishes _) fun _ => ?_
  exact .ite (fun _ => .pure _) fun _ => moves_endTransaction closed.finishes _ _

theorem moves_partitionAnswered (tp : TopicPartition) (err : KError) :
    EStateM.Moves r (partitionAnswered cluster tp err) := by
  refine .ite (fun _ => ?_) fun _ => ?_
  · exact .bind (moves_change closed (fun _ => rfl) fun _ => rfl) fun _ => .pure _
  refine .ite (fun _ => .bind (moves_exchange closed.toAttempts _ _) fun _ => .pure _) fun _ => ?_
  refine .ite (fun _ => .pure _) fun _ => ?_
  refine .bind (moves_change closed (fun _ => rfl) fun _ => rfl) fun _ => ?_
  refine .ite (fun _ => .bind (moves_transition closed.toAttempts (by decide) _) fun _ => .pure _) fun _ => ?_
  refine .ite (fun _ => .bind (moves_abortable closed.toAttempts _) fun _ => .pure _) fun _ => ?_
  exact .bind (moves_transition closed.toAttempts (by decide) _) fun _ => .pure _

theorem moves_scanPartitionErrors (answer : PartitionErrors) :
    EStateM.Moves r (scanPartitionErrors cluster answer) := by
  induction answer with
  | nil => exact .bind moves_getManager fun _ => .ite (fun _ => .pure _) fun _ => .pure _
  | cons entry rest ih =>
    refine .bind (moves_partitionAnswered closed _ _) fun ended => ?_
    cases ended with
    | none => exact ih
    | some error => exact .pure _

theorem moves_publishTxnPartitionsAttempt : EStateM.Moves r (publishTxnPartitionsAttempt cluster) := by
  refine .bind moves_getManager fun _ => .ite (fun _ => .pure _) fun _ => .ite (fun _ => .pure _) fun _ => ?_
  refine .bind (moves_exchange closed.toAttempts _ _) fun _ => .ite (fun _ => .pure _) fun _ => ?_
  refine .bind moves_getManager fun _ => .bind (moves_exchange closed.toAttempts _ _) fun _ => ?_
  refine .ite (fun _ => .bind (moves_exchange closed.toAttempts _ _) fun _ => .pure _) fun _ => ?_
  exact moves_scanPartitionErrors closed _

theorem moves_publishTxnPartitions : EStateM.Moves r (publishTxnPartitions cluster) := by
  refine .bind moves_getManager fun _ => .ite (fun _ => .pure _) fun _ => .ite (fun _ => .pure _) fun _ => ?_
  exact moves_retry (moves_publishTxnPartitionsAttempt closed)

/-- A relation across the steps holds across every call. -/
theorem moves_call (c : Call) : EStateM.Moves r (call cluster c) := by
  cases c with
  | begin =>
    intro w
    change r w { w with manager := (if !w.manager.isTransactional then _ else _ : KError × TransactionManager).2 }
    split
    · exact refl_of r w
    · exact closed.transition w _ (by decide)
  | addOffsets added groupId =>
    intro w
    change r w { w with manager := (if !w.manager.isTransactional then _ else _ : KError × TransactionManager).2 }
    unfold addOffsetsToTxn
    split_ifs
    · exact refl_of r w
    · exact refl_of r w
    · exact refl_of r w
    · exact closed.fields w _ rfl rfl
  | addPartition topic partition =>
    intro w
    change r w { w with manager := w.manager.maybeAddPartitionToCurrentTxn topic partition }
    unfold maybeAddPartitionToCurrentTxn
    split_ifs
    · exact refl_of r w
    · exact refl_of r w
    · exact closed.fields w _ rfl rfl
  | publishPartitions => exact moves_publishTxnPartitions closed
  | finish commit =>
    refine .bind moves_getManager fun _ => .ite (fun _ => .pure _) fun _ => ?_
    refine .bind (fun w => ?_) fun _ => moves_finishTransaction closed _
    refine closed.transition w 0 ?_
    cases commit <;> decide

omit closed

/-! ## The invariant of every run, and the log -/

/-- The manager stays well formed. -/
def KeepsForm (w w' : TxnWorld) : Prop := w.manager.WellFormed → w'.manager.WellFormed

instance : IsPreorder TxnWorld KeepsForm where
  refl _ := id
  trans _ _ _ first rest := rest ∘ first

theorem closed_keepsForm : Closed KeepsForm where
  exchange _ _ := id
  transition _ _ err member wellFormed := wellFormed.transitionTo member err
  bump _ wellFormed := ⟨wellFormed.status, wellFormed.error⟩
  fields w m status error wellFormed :=
    ⟨status ▸ wellFormed.status, by rw [error, wellFormed.error, has, has, status]⟩

/-- What was exchanged stays in the log. -/
def LogGrows (w w' : TxnWorld) : Prop := w.log <:+ w'.log

instance : IsPreorder TxnWorld LogGrows where
  refl w := List.suffix_refl w.log
  trans _ _ _ first rest := first.trans rest

theorem closed_logGrows : Closed LogGrows where
  exchange _ _ := List.suffix_cons _ _
  transition w _ _ _ := List.suffix_refl w.log
  bump w := List.suffix_refl w.log
  fields w _ _ _ := List.suffix_refl w.log

/-- An exchange was made on the way from `w` to `w'`. -/
def During (w w' : TxnWorld) (entry : TxnExchange) : Prop := ∃ fresh, w'.log = fresh ++ w.log ∧ entry ∈ fresh

theorem During.of_earlier {w u v : TxnWorld} {entry : TxnExchange} (grown : LogGrows w u) (made : During u v entry) :
    During w v entry := by
  obtain ⟨before, first⟩ := grown
  obtain ⟨fresh, rest, member⟩ := made
  exact ⟨fresh ++ before, by rw [rest, ← first, List.append_assoc], List.mem_append_left _ member⟩

theorem During.of_later {w u v : TxnWorld} {entry : TxnExchange} (made : During w u entry) (grown : LogGrows u v) :
    During w v entry := by
  obtain ⟨fresh, first, member⟩ := made
  obtain ⟨after, rest⟩ := grown
  exact ⟨after ++ fresh, by rw [← rest, first, List.append_assoc], List.mem_append_right _ member⟩

/-- The offsets that are held stay as they are. -/
def KeepsOffsets (w w' : TxnWorld) : Prop := w'.manager.offsets = w.manager.offsets

instance : IsPreorder TxnWorld KeepsOffsets where
  refl _ := rfl
  trans _ _ _ first rest := rest.trans first

theorem transitionTo_fields (m : TransactionManager) (target : TxnStatus) (err : KError) :
    ∃ status lastError, (m.transitionTo target err).2 = { m with status, lastError } := by
  rcases m.transitionTo_cases target err with same | ⟨-, -, moved⟩ | ⟨-, moved⟩
  · exact ⟨m.status, m.lastError, same⟩
  · exact ⟨target, err, moved⟩
  · exact ⟨target, 0, moved⟩

theorem attempts_keepsOffsets : Attempts KeepsOffsets where
  exchange _ _ := rfl
  transition w target err _ := by
    obtain ⟨status, lastError, moved⟩ := w.manager.transitionTo_fields target err
    unfold KeepsOffsets
    rw [moved]
  bump _ := rfl

/-! ## Publishing that reports no error -/

/-- The manager is the same. -/
def SameManager (w w' : TxnWorld) : Prop := w'.manager = w.manager

instance : IsPreorder TxnWorld SameManager where
  refl _ := rfl
  trans _ _ _ first rest := rest.trans first

/-- The manager is the same but for its offsets. -/
def SameButOffsets (w w' : TxnWorld) : Prop := ∃ offsets, w'.manager = { w.manager with offsets }

instance : IsPreorder TxnWorld SameButOffsets where
  refl w := ⟨w.manager.offsets, rfl⟩
  trans _ _ _ := by
    rintro ⟨_, first⟩ ⟨offsets, rest⟩
    exact ⟨offsets, by rw [rest, first]⟩

/-- An attempt that goes on or ends without an error. -/
def NoError (result : TxnResult) : Prop := result.retry = true ∨ result.error = 0

theorem same_exchange (answer : List TxnExchange → α) (entry : α → TxnExchange) :
    EStateM.Moves SameManager (TransactionManager.exchange answer entry) := fun _ => rfl

theorem exchange_bind {α β : Type} (answer : List TxnExchange → α) (entry : α → TxnExchange) (f : α → Txn β)
    (w : TxnWorld) : (TransactionManager.exchange answer entry >>= f) w =
      f (answer w.log) { w with log := entry (answer w.log) :: w.log } := rfl

theorem getManager_bind {β : Type} (f : TransactionManager → Txn β) (w : TxnWorld) :
    (getManager >>= f) w = f w.manager w := rfl

theorem ite_run {c : Prop} [Decidable c] (x y : Txn α) (w : TxnWorld) :
    (if c then x else y) w = if c then x w else y w := by
  split <;> rfl

theorem exchange_ok {answer : List TxnExchange → α} {entry : α → TxnExchange} {a : α}
    (run : TransactionManager.exchange answer entry w = .ok a v) :
    a = answer w.log ∧ v = { w with log := entry a :: w.log } := by
  injection run with value state
  subst value
  exact ⟨rfl, state.symm⟩

/-- An attempt that a failed transition ends has an error. -/
theorem fail_error {f : TransactionManager → KError × TransactionManager} (error : ∀ m, (f m).1 ≠ 0) {w w' : TxnWorld}
    {result : TxnResult} (run : fail f w = .ok result w') : ¬ NoError result := by
  injection run with same
  subst same
  rintro (retry | noError)
  · cases retry
  · exact error w.manager noError

theorem transitionTo_error (target : TxnStatus) (error : err ≠ 0) (m : TransactionManager) :
    (m.transitionTo target err).1 ≠ 0 := transitionTo_fst_ne target error

theorem abortableErrorIfPossible_error (error : err ≠ 0) (m : TransactionManager) :
    (m.abortableErrorIfPossible err).1 ≠ 0 := by
  unfold abortableErrorIfPossible
  split <;> exact transitionTo_fst_ne _ error

theorem same_addOffsetAnswered (answer : KError) :
    EStateM.MovesOn NoError SameManager (addOffsetAnswered cluster answer) := by
  refine .ite (fun _ => (EStateM.Moves.pure _).on _) fun error => ?_
  refine .ite (fun _ => .after (same_exchange _ _) fun _ => (EStateM.Moves.pure _).on _) fun _ => ?_
  refine .ite (fun _ => (EStateM.Moves.pure _).on _) fun _ => ?_
  refine .ite (fun _ => .of_none fun _ _ _ => fail_error (abortableErrorIfPossible_error error)) fun _ => ?_
  refine .ite (fun _ => .of_none fun _ _ _ => fail_error (transitionTo_error _ error)) fun _ => ?_
  exact .of_none fun _ _ _ => fail_error (transitionTo_error _ error)

theorem same_addOffset (groupId : Bytes) :
    EStateM.MovesOn NoError SameManager (publishOffsetsToTxnAddOffset cluster groupId) := by
  refine .after (same_exchange _ _) fun _ => ?_
  refine .ite (fun _ => (EStateM.Moves.pure _).on _) fun _ => ?_
  refine .after moves_getManager fun _ => ?_
  refine .after (same_exchange _ _) fun _ => ?_
  refine .ite (fun _ => ?_) fun _ => same_addOffsetAnswered _
  refine .after (same_exchange _ _) fun _ => ?_
  exact .ite (fun _ => (EStateM.Moves.pure _).on _) fun _ => same_addOffsetAnswered _

theorem offsetVerdict_stop (verdict : offsetVerdict err = .stop target) : err ≠ 0 := by
  rintro rfl
  cases verdict

theorem same_scanOffsetErrors (offsets : TopicPartitionOffsets) (answer : PartitionErrors)
    (failedTxn : TopicPartitionOffsets) :
    EStateM.MovesOn NoError SameManager (scanOffsetErrors offsets answer failedTxn) := by
  induction answer generalizing failedTxn with
  | nil => exact .ite (fun _ => (EStateM.Moves.pure _).on _) fun _ => (EStateM.Moves.pure _).on _
  | cons entry rest ih =>
    obtain ⟨tp, err⟩ := entry
    unfold scanOffsetErrors
    split
    · exact ih _
    · split
      · exact (EStateM.Moves.throw _).on _
      · exact ih _
    · next target verdict =>
      exact .of_none fun _ _ _ => fail_error (transitionTo_error _ (offsetVerdict_stop verdict))

theorem same_offsetCommit (offsets : TopicPartitionOffsets) (groupId : Bytes) :
    EStateM.MovesOn NoError SameManager (publishOffsetsToTxnCommit cluster offsets groupId) := by
  refine .after (same_exchange _ _) fun _ => ?_
  refine .ite (fun _ => (EStateM.Moves.pure _).on _) fun _ => ?_
  refine .after moves_getManager fun _ => ?_
  refine .after (same_exchange _ _) fun _ => ?_
  exact .ite (fun _ => (EStateM.Moves.pure _).on _) fun _ => same_scanOffsetErrors _ _ _

/-- A retry loop that returns zero changes nothing when its attempts without errors do not. -/
theorem same_retry (same : EStateM.MovesOn NoError SameManager attempt) :
    EStateM.MovesOn (· = 0) SameManager (retry attempt) := by
  refine .after moves_getManager fun m => ?_
  induction attempts m.conf with
  | zero => exact (EStateM.Moves.pure _).on _
  | succ n ih =>
    intro w e w' run zero
    obtain ⟨result, v, head, tail⟩ := EStateM.bind_eq_ok_iff.mp run
    cases again : result.retry with
    | true =>
      rw [again] at tail
      exact trans_of SameManager (same w result v head (.inl again)) (ih v e w' tail zero)
    | false =>
      rw [again] at tail
      injection tail with error last
      subst last
      exact same w result v head (.inr (error.trans zero))

theorem same_publishOffsets (offsets : TopicPartitionOffsets) (groupId : Bytes) :
    EStateM.MovesOn (· = 0) SameManager (publishOffsetsToTxn cluster offsets groupId) := by
  intro w e w' run zero
  obtain ⟨added, v, head, tail⟩ := EStateM.bind_eq_ok_iff.mp run
  split at tail
  · next error =>
    injection tail with same _
    exact absurd (same.trans zero) error
  · next noError =>
    exact trans_of SameManager (same_retry (same_addOffset groupId) w added v head (not_not.mp noError))
      (same_retry (same_offsetCommit offsets groupId) v e w' tail zero)

/-- Groups that are all published leave the manager as it was, but for the offsets. -/
theorem same_publishGroups (groups : List (Bytes × TopicPartitionOffsets)) :
    EStateM.MovesOn (· = 0) SameButOffsets (publishGroups cluster groups) := by
  induction groups with
  | nil => exact (EStateM.Moves.pure _).on _
  | cons entry rest ih =>
    intro w e w' run zero
    obtain ⟨published, v, head, tail⟩ := EStateM.bind_eq_ok_iff.mp run
    split at tail
    · next error =>
      obtain ⟨_, _, _, last⟩ := EStateM.bind_eq_ok_iff.mp tail
      injection last with same _
      exact absurd (same.trans zero) error
    · next noError =>
      obtain ⟨_, u, erased, tail⟩ := EStateM.bind_eq_ok_iff.mp tail
      injection erased with _ same
      have first : SameButOffsets w u := by
        have kept := same_publishOffsets _ _ w published v head (not_not.mp noError)
        refine ⟨v.manager.offsets.erase entry.1, ?_⟩
        rw [← same, ← kept]
      exact trans_of SameButOffsets first (ih u e w' tail zero)

end Coev.Kafka.TransactionManager
