import Coev.Proofs.Kafka.TransactionManager
import Coev.ToMathlib.Transition

/-! # What a successful commit of a transaction means

`_end_txn` looks the coordinator up and makes no request, and the end of a transaction with partitions leaves
the status and the sets as they were. So a successful commit is one only where there was nothing to commit.
-/

namespace Coev.Kafka.TransactionManager

open EStateM (bind_of_ok bind_eq_ok_iff pure_eq_ok_iff)
open Transition

variable {cluster : TxnCluster} {w w' : TxnWorld} {m : TransactionManager}

/-- A call that returns, with whatever code. -/
def Step (cluster : TxnCluster) (w : TxnWorld) (c : Call) (w' : TxnWorld) : Prop := ∃ code, call cluster c w = .ok code w'

/-- The transaction of `w` is ended in `w'`: acknowledged, if anything was added to it, and cleared. -/
structure Committed (w w' : TxnWorld) : Prop where
  acknowledged : w.manager.partitions.isEmpty = false ∨ w.manager.offsets.isEmpty = false →
    ∃ fresh, w'.log = fresh ++ w.log ∧ .endTxn true ErrNoError ErrNoError ∈ fresh
  status : w'.manager.status = ProducerTxnFlagReady ∨ w'.manager.status = ProducerTxnFlagInitializing
  partitions : w'.manager.partitions.isEmpty = true
  pendingPartitions : w'.manager.pendingPartitions.isEmpty = true
  offsets : w'.manager.offsets.isEmpty = true

/-- A commit that returns success has committed. -/
def Sound (cluster : TxnCluster) (w : TxnWorld) (c : Call) : Prop :=
  c = .finish true → ∀ w', call cluster c w = .ok 0 w' → Committed w w'

/-- The manager once the dispatcher has ended its transaction. -/
def ended (m : TransactionManager) : TransactionManager :=
  (m.transitionTo (ProducerTxnFlagEndTransaction ||| ProducerTxnFlagCommittingTransaction) 0).2

/-! ## The answers that refuse the offsets -/

/-- The code that an attempt of `AddOffsetsToTxn` reads from its response, if it comes to reading one: there is a
coordinator, and after a transport error it is refreshed. -/
def addOffsetReply (cluster : TxnCluster) (groupId : Bytes) (w : TxnWorld) : Option KError :=
  let found := cluster.transactionCoordinator w.log
  let log := .transactionCoordinator found :: w.log
  let request := addOffsetsRequest w.manager groupId
  let answer := cluster.addOffsetsToTxn request log
  if found ≠ ErrNoError then none
  else if answer.1 ≠ ErrNoError then
    if cluster.refreshTransactionCoordinator (.addOffsetsToTxn request answer.1 answer.2 :: log) ≠ ErrNoError then none
    else some answer.2
  else some answer.2

/-- The codes of an `AddOffsetsToTxnResponse` that are worth another attempt. -/
def Passing (err : KError) : Prop :=
  err = ErrConsumerCoordinatorNotAvailable ∨ err = ErrNotCoordinatorForConsumer ∨ err = ErrOffsetsLoadInProgress ∨
    err = ErrConcurrentTransactions

/-- The response to a `TxnOffsetCommit`, if an attempt comes to reading one. -/
def offsetCommitReply (cluster : TxnCluster) (offsets : TopicPartitionOffsets) (groupId : Bytes) (w : TxnWorld) :
    Option PartitionErrors :=
  let found := cluster.groupCoordinator groupId w.log
  let log := .groupCoordinator groupId found :: w.log
  let answer := cluster.txnOffsetCommit (offsetCommitRequest w.manager offsets groupId) log
  if found ≠ ErrNoError then none
  else if answer.1 ≠ ErrNoError then none
  else some answer.2

/-- An entry of a response that ends the attempts: its code does, or it fails a partition that was not asked for. -/
def EndsCommit (offsets : TopicPartitionOffsets) (entry : TopicPartition × KError) : Prop :=
  (∃ target, offsetVerdict entry.2 = .stop target) ∨ offsetVerdict entry.2 = .failed ∧ offsets[entry.1]? = none

/-- The answers to attempts, of which so many are left: those that refuse, so that no attempt follows, and those that ask
for another one. -/
structure Answering where
  refuses : TxnWorld → Prop
  asks : TxnWorld → Prop

def addOffsetAnswering (cluster : TxnCluster) (groupId : Bytes) : Answering where
  refuses w := ∃ err, addOffsetReply cluster groupId w = some err ∧ err ≠ ErrNoError ∧ ¬ Passing err
  asks w := ∀ err, addOffsetReply cluster groupId w = some err → Passing err

def offsetCommitAnswering (cluster : TxnCluster) (offsets : TopicPartitionOffsets) (groupId : Bytes) : Answering where
  refuses w :=
    ∃ answer, offsetCommitReply cluster offsets groupId w = some answer ∧ ∃ entry ∈ answer, EndsCommit offsets entry
  asks w := ∀ answer, offsetCommitReply cluster offsets groupId w = some answer →
    ∃ entry ∈ answer, offsetVerdict entry.2 = .failed

/-- One of the attempts is refused, and those before it ask for another. -/
def Answering.Refuses (answering : Answering) (attempt : Txn TxnResult) : ℕ → TxnWorld → Prop
  | 0, _ => False
  | n + 1, w => answering.refuses w ∨ answering.asks w ∧ Refuses answering attempt n (attempt w).state

/-- The cluster refuses to add one of these groups to the transaction, or to commit its offsets. -/
def GroupsRefused (cluster : TxnCluster) : List (Bytes × TopicPartitionOffsets) → TxnWorld → Prop
  | [], _ => False
  | (groupId, offsets) :: rest, w =>
    let added := (retry (publishOffsetsToTxnAddOffset cluster groupId) w).state
    let published := (publishOffsetsToTxn cluster offsets groupId w).state
    (addOffsetAnswering cluster groupId).Refuses (publishOffsetsToTxnAddOffset cluster groupId) (attempts w.manager.conf) w ∨
      (offsetCommitAnswering cluster offsets groupId).Refuses (publishOffsetsToTxnCommit cluster offsets groupId)
        (attempts added.manager.conf) added ∨
      GroupsRefused cluster rest
        { published with manager := { published.manager with offsets := published.manager.offsets.erase groupId } }

/-- Nothing was added to the transaction, or the commit cannot get as far as reporting success: the manager
is in error, the status has no way to its end, the epoch has to be bumped, or the cluster refuses the offsets. -/
def Harmless (cluster : TxnCluster) (w : TxnWorld) (m : TransactionManager) : Prop :=
  m.has ProducerTxnFlagInError = true ∨
    m.partitions.isEmpty = true ∧ (m.offsets.isEmpty = true ∨ m.isTransitionValid m.endStatus = false) ∨
    m.partitions.isEmpty = false ∧
      (m.epochBumpRequired = true ∨ GroupsRefused cluster m.offsets.toList { w with manager := m })

/-- The condition on a commit: the producer is not transactional, or the commit is harmless. -/
def Safe (cluster : TxnCluster) (w : TxnWorld) (c : Call) : Prop :=
  c = .finish true → w.manager.isTransactional = false ∨ Harmless cluster w (ended w.manager)

/-! ## The branches of a commit -/

theorem call_finish (transactional : w.manager.isTransactional = true) :
    call cluster (.finish true) w = finishTransaction cluster true { w with manager := ended w.manager } := by
  change (if !w.manager.isTransactional then pure (-1) else _ : Txn KError) w = _
  rw [transactional]
  rfl

theorem call_finish_of_not (transactional : w.manager.isTransactional = false) :
    call cluster (.finish true) w = .ok (-1) w := by
  change (if !w.manager.isTransactional then pure (-1) else _ : Txn KError) w = _
  rw [transactional]
  rfl

theorem finish_of_error (error : w.manager.has ProducerTxnFlagInError = true) :
    finishTransaction cluster true w = .ok w.manager.lastError w := by
  change (if true && w.manager.has ProducerTxnFlagInError then _ else _ : Txn KError) w = _
  rw [error]
  rfl

private theorem finish_of_not_error (notError : w.manager.has ProducerTxnFlagInError = false) :
    finishTransaction cluster true w =
      (if w.manager.partitions.isEmpty then act completeTransaction
        else if !w.manager.offsets.isEmpty then do
          let err ← publishGroups cluster w.manager.offsets.toList
          if err ≠ 0 then return err
          else endTransaction cluster true w.manager.epochBumpRequired
        else endTransaction cluster true w.manager.epochBumpRequired : Txn KError) w := by
  change (if true && w.manager.has ProducerTxnFlagInError then _ else _ : Txn KError) w = _
  rw [notError]
  rfl

theorem finish_of_empty (notError : w.manager.has ProducerTxnFlagInError = false)
    (empty : w.manager.partitions.isEmpty = true) : finishTransaction cluster true w =
      .ok w.manager.completeTransaction.1 { w with manager := w.manager.completeTransaction.2 } := by
  rw [finish_of_not_error notError, if_pos empty]
  rfl

theorem finish_of_partitions (notError : w.manager.has ProducerTxnFlagInError = false)
    (some_ : w.manager.partitions.isEmpty = false) :
    finishTransaction cluster true w = (do
      let err ← publishGroups cluster w.manager.offsets.toList
      if err ≠ 0 then return err
      else endTransaction cluster true w.manager.epochBumpRequired : Txn KError) w := by
  rw [finish_of_not_error notError, if_neg (by rw [some_]; exact Bool.false_ne_true)]
  cases empty : w.manager.offsets.isEmpty with
  | false => rfl
  | true =>
    rw [Std.ExtTreeMap.isEmpty_iff] at empty
    rw [empty]
    rfl

/-- `end_txn` returns zero whatever is answered. -/
theorem endTxn_ok (cluster : TxnCluster) (commit : Bool) (w : TxnWorld) :
    ∃ w', endTxn cluster commit w = .ok 0 w' ∧ w'.manager = w.manager := by
  change ∃ w', retryLoop (endTxnAttempt cluster commit) (attempts w.manager.conf) w = .ok 0 w' ∧ _
  generalize attempts w.manager.conf = n
  induction n generalizing w with
  | zero => exact ⟨w, rfl, rfl⟩
  | succ n ih =>
    have attempt : ∃ v result, endTxnAttempt cluster commit w = .ok result v ∧ v.manager = w.manager ∧
        (result.retry = true ∨ result = { retry := false, error := 0 }) := by
      unfold endTxnAttempt transactionCoordinator
      by_cases found : cluster.transactionCoordinator w.log = ErrNoError
      · exact ⟨_, _, bind_of_ok (f := _) rfl |>.trans (congrFun (if_neg (not_not.mpr found)) _), rfl, .inr rfl⟩
      · exact ⟨_, _, bind_of_ok (f := _) rfl |>.trans (congrFun (if_pos found) _), rfl, .inl rfl⟩
    obtain ⟨v, result, run, same, again | done⟩ := attempt
    · obtain ⟨w', rest, kept⟩ := ih v
      refine ⟨w', ?_, kept.trans same⟩
      rw [retryLoop, bind_of_ok run, again]
      exact rest
    · subst done
      exact ⟨v, bind_of_ok run _, same⟩

/-- The end of a transaction that is not in error reports success, and changes nothing. -/
theorem endTransaction_ok (wellFormed : w.manager.WellFormed) (notError : w.manager.has ProducerTxnFlagInError = false) :
    ∃ w', endTransaction cluster true false w = .ok 0 w' ∧ w'.manager = w.manager := by
  obtain ⟨w', run, same⟩ := endTxn_ok cluster true w
  refine ⟨w', ?_, same⟩
  change (if w.manager.has ProducerTxnFlagFatalError then _ else if w.manager.lastError ≠ ErrInvalidProducerIDMapping
    then _ else _ : Txn KError) w = _
  rw [wellFormed.fatal_of_not_error notError, wellFormed.lastError_of_not_error notError, if_neg Bool.false_ne_true,
    if_pos (by decide), bind_of_ok run]
  rfl

/-- Bumping the epoch of a transactional producer writes through a null pointer. -/
theorem endTransaction_of_bump (wellFormed : w.manager.WellFormed)
    (notError : w.manager.has ProducerTxnFlagInError = false) (transactional : w.manager.isTransactional = true) :
    ∃ w', endTransaction cluster true true w = .error .nullPointer w' := by
  obtain ⟨w', run, same⟩ := endTxn_ok cluster true w
  refine ⟨w', ?_⟩
  change (if w.manager.has ProducerTxnFlagFatalError then _ else if w.manager.lastError ≠ ErrInvalidProducerIDMapping
    then _ else _ : Txn KError) w = _
  rw [wellFormed.fatal_of_not_error notError, wellFormed.lastError_of_not_error notError, if_neg Bool.false_ne_true,
    if_pos (by decide), bind_of_ok run]
  change (if w'.manager.isTransactional || w'.manager.conf.version.isAtLeast V2_0_0_0 then _ else _ : Txn KError) w' = _
  rw [same, transactional]
  rfl

/-! ## When publishing fails -/

/-- The end of the attempts, without an error. -/
def done : TxnResult := { retry := false, error := 0 }

/-- The answers decide what an attempt comes to: an error, another attempt, or the end without an error. -/
structure Answering.Decides (answering : Answering) (attempt : Txn TxnResult) : Prop where
  refuses : ∀ w r w', answering.refuses w → attempt w = .ok r w' → ¬ NoError r
  asks : ∀ w, ¬ answering.refuses w → answering.asks w → ∃ r, attempt w = .ok r (attempt w).state ∧ r.retry = true
  ends : ∀ w, ¬ answering.refuses w → ¬ answering.asks w → attempt w = .ok done (attempt w).state

section Attempts

variable {answering : Answering} {attempt : Txn TxnResult} {n : ℕ} {groupId : Bytes} {offsets : TopicPartitionOffsets}
  {groups : List (Bytes × TopicPartitionOffsets)}

/-- A refused attempt is the last one and has an error; otherwise the loop returns zero. -/
theorem Answering.Decides.retryLoop_iff (decides : answering.Decides attempt) :
    retryLoop attempt n w = .ok 0 (retryLoop attempt n w).state ↔ ¬ answering.Refuses attempt n w := by
  induction n generalizing w with
  | zero => exact iff_of_true rfl id
  | succ n ih =>
    rw [Answering.Refuses, retryLoop]
    by_cases refuses : answering.refuses w
    · refine iff_of_false (fun run => ?_) fun accepted => accepted (.inl refuses)
      obtain ⟨r, v, made, rest⟩ := bind_eq_ok_iff.mp run
      have failed := decides.refuses w r v refuses made
      cases again : r.retry with
      | true => exact failed (.inl again)
      | false =>
        rw [again] at rest
        obtain ⟨noError, -⟩ := pure_eq_ok_iff.mp rest
        exact failed (.inr noError)
    by_cases asks : answering.asks w
    · obtain ⟨r, made, again⟩ := decides.asks w refuses asks
      rw [bind_of_ok made, again]
      refine Iff.trans ih ?_
      simp only [refuses, asks, false_or, true_and]
    · rw [bind_of_ok (decides.ends w refuses asks)]
      exact iff_of_true rfl fun refused => refused.elim refuses fun later => asks later.1

private theorem retry_ok_iff (decides : answering.Decides attempt) :
    retry attempt w = .ok 0 (retry attempt w).state ↔ ¬ answering.Refuses attempt (attempts w.manager.conf) w :=
  decides.retryLoop_iff

private theorem addOffsetAnswered_passing {answer : KError} (passing : Passing answer) :
    ∃ r, addOffsetAnswered cluster answer w = .ok r (addOffsetAnswered cluster answer w).state ∧ r.retry = true := by
  unfold addOffsetAnswered addOffsetFailed
  obtain rfl | rfl | rfl | rfl := passing <;> exact ⟨_, rfl, rfl⟩

private theorem addOffsetAnswered_refused {answer : KError} (failed : answer ≠ ErrNoError) (final : ¬ Passing answer)
    {r : TxnResult}
    (run : addOffsetAnswered cluster answer w = .ok r w') : ¬ NoError r := by
  simp only [Passing, not_or] at final
  unfold addOffsetAnswered addOffsetFailed at run
  rw [if_neg failed, if_neg (not_or.mpr ⟨final.1, final.2.1⟩), if_neg (not_or.mpr final.2.2)] at run
  split_ifs at run
  · exact fail_error (abortableErrorIfPossible_error failed) run
  · exact fail_error (transitionTo_error _ failed) run
  · exact fail_error (transitionTo_error _ failed) run

/-- An attempt reads a response, or asks for another. -/
theorem addOffset_cases (cluster : TxnCluster) (groupId : Bytes) (w : TxnWorld) :
    (addOffsetReply cluster groupId w = none ∧ ∃ r u, publishOffsetsToTxnAddOffset cluster groupId w = .ok r u ∧
      r.retry = true) ∨ ∃ answer u, addOffsetReply cluster groupId w = some answer ∧
        publishOffsetsToTxnAddOffset cluster groupId w = addOffsetAnswered cluster answer u := by
  simp only [addOffsetReply, publishOffsetsToTxnAddOffset, transactionCoordinator, refreshTransactionCoordinator,
    sendAddOffsets, exchange_bind, getManager_bind, ite_run]
  generalize cluster.addOffsetsToTxn _ _ = sent
  obtain ⟨err, answer⟩ := sent
  dsimp only
  split_ifs
  · exact .inl ⟨rfl, _, _, rfl, rfl⟩
  · exact .inl ⟨rfl, _, _, rfl, rfl⟩
  · exact .inr ⟨answer, _, rfl, rfl⟩
  · exact .inr ⟨answer, _, rfl, rfl⟩

private theorem addOffset_decides (cluster : TxnCluster) (groupId : Bytes) :
    (addOffsetAnswering cluster groupId).Decides (publishOffsetsToTxnAddOffset cluster groupId) where
  refuses w r w' := by
    rintro ⟨err, replied, failed, final⟩ run
    obtain ⟨silent, -⟩ | ⟨answer, u, read, made⟩ := addOffset_cases cluster groupId w
    · rw [silent] at replied
      cases replied
    · obtain rfl := Option.some.inj (read.symm.trans replied)
      exact addOffsetAnswered_refused failed final (made ▸ run)
  asks w accepted asked := by
    obtain ⟨-, r, u, made, again⟩ | ⟨answer, u, read, made⟩ := addOffset_cases cluster groupId w
    · exact ⟨r, by rw [made]; rfl, again⟩
    · obtain ⟨r, answered, again⟩ := @addOffsetAnswered_passing cluster u answer (asked answer read)
      exact ⟨r, by rw [made]; exact answered, again⟩
  ends w accepted final := by
    obtain ⟨silent, -⟩ | ⟨answer, u, read, made⟩ := addOffset_cases cluster groupId w
    · refine absurd (fun err replied => ?_) final
      rw [silent] at replied
      cases replied
    · have unpassing : ¬ Passing answer := by
        refine fun passing => final fun err replied => ?_
        obtain rfl := Option.some.inj (read.symm.trans replied)
        exact passing
      obtain rfl : answer = ErrNoError := by
        by_contra failed
        exact accepted ⟨answer, read, failed, unpassing⟩
      rw [made]
      rfl

theorem offsetVerdict_committed {err : KError} (verdict : offsetVerdict err = .committed) : err = ErrNoError := by
  unfold offsetVerdict at verdict
  split_ifs at verdict with noError
  exact noError

/-- A response with an entry that ends the attempts gives an error, or throws. -/
theorem scanOffsetErrors_refused {answer : PartitionErrors} {failedTxn : TopicPartitionOffsets}
    (refused : ∃ entry ∈ answer, EndsCommit offsets entry) {r : TxnResult}
    (run : scanOffsetErrors offsets answer failedTxn w = .ok r w') : ¬ NoError r := by
  induction answer generalizing failedTxn with
  | nil => simp at refused
  | cons entry rest ih =>
    obtain ⟨tp, err⟩ := entry
    rw [List.exists_mem_cons_iff] at refused
    rw [scanOffsetErrors] at run
    cases verdict : offsetVerdict err with
    | committed =>
      rw [verdict] at run
      refine ih (refused.resolve_left ?_) run
      rintro (⟨target, stops⟩ | ⟨fails, -⟩)
      · exact Verdict.noConfusion (verdict.symm.trans stops)
      · exact Verdict.noConfusion (verdict.symm.trans fails)
    | failed =>
      rw [verdict] at run
      cases requested : offsets[tp]? with
      | none =>
        rw [requested] at run
        cases run
      | some offset =>
        rw [requested] at run
        refine ih (refused.resolve_left ?_) run
        rintro (⟨target, stops⟩ | ⟨-, absent⟩)
        · exact Verdict.noConfusion (verdict.symm.trans stops)
        · exact absurd (requested.symm.trans absent) nofun
    | stop target =>
      rw [verdict] at run
      exact fail_error (transitionTo_error _ (offsetVerdict_stop verdict)) run

/-- A response without such an entry asks for another attempt where a partition failed, and else ends the attempts
without an error. -/
theorem scanOffsetErrors_accepted {answer : PartitionErrors} {failedTxn : TopicPartitionOffsets}
    (accepted : ¬ ∃ entry ∈ answer, EndsCommit offsets entry) :
    ∃ r, scanOffsetErrors offsets answer failedTxn w = .ok r w ∧
      ((failedTxn.isEmpty = false ∨ ∃ entry ∈ answer, offsetVerdict entry.2 = .failed) ∧ r.retry = true ∨
        (failedTxn.isEmpty = true ∧ ¬ ∃ entry ∈ answer, offsetVerdict entry.2 = .failed) ∧ r = done) := by
  induction answer generalizing failedTxn with
  | nil =>
    rw [scanOffsetErrors, ite_run]
    cases empty : failedTxn.isEmpty with
    | true => exact ⟨_, rfl, .inr ⟨⟨rfl, by simp⟩, rfl⟩⟩
    | false => exact ⟨_, rfl, .inl ⟨.inl rfl, rfl⟩⟩
  | cons entry rest ih =>
    obtain ⟨tp, err⟩ := entry
    rw [List.exists_mem_cons_iff, not_or] at accepted
    obtain ⟨passes, accepted⟩ := accepted
    rw [scanOffsetErrors, List.exists_mem_cons_iff]
    cases verdict : offsetVerdict err with
    | committed =>
      obtain ⟨r, run, ends⟩ := @ih failedTxn accepted
      exact ⟨r, run, by simpa only [reduceCtorEq, false_or] using ends⟩
    | failed =>
      cases requested : offsets[tp]? with
      | none => exact absurd (.inr ⟨verdict, requested⟩) passes
      | some offset =>
        obtain ⟨r, run, ⟨-, again⟩ | ⟨⟨empty, -⟩, -⟩⟩ := @ih (failedTxn.insert tp offset) accepted
        · exact ⟨r, run, .inl ⟨.inr (.inl rfl), again⟩⟩
        · simp at empty
    | stop target => exact absurd (.inl ⟨target, verdict⟩) passes

/-- An attempt reads a response, or asks for another. -/
theorem offsetCommit_cases (cluster : TxnCluster) (offsets : TopicPartitionOffsets) (groupId : Bytes) (w : TxnWorld) :
    (offsetCommitReply cluster offsets groupId w = none ∧
      ∃ r u, publishOffsetsToTxnCommit cluster offsets groupId w = .ok r u ∧ r.retry = true) ∨
      ∃ answer u, offsetCommitReply cluster offsets groupId w = some answer ∧
        publishOffsetsToTxnCommit cluster offsets groupId w = scanOffsetErrors offsets answer ∅ u := by
  simp only [offsetCommitReply, publishOffsetsToTxnCommit, groupCoordinator, sendOffsetCommit, exchange_bind,
    getManager_bind, ite_run]
  generalize cluster.txnOffsetCommit _ _ = sent
  obtain ⟨err, answer⟩ := sent
  dsimp only
  split_ifs
  · exact .inl ⟨rfl, _, _, rfl, rfl⟩
  · exact .inl ⟨rfl, _, _, rfl, rfl⟩
  · exact .inr ⟨answer, _, rfl, rfl⟩

private theorem offsetCommit_decides (cluster : TxnCluster) (offsets : TopicPartitionOffsets) (groupId : Bytes) :
    (offsetCommitAnswering cluster offsets groupId).Decides (publishOffsetsToTxnCommit cluster offsets groupId) where
  refuses w r w' := by
    rintro ⟨refused, replied, ends⟩ run
    obtain ⟨silent, -⟩ | ⟨answer, u, read, made⟩ := offsetCommit_cases cluster offsets groupId w
    · rw [silent] at replied
      cases replied
    · obtain rfl := Option.some.inj (read.symm.trans replied)
      exact scanOffsetErrors_refused ends (made ▸ run)
  asks w accepted asked := by
    obtain ⟨-, r, u, made, again⟩ | ⟨answer, u, read, made⟩ := offsetCommit_cases cluster offsets groupId w
    · exact ⟨r, by rw [made]; rfl, again⟩
    · obtain ⟨r, run, ⟨-, again⟩ | ⟨⟨-, unfailed⟩, -⟩⟩ := @scanOffsetErrors_accepted u offsets answer ∅
        fun ends => accepted ⟨answer, read, ends⟩
      · exact ⟨r, by rw [made, run]; rfl, again⟩
      · exact absurd (asked answer read) unfailed
  ends w accepted final := by
    obtain ⟨silent, -⟩ | ⟨answer, u, read, made⟩ := offsetCommit_cases cluster offsets groupId w
    · refine absurd (fun answer replied => ?_) final
      rw [silent] at replied
      cases replied
    · have unfailed : ¬ ∃ entry ∈ answer, offsetVerdict entry.2 = .failed := by
        refine fun failed => final fun other replied => ?_
        obtain rfl := Option.some.inj (read.symm.trans replied)
        exact failed
      obtain ⟨r, run, ⟨failed, -⟩ | ⟨-, rfl⟩⟩ := @scanOffsetErrors_accepted u offsets answer ∅
        fun ends => accepted ⟨answer, read, ends⟩
      · exact absurd (failed.resolve_left (by simp)) unfailed
      · rw [made, run]
        rfl

private theorem publishOffsets_of_added {u : TxnWorld}
    (added : retry (publishOffsetsToTxnAddOffset cluster groupId) w = .ok 0 u) :
    publishOffsetsToTxn cluster offsets groupId w = retry (publishOffsetsToTxnCommit cluster offsets groupId) u :=
  bind_of_ok added _

private theorem publishGroups_of_published {u : TxnWorld} {rest : List (Bytes × TopicPartitionOffsets)}
    (published : publishOffsetsToTxn cluster offsets groupId w = .ok 0 u) :
    publishGroups cluster ((groupId, offsets) :: rest) w =
      publishGroups cluster rest { u with manager := { u.manager with offsets := u.manager.offsets.erase groupId } } :=
  bind_of_ok published _

/-- The groups are published without an error just when the cluster refuses none of them. -/
theorem publishGroups_ok_iff :
    publishGroups cluster groups w = .ok 0 (publishGroups cluster groups w).state ↔ ¬ GroupsRefused cluster groups w := by
  induction groups generalizing w with
  | nil => exact iff_of_true rfl id
  | cons group rest ih =>
    obtain ⟨groupId, offsets⟩ := group
    rw [GroupsRefused, not_or, not_or, ← retry_ok_iff (addOffset_decides cluster groupId),
      ← retry_ok_iff (offsetCommit_decides cluster offsets groupId), ← ih]
    constructor
    · intro run
      obtain ⟨err, v, head, tail⟩ := bind_eq_ok_iff.mp run
      split at tail
      · next failed =>
        obtain ⟨_, _, _, last⟩ := bind_eq_ok_iff.mp tail
        exact absurd (pure_eq_ok_iff.mp last).1 failed
      next noError =>
      obtain rfl : err = 0 := not_not.mp noError
      rw [publishGroups_of_published head] at run
      obtain ⟨err, u, added, committed⟩ := bind_eq_ok_iff.mp head
      split at committed
      · next failed => exact absurd (pure_eq_ok_iff.mp committed).1 failed
      next noError =>
      obtain rfl : err = 0 := not_not.mp noError
      rw [added, head]
      refine ⟨rfl, ?_, run⟩
      change retry (publishOffsetsToTxnCommit cluster offsets groupId) u = .ok 0 v at committed
      change retry (publishOffsetsToTxnCommit cluster offsets groupId) u = .ok 0 (retry _ u).state
      rw [committed]
      rfl
    · rintro ⟨added, committed, later⟩
      have first := (@publishOffsets_of_added _ _ _ offsets _ added).trans committed
      rw [publishGroups_of_published first]
      rw [publishOffsets_of_added added] at later
      exact later

end Attempts

/-! ## When a commit is sound -/

theorem ended_fields (m : TransactionManager) : ∃ status lastError, ended m = { m with status, lastError } :=
  m.transitionTo_fields _ 0

theorem wellFormed_ended (wellFormed : m.WellFormed) : (ended m).WellFormed := wellFormed.transitionTo (by decide) 0

/-- A commit with nothing added that reports success clears the manager. -/
theorem committed_of_empty (partitions : (ended w.manager).partitions.isEmpty = true)
    (offsets : (ended w.manager).offsets.isEmpty = true)
    (valid : (ended w.manager).isTransitionValid (ended w.manager).endStatus = true) :
    Committed w { w with manager := (ended w.manager).completeTransaction.2 } := by
  rw [completeTransaction_eq, if_pos valid]
  obtain ⟨status, lastError, same⟩ := ended_fields w.manager
  refine ⟨?_, ?_, rfl, rfl, rfl⟩
  · rw [same] at partitions offsets
    rintro (added | added)
    · exact absurd (added.symm.trans partitions) Bool.false_ne_true
    · exact absurd (added.symm.trans offsets) Bool.false_ne_true
  · dsimp only
    unfold endStatus
    split
    · exact .inr rfl
    · exact .inl rfl

private theorem sound_of_harmless (wellFormed : w.manager.WellFormed) (transactional : w.manager.isTransactional = true)
    (harmless : Harmless cluster w (ended w.manager)) {w' : TxnWorld}
    (run : call cluster (.finish true) w = .ok 0 w') : Committed w w' := by
  have formed := wellFormed_ended wellFormed
  rw [call_finish transactional] at run
  cases error : (ended w.manager).has ProducerTxnFlagInError with
  | true =>
    rw [@finish_of_error cluster { w with manager := ended w.manager } error] at run
    injection run with noError _
    exact absurd noError (formed.error.mpr error)
  | false =>
    rcases harmless with inError | ⟨empty, nothing⟩ | ⟨some_, stopped⟩
    · exact absurd (error.symm.trans inError) Bool.false_ne_true
    · rw [@finish_of_empty cluster { w with manager := ended w.manager } error empty] at run
      injection run with done last
      subst last
      have valid : (ended w.manager).isTransitionValid (ended w.manager).endStatus = true := by
        by_contra invalid
        rw [completeTransaction_eq, if_neg invalid] at done
        exact absurd done (show ErrTransitionNotAllowed ≠ 0 by decide)
      rcases nothing with offsets | invalid
      · exact committed_of_empty empty offsets valid
      · exact absurd (invalid.symm.trans valid) Bool.false_ne_true
    · rw [@finish_of_partitions cluster { w with manager := ended w.manager } error some_] at run
      obtain ⟨published, v, head, tail⟩ := bind_eq_ok_iff.mp run
      split at tail
      · next failed =>
        injection tail with same _
        exact absurd same failed
      · next noError =>
        obtain rfl : published = 0 := not_not.mp noError
        rcases stopped with bump | refused
        · obtain ⟨offsets, kept⟩ := same_publishGroups _ _ _ _ head rfl
          rw [bump] at tail
          have vFormed : v.manager.WellFormed := by
            rw [kept]
            exact ⟨formed.status, formed.error⟩
          have vError : v.manager.has ProducerTxnFlagInError = false := by
            rw [kept]
            exact error
          obtain ⟨status, lastError, same⟩ := ended_fields w.manager
          have vTransactional : v.manager.isTransactional = true := by
            rw [kept, same]
            exact transactional
          obtain ⟨u, crashed⟩ := @endTransaction_of_bump cluster _ vFormed vError vTransactional
          rw [crashed] at tail
          cases tail
        · refine absurd refused (publishGroups_ok_iff.mp ?_)
          rw [head]
          rfl

private theorem harmless_of_sound (wellFormed : w.manager.WellFormed) (transactional : w.manager.isTransactional = true)
    (sound : ∀ w', call cluster (.finish true) w = .ok 0 w' → Committed w w') : Harmless cluster w (ended w.manager) := by
  have formed := wellFormed_ended wellFormed
  obtain ⟨status, lastError, same⟩ := ended_fields w.manager
  rw [call_finish transactional] at sound
  by_contra harmful
  simp only [Harmless, not_or, not_and, Bool.not_eq_true, Bool.not_eq_false] at harmful
  obtain ⟨error, nothing, stopped⟩ := harmful
  cases empty : (ended w.manager).partitions.isEmpty with
  | true =>
    -- offsets without partitions are dropped, and nothing is sent
    obtain ⟨offsets, valid⟩ := nothing empty
    rw [@finish_of_empty cluster { w with manager := ended w.manager } error empty, completeTransaction_eq,
      if_pos valid] at sound
    have committed := sound _ rfl
    rw [same] at offsets
    obtain ⟨fresh, grown, member⟩ := committed.acknowledged (.inr offsets)
    have none_ : fresh = [] := List.self_eq_append_left.mp grown
    rw [none_] at member
    cases member
  | false =>
    obtain ⟨bump, accepted⟩ := stopped empty
    obtain ⟨v, published⟩ : ∃ v, publishGroups cluster _ _ = .ok 0 v := ⟨_, publishGroups_ok_iff.mpr accepted⟩
    obtain ⟨offsets, kept⟩ := same_publishGroups _ _ _ _ published rfl
    have vFormed : v.manager.WellFormed := by
      rw [kept]
      exact ⟨formed.status, formed.error⟩
    have vError : v.manager.has ProducerTxnFlagInError = false := by
      rw [kept]
      exact error
    obtain ⟨w', run, unchanged⟩ := @endTransaction_ok cluster _ vFormed vError
    rw [@finish_of_partitions cluster { w with manager := ended w.manager } error empty, bind_of_ok published,
      if_neg (not_not.mpr rfl), bump] at sound
    have cleared := (sound w' run).partitions
    rw [unchanged, kept] at cleared
    exact absurd (empty.symm.trans cleared) Bool.false_ne_true

private theorem sound_iff_safe (wellFormed : w.manager.WellFormed) (c : Call) : Sound cluster w c ↔ Safe cluster w c := by
  constructor
  · intro sound commit
    subst commit
    cases transactional : w.manager.isTransactional with
    | false => exact .inl rfl
    | true => exact .inr (harmless_of_sound wellFormed transactional (sound rfl))
  · intro safe commit w' run
    subst commit
    cases transactional : w.manager.isTransactional with
    | false =>
      rw [call_finish_of_not transactional] at run
      injection run with code _
      exact absurd code (by decide)
    | true =>
      have harmless := (safe rfl).resolve_left (by rw [transactional]; exact Bool.noConfusion)
      exact sound_of_harmless wellFormed transactional harmless run

/-- Along every sequence of calls from a new manager, with every sequence of answers: each commit that
returns success has committed, if and only if each commit is made when it is safe. -/
theorem commit_means_committed_iff (cluster : TxnCluster) (conf : TxnConfig) (calls : List Call) :
    Along (Sound cluster) (Step cluster) { manager := create conf } calls ↔
      Along (Safe cluster) (Step cluster) { manager := create conf } calls := by
  have keeps : ∀ w c w', w.manager.WellFormed → Step cluster w c w' → w'.manager.WellFormed := by
    rintro w c w' wellFormed ⟨code, run⟩
    exact (moves_call closed_keepsForm c).on (fun _ => True) w code w' run trivial wellFormed
  exact Along.congr keeps (fun w c wellFormed => sound_iff_safe wellFormed c) (wellFormed_create conf) calls

/-- A cluster that finds its coordinators and acknowledges partition 0 of the topic `t`. -/
def obliging : TxnCluster where
  transactionCoordinator _ := ErrNoError
  refreshTransactionCoordinator _ := ErrNoError
  groupCoordinator _ _ := ErrNoError
  leastLoadedBroker _ := ErrNoError
  initProducerID _ := ErrNoError
  addOffsetsToTxn _ _ := (ErrNoError, ErrNoError)
  txnOffsetCommit _ _ := (ErrNoError, [])
  addPartitionsToTxn _ _ := (ErrNoError, [(([0x74], 0), ErrNoError)])

def transactionalConf : TxnConfig :=
  { version := V2_1_0_0, idempotent := true, transactionID := [0x78], retryMax := 3 }

/-- A transaction with one registered partition is committed with success: no request ends it, and the
partition stays registered. -/
theorem registered_partition_not_committed :
    ∃ w w', Transition.Reaches (Step obliging) { manager := create transactionalConf } w ∧
      call obliging (.finish true) w = .ok 0 w' ∧ ¬ Committed w w' := by
  let opened : TxnWorld := (call obliging (.finish true) { manager := create transactionalConf }).state
  let begun : TxnWorld := (call obliging .begin opened).state
  let added : TxnWorld := (call obliging (.addPartition [0x74] 0) begun).state
  let published : TxnWorld := (call obliging .publishPartitions added).state
  have reached : Transition.Reaches (Step obliging) { manager := create transactionalConf } published := by
    have first : Step obliging _ (.finish true) opened := ⟨0, EStateM.Result.eq_ok_of_returned (by decide)⟩
    have second : Step obliging opened .begin begun := ⟨0, EStateM.Result.eq_ok_of_returned (by decide)⟩
    have third : Step obliging begun (.addPartition [0x74] 0) added := ⟨0, EStateM.Result.eq_ok_of_returned (by decide)⟩
    have fourth : Step obliging added .publishPartitions published := ⟨0, EStateM.Result.eq_ok_of_returned (by decide)⟩
    exact (((Transition.Reaches.refl _).tail first).tail second |>.tail third).tail fourth
  refine ⟨published, _, reached, EStateM.Result.eq_ok_of_returned (by decide), fun committed => ?_⟩
  exact absurd committed.partitions (by decide)

end Coev.Kafka.TransactionManager
