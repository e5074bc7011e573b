import Coev.Soundness.Kafka.TransactionCommit

/-! # The offsets of a transaction

An offset that was added is either acknowledged while the transaction is committed or still held. This needs
three things of the answers, because `Retry` reports success when it runs out of attempts, a transport error
of `AddOffsetsToTxn` is taken for an answer without an error when the coordinator can be refreshed, and a
partition that a response leaves out counts as committed. A transaction with offsets only drops them.
-/

namespace Coev.Kafka.TransactionManager

open EStateM (bind_of_ok bind_eq_ok_iff bind_of_error)
open Std (ExtTreeMap)
open Transition

variable {cluster : TxnCluster} {w w' v : TxnWorld} {groupId : Bytes} {offsets : TopicPartitionOffsets}
variable {offset : PartitionOffsetMetadata} {tp : TopicPartition}

/-- The group was added to the transaction between `w` and `w'`. -/
def GroupAdded (groupId : Bytes) (w w' : TxnWorld) : Prop :=
  ∃ request, request.groupId = groupId ∧ During w w' (.addOffsetsToTxn request ErrNoError ErrNoError)

/-- The offset of a group is acknowledged between `w` and `w'`: its group was added to the transaction, and a
response to a request with the offset names its partition without an error. -/
structure Acknowledged (w w' : TxnWorld) (groupId : Bytes) (tp : TopicPartition) (offset : PartitionOffsetMetadata) :
    Prop where
  added : GroupAdded groupId w w'
  committed : ∃ request answer, request.groupId = groupId ∧ request.topics[tp]? = some offset ∧
    (tp, ErrNoError) ∈ answer ∧ During w w' (.txnOffsetCommit request ErrNoError answer)

/-- The offset of a group is held. -/
def Holds (w : TxnWorld) (groupId : Bytes) (tp : TopicPartition) (offset : PartitionOffsetMetadata) : Prop :=
  ∃ offsets, w.manager.offsets[groupId]? = some offsets ∧ offsets[tp]? = some offset

/-- However a commit ends, every offset that was held is acknowledged, or the commit does not report success
and the offset is still held. -/
def KeepsEvery (cluster : TxnCluster) (w : TxnWorld) (c : Call) : Prop :=
  c = .finish true → ∀ groupId tp offset, Holds w groupId tp offset →
    Acknowledged w (call cluster c w).state groupId tp offset ∨
      (call cluster c w).returned ≠ some 0 ∧ Holds (call cluster c w).state groupId tp offset

/-! ## The condition on the answers -/

/-- One of the attempts that are left settles, and the answers to each are sane. -/
def Settles (attempt : Txn TxnResult) (sane : TxnWorld → Prop) : ℕ → TxnWorld → Prop
  | 0, _ => False
  | attempts + 1, w =>
    sane w ∧ ∀ result w', attempt w = .ok result w' → result.retry = true → Settles attempt sane attempts w'

/-- When the transport of an `AddOffsetsToTxn` fails, so does the refresh of the coordinator. -/
def AddOffsetSane (cluster : TxnCluster) (groupId : Bytes) (w : TxnWorld) : Prop :=
  let request := addOffsetsRequest w.manager groupId
  let log := .transactionCoordinator ErrNoError :: w.log
  let answer := cluster.addOffsetsToTxn request log
  answer.1 ≠ ErrNoError →
    cluster.refreshTransactionCoordinator (.addOffsetsToTxn request answer.1 answer.2 :: log) ≠ ErrNoError

/-- The response to a `TxnOffsetCommit` names every partition of the request. -/
def CommitSane (cluster : TxnCluster) (offsets : TopicPartitionOffsets) (groupId : Bytes) (w : TxnWorld) : Prop :=
  ∀ answer, cluster.txnOffsetCommit (offsetCommitRequest w.manager offsets groupId)
    (.groupCoordinator groupId ErrNoError :: w.log) = (ErrNoError, answer) → ∀ tp ∈ offsets, ∃ err, (tp, err) ∈ answer

/-- The groups from here on are published with sane answers, and none runs out of attempts. -/
def GroupsSane (cluster : TxnCluster) : List (Bytes × TopicPartitionOffsets) → TxnWorld → Prop
  | [], _ => True
  | (groupId, offsets) :: rest, w =>
    Settles (publishOffsetsToTxnAddOffset cluster groupId) (AddOffsetSane cluster groupId) (attempts w.manager.conf) w ∧
      (∀ w', retry (publishOffsetsToTxnAddOffset cluster groupId) w = .ok ErrNoError w' →
        Settles (publishOffsetsToTxnCommit cluster offsets groupId) (CommitSane cluster offsets groupId)
          (attempts w'.manager.conf) w') ∧
      ∀ w', publishOffsetsToTxn cluster offsets groupId w = .ok ErrNoError w' →
        GroupsSane cluster rest { w' with manager := { w'.manager with offsets := w'.manager.offsets.erase groupId } }

/-- The condition on a commit: the producer is not transactional or in error, or there are no offsets unless
there are partitions (or no way to the end of the transaction), and the offsets are published with sane answers. -/
def OffsetsSafe (cluster : TxnCluster) (w : TxnWorld) (c : Call) : Prop :=
  c = .finish true → w.manager.isTransactional = false ∨
    (ended w.manager).has ProducerTxnFlagInError = true ∨
    w.manager.partitions.isEmpty = true ∧
      (w.manager.offsets.isEmpty = true ∨ (ended w.manager).isTransitionValid (ended w.manager).endStatus = false) ∨
    w.manager.partitions.isEmpty = false ∧
      GroupsSane cluster w.manager.offsets.toList { w with manager := ended w.manager }

/-! ## One attempt -/

/-- A response names all offsets of the group without an error between `w` and `w'`. -/
def OffsetsAnswered (groupId : Bytes) (offsets : TopicPartitionOffsets) (w w' : TxnWorld) : Prop :=
  ∃ request answer, request.groupId = groupId ∧ request.topics = offsets ∧
    (∀ tp ∈ offsets, (tp, ErrNoError) ∈ answer) ∧ During w w' (.txnOffsetCommit request ErrNoError answer)

theorem Acknowledged.of_later (acknowledged : Acknowledged w v groupId tp offset) (grown : LogGrows v w') :
    Acknowledged w w' groupId tp offset := by
  obtain ⟨⟨added, ofGroup, first⟩, request, answer, same, requested, answered, second⟩ := acknowledged
  exact ⟨⟨added, ofGroup, first.of_later grown⟩, request, answer, same, requested, answered, second.of_later grown⟩

theorem Acknowledged.of_earlier (grown : LogGrows w v) (acknowledged : Acknowledged v w' groupId tp offset) :
    Acknowledged w w' groupId tp offset := by
  obtain ⟨⟨added, ofGroup, first⟩, request, answer, same, requested, answered, second⟩ := acknowledged
  exact ⟨⟨added, ofGroup, first.of_earlier grown⟩, request, answer, same, requested, answered, second.of_earlier grown⟩

private theorem fail_not_done {f : TransactionManager → KError × TransactionManager} (error : ∀ m, (f m).1 ≠ 0) :
    fail f w ≠ .ok done w' :=
  fun run => fail_error error run (.inr rfl)

private theorem addOffsetAnswered_done {answer : KError} (run : addOffsetAnswered cluster answer w = .ok done w') :
    answer = ErrNoError := by
  by_contra error
  unfold addOffsetAnswered at run
  rw [if_neg error] at run
  unfold addOffsetFailed at run
  split_ifs at run
  · cases run
  · cases run
  · exact fail_not_done (abortableErrorIfPossible_error error) run
  · exact fail_not_done (transitionTo_error _ error) run
  · exact fail_not_done (transitionTo_error _ error) run

/-- The exchanges up to an acknowledged `AddOffsetsToTxn`, when the answers are sane. -/
theorem addOffset_acknowledged (sane : AddOffsetSane cluster groupId w)
    (run : publishOffsetsToTxnAddOffset cluster groupId w = .ok done w') : GroupAdded groupId w w' := by
  obtain ⟨found, u, first, run⟩ := bind_eq_ok_iff.mp run
  obtain ⟨-, rfl⟩ := exchange_ok first
  split at run
  · cases run
  next noError =>
  obtain rfl : found = ErrNoError := not_not.mp noError
  obtain ⟨m, u, read, run⟩ := bind_eq_ok_iff.mp run
  injection read with same state
  subst same state
  obtain ⟨⟨err, sent⟩, u, sending, run⟩ := bind_eq_ok_iff.mp run
  obtain ⟨replied, rfl⟩ := exchange_ok sending
  have reply := replied.symm
  refine ⟨addOffsetsRequest w.manager groupId, rfl, ?_⟩
  dsimp only at run
  split at run
  · next transport =>
    -- the response may hold no error, so the refresh would have to fail
    obtain ⟨refreshed, u, second, run⟩ := bind_eq_ok_iff.mp run
    obtain ⟨value, -⟩ := exchange_ok second
    split at run
    · cases run
    next works =>
    have broken := sane (by rw [reply]; exact transport)
    rw [reply] at broken
    exact absurd (value.symm.trans (not_not.mp works)) broken
  · next transport =>
    obtain rfl : err = ErrNoError := not_not.mp transport
    obtain rfl : sent = ErrNoError := addOffsetAnswered_done run
    have grown := (moves_addOffsetAnswered closed_logGrows.toAttempts _).on (fun _ => True) _ _ _ run trivial
    exact During.of_later ⟨[_, _], rfl, List.mem_cons_self⟩ grown

/-- A response that ends the attempts without an error holds no error. -/
theorem scanOffsetErrors_done {answer : PartitionErrors} {failedTxn : TopicPartitionOffsets}
    (run : scanOffsetErrors offsets answer failedTxn w = .ok done w') :
    failedTxn.isEmpty = true ∧ ∀ entry ∈ answer, entry.2 = ErrNoError := by
  induction answer generalizing failedTxn with
  | nil =>
    change (if failedTxn.isEmpty then pure done else _ : Txn TxnResult) w = _ at run
    cases empty : failedTxn.isEmpty with
    | true => exact ⟨rfl, fun _ member => absurd member List.not_mem_nil⟩
    | false =>
      rw [empty] at run
      cases run
  | cons entry rest ih =>
    obtain ⟨tp, err⟩ := entry
    rw [scanOffsetErrors] at run
    cases verdict : offsetVerdict err with
    | committed =>
      rw [verdict] at run
      obtain ⟨empty, noErrors⟩ := ih run
      refine ⟨empty, fun entry member => ?_⟩
      rcases List.mem_cons.mp member with rfl | later
      · exact offsetVerdict_committed verdict
      · exact noErrors entry later
    | failed =>
      rw [verdict] at run
      cases held : offsets[tp]? with
      | none =>
        rw [held] at run
        cases run
      | some offset =>
        rw [held] at run
        obtain ⟨empty, -⟩ := ih run
        exact absurd empty (by simp)
    | stop target =>
      rw [verdict] at run
      exact absurd run (fail_not_done (transitionTo_error _ (offsetVerdict_stop verdict)))

/-- The response that ends the attempts without an error, when it names every partition. -/
theorem offsetCommit_acknowledged (sane : CommitSane cluster offsets groupId w)
    (run : publishOffsetsToTxnCommit cluster offsets groupId w = .ok done w') :
    OffsetsAnswered groupId offsets w w' := by
  obtain ⟨found, u, first, run⟩ := bind_eq_ok_iff.mp run
  obtain ⟨-, rfl⟩ := exchange_ok first
  split at run
  · cases run
  next noError =>
  obtain rfl : found = ErrNoError := not_not.mp noError
  obtain ⟨m, u, read, run⟩ := bind_eq_ok_iff.mp run
  injection read with same state
  subst same state
  obtain ⟨⟨err, sent⟩, u, sending, run⟩ := bind_eq_ok_iff.mp run
  obtain ⟨replied, rfl⟩ := exchange_ok sending
  dsimp only at run
  split at run
  · cases run
  next transport =>
  obtain rfl : err = ErrNoError := not_not.mp transport
  refine ⟨offsetCommitRequest w.manager offsets groupId, sent, rfl, rfl, fun tp member => ?_, ?_⟩
  · obtain ⟨err, named⟩ := sane sent replied.symm tp member
    obtain rfl : err = ErrNoError := (scanOffsetErrors_done run).2 _ named
    exact named
  · have grown := (moves_scanOffsetErrors closed_logGrows.toAttempts _ _ _).on (fun _ => True) _ _ _ run trivial
    exact During.of_later ⟨[_, _], rfl, List.mem_cons_self⟩ grown

/-! ## The attempts of a group -/

/-- Attempts that settle end with one that has no error. -/
theorem retryLoop_settled {attempt : Txn TxnResult} {sane : TxnWorld → Prop} {reached : TxnWorld → Prop}
    (grows : EStateM.Moves LogGrows attempt)
    (settled : ∀ v v', sane v → attempt v = .ok done v' → LogGrows w v → reached v') {n : ℕ}
    (settles : Settles attempt sane n v) (grown : LogGrows w v) (run : retryLoop attempt n v = .ok 0 w') : reached w' := by
  induction n generalizing v with
  | zero => exact settles.elim
  | succ n ih =>
    obtain ⟨isSane, next⟩ := settles
    obtain ⟨⟨again, error⟩, u, head, run⟩ := bind_eq_ok_iff.mp run
    have further : LogGrows v u := grows.on (fun _ => True) _ _ _ head trivial
    cases again with
    | true => exact ih (next _ u head rfl) (trans_of LogGrows grown further) run
    | false =>
      injection run with noError last
      subst noError last
      exact settled v u isSane head grown

private theorem addOffset_settled {n : ℕ}
    (settles : Settles (publishOffsetsToTxnAddOffset cluster groupId) (AddOffsetSane cluster groupId) n w)
    (run : retryLoop (publishOffsetsToTxnAddOffset cluster groupId) n w = .ok 0 w') : GroupAdded groupId w w' := by
  refine retryLoop_settled (moves_addOffset closed_logGrows.toAttempts _) ?_ settles (refl_of LogGrows w) run
  intro v v' sane head grown
  obtain ⟨request, ofGroup, made⟩ := addOffset_acknowledged sane head
  exact ⟨request, ofGroup, made.of_earlier grown⟩

private theorem offsetCommit_settled {n : ℕ}
    (settles : Settles (publishOffsetsToTxnCommit cluster offsets groupId) (CommitSane cluster offsets groupId) n w)
    (run : retryLoop (publishOffsetsToTxnCommit cluster offsets groupId) n w = .ok 0 w') :
    OffsetsAnswered groupId offsets w w' := by
  refine retryLoop_settled (moves_offsetCommit closed_logGrows.toAttempts _ _) ?_ settles (refl_of LogGrows w) run
  intro v v' sane head grown
  obtain ⟨request, answer, ofGroup, requested, answered, made⟩ := offsetCommit_acknowledged sane head
  exact ⟨request, answer, ofGroup, requested, answered, made.of_earlier grown⟩

/-! ## The groups -/

/-- A group that is published without an error, with sane answers, is acknowledged. -/
theorem publishOffsets_acknowledged {rest : List (Bytes × TopicPartitionOffsets)}
    (sane : GroupsSane cluster ((groupId, offsets) :: rest) w)
    (run : publishOffsetsToTxn cluster offsets groupId w = .ok 0 w') (requested : offsets[tp]? = some offset) :
    Acknowledged w w' groupId tp offset := by
  obtain ⟨addSettles, commitSettles, -⟩ := sane
  obtain ⟨err, u, adding, run⟩ := bind_eq_ok_iff.mp run
  split at run
  · next error =>
    injection run with same _
    exact absurd same error
  next noError =>
  obtain rfl : err = ErrNoError := not_not.mp noError
  have settles := commitSettles u adding
  obtain ⟨m, v, read, adding⟩ := bind_eq_ok_iff.mp adding
  injection read with same state
  subst same state
  obtain ⟨n, v, read, run⟩ := bind_eq_ok_iff.mp run
  injection read with same state
  subst same state
  have added : GroupAdded groupId w u := addOffset_settled addSettles adding
  obtain ⟨request, answer, ofGroup, topics, answered, made⟩ := offsetCommit_settled settles run
  have addGrows : LogGrows w u :=
    (moves_retryLoop (moves_addOffset closed_logGrows.toAttempts _) _).on (fun _ => True) _ _ _ adding trivial
  have commitGrows : LogGrows u w' :=
    (moves_retryLoop (moves_offsetCommit closed_logGrows.toAttempts _ _) _).on (fun _ => True) _ _ _ run trivial
  obtain ⟨addRequest, ofSame, addMade⟩ := added
  have named : (tp, ErrNoError) ∈ answer := answered tp (ExtTreeMap.mem_iff_isSome_getElem?.mpr (by rw [requested]; rfl))
  exact ⟨⟨addRequest, ofSame, addMade.of_later commitGrows⟩,
    request, answer, ofGroup, by rw [topics, requested], named, made.of_earlier addGrows⟩

/-- What becomes of an offset: it is acknowledged, or the result is not success and the offset is still held. -/
def Kept (w : TxnWorld) (result : EStateM.Result Abort TxnWorld KError) (groupId : Bytes) (tp : TopicPartition)
    (offset : PartitionOffsetMetadata) : Prop :=
  Acknowledged w result.state groupId tp offset ∨ result.returned ≠ some 0 ∧ Holds result.state groupId tp offset

/-- Every offset of the groups that are held is kept. -/
theorem publishGroups_kept {groups : List (Bytes × TopicPartitionOffsets)} (sane : GroupsSane cluster groups w)
    (distinct : groups.Pairwise fun a b => a.1 ≠ b.1)
    (held : ∀ group ∈ groups, w.manager.offsets[group.1]? = some group.2) {group : Bytes × TopicPartitionOffsets}
    (member : group ∈ groups) (requested : group.2[tp]? = some offset) :
    Kept w (publishGroups cluster groups w) group.1 tp offset := by
  induction groups generalizing w with
  | nil => cases member
  | cons first rest ih =>
    obtain ⟨groupId, offsets⟩ := first
    have keeps : KeepsOffsets w (publishOffsetsToTxn cluster offsets groupId w).state :=
      moves_publishOffsets attempts_keepsOffsets offsets groupId w
    have grows : LogGrows w (publishOffsetsToTxn cluster offsets groupId w).state :=
      moves_publishOffsets closed_logGrows.toAttempts offsets groupId w
    rw [publishGroups]
    cases run : publishOffsetsToTxn cluster offsets groupId w with
    | error e v =>
      rw [run] at keeps
      rw [bind_of_error run]
      exact .inr ⟨by rintro ⟨⟩, group.2, (congrArg (·[group.1]?) keeps).trans (held group member), requested⟩
    | ok err v =>
      rw [run] at keeps grows
      rw [bind_of_ok run]
      split
      · next error =>
        -- the group that failed is put back
        refine .inr ⟨fun success => error (Option.some.inj success), group.2, ?_, requested⟩
        change (v.manager.offsets.insert groupId offsets)[group.1]? = some group.2
        rw [show v.manager.offsets = w.manager.offsets from keeps, ExtTreeMap.getElem?_insert]
        split
        · next same =>
          have first := held (groupId, offsets) List.mem_cons_self
          rw [Std.LawfulEqCmp.eq_of_compare same] at first
          rw [← first, held group member]
        · exact held group member
      next noError =>
      obtain rfl : err = 0 := not_not.mp noError
      let u : TxnWorld := { v with manager := { v.manager with offsets := v.manager.offsets.erase groupId } }
      change Kept w (publishGroups cluster rest u) group.1 tp offset
      rcases List.mem_cons.mp member with rfl | later
      · have published := publishOffsets_acknowledged sane run requested
        have grown : LogGrows v (publishGroups cluster rest u).state := moves_publishGroups closed_logGrows.finishes rest u
        exact .inl (published.of_later grown)
      · have heldLater : ∀ group ∈ rest, u.manager.offsets[group.1]? = some group.2 := by
          intro other isLater
          have different := (List.pairwise_cons.mp distinct).1 other isLater
          change (v.manager.offsets.erase groupId)[other.1]? = some other.2
          rw [show v.manager.offsets = w.manager.offsets from keeps, ExtTreeMap.getElem?_erase,
            if_neg fun same => different (Std.LawfulEqCmp.eq_of_compare same)]
          exact held other (List.mem_cons_of_mem _ isLater)
        have grown : LogGrows w u := grows
        rcases ih (sane.2.2 v run) (List.pairwise_cons.mp distinct).2 heldLater later with published | kept
        · exact .inl (published.of_earlier grown)
        · exact .inr kept

/-! ## A commit -/

private theorem holds_ended (held : Holds w groupId tp offset) :
    Holds { w with manager := ended w.manager } groupId tp offset := by
  obtain ⟨status, lastError, same⟩ := ended_fields w.manager
  obtain ⟨offsets, ofGroup, requested⟩ := held
  exact ⟨offsets, by rw [same]; exact ofGroup, requested⟩

private theorem pairwise_toList (groups : ExtTreeMap Bytes TopicPartitionOffsets) :
    groups.toList.Pairwise fun a b => a.1 ≠ b.1 := by
  refine groups.distinct_keys_toList.imp fun different same => different ?_
  rw [same]
  exact Std.ReflCmp.compare_self

/-- A commit past its transition keeps every offset. -/
theorem finish_kept (notError : w.manager.has ProducerTxnFlagInError = false)
    (some_ : w.manager.partitions.isEmpty = false) (sane : GroupsSane cluster w.manager.offsets.toList w)
    {tp : TopicPartition} {offset : PartitionOffsetMetadata} (held : Holds w groupId tp offset) :
    Kept w (finishTransaction cluster true w) groupId tp offset := by
  obtain ⟨offsets, ofGroup, requested⟩ := held
  have member : (groupId, offsets) ∈ w.manager.offsets.toList := ExtTreeMap.mem_toList_iff_getElem?_eq_some.mpr ofGroup
  have kept := publishGroups_kept sane (pairwise_toList _)
    (fun group isGroup => ExtTreeMap.mem_toList_iff_getElem?_eq_some.mp isGroup) member requested
  rw [finish_of_partitions notError some_]
  cases run : publishGroups cluster w.manager.offsets.toList w with
  | error e v =>
    rw [run] at kept
    rw [bind_of_error run]
    exact kept
  | ok err v =>
    rw [run] at kept
    rw [bind_of_ok run]
    split
    · exact kept
    next noError =>
    obtain rfl : err = 0 := not_not.mp noError
    rcases kept with published | ⟨notZero, -⟩
    · exact .inl (published.of_later (moves_endTransaction closed_logGrows.finishes true _ v))
    · exact absurd rfl notZero

private theorem keepsEvery_of_safe (wellFormed : w.manager.WellFormed) (c : Call) (safe : OffsetsSafe cluster w c) :
    KeepsEvery cluster w c := by
  intro commit groupId tp offset held
  subst commit
  change Kept w (call cluster (.finish true) w) groupId tp offset
  cases transactional : w.manager.isTransactional with
  | false =>
    rw [call_finish_of_not transactional]
    exact .inr ⟨fun success => absurd (Option.some.inj success) (by decide), held⟩
  | true =>
    have formed := wellFormed_ended wellFormed
    have still := holds_ended held
    obtain ⟨status, lastError, same⟩ := ended_fields w.manager
    rw [call_finish transactional]
    cases error : (ended w.manager).has ProducerTxnFlagInError with
    | true =>
      rw [@finish_of_error cluster { w with manager := ended w.manager } error]
      exact .inr ⟨fun success => formed.error.mpr error (Option.some.inj success), still⟩
    | false =>
      rcases safe rfl with notTransactional | inError | ⟨empty, nothing⟩ | ⟨some_, sane⟩
      · exact absurd (notTransactional.symm.trans transactional) Bool.false_ne_true
      · exact absurd (error.symm.trans inError) Bool.false_ne_true
      · rw [@finish_of_empty cluster { w with manager := ended w.manager } error (by rw [same]; exact empty),
          completeTransaction_eq]
        rcases nothing with none_ | invalid
        · obtain ⟨offsets, ofGroup, -⟩ := held
          rw [ExtTreeMap.isEmpty_iff.mp none_] at ofGroup
          simp at ofGroup
        · rw [if_neg (by rw [invalid]; exact Bool.false_ne_true)]
          exact .inr ⟨fun success => absurd (Option.some.inj success) (show ErrTransitionNotAllowed ≠ 0 by decide), still⟩
      · have nonempty : (ended w.manager).partitions.isEmpty = false := by
          rw [same]
          exact some_
        have saneEnded : GroupsSane cluster (ended w.manager).offsets.toList { w with manager := ended w.manager } := by
          rw [show (ended w.manager).offsets = w.manager.offsets by rw [same]]
          exact sane
        rcases @finish_kept cluster { w with manager := ended w.manager } groupId error nonempty saneEnded tp offset still
          with published | kept
        · have unchanged : LogGrows w { w with manager := ended w.manager } := List.suffix_refl w.log
          exact .inl (published.of_earlier unchanged)
        · exact .inr kept

/-- Along every sequence of calls from a new manager, with every sequence of answers: no commit loses an
offset, if each commit is made when its offsets are safe. -/
theorem offsets_not_lost (cluster : TxnCluster) (conf : TxnConfig) (calls : List Call)
    (safe : Along (OffsetsSafe cluster) (Step cluster) { manager := create conf } calls) :
    Along (KeepsEvery cluster) (Step cluster) { manager := create conf } calls := by
  have keeps : ∀ w c w', w.manager.WellFormed → Step cluster w c w' → w'.manager.WellFormed := by
    rintro w c w' wellFormed ⟨code, run⟩
    exact (moves_call closed_keepsForm c).on (fun _ => True) w code w' run trivial wellFormed
  exact Along.imp (fun w c w' wellFormed _ step => keeps w c w' wellFormed step)
    (fun w c wellFormed => keepsEvery_of_safe wellFormed c) (wellFormed_create conf) safe

/-- The cluster that also commits an offset of that partition. -/
def committing : TxnCluster :=
  { obliging with txnOffsetCommit := fun _ _ => (ErrNoError, [(([0x74], 0), ErrNoError)]) }

/-- The offset 7 of partition 0. -/
def seventh : PartitionOffsetMetadata := { partition := 0, offset := 7, leaderEpoch := 0, metadata := [] }

/-- A transaction with one registered partition and one offset of the group `g`. -/
def oneOffset : List Call :=
  [.finish true, .begin, .addPartition [0x74] 0, .publishPartitions, .addOffsets [([0x74], seventh)] [0x67]]

private theorem along_cons {p : TxnWorld → Call → Prop} {c : Call} {calls : List Call} (first : p w c)
    (rest : Along p (Step cluster) (call cluster c w).state calls) : Along p (Step cluster) w (c :: calls) := by
  refine ⟨first, ?_⟩
  rintro w' ⟨code, run⟩
  rw [run] at rest
  exact rest

/-- A new manager with the calls of `oneOffset` made. -/
def prepared : TxnWorld := oneOffset.foldl (fun w c => (call committing c w).state) { manager := create transactionalConf }

private theorem prepared_offsets :
    prepared.manager.offsets.toList = [([0x67], (∅ : TopicPartitionOffsets).insert ([0x74], 0) seventh)] := by rfl

/-- The first attempt to publish the offset settles. -/
theorem settles_of_done {attempt : Txn TxnResult} {sane : TxnWorld → Prop} {n : ℕ} (isSane : sane w)
    (run : (attempt w).returned = some done) : Settles attempt sane (n + 1) w := by
  refine ⟨isSane, fun result w' ran again => ?_⟩
  rw [ran] at run
  rw [Option.some.inj run] at again
  cases again

private theorem prepared_safe : OffsetsSafe committing prepared (.finish true) := by
  intro _
  refine .inr (.inr (.inr ⟨by decide, ?_⟩))
  rw [prepared_offsets]
  refine ⟨settles_of_done ?_ (by decide), ?_, fun _ _ => trivial⟩
  · exact fun failed => absurd rfl failed
  · intro w' run
    have reached :
        w' =
          (retry (publishOffsetsToTxnAddOffset committing [0x67])
            { prepared with manager := ended prepared.manager }).state := by
      rw [run]
      rfl
    subst reached
    refine settles_of_done ?_ (by decide)
    intro answer reply tp member
    obtain rfl : [(([0x74], 0), ErrNoError)] = answer := congrArg Prod.snd reply
    refine ⟨ErrNoError, ?_⟩
    rcases ExtTreeMap.mem_insert.mp member with same | none_
    · rw [Std.LawfulEqCmp.eq_of_compare same]
      exact List.mem_singleton_self _
    · exact absurd none_ ExtTreeMap.not_mem_empty

/-- The offset of that transaction is not lost. -/
theorem oneOffset_not_lost : Along (KeepsEvery committing) (Step committing) { manager := create transactionalConf }
      (oneOffset ++ [.finish true]) := by
  refine offsets_not_lost committing transactionalConf (oneOffset ++ [.finish true]) ?_
  have free {w : TxnWorld} {c : Call} (other : c ≠ .finish true) : OffsetsSafe committing w c :=
    fun same => absurd same other
  refine along_cons (fun _ => .inr (.inr (.inl ⟨by decide, .inl (by decide)⟩))) ?_
  refine along_cons (free (by rintro ⟨⟩)) (along_cons (free (by rintro ⟨⟩)) ?_)
  refine along_cons (free (by rintro ⟨⟩)) (along_cons (free (by rintro ⟨⟩)) ?_)
  exact along_cons prepared_safe trivial

/-- A transaction with an offset and no partition is committed with success: nothing is sent, and the offset
is dropped. -/
theorem offset_without_partition_lost :
    ∃ w, Transition.Reaches (Step obliging) { manager := create transactionalConf } w ∧
      ¬ KeepsEvery obliging w (.finish true) := by
  let opened : TxnWorld := (call obliging (.finish true) { manager := create transactionalConf }).state
  let begun : TxnWorld := (call obliging .begin opened).state
  let added : TxnWorld := (call obliging (.addOffsets [([0x74], seventh)] [0x67]) begun).state
  have reached : Transition.Reaches (Step obliging) { manager := create transactionalConf } added := by
    have first : Step obliging _ (.finish true) opened := ⟨0, EStateM.Result.eq_ok_of_returned (by decide)⟩
    have second : Step obliging opened .begin begun := ⟨0, EStateM.Result.eq_ok_of_returned (by decide)⟩
    have third : Step obliging begun (.addOffsets [([0x74], seventh)] [0x67]) added :=
      ⟨0, EStateM.Result.eq_ok_of_returned (by decide)⟩
    exact (((Transition.Reaches.refl _).tail first).tail second).tail third
  refine ⟨added, reached, fun keeps => ?_⟩
  have held : Holds added [0x67] ([0x74], 0) seventh :=
    ⟨(∅ : TopicPartitionOffsets).insert ([0x74], 0) seventh, by decide +kernel, by rfl⟩
  rcases keeps rfl _ _ _ held with ⟨⟨request, -, fresh, grown, member⟩, -⟩ | ⟨failed, -⟩
  · have silent : (call obliging (.finish true) added).state.log.length = added.log.length := by decide
    rw [grown, List.length_append] at silent
    obtain rfl : fresh = [] := List.length_eq_zero_iff.mp (by omega)
    cases member
  · exact failed (by decide)

end Coev.Kafka.TransactionManager
