import Coev.Soundness.Kafka.TransactionCommit

/-! # How partitions are registered in a transaction

A partition is pending from its request until a response to `AddPartitionsToTxn` acknowledges it, and
registered from then on. Publishing that meets an error it cannot retry gives up everything pending: it
reports the error, and the end of the transaction clears what is left.
-/

namespace Coev.Kafka.TransactionManager

open EStateM (bind_eq_ok_iff)
open Std (ExtTreeMap)
open Transition

variable {cluster : TxnCluster} {w w' v : TxnWorld} {m m' m'' : TransactionManager}
variable {code : KError} {tp : TopicPartition}

/-- No partition is both pending and registered. -/
def Disjoint (m : TransactionManager) : Prop := ∀ tp ∈ m.pendingPartitions, tp ∉ m.partitions

/-- A response to `AddPartitionsToTxn` answered the partition with the code between `w` and `w'`. -/
def Answered (w w' : TxnWorld) (tp : TopicPartition) (err : KError) : Prop :=
  ∃ request answer, (tp, err) ∈ answer ∧ During w w' (.addPartitionsToTxn request ErrNoError answer)

/-- The transaction is over: nothing of it is left. -/
structure Cleared (m : TransactionManager) : Prop where
  partitions : m.partitions = ∅
  pendingPartitions : m.pendingPartitions = ∅
  offsets : m.offsets = ∅

/-- What a call that returns the code does with the partitions. -/
structure Registers (w : TxnWorld) (code : KError) (w' : TxnWorld) : Prop where
  disjoint : w'.manager.Disjoint
  registered : ∀ tp ∈ w'.manager.partitions, tp ∈ w.manager.partitions ∨ Answered w w' tp ErrNoError
  requested : ∀ tp ∈ w.manager.pendingPartitions,
    tp ∈ w'.manager.pendingPartitions ∨ tp ∈ w'.manager.partitions ∨
      (code ≠ 0 ∧ ∃ refused, Answered w w' refused code) ∨ code = 0 ∧ w'.manager.Cleared

/-- Pending and registered partitions are apart before the call, after any part of a response it may get, and
after the call, which registers a partition only on an answer without an error and loses none silently. -/
structure KeepsPartitions (cluster : TxnCluster) (w : TxnWorld) (c : Call) : Prop where
  before : w.manager.Disjoint
  during : ∀ answer result v, scanPartitionErrors cluster answer w = .ok result v → v.manager.Disjoint
  after : ∀ code w', call cluster c w = .ok code w' → Registers w code w'

/-! ## Tracking partitions -/

/-- From `m` to `m'` registered partitions stay, those with `registers` may join them, and pending ones are
still pending or registered unless they were `refused`. -/
structure Tracks (registers : TopicPartition → Prop) (refused : Prop) (m m' : TransactionManager) : Prop where
  kept : ∀ tp ∈ m.partitions, tp ∈ m'.partitions
  registered : ∀ tp ∈ m'.partitions, tp ∈ m.partitions ∨ registers tp
  requested : ∀ tp ∈ m.pendingPartitions, tp ∈ m'.pendingPartitions ∨ tp ∈ m'.partitions ∨ refused
  disjoint : m.Disjoint → m'.Disjoint

variable {registers registers' : TopicPartition → Prop} {refused refused' : Prop}

theorem Tracks.of_same (pending : m'.pendingPartitions = m.pendingPartitions) (partitions : m'.partitions = m.partitions) :
    Tracks registers refused m m' := by
  constructor
  · intro tp member
    rw [partitions]
    exact member
  · intro tp member
    rw [partitions] at member
    exact .inl member
  · intro tp member
    rw [pending]
    exact .inl member
  · intro apart tp member
    rw [pending] at member
    rw [partitions]
    exact apart tp member

theorem Tracks.mono (tracks : Tracks registers refused m m') (more : ∀ tp, registers tp → registers' tp)
    (further : refused → refused') : Tracks registers' refused' m m' where
  kept := tracks.kept
  registered tp member := (tracks.registered tp member).imp_right (more tp)
  requested tp member := (tracks.requested tp member).imp_right (Or.imp_right further)
  disjoint := tracks.disjoint

theorem Tracks.trans (first : Tracks registers refused m m') (rest : Tracks registers refused m' m'') :
    Tracks registers refused m m'' := by
  constructor
  · exact fun tp member => rest.kept tp (first.kept tp member)
  · intro tp member
    rcases rest.registered tp member with earlier | joins
    · exact first.registered tp earlier
    · exact .inr joins
  · intro tp member
    rcases first.requested tp member with pending | partitions | given_up
    · exact rest.requested tp pending
    · exact .inr (.inl (rest.kept tp partitions))
    · exact .inr (.inr given_up)
  · exact rest.disjoint ∘ first.disjoint

/-- An acknowledged partition moves from the pending to the registered ones. -/
theorem tracks_acknowledged (m : TransactionManager) (tp : TopicPartition) :
    Tracks (· = tp) refused m { m with
      partitions := m.partitions.insertIfNew tp ()
      pendingPartitions := m.pendingPartitions.erase tp } := by
  constructor
  · exact fun _ member => ExtTreeMap.mem_insertIfNew.mpr (.inr member)
  · intro other member
    rcases ExtTreeMap.mem_insertIfNew.mp member with same | earlier
    · exact .inr (Std.LawfulEqCmp.eq_of_compare same).symm
    · exact .inl earlier
  · intro other member
    by_cases same : compare tp other = .eq
    · exact .inr (.inl (ExtTreeMap.mem_insertIfNew.mpr (.inl same)))
    · exact .inl (ExtTreeMap.mem_erase.mpr ⟨same, member⟩)
  · intro apart other member
    obtain ⟨different, earlier⟩ := ExtTreeMap.mem_erase.mp member
    intro registered
    rcases ExtTreeMap.mem_insertIfNew.mp registered with same | already
    · exact different same
    · exact apart other earlier already

/-- Everything pending is given up. -/
theorem tracks_dropped (m : TransactionManager) (given_up : refused) :
    Tracks registers refused m { m with pendingPartitions := ∅ } where
  kept _ member := member
  registered _ member := .inl member
  requested _ _ := .inr (.inr given_up)
  disjoint _ _ member := absurd member ExtTreeMap.not_mem_empty

/-! ## The other steps -/

/-- Neither the pending nor the registered partitions change. -/
def SamePartitions (w w' : TxnWorld) : Prop :=
  w'.manager.pendingPartitions = w.manager.pendingPartitions ∧ w'.manager.partitions = w.manager.partitions

instance : IsPreorder TxnWorld SamePartitions where
  refl _ := ⟨rfl, rfl⟩
  trans _ _ _ := by
    rintro ⟨pending, partitions⟩ ⟨pending', partitions'⟩
    exact ⟨pending'.trans pending, partitions'.trans partitions⟩

private theorem finishes_samePartitions : Finishes SamePartitions where
  exchange _ _ := ⟨rfl, rfl⟩
  transition w target err _ := by
    obtain ⟨status, lastError, moved⟩ := w.manager.transitionTo_fields target err
    unfold SamePartitions
    rw [moved]
    exact ⟨rfl, rfl⟩
  bump _ := ⟨rfl, rfl⟩
  offsets _ _ := ⟨rfl, rfl⟩
  producer _ _ _ := ⟨rfl, rfl⟩

theorem SamePartitions.tracks (same : SamePartitions w w') : Tracks registers refused w.manager w'.manager :=
  .of_same same.1 same.2

private theorem tracks_of_moves {α : Type} {x : Txn α} {a : α} (moves : EStateM.Moves SamePartitions x)
    (run : x w = .ok a w') :
    Tracks registers refused w.manager w'.manager :=
  (moves.on (fun _ => True) _ _ _ run trivial).tracks

private theorem act_ok {f : TransactionManager → KError × TransactionManager} (run : act f w = .ok code w') :
    code = (f w.manager).1 ∧ w' = { w with manager := (f w.manager).2 } := by
  constructor
  · exact (EStateM.Result.ok.inj run).1.symm
  · exact (EStateM.Result.ok.inj run).2.symm

/-! ## Publishing -/

/-- One entry of a response: a partition without an error is registered, and an error that is not retried
ends the loop with everything pending given up. -/
theorem partitionAnswered_tracks {err : KError} {ended : Option KError}
    (run : partitionAnswered cluster tp err w = .ok ended w') :
    Tracks (fun other => other = tp ∧ err = ErrNoError) (ended = some err ∧ err ≠ 0) w.manager w'.manager := by
  have allows := finishes_samePartitions.toAttempts
  unfold partitionAnswered at run
  split at run
  · next noError =>
    obtain ⟨_, u, changed, run⟩ := bind_eq_ok_iff.mp run
    injection changed with _ same
    injection run with _ last
    subst same last
    exact (tracks_acknowledged w.manager tp).mono (fun _ same => ⟨same, noError⟩) id
  next error =>
  split at run
  · refine tracks_of_moves ?_ run
    exact .bind (moves_exchange allows _ _) fun _ => .pure _
  split at run
  · exact tracks_of_moves (.pure _) run
  obtain ⟨_, u, changed, run⟩ := bind_eq_ok_iff.mp run
  injection changed with _ same
  subst same
  have moved : ∃ x : Txn KError, EStateM.Moves SamePartitions x ∧
      (do let _ ← x; return some err : Txn (Option KError))
        { w with manager := { w.manager with pendingPartitions := ∅ } } = .ok ended w' := by
    split at run
    · exact ⟨_, moves_transition allows (by decide) _, run⟩
    split at run
    · exact ⟨_, moves_abortable allows _, run⟩
    · exact ⟨_, moves_transition allows (by decide) _, run⟩
  obtain ⟨x, moves, run⟩ := moved
  obtain ⟨_, u, transition, run⟩ := bind_eq_ok_iff.mp run
  injection run with stopped last
  subst stopped last
  exact (tracks_dropped w.manager ⟨rfl, error⟩).trans (tracks_of_moves moves transition)

private theorem scanPartitionErrors_tracks {answer : PartitionErrors} {result : TxnResult}
    (run : scanPartitionErrors cluster answer w = .ok result w') : Tracks (fun tp => (tp, ErrNoError) ∈ answer)
      (result.retry = false ∧ result.error ≠ 0 ∧ ∃ tp, (tp, result.error) ∈ answer) w.manager w'.manager := by
  induction answer generalizing w with
  | nil =>
    refine tracks_of_moves ?_ run
    exact .bind moves_getManager fun _ => .ite (fun _ => .pure _) fun _ => .pure _
  | cons entry rest ih =>
    obtain ⟨tp, err⟩ := entry
    obtain ⟨ended, u, first, run⟩ := bind_eq_ok_iff.mp run
    have answered := partitionAnswered_tracks first
    have member : (tp, err) ∈ (tp, err) :: rest := List.mem_cons_self
    cases ended with
    | none =>
      refine Tracks.trans (answered.mono ?_ ?_) ((ih run).mono ?_ ?_)
      · rintro _ ⟨rfl, rfl⟩
        exact member
      · rintro ⟨none_, -⟩
        cases none_
      · exact fun _ later => List.mem_cons_of_mem _ later
      · rintro ⟨stopped, error, refused, later⟩
        exact ⟨stopped, error, refused, List.mem_cons_of_mem _ later⟩
    | some error =>
      injection run with stopped last
      subst stopped last
      refine answered.mono ?_ ?_
      · rintro _ ⟨rfl, rfl⟩
        exact member
      · rintro ⟨same, failed⟩
        obtain rfl : error = err := Option.some.inj same
        exact ⟨rfl, failed, tp, member⟩

theorem Answered.of_later {err : KError} (answered : Answered w v tp err) (grown : LogGrows v w') :
    Answered w w' tp err := by
  obtain ⟨request, answer, named, made⟩ := answered
  exact ⟨request, answer, named, made.of_later grown⟩

theorem Answered.of_earlier {err : KError} (grown : LogGrows w v) (answered : Answered v w' tp err) :
    Answered w w' tp err := by
  obtain ⟨request, answer, named, made⟩ := answered
  exact ⟨request, answer, named, made.of_earlier grown⟩

/-- The code was answered for some partition and is not success. -/
def Refused (w w' : TxnWorld) (code : KError) : Prop := code ≠ 0 ∧ ∃ tp, Answered w w' tp code

private theorem attempt_tracks {result : TxnResult} (run : publishTxnPartitionsAttempt cluster w = .ok result w') :
    Tracks (Answered w w' · ErrNoError) (result.retry = false ∧ Refused w w' result.error) w.manager w'.manager := by
  have allows := finishes_samePartitions.toAttempts
  obtain ⟨m, u, read, run⟩ := bind_eq_ok_iff.mp run
  injection read with same state
  subst same state
  split at run
  · exact tracks_of_moves (.pure _) run
  split at run
  · exact tracks_of_moves (.pure _) run
  obtain ⟨found, u, first, run⟩ := bind_eq_ok_iff.mp run
  have grown : LogGrows w u := (moves_exchange closed_logGrows.toAttempts _ _).on (fun _ => True) _ _ _ first trivial
  refine Tracks.trans (tracks_of_moves (moves_exchange allows _ _) first) ?_
  split at run
  · exact tracks_of_moves (.pure _) run
  obtain ⟨m, v, read, run⟩ := bind_eq_ok_iff.mp run
  injection read with same state
  subst same state
  obtain ⟨⟨err, answer⟩, v, sending, run⟩ := bind_eq_ok_iff.mp run
  have sent : SamePartitions u v := (moves_exchange allows _ _).on (fun _ => True) _ _ _ sending trivial
  refine Tracks.trans sent.tracks ?_
  obtain ⟨-, logged⟩ := exchange_ok sending
  dsimp only at run
  split at run
  · refine tracks_of_moves ?_ run
    exact .bind (moves_exchange allows _ _) fun _ => .pure _
  · next transport =>
    obtain rfl : err = ErrNoError := not_not.mp transport
    have scanned : LogGrows v w' := (moves_scanPartitionErrors closed_logGrows _).on (fun _ => True) _ _ _ run trivial
    have answered {tp : TopicPartition} {err : KError} (named : (tp, err) ∈ answer) : Answered w w' tp err := by
      have made : During u v (.addPartitionsToTxn (addPartitionsRequest u.manager) ErrNoError answer) :=
        ⟨[_], by rw [logged]; rfl, List.mem_singleton_self _⟩
      exact ⟨_, answer, named, (made.of_later scanned).of_earlier grown⟩
    refine (scanPartitionErrors_tracks run).mono (fun _ named => answered named) ?_
    rintro ⟨stopped, failed, tp, named⟩
    exact ⟨stopped, failed, tp, answered named⟩

private theorem attempts_track {n : ℕ} (run : retryLoop (publishTxnPartitionsAttempt cluster) n w = .ok code w') :
    Tracks (Answered w w' · ErrNoError) (Refused w w' code) w.manager w'.manager := by
  induction n generalizing w with
  | zero => exact tracks_of_moves (.pure _) run
  | succ n ih =>
    obtain ⟨⟨again, error⟩, u, head, tail⟩ := bind_eq_ok_iff.mp run
    have first := attempt_tracks head
    cases again with
    | false =>
      injection tail with same last
      subst same last
      exact first.mono (fun _ => id) And.right
    | true =>
      have grown : LogGrows w u := (moves_publishTxnPartitionsAttempt closed_logGrows).on (fun _ => True) _ _ _ head trivial
      have later : LogGrows u w' :=
        (moves_retryLoop (moves_publishTxnPartitionsAttempt closed_logGrows) n).on (fun _ => True) _ _ _ tail trivial
      refine Tracks.trans (first.mono (fun _ answered => answered.of_later later) ?_) ((ih tail).mono ?_ ?_)
      · rintro ⟨stopped, -⟩
        cases stopped
      · exact fun _ answered => answered.of_earlier grown
      · rintro ⟨failed, tp, answered⟩
        exact ⟨failed, tp, answered.of_earlier grown⟩

private theorem publishTxnPartitions_tracks (run : publishTxnPartitions cluster w = .ok code w') :
    Tracks (Answered w w' · ErrNoError) (Refused w w' code) w.manager w'.manager := by
  obtain ⟨m, u, read, run⟩ := bind_eq_ok_iff.mp run
  injection read with same state
  subst same state
  split at run
  · exact tracks_of_moves (.pure _) run
  split at run
  · exact tracks_of_moves (.pure _) run
  obtain ⟨m, u, read, run⟩ := bind_eq_ok_iff.mp run
  injection read with same state
  subst same state
  exact attempts_track run

/-! ## Every call -/

/-- A transaction that ends is cleared, or nothing of its partitions changes. -/
theorem finish_partitions {commit : Bool} (run : finishTransaction cluster commit w = .ok code w') :
    SamePartitions w w' ∨ code = 0 ∧ w'.manager.Cleared := by
  have finishes := finishes_samePartitions
  obtain ⟨m, u, read, run⟩ := bind_eq_ok_iff.mp run
  injection read with same state
  subst same state
  split at run
  · exact .inl ((EStateM.Moves.pure _).on (fun _ => True) _ _ _ run trivial)
  split at run
  · exact .inl ((EStateM.Moves.pure _).on (fun _ => True) _ _ _ run trivial)
  split at run
  · obtain ⟨returned, rfl⟩ := act_ok run
    rw [completeTransaction_eq] at returned ⊢
    split at returned
    · next valid =>
      rw [if_pos valid]
      exact .inr ⟨returned, rfl, rfl, rfl⟩
    · next invalid =>
      rw [if_neg invalid]
      exact .inl ⟨rfl, rfl⟩
  split at run
  · refine .inl (EStateM.Moves.on ?_ (fun _ => True) _ _ _ run trivial)
    refine .bind (moves_publishGroups finishes _) fun _ => ?_
    exact .ite (fun _ => .pure _) fun _ => moves_endTransaction finishes _ _
  · exact .inl ((moves_endTransaction finishes _ _).on (fun _ => True) _ _ _ run trivial)

theorem Registers.of_tracks (apart : w.manager.Disjoint)
    (tracks : Tracks (Answered w w' · ErrNoError) (Refused w w' code) w.manager w'.manager) : Registers w code w' where
  disjoint := tracks.disjoint apart
  registered := tracks.registered
  requested tp member := (tracks.requested tp member).imp_right (Or.imp_right .inl)

private theorem registers_of_cleared (ended : code = 0 ∧ w'.manager.Cleared) : Registers w code w' where
  disjoint tp member := by
    rw [ended.2.pendingPartitions] at member
    exact absurd member ExtTreeMap.not_mem_empty
  registered tp member := by
    rw [ended.2.partitions] at member
    exact absurd member ExtTreeMap.not_mem_empty
  requested _ _ := .inr (.inr (.inr ended))

/-- A request for a partition that is not registered makes it pending. -/
theorem tracks_request (m : TransactionManager) (topic : Bytes) (partition : Int32) :
    Tracks registers refused m (m.maybeAddPartitionToCurrentTxn topic partition) := by
  unfold maybeAddPartitionToCurrentTxn
  split
  · exact .of_same rfl rfl
  split
  · exact .of_same rfl rfl
  · next absent =>
    constructor
    · exact fun _ member => member
    · exact fun _ member => .inl member
    · exact fun _ member => .inl (ExtTreeMap.mem_insert.mpr (.inr member))
    · intro apart tp member
      rcases ExtTreeMap.mem_insert.mp member with same | earlier
      · rw [← Std.LawfulEqCmp.eq_of_compare same]
        exact absent
      · exact apart tp earlier

private theorem registers_call {c : Call} (apart : w.manager.Disjoint) (run : call cluster c w = .ok code w') :
    Registers w code w' := by
  have finishes := finishes_samePartitions
  cases c with
  | begin =>
    refine .of_tracks apart (tracks_of_moves ?_ run)
    intro w
    change SamePartitions w
      { w with manager := (if !w.manager.isTransactional then _ else _ : KError × TransactionManager).2 }
    split
    · exact ⟨rfl, rfl⟩
    · exact finishes.transition w _ (by decide)
  | addOffsets added groupId =>
    refine .of_tracks apart (tracks_of_moves ?_ run)
    intro w
    change SamePartitions w
      { w with manager := (if !w.manager.isTransactional then _ else _ : KError × TransactionManager).2 }
    unfold addOffsetsToTxn
    split_ifs <;> exact ⟨rfl, rfl⟩
  | addPartition topic partition =>
    injection run with _ last
    subst last
    exact .of_tracks apart (tracks_request w.manager topic partition)
  | publishPartitions => exact .of_tracks apart (publishTxnPartitions_tracks run)
  | finish commit =>
    obtain ⟨m, u, read, run⟩ := bind_eq_ok_iff.mp run
    injection read with same state
    subst same state
    split at run
    · exact .of_tracks apart (tracks_of_moves (.pure _) run)
    obtain ⟨_, u, dispatched, run⟩ := bind_eq_ok_iff.mp run
    have dispatch : EStateM.Moves SamePartitions (dispatchEnd commit) := by
      refine fun w => finishes.transition w 0 ?_
      cases commit <;> decide
    have first : SamePartitions w u := dispatch.on (fun _ => True) _ _ _ dispatched trivial
    rcases finish_partitions run with rest | ended
    · exact .of_tracks apart (trans_of SamePartitions first rest).tracks
    · exact registers_of_cleared ended

/-- Along every sequence of calls from a new manager, with every sequence of answers, pending and registered
partitions stay apart, also while a response is worked through; a partition is registered only on an answer
without an error, and a requested one is given up only by a publish that reports the error, or at the end of
the transaction. -/
theorem partitions_registered (cluster : TxnCluster) (conf : TxnConfig) (calls : List Call) :
    Along (KeepsPartitions cluster) (Step cluster) { manager := create conf } calls := by
  have keeps : ∀ w c w', w.manager.Disjoint → Step cluster w c w' → w'.manager.Disjoint := by
    rintro w c w' apart ⟨code, run⟩
    exact (registers_call apart run).disjoint
  have start : (create conf).Disjoint := fun _ member => absurd member ExtTreeMap.not_mem_empty
  refine Along.of_invariant keeps (fun w c apart => ?_) start calls
  constructor
  · exact apart
  · exact fun answer result v run => (scanPartitionErrors_tracks run).disjoint apart
  · exact fun code w' run => registers_call apart run

/-- A cluster that denies the topic `t`. -/
def denying : TxnCluster :=
  { obliging with addPartitionsToTxn := fun _ _ => (ErrNoError, [(([0x74], 0), ErrTopicAuthorizationFailed)]) }

/-- A requested partition is dropped by an answer that denies it: it is neither pending nor registered. -/
theorem denied_partition_dropped :
    ∃ w w', Reaches (Step denying) { manager := create transactionalConf } w ∧ ([0x74], 0) ∈ w.manager.pendingPartitions ∧
      call denying .publishPartitions w = .ok ErrTopicAuthorizationFailed w' ∧
      ([0x74], 0) ∉ w'.manager.pendingPartitions ∧ ([0x74], 0) ∉ w'.manager.partitions := by
  let opened : TxnWorld := (call denying (.finish true) { manager := create transactionalConf }).state
  let begun : TxnWorld := (call denying .begin opened).state
  let added : TxnWorld := (call denying (.addPartition [0x74] 0) begun).state
  have reached : Reaches (Step denying) { manager := create transactionalConf } added := by
    have first : Step denying _ (.finish true) opened := ⟨0, EStateM.Result.eq_ok_of_returned (by decide)⟩
    have second : Step denying opened .begin begun := ⟨0, EStateM.Result.eq_ok_of_returned (by decide)⟩
    have third : Step denying begun (.addPartition [0x74] 0) added := ⟨0, EStateM.Result.eq_ok_of_returned (by decide)⟩
    exact (((Reaches.refl _).tail first).tail second).tail third
  exact ⟨added, _, reached, by decide, EStateM.Result.eq_ok_of_returned (by decide), by decide, by decide⟩

end Coev.Kafka.TransactionManager
