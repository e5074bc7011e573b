import Coev.Model.Kafka.OffsetManager
import Coev.ToMathlib.EStateM
import Coev.ToMathlib.OrderedMap
import Coev.ToMathlib.Transition

/-! # When a clean partition is a committed one

Marks, resets, commit requests and their answers interleave freely, and requests of one partition may be
in flight together. An acknowledgement is compared with the pair that is current when it arrives, not
with the one that was current when its request was built.
-/

namespace Coev.Kafka.PartitionOffsetManager

open Transition

variable {pair : Int64 × Bytes}

/-- A manager, the pairs of its commit requests in flight, and the pairs the coordinator acknowledged,
latest first. -/
structure Committing where
  manager : PartitionOffsetManager
  inFlight : List (Int64 × Bytes) := []
  acknowledged : List (Int64 × Bytes)

/-- What can happen to a partition. -/
inductive Event where
  | mark (offset : Int64) (metadata : Bytes)
  | reset (offset : Int64) (metadata : Bytes)
  | request
  | acknowledge (pair : Int64 × Bytes)
  | refuse (pair : Int64 × Bytes) (returnErrors : Bool) (err : KError)
  | close

/-- A commit request takes up the manager when it is dirty; answers arrive in any order. -/
inductive Step : Committing → Event → Committing → Prop
  | mark (s : Committing) (offset : Int64) (metadata : Bytes) :
    Step s (.mark offset metadata) { s with manager := s.manager.markOffset offset metadata }
  | reset (s : Committing) (offset : Int64) (metadata : Bytes) :
    Step s (.reset offset metadata) { s with manager := s.manager.resetOffset offset metadata }
  | request (s : Committing) (dirty : s.manager.dirty = true) :
    Step s .request { s with inFlight := s.inFlight ++ [s.manager.current] }
  | acknowledge (s : Committing) (pair : Int64 × Bytes) (member : pair ∈ s.inFlight) :
    Step s (.acknowledge pair)
      { manager := s.manager.updateCommitted pair.1 pair.2
        inFlight := s.inFlight.erase pair
        acknowledged := pair :: s.acknowledged }
  | refuse (s : Committing) (pair : Int64 × Bytes) (returnErrors : Bool) (err : KError) (member : pair ∈ s.inFlight) :
    Step s (.refuse pair returnErrors err)
      { s with manager := s.manager.handleError returnErrors err, inFlight := s.inFlight.erase pair }
  | close (s : Committing) : Step s .close { s with manager := s.manager.asyncClose }

/-- A manager that starts from the pair fetched from the coordinator. -/
def fetched (manager : PartitionOffsetManager) : Committing :=
  { manager := { manager with dirty := false }, acknowledged := [manager.current] }

/-- A commit request is built when none of the partition is in flight. -/
def Serial (s : Committing) : Event → Prop
  | .request => s.inFlight = []
  | _ => True

/-! ## What the operations do to the pair and its flag -/

private theorem markOffset_eq_or (p : PartitionOffsetManager) (offset : Int64) (metadata : Bytes) :
    p.markOffset offset metadata = p ∨ (p.markOffset offset metadata).dirty = true := by
  unfold markOffset
  split
  · exact .inr rfl
  · exact .inl rfl

private theorem resetOffset_eq_or (p : PartitionOffsetManager) (offset : Int64) (metadata : Bytes) :
    p.resetOffset offset metadata = p ∨ (p.resetOffset offset metadata).dirty = true := by
  unfold resetOffset
  split
  · exact .inr rfl
  · exact .inl rfl

private theorem updateCommitted_of_eq {p : PartitionOffsetManager} (same : p.current = pair) :
    p.updateCommitted pair.1 pair.2 = { p with dirty := false } := by
  subst same
  exact if_pos ⟨rfl, rfl⟩

/-- An acknowledgement of another pair changes nothing. -/
private theorem updateCommitted_of_ne {p : PartitionOffsetManager} (other : p.current ≠ pair) :
    p.updateCommitted pair.1 pair.2 = p := by
  refine if_neg ?_
  rintro ⟨offset, metadata⟩
  exact other (Prod.ext offset metadata)

private theorem handleError_current (p : PartitionOffsetManager) (returnErrors : Bool) (err : KError) :
    (p.handleError returnErrors err).current = p.current ∧ (p.handleError returnErrors err).dirty = p.dirty := by
  unfold handleError
  split <;> exact ⟨rfl, rfl⟩

/-! ## Any interleaving -/

/-- A clean manager holds a pair that the coordinator acknowledged. -/
def Acknowledged (s : Committing) : Prop := s.manager.dirty = false → s.manager.current ∈ s.acknowledged

variable {s t : Committing} {event : Event}

theorem Step.acknowledged (held : Acknowledged s) (step : Step s event t) : Acknowledged t := by
  intro clean
  cases step with
  | mark offset metadata =>
    rcases s.manager.markOffset_eq_or offset metadata with same | dirty
    · rw [same] at clean ⊢
      exact held clean
    · exact absurd (clean.symm.trans dirty) Bool.false_ne_true
  | reset offset metadata =>
    rcases s.manager.resetOffset_eq_or offset metadata with same | dirty
    · rw [same] at clean ⊢
      exact held clean
    · exact absurd (clean.symm.trans dirty) Bool.false_ne_true
  | request dirty => exact held clean
  | acknowledge pair member =>
    by_cases same : s.manager.current = pair
    · rw [updateCommitted_of_eq same]
      exact List.mem_cons.mpr (.inl same)
    · rw [updateCommitted_of_ne same] at clean ⊢
      exact List.mem_cons.mpr (.inr (held clean))
  | refuse pair returnErrors err member =>
    obtain ⟨current, dirty⟩ := s.manager.handleError_current returnErrors err
    rw [current]
    exact held (dirty.symm.trans clean)
  | close => exact held clean

/-- Only the acknowledgement of its current pair cleans a dirty manager. -/
theorem Step.cleans (step : Step s event t) (dirty : s.manager.dirty = true) (clean : t.manager.dirty = false) :
    event = .acknowledge s.manager.current := by
  have still : ¬ s.manager.dirty = false := fun clean => absurd (clean.symm.trans dirty) Bool.false_ne_true
  have differs {p : PartitionOffsetManager} (clean : p.dirty = false) : ¬ (p = s.manager ∨ p.dirty = true) := by
    rintro (rfl | dirty')
    · exact still clean
    · exact absurd (clean.symm.trans dirty') Bool.false_ne_true
  cases step with
  | mark offset metadata => exact absurd (s.manager.markOffset_eq_or offset metadata) (differs clean)
  | reset offset metadata => exact absurd (s.manager.resetOffset_eq_or offset metadata) (differs clean)
  | request | close => exact absurd clean still
  | acknowledge pair member =>
    by_cases same : s.manager.current = pair
    · rw [same]
    · rw [updateCommitted_of_ne same] at clean
      exact absurd clean still
  | refuse pair returnErrors err member =>
    rw [(s.manager.handleError_current returnErrors err).2] at clean
    exact absurd clean still

/-! ## Requests one at a time -/

/-- While a request is in flight the manager stays dirty, and a clean manager holds the latest acknowledged pair. -/
structure Settled (s : Committing) : Prop where
  single : s.inFlight.length ≤ 1
  waiting : s.inFlight ≠ [] → s.manager.dirty = true
  latest : s.manager.dirty = false → s.acknowledged.head? = some s.manager.current

theorem Settled.of_eq_or {s : Committing} {manager : PartitionOffsetManager} (settled : Settled s)
    (changed : manager = s.manager ∨ manager.dirty = true) : Settled { s with manager } := by
  rcases changed with rfl | dirty
  · exact settled
  · exact ⟨settled.single, fun _ => dirty, fun clean => absurd (clean.symm.trans dirty) Bool.false_ne_true⟩

/-- Answering the only request leaves none in flight. -/
theorem Settled.erase_eq_nil {s : Committing} (settled : Settled s) (member : pair ∈ s.inFlight) :
    s.inFlight.erase pair = [] := by
  have length := List.length_erase_of_mem member
  have single := settled.single
  exact List.eq_nil_of_length_eq_zero (by omega)

theorem Step.settled (settled : Settled s) (serial : Serial s event) (step : Step s event t) : Settled t := by
  cases step with
  | mark offset metadata => exact settled.of_eq_or (s.manager.markOffset_eq_or offset metadata)
  | reset offset metadata => exact settled.of_eq_or (s.manager.resetOffset_eq_or offset metadata)
  | request dirty =>
    refine ⟨?_, fun _ => dirty, settled.latest⟩
    rw [show s.inFlight = [] from serial]
    exact Nat.le_refl 1
  | acknowledge pair member =>
    have none_ := settled.erase_eq_nil member
    refine ⟨?_, fun some_ => absurd none_ some_, fun clean => ?_⟩
    · rw [none_]
      exact Nat.zero_le 1
    · by_cases same : s.manager.current = pair
      · rw [updateCommitted_of_eq same]
        exact congrArg some same.symm
      · -- the manager is dirty while its request is in flight, and stays so
        rw [updateCommitted_of_ne same] at clean
        have dirty := settled.waiting (List.ne_nil_of_mem member)
        exact absurd (clean.symm.trans dirty) Bool.false_ne_true
  | refuse pair returnErrors err member =>
    obtain ⟨current, dirty⟩ := s.manager.handleError_current returnErrors err
    have none_ := settled.erase_eq_nil member
    refine ⟨?_, fun some_ => absurd none_ some_, fun clean => ?_⟩
    · rw [none_]
      exact Nat.zero_le 1
    · rw [current]
      exact settled.latest (dirty.symm.trans clean)
  | close => exact ⟨settled.single, settled.waiting, settled.latest⟩

/-- In every run from a fetched pair, a clean manager holds a pair that the coordinator acknowledged, and
the latest one when its requests do not overlap; no acknowledgement of another pair changes it, and a dirty
one stays dirty until its current pair is acknowledged. -/
theorem clean_acknowledged (manager : PartitionOffsetManager) :
    (∀ s, Reaches Step (fetched manager) s → s.manager.dirty = false → s.manager.current ∈ s.acknowledged) ∧
    (∀ s, Reaches (When Serial Step) (fetched manager) s → s.manager.dirty = false →
      s.acknowledged.head? = some s.manager.current) ∧
    (∀ s pair t, Step s (.acknowledge pair) t → pair ≠ s.manager.current → t.manager = s.manager) ∧
    (∀ s event t, Step s event t → s.manager.dirty = true → t.manager.dirty = false →
      event = .acknowledge s.manager.current) := by
  refine ⟨fun s run => ?_, fun s run => ?_, fun s pair t step other => ?_, fun s event t step => step.cleans⟩
  · have start : Acknowledged (fetched manager) := fun _ => List.mem_singleton_self _
    exact run.invariant (fun _ _ _ held step => step.acknowledged held) start
  · have start : Settled (fetched manager) := ⟨Nat.zero_le 1, fun some_ => absurd rfl some_, fun _ => rfl⟩
    have settled := run.invariant (fun _ _ _ settled step => step.2.settled settled step.1) start
    exact settled.latest
  · cases step
    exact updateCommitted_of_ne other.symm

/-- Offset 10 is committed, 20 is marked and committed, and the partition is reset to 10 before the
answers: the first acknowledgement cleans it, the second leaves it clean with 20 at the coordinator. -/
theorem reset_before_answers_stays_clean :
    ∃ s, Reaches Step (fetched { topic := [], partition := 0, offset := 0, metadata := [] }) s ∧
      s.manager.dirty = false ∧ s.manager.current = (10, []) ∧ s.acknowledged.head? = some (20, []) := by
  refine ⟨_, ((((((((Reaches.refl _).tail (.mark _ 10 [])).tail (.request _ ?_)).tail (.mark _ 20 [])).tail
    (.request _ ?_)).tail (.reset _ 10 [])).tail (.acknowledge _ (10, []) ?_)).tail
    (.acknowledge _ (20, []) ?_)), ?_, ?_, ?_⟩ <;> decide

end Coev.Kafka.PartitionOffsetManager

/-! # What a flush commits

The request holds the right blocks, but its code is the wrong way round: a request with blocks is given
up, and one without blocks goes on to a broker that `coordinator` never stored in the caller's variable.
So no commit request is ever sent.
-/

namespace Coev.Kafka.OffsetManager

open Std

variable {m : OffsetManager}

/-! ## The request and the answer of a commit, partition by partition -/

/-- Every managed partition is filed under its own topic and partition, as `manage_partition` does. -/
def Filed (m : OffsetManager) : Prop := ∀ (key : TopicPartition) (pom : PartitionOffsetManager), m.poms[key]? = some pom →
  (pom.topic, pom.partition) = key

/-- The block of a dirty partition. -/
def dirtyBlock (commitTimestamp : Int64) (pom : PartitionOffsetManager) : Option OffsetCommitRequestBlock :=
  if pom.dirty then some ⟨pom.offset, commitTimestamp, pom.leaderEpoch, pom.metadata⟩ else none

/-- The timestamp that `construct_request` gives all its blocks. -/
def commitTimestamp (m : OffsetManager) : Int64 := if m.requestHeader.version = 1 then receiveTime else 0

private theorem addDirty_blocks (timestamp : Int64) (request : OffsetCommitRequest)
    {entry : TopicPartition × PartitionOffsetManager}
    (filed : (entry.2.topic, entry.2.partition) = entry.1) : (addDirty timestamp request entry.2).blocks =
      ExtTreeMap.insertSelected (dirtyBlock timestamp) request.blocks entry := by
  unfold addDirty ExtTreeMap.insertSelected dirtyBlock
  cases entry.2.dirty with
  | false => rfl
  | true =>
    rw [if_pos rfl, if_pos rfl, ← filed]
    rfl

private theorem foldl_addDirty_blocks (timestamp : Int64) {entries : List (TopicPartition × PartitionOffsetManager)}
    (filed : ∀ entry ∈ entries, (entry.2.topic, entry.2.partition) = entry.1) (request : OffsetCommitRequest) :
    (entries.foldl (fun request entry => addDirty timestamp request entry.2) request).blocks =
      entries.foldl (ExtTreeMap.insertSelected (dirtyBlock timestamp)) request.blocks := by
  induction entries generalizing request with
  | nil => rfl
  | cons entry entries ih =>
    obtain ⟨first, filed⟩ := List.forall_mem_cons.mp filed
    rw [List.foldl_cons, List.foldl_cons, ih filed, addDirty_blocks timestamp request first]

/-- The request once the loop has gone over all managed partitions. -/
def filledRequest (m : OffsetManager) : OffsetCommitRequest :=
  m.poms.toList.foldl (fun request entry => addDirty m.commitTimestamp request entry.2) m.requestHeader

private theorem constructRequest_eq (m : OffsetManager) :
    m.constructRequest = (if m.filledRequest.blocks.isEmpty then ErrNoError else INVALID, m.filledRequest) := by
  change (if ¬ m.filledRequest.blocks.isEmpty = true then (INVALID, m.filledRequest) else (ErrNoError, m.filledRequest)) = _
  rw [ite_not]
  split <;> rfl

/-- The request holds one block for each dirty partition, with its current pair, and no other. -/
private theorem constructRequest_blocks (filed : m.Filed) (key : TopicPartition) :
    m.constructRequest.2.blocks[key]? = m.poms[key]?.bind (dirtyBlock m.commitTimestamp) := by
  have entries : ∀ entry ∈ m.poms.toList, (entry.2.topic, entry.2.partition) = entry.1 := by
    rintro ⟨key, pom⟩ member
    exact filed key pom (ExtTreeMap.mem_toList_iff_getElem?_eq_some.mp member)
  rw [constructRequest_eq, filledRequest, foldl_addDirty_blocks _ entries]
  exact ExtTreeMap.getElem?_foldl_toList m.poms key

/-- Some managed partition is dirty. -/
def SomeDirty (m : OffsetManager) : Prop :=
  ∃ (key : TopicPartition) (pom : PartitionOffsetManager), m.poms[key]? = some pom ∧ pom.dirty = true

private theorem blocks_eq_empty_iff (filed : m.Filed) : m.constructRequest.2.blocks.isEmpty = true ↔ ¬ m.SomeDirty := by
  rw [ExtTreeMap.isEmpty_iff]
  constructor
  · rintro empty ⟨key, pom, managed, dirty⟩
    have block := constructRequest_blocks filed key
    rw [empty, managed, ExtTreeMap.getElem?_empty] at block
    simp only [Option.bind_some, dirtyBlock, dirty, if_true] at block
    cases block
  · intro clean
    refine ExtTreeMap.ext_getElem? fun key => ?_
    rw [constructRequest_blocks filed, ExtTreeMap.getElem?_empty]
    cases managed : m.poms[key]? with
    | none => rfl
    | some pom =>
      have notDirty : ¬ pom.dirty = true := fun dirty => clean ⟨key, pom, managed, dirty⟩
      exact if_neg notDirty

/-- The code says that a request was built exactly when there is nothing to commit. -/
private theorem constructRequest_fst (filed : m.Filed) : m.constructRequest.1 = ErrNoError ↔ ¬ m.SomeDirty := by
  rw [← blocks_eq_empty_iff filed, constructRequest_eq]
  dsimp only
  split
  · next none_ => exact iff_of_true rfl none_
  · next some_ => exact iff_of_false (by decide) some_

variable {cluster : Cluster}

/-- The commit requests among the exchanges. -/
def commits (log : List Exchange) : List OffsetCommitRequest :=
  log.filterMap fun
    | .offsetCommit _ request _ _ => some request
    | _ => none

/-- A flush that obtains a coordinator sends one request, with exactly the dirty partitions, when there is
one of them, and none otherwise. -/
structure Complete (cluster : Cluster) (s : Session) : Prop where
  blocks (key : TopicPartition) :
    s.manager.constructRequest.2.blocks[key]? = s.manager.poms[key]?.bind (dirtyBlock s.manager.commitTimestamp)
  built : s.manager.constructRequest.1 = ErrNoError ↔ s.manager.SomeDirty
  sent (s' : Session) : coordinator cluster none s = .ok ErrNoError s' → s.manager.SomeDirty →
    commits (flushToBroker cluster s).state.log = s.manager.constructRequest.2 :: commits s.log

/-! ## Closing with something to commit -/

/-- A manager whose partitions were told to close, with something to commit. -/
structure Closing (m : OffsetManager) : Prop where
  filed : m.Filed
  dirty : m.SomeDirty
  done : ∀ (key : TopicPartition) (pom : PartitionOffsetManager), m.poms[key]? = some pom → pom.done = true

/-- What changes no name and no mark of a partition changes nothing here. -/
theorem Closing.of_map {m m' : OffsetManager} {f : PartitionOffsetManager → PartitionOffsetManager} (filed : m.Filed)
    (dirty : m.SomeDirty) (same : m'.poms = m.poms.map fun _ => f)
    (keeps : ∀ pom, ((f pom).topic, (f pom).partition) = (pom.topic, pom.partition) ∧ (f pom).dirty = pom.dirty)
    (done : ∀ (key : TopicPartition) (pom : PartitionOffsetManager), m.poms[key]? = some pom → (f pom).done = true) :
    m'.Closing := by
  have found (key : TopicPartition) : m'.poms[key]? = m.poms[key]?.map f := by rw [same, ExtTreeMap.getElem?_map]
  refine ⟨fun key pom managed => ?_, ?_, fun key pom managed => ?_⟩
  · obtain ⟨old, before, rfl⟩ := Option.map_eq_some_iff.mp ((found key).symm.trans managed)
    exact (keeps old).1.trans (filed key old before)
  · obtain ⟨key, pom, managed, dirty⟩ := dirty
    exact ⟨key, f pom, by rw [found, managed, Option.map_some], (keeps pom).2.trans dirty⟩
  · obtain ⟨old, before, rfl⟩ := Option.map_eq_some_iff.mp ((found key).symm.trans managed)
    exact done key old before

theorem Closing.handleError {m : OffsetManager} (closing : m.Closing) (err : KError) : (m.handleError err).Closing := by
  refine .of_map closing.filed closing.dirty rfl (fun pom => ?_) fun key pom managed => ?_
  all_goals unfold PartitionOffsetManager.handleError; split
  · exact ⟨rfl, rfl⟩
  · exact ⟨rfl, rfl⟩
  · exact closing.done key pom managed
  · exact closing.done key pom managed

private theorem getElem?_releasePoms (m : OffsetManager) (force : Bool) (key : TopicPartition) :
    (m.releasePoms force).2.poms[key]? = m.poms[key]?.filter fun pom => !releaseDue force pom := by
  unfold releasePoms
  rw [ExtTreeMap.getElem?_filter']

/-- A partition with something to commit is not released without force. -/
theorem Closing.releasePoms {m : OffsetManager} (closing : m.Closing) :
    (m.releasePoms false).2.Closing ∧ (m.releasePoms false).1 ≠ 0 := by
  have kept {key : TopicPartition} {pom : PartitionOffsetManager}
      (managed : (m.releasePoms false).2.poms[key]? = some pom) : m.poms[key]? = some pom := by
    rw [getElem?_releasePoms] at managed
    exact (Option.filter_eq_some_iff.mp managed).1
  obtain ⟨key, pom, managed, dirty⟩ := closing.dirty
  have stays : (m.releasePoms false).2.poms[key]? = some pom := by
    rw [getElem?_releasePoms, managed]
    exact Option.filter_eq_some_iff.mpr ⟨rfl, by simp [releaseDue, dirty]⟩
  refine ⟨⟨fun key pom managed => closing.filed key pom (kept managed), ⟨key, pom, stays, dirty⟩,
    fun key pom managed => closing.done key pom (kept managed)⟩, fun none_ => ?_⟩
  have empty : (m.releasePoms false).2.poms = ∅ := ExtTreeMap.eq_empty_iff_size_eq_zero.mpr none_
  rw [empty, ExtTreeMap.getElem?_empty] at stays
  cases stays

/-- A session that is closed: nothing was sent, and there still is something to commit. -/
def Unsent (s t : Session) : Prop := t.manager.Closing ∧ commits t.log = commits s.log

/-- A flush with something to commit sends nothing. -/
theorem Closing.flushToBroker {s : Session} (closing : s.manager.Closing) :
    ∃ t, flushToBroker cluster s = .ok () t ∧ Unsent s t := by
  have held (broker : Option ℕ) : Closing { s.manager with broker } := ⟨closing.filed, closing.dirty, closing.done⟩
  have stops (broker : Option ℕ) : ({ s.manager with broker } : OffsetManager).constructRequest.1 ≠ ErrNoError :=
    fun built => (constructRequest_fst (held broker).filed).mp built (held broker).dirty
  let log : List Exchange := .refreshCoordinator (cluster.refreshCoordinator s.log) :: s.log
  let found := cluster.getCoordinator log
  let manager : OffsetManager := { s.manager with broker := found.2 }
  -- `refreshCoordinator` and `getCoordinator` each end the look-up when they fail
  by_cases refreshed : cluster.refreshCoordinator s.log = ErrNoError
  · have looked : coordinator cluster none s = .ok found.1 ⟨manager, .getCoordinator found.1 found.2 :: log⟩ := by
      simp [coordinator, refreshCoordinator, getCoordinator, EStateM.bind_apply, log, found, manager, refreshed]
    unfold OffsetManager.flushToBroker
    rw [EStateM.bind_of_ok looked]
    by_cases notFound : found.1 = ErrNoError
    · rw [if_neg (not_not.mpr notFound), EStateM.get_bind_apply]
      refine ⟨⟨manager, .getCoordinator found.1 found.2 :: log⟩, ?_, held found.2, rfl⟩
      change (if manager.constructRequest.1 ≠ ErrNoError then pure ()
        else exchangeCommit cluster none manager.constructRequest.2) _ = _
      rw [if_pos (stops found.2)]
      rfl
    · rw [if_pos notFound]
      exact ⟨_, rfl, (held _).handleError _, rfl⟩
  · have looked : coordinator cluster none s = .ok (cluster.refreshCoordinator s.log) ⟨s.manager, log⟩ := by
      simp [coordinator, refreshCoordinator, EStateM.bind_apply, log, refreshed]
      rfl
    unfold OffsetManager.flushToBroker
    rw [EStateM.bind_of_ok looked, if_pos refreshed]
    exact ⟨_, rfl, closing.handleError _, rfl⟩

/-- The attempts of `close` send nothing, and leave what there is to commit. -/
theorem Closing.closeAttempts {s : Session} (closing : s.manager.Closing) (attempts : ℕ) :
    ∃ t, closeAttempts cluster attempts s = .ok () t ∧ Unsent s t := by
  induction attempts generalizing s with
  | zero => exact ⟨s, rfl, closing, rfl⟩
  | succ attempts ih =>
    obtain ⟨t, flushed, remains, unsent⟩ := @Closing.flushToBroker cluster s closing
    obtain ⟨released, some_⟩ := remains.releasePoms
    obtain ⟨u, others, later, same⟩ := ih (s := { t with manager := (t.manager.releasePoms false).2 }) released
    refine ⟨u, ?_, later, same.trans unsent⟩
    rw [OffsetManager.closeAttempts, EStateM.bind_of_ok flushed, EStateM.get_bind_apply]
    change (if (t.manager.releasePoms false).1 = 0 then pure () else OffsetManager.closeAttempts cluster attempts) _ = _
    rw [if_neg some_]
    exact others

/-- `close` releases every partition in the end, and has sent nothing if there was something to commit. -/
private theorem close_unsent {s : Session} (filed : s.manager.Filed) (dirty : s.manager.SomeDirty)
    (open_ : s.manager.closing = false) :
    ∃ t, close cluster s = .ok ErrNoError t ∧ t.manager.poms = ∅ ∧ commits t.log = commits s.log := by
  let told : Session := { s with manager := { s.manager with closing := true }.asyncClosePoms }
  have closing : told.manager.Closing := .of_map filed dirty rfl (fun _ => ⟨rfl, rfl⟩) fun _ _ _ => rfl
  have attempted : ∃ t, (if s.manager.conf.autoCommit then
      closeAttempts cluster (s.manager.conf.retryMax.toInt + 1).toNat else pure ()) told = .ok () t ∧ Unsent told t := by
    split
    · exact closing.closeAttempts _
    · exact ⟨told, rfl, closing, rfl⟩
  obtain ⟨t, run, remains, unsent⟩ := attempted
  refine ⟨{ t with manager := { (t.manager.releasePoms true).2 with broker := none } }, ?_, ?_, unsent⟩
  · unfold close
    rw [EStateM.get_bind_apply]
    dsimp only
    rw [if_neg (by rw [open_]; decide)]
    change (if s.manager.conf.autoCommit = true then _ >>= _ else _ : Routine KError) told = _
    split_ifs at run ⊢ with automatic
    · rw [EStateM.bind_of_ok run]
      rfl
    · cases run
      rfl
  · refine ExtTreeMap.ext_getElem? fun key => ?_
    change (t.manager.releasePoms true).2.poms[key]? = _
    rw [getElem?_releasePoms, ExtTreeMap.getElem?_empty, Option.filter_eq_none_iff]
    intro pom managed
    simp [releaseDue, remains.done key pom managed]

/-- Whatever is managed, the code of `construct_request` does not say whether a request was built, and so
no flush does what it is for; and `close` gives up what there is to commit without a request. -/
theorem commit_never_complete (cluster : Cluster) {s : Session} (filed : s.manager.Filed) : ¬ Complete cluster s ∧
    (s.manager.SomeDirty → s.manager.closing = false →
      ∃ t, close cluster s = .ok ErrNoError t ∧ t.manager.poms = ∅ ∧ commits t.log = commits s.log) := by
  refine ⟨fun complete => ?_, close_unsent filed⟩
  have built := complete.built
  rw [constructRequest_fst filed] at built
  exact iff_not_self built.symm

/-- A manager with nothing to commit. -/
def idle : OffsetManager :=
  { conf := { version := V2_1_0_0 }, group := [], memberId := [], groupInstanceId := [], generation := 0 }

/-- A cluster whose first broker coordinates and acknowledges everything with an empty response. -/
def agreeable : Cluster :=
  ⟨fun _ => ErrNoError, fun _ => (ErrNoError, some 1), fun _ _ _ => (ErrNoError, ∅)⟩

/-- A manager of partition 0 of one topic, marked at offset 7. -/
def marked : OffsetManager :=
  { idle with
    poms := ExtTreeMap.insert ∅ ([0x74], 0) { topic := [0x74], partition := 0, offset := 7, metadata := [], dirty := true } }

private theorem marked_dirty : marked.SomeDirty := ⟨([0x74], 0), _, ExtTreeMap.getElem?_insert_self, rfl⟩

/-- The marked offset is given up, also when the manager is closed. -/
theorem marked_given_up : ¬ Complete agreeable { manager := marked } ∧
    ∃ t, close agreeable { manager := marked } = .ok ErrNoError t ∧ t.manager.poms = ∅ ∧ commits t.log = [] := by
  have filed : marked.Filed := fun key pom managed => by
    rw [show marked.poms = ExtTreeMap.insert ∅ _ _ from rfl, ExtTreeMap.getElem?_insert] at managed
    split at managed
    · next same => exact Option.some.inj managed ▸ LawfulEqCmp.compare_eq_iff_eq.mp same
    · cases managed
  have both := commit_never_complete agreeable (s := { manager := marked }) filed
  exact ⟨both.1, both.2 marked_dirty rfl⟩

/-- The marked offset is put into a request that is not sent. -/
theorem marked_not_committed : marked.constructRequest.1 = INVALID ∧ marked.constructRequest.2.blocks.isEmpty = false ∧
      ¬ Complete agreeable { manager := marked } := by
  refine ⟨by decide, by decide, fun complete => ?_⟩
  have built : marked.constructRequest.1 = ErrNoError := complete.built.mpr marked_dirty
  revert built
  decide

end Coev.Kafka.OffsetManager
