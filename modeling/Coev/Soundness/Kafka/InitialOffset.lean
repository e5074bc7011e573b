import Coev.Model.Kafka.InitialOffset

/-! # Fetching the offset at which a partition begins

A look-up of the coordinator that succeeds fills the pointer of the manager, and the request goes through the other one.
So no offset is ever fetched; and `manage_partition` asks for none.
-/

namespace Coev.Kafka.OffsetManager.Initial

variable {conf : MetadataConfig} {topic : Bytes} {partition : Int32} {retries : ℕ} {w : InitialWorld}
  {trace : List (Sigma InitialCall.Answer)} {fetched : Fetched} {backoff : ℤ}
    {again : Option (InitialWorld → Initial Fetched)}

/-! ## The property -/

/-- An attempt begins with the look-up of the coordinator. -/
def isLookup : Sigma InitialCall.Answer → Bool
  | ⟨.refreshCoordinator, _⟩ => true
  | _ => false

/-- The look-up set this broker, if any. -/
def LookedUp (trace : List (Sigma InitialCall.Answer)) (broker : Option ℕ) : Prop :=
  ⟨.getCoordinator, ((0 : KError), broker)⟩ ∈ trace

/-- An answer without an error has the block for the partition, without an error. -/
def Answered (topic : Bytes) (partition : Int32) (trace : List (Sigma InitialCall.Answer)) (initial : InitialOffset) :
    Prop :=
  ∃ broker request response block, ⟨.fetchOffset broker request, ((0 : KError), response)⟩ ∈ trace ∧
    OffsetFetchResponse.getBlock response topic partition = some block ∧ block.err.toInt = ErrNoError ∧
    initial = ⟨block.offset, block.leaderEpoch, block.metadata⟩

structure Fetches (topic : Bytes) (partition : Int32) (retries : ℕ) (w : InitialWorld)
    (trace : List (Sigma InitialCall.Answer))
    (fetched : Fetched) : Prop where
  attempts : trace.countP isLookup ≤ retries + 1
  /-- No request goes through the null pointer. -/
  pointed : fetched.result ≠ .error .nullPointer
  sent : ∀ broker request answer, ⟨.fetchOffset broker request, answer⟩ ∈ trace → LookedUp trace (some broker)
  obtained : ∀ out, fetched.result = .ok (0, out) → ∃ initial, out = some initial ∧ Answered topic partition trace initial
  closing : fetched.world.manager.closing = w.manager.closing ∧ fetched.world.closedSets = w.closedSets

/-- What `manage_partition` registers begins with the committed values. -/
def Resumes (m : OffsetManager) (topic : Bytes) (partition : Int32) (committed : InitialOffset) : Prop :=
  ∀ m', m.managePartition topic partition = .ok m' → ∃ pom, m'.poms[(topic, partition)]? = some pom ∧
    committed = ⟨pom.offset, pom.leaderEpoch, pom.metadata⟩

/-! ## An attempt -/

/-- The ways through one look-up of the coordinator. -/
inductive LookupRun (w : InitialWorld) : List (Sigma InitialCall.Answer) → KError × Option ℕ × InitialWorld → Prop
  | refused (err : KError) (failed : err ≠ 0) : LookupRun w [⟨.refreshCoordinator, err⟩] (err, none, w)
  | answered (err : KError) (found : Option ℕ) :
    LookupRun w [⟨.refreshCoordinator, (0 : KError)⟩, ⟨.getCoordinator, (err, found)⟩]
      (err, none, { w with manager := { w.manager with broker := found } })

private theorem lookupRun_of_runs {result : KError × Option ℕ × InitialWorld}
    (run : (coordinator w none).Runs trace result) :
    LookupRun w trace result := by
  obtain ⟨err, rest, rfl, run⟩ := run
  simp only [Calls.bind] at run
  split_ifs at run with failed
  · obtain ⟨rfl, rfl⟩ := run
    exact .refused err failed
  · obtain rfl : err = 0 := not_not.mp failed
    obtain ⟨⟨err, found⟩, rest, rfl, rfl, rfl⟩ := run
    exact .answered err found

/-- An attempt whose look-up fails, and the rest of the run. -/
structure Refused (again : Option (InitialWorld → Initial Fetched)) (w : InitialWorld)
    (trace : List (Sigma InitialCall.Answer))
    (fetched : Fetched) : Prop where
  split : ∃ before after err next, trace = before ++ after ∧ err ≠ 0 ∧ before.countP isLookup = 1 ∧
    (∀ broker, ¬ LookedUp before broker) ∧ (∀ broker request answer, ⟨.fetchOffset broker request, answer⟩ ∉ before) ∧
    next.manager.closing = w.manager.closing ∧ next.closedSets = w.closedSets ∧
    (retry again err next next).Runs after fetched

/-- Every attempt ends in the null pointer, or its look-up fails. -/
private theorem attempt_run (run : (attempt backoff again topic partition w).Runs trace fetched) :
    (∃ broker, LookedUp trace broker ∧ fetched.result = .error .nullPointer) ∨ Refused again w trace fetched := by
  obtain ⟨before, after, ⟨err, broker, w'⟩, rfl, looked, run⟩ := Calls.runs_bind_iff.mp run
  dsimp only at run
  cases lookupRun_of_runs looked with
  | refused err failed =>
    rw [if_pos failed] at run
    exact .inr ⟨⟨_, after, err, w, rfl, failed, rfl, by simp [LookedUp], by simp, rfl, rfl, run⟩⟩
  | answered _ found =>
    split_ifs at run with failed
    · refine .inr ⟨⟨_, after, err, { w with manager := { w.manager with broker := found } }, rfl, failed, rfl, ?_, by simp,
        rfl, rfl, run⟩⟩
      intro broker looked
      simp only [LookedUp, List.mem_cons, Sigma.mk.injEq, reduceCtorEq, false_and, heq_eq_eq, Prod.mk.injEq, true_and,
        List.not_mem_nil, or_false, false_or] at looked
      exact failed looked.1.symm
    · obtain ⟨rfl, rfl⟩ := run
      refine .inl ⟨found, ?_, rfl⟩
      rw [not_not] at failed
      rw [List.append_nil, failed]
      exact List.mem_cons_of_mem _ (List.mem_singleton.mpr rfl)

/-! ## All attempts -/

/-- Every attempt was refused at its look-up. -/
structure GaveUp (retries : ℕ) (w : InitialWorld) (trace : List (Sigma InitialCall.Answer)) (fetched : Fetched) : Prop where
  attempts : trace.countP isLookup = retries + 1
  unanswered : ∀ broker, ¬ LookedUp trace broker
  unsent : ∀ broker request answer, ⟨.fetchOffset broker request, answer⟩ ∉ trace
  result : ∃ err, err ≠ 0 ∧ fetched.result = .ok (err, none)
  closing : fetched.world.manager.closing = w.manager.closing ∧ fetched.world.closedSets = w.closedSets

private theorem attempts_run (run : (attempts conf topic partition retries w).Runs trace fetched) :
    (∃ broker, LookedUp trace broker ∧ fetched.result = .error .nullPointer) ∨ GaveUp retries w trace fetched := by
  induction retries generalizing w trace with
  | zero =>
    refine (attempt_run run).imp_right ?_
    rintro ⟨before, after, err, next, rfl, failed, counted, unanswered, unsent, closing, closed, rfl, rfl⟩
    rw [List.append_nil]
    exact ⟨counted, unanswered, unsent, ⟨err, failed, rfl⟩, closing, closed⟩
  | succ retries ih =>
    rcases attempt_run run with
      null | ⟨before, after, err, next, rfl, failed, counted, unanswered, unsent, closing, closed, later⟩
    · exact .inl null
    rcases ih later with ⟨broker, found, null⟩ | gaveUp
    · exact .inl ⟨broker, List.mem_append_right before found, null⟩
    refine .inr ⟨?_, ?_, ?_, gaveUp.result, gaveUp.closing.1.trans closing, gaveUp.closing.2.trans closed⟩
    · rw [List.countP_append, counted, gaveUp.attempts, Nat.add_comm]
    · exact fun broker found => (List.mem_append.mp found).elim (unanswered broker) (gaveUp.unanswered broker)
    · exact fun broker request answer sent =>
        (List.mem_append.mp sent).elim (unsent broker request answer) (gaveUp.unsent broker request answer)

private theorem fetches_of_gaveUp (gaveUp : GaveUp retries w trace fetched) :
    Fetches topic partition retries w trace fetched where
  attempts := gaveUp.attempts.le
  pointed := by
    obtain ⟨err, -, returned⟩ := gaveUp.result
    simp [returned]
  sent broker request answer sent := absurd sent (gaveUp.unsent broker request answer)
  obtained out ok := by
    obtain ⟨err, failed, returned⟩ := gaveUp.result
    rw [returned] at ok
    cases ok
    exact absurd rfl failed
  closing := gaveUp.closing

private theorem fetches_iff (run : (attempts conf topic partition retries w).Runs trace fetched) :
    Fetches topic partition retries w trace fetched ↔ ∀ broker, ¬ LookedUp trace broker := by
  rcases attempts_run run with ⟨broker, found, null⟩ | gaveUp
  · exact iff_of_false (fun fetches => fetches.pointed null) fun unanswered => unanswered broker found
  · exact iff_of_true (fetches_of_gaveUp gaveUp) gaveUp.unanswered

/-- The values that a new partition begins with are the size of the channel buffers, no epoch and no metadata. -/
private theorem resumes_iff (m : OffsetManager) (topic : Bytes) (partition : Int32) (committed : InitialOffset) :
    Resumes m topic partition committed ↔
      (topic, partition) ∈ m.poms ∨ committed = ⟨m.conf.channelBufferSize.toInt64, 0, []⟩ := by
  unfold Resumes managePartition
  by_cases managed : (topic, partition) ∈ m.poms
  · simp [managed]
  · simp [managed]

/-! ## The statement -/

/-- The fetch does what it is for exactly when every look-up of the coordinator fails, and a registered partition begins
at the committed offset exactly when that is the size of the channel buffers. -/
theorem initialOffset_fetched_iff (conf : MetadataConfig) (topic : Bytes) (partition : Int32) :
    (∀ (retries : Int32) w trace fetched, (fetchInitialOffset conf topic partition retries w).Runs trace fetched →
      (Fetches topic partition retries.toInt.toNat w trace fetched ↔ ∀ broker, ¬ LookedUp trace broker)) ∧
    ∀ m committed, Resumes m topic partition committed ↔
      (topic, partition) ∈ m.poms ∨ committed = ⟨m.conf.channelBufferSize.toInt64, 0, []⟩ :=
  ⟨fun _ _ _ _ run => fetches_iff run, fun m committed => resumes_iff m topic partition committed⟩

/-- A manager of no partitions. -/
def idle : OffsetManager :=
  { conf := { version := V2_0_0_0 }, group := [], memberId := [], groupInstanceId := [], generation := 0 }

/-- A coordinator that is found is not asked, and a partition whose offset 7 was committed begins at 256. -/
theorem coordinator_found_null : ((fetchInitialOffset {} [] 0 3 ⟨idle, 0⟩).Runs
        [⟨.refreshCoordinator, (0 : KError)⟩, ⟨.getCoordinator, ((0 : KError), some 1)⟩]
        ⟨.error .nullPointer, ⟨{ idle with broker := some 1 }, 0⟩⟩ ∧
      ¬ Fetches [] 0 3 ⟨idle, 0⟩ [⟨.refreshCoordinator, (0 : KError)⟩, ⟨.getCoordinator, ((0 : KError), some 1)⟩]
        ⟨.error .nullPointer, ⟨{ idle with broker := some 1 }, 0⟩⟩) ∧ ¬ Resumes idle [] 0 ⟨7, 0, []⟩ := by
  refine ⟨⟨⟨(0 : KError), _, rfl, ((0 : KError), some 1), [], rfl, rfl, rfl⟩, fun fetches => fetches.pointed rfl⟩, ?_⟩
  rw [resumes_iff]
  rintro (managed | same)
  · simp [idle] at managed
  · exact absurd (congrArg InitialOffset.offset same) (by decide)

end Coev.Kafka.OffsetManager.Initial
