import Coev.Model.Kafka.ProduceRequest
import Coev.Proofs.Kafka.ProduceSet

/-! # Built requests and the sets they are built from

Every partition of a set that was filled by `add` goes into the request by itself, so the request has an image of
each partition set at its place.
-/

namespace Coev.Kafka

theorem int64_div_mul_add_mod (a b : Int64) (other : b ≠ -1) : a / b * b + a % b = a := by
  rw [← Int64.toInt_inj, Int64.toInt_add, Int64.toInt_mul, Int64.toInt_div_of_ne_right _ _ other, Int64.toInt_mod,
    Int.bmod_add_bmod, Int.mul_comm, Int.mul_tdiv_add_tmod, Int64.toInt_bmod_size]

/-- The whole milliseconds of a time are a time. -/
theorem tdiv_mul_bounds {n : ℤ} (low : -2 ^ 63 ≤ n) (high : n < 2 ^ 63) :
    -2 ^ 63 ≤ n.tdiv 1000000 * 1000000 ∧ n.tdiv 1000000 * 1000000 < 2 ^ 63 := by
  obtain nonneg | neg := Int.le_total 0 n
  · rw [Int.tdiv_eq_ediv_of_nonneg nonneg]
    omega
  · have flipped : n.tdiv 1000000 = -((-n) / 1000000) := by
      rw [← Int.tdiv_eq_ediv_of_nonneg (by omega), Int.neg_tdiv, Int.neg_neg]
    rw [flipped]
    omega

/-- Truncation leaves the whole milliseconds. -/
theorem Timestamp.toInt_truncated (t : Timestamp) : t.truncated.time.toInt = t.time.toInt.tdiv 1000000 * 1000000 := by
  have whole := int64_div_mul_add_mod (t.time / 1000000) 1000 (by decide)
  have product : t.truncated.time = t.time / 1000000 * 1000000 := by
    unfold Timestamp.truncated
    grind
  have bounds := tdiv_mul_bounds t.time.le_toInt t.time.toInt_lt
  rw [product, Int64.toInt_mul, Int64.toInt_div_of_ne_right _ _ (by decide)]
  change (t.time.toInt.tdiv 1000000 * 1000000).bmod (2 ^ 64) = _
  exact Int.bmod_eq_of_le (by omega) (by omega)

/-- The difference of two times of whole milliseconds is exact while it fits. -/
theorem Timestamp.toInt_millisSince {later earlier : Timestamp} {m n : ℤ} (isLater : later.time.toInt = m * 1000000)
    (isEarlier : earlier.time.toInt = n * 1000000) (low : -2 ^ 63 ≤ (m - n) * 1000000) (high : (m - n) * 1000000 < 2 ^ 63) :
    (later.millisSince earlier).toInt = m - n := by
  have difference : (later.time - earlier.time).toInt = (m - n) * 1000000 := by
    rw [Int64.toInt_sub, isLater, isEarlier, ← Int.sub_mul]
    exact Int.bmod_eq_of_le (by omega) (by omega)
  rw [millisSince, Int64.toInt_div_of_ne_right _ _ (by decide), difference]
  exact Int.mul_tdiv_cancel _ (by decide)

namespace ProduceSet

variable {conf : ProducerConfig} {s : ProduceSet}

theorem requestVersion_ge (modern : conf.version.isAtLeast V0_11_0_0) : 3 ≤ requestVersion conf := by
  unfold requestVersion
  repeat' split
  all_goals decide

/-- The batch of a request numbers the records, and keeps them. -/
theorem finishBatch_records (batch : RecordBatch) : (finishBatch conf batch).records =
      batch.records.mapIdx fun i record => { record with offsetDelta := Int64.ofNat i } := by
  unfold finishBatch
  dsimp only
  split
  next empty => rw [List.isEmpty_iff.mp empty, List.mapIdx_nil]
  next => rfl

theorem finishBatch_firstTimestamp (batch : RecordBatch) :
    (finishBatch conf batch).firstTimestamp = batch.firstTimestamp := by
  unfold finishBatch
  dsimp only
  split <;> rfl

/-- The records of a partition in the request. -/
def requestRecords (conf : ProducerConfig) : Records → Records
  | .batch batch => .batch (finishBatch conf batch)
  | other => other

/-- The records that `add` makes. -/
def Prepared (conf : ProducerConfig) : Records → Prop
  | .batch _ => conf.version.isAtLeast V0_11_0_0
  | .legacy _ => conf.compression = .None
  | .unknown => False

theorem addRecords_of_prepared {req : ProduceRequest} (version : req.version = requestVersion conf) (tp : TopicPartition)
    {records : Records} (prepared : Prepared conf records) :
    addRecords conf req tp records = .ok { req with records := req.records.insert tp (requestRecords conf records) } := by
  cases records with
  | batch batch =>
    have modern : 3 ≤ req.version := version ▸ requestVersion_ge prepared
    rw [addRecords, if_pos modern]
    rfl
  | legacy set =>
    rw [addRecords, if_pos (by exact prepared)]
    rfl
  | unknown => cases prepared

theorem foldlM_addRecords {entries : List (TopicPartition × PartitionSet)} {req : ProduceRequest}
    (version : req.version = requestVersion conf) (prepared : ∀ entry ∈ entries, Prepared conf entry.2.records) :
    entries.foldlM (fun req entry => addRecords conf req entry.1 entry.2.records) req =
      .ok { req with records :=
        entries.foldl (fun m entry => m.insert entry.1 (requestRecords conf entry.2.records)) req.records } := by
  induction entries generalizing req with
  | nil => rfl
  | cons entry entries ih =>
    obtain ⟨first, rest⟩ := List.forall_mem_cons.mp prepared
    rw [List.foldlM_cons, addRecords_of_prepared version entry.1 first]
    exact ih version rest

/-- The request of a set whose records are prepared. -/
theorem buildRequest_of_prepared
    (prepared : ∀ (tp : TopicPartition) pset, s.messages[tp]? = some pset → Prepared conf pset.records) :
    buildRequest conf s =
      .ok { emptyRequest conf with records := s.messages.map fun _ pset => requestRecords conf pset.records } := by
  have entries : ∀ entry ∈ s.messages.toList, Prepared conf entry.2.records := fun entry member =>
    prepared entry.1 entry.2 (Std.ExtTreeMap.mem_toList_iff_getElem?_eq_some.mp member)
  rw [buildRequest, foldlM_addRecords rfl entries]
  exact congrArg (fun records => Except.ok { emptyRequest conf with records })
    (Std.ExtTreeMap.foldl_insert_map s.messages fun _ pset => requestRecords conf pset.records)

theorem prepared_recordsOf (plain : conf.version.isAtLeast V0_11_0_0 ∨ conf.compression = .None) (first : Entry)
    (entries : List Entry) : Prepared conf (recordsOf conf s first entries) := by
  unfold recordsOf
  split
  next modern => exact modern
  next old => exact plain.resolve_left old

theorem Holds.prepared {held : TopicPartition → List Entry} (holds : Holds conf s held)
    (plain : ∀ tp, held tp ≠ [] → conf.version.isAtLeast V0_11_0_0 ∨ conf.compression = .None) (tp : TopicPartition)
    (pset : PartitionSet) (found : s.messages[tp]? = some pset) : Prepared conf pset.records := by
  have some_ := plain tp
  rw [holds.partitions] at found
  cases entries : held tp with
  | nil =>
    rw [entries] at found
    cases found
  | cons first rest =>
    rw [entries] at found some_
    obtain rfl := Option.some.inj found
    exact prepared_recordsOf (some_ (List.cons_ne_nil _ _)) first (first :: rest)

/-- The request of a set that holds some messages. -/
theorem Holds.buildRequest {held : TopicPartition → List Entry} (holds : Holds conf s held)
    (plain : conf.version.isAtLeast V0_11_0_0 ∨ conf.compression = .None) :
    ∃ req, buildRequest conf s = .ok req ∧ ∀ tp, req.records[tp]? =
      (partitionSetOf conf s (held tp)).map fun pset => requestRecords conf pset.records := by
  refine ⟨_, buildRequest_of_prepared (holds.prepared fun _ _ => plain), fun tp => ?_⟩
  rw [← holds.partitions]
  exact Std.ExtTreeMap.getElem?_map

end ProduceSet

end Coev.Kafka
