import Coev.Proofs.Kafka.ProduceRequest
import Coev.Proofs.Kafka.RequestEncoding
import Mathlib.Algebra.BigOperators.Ring.Finset

/-! # The sizes of records and what the producer counts for them

A record takes at most 36 bytes besides its strings and the ten bytes for each header, and the producer counts 77. A
number that is not larger than a request takes at most five bytes as a varint.
-/

namespace Coev.Kafka

open ByteString Leb128 PacketEncoder

theorem length_encodeVariant_le (x : Int64) : (encodeVariant x).length ≤ 10 := by
  rw [length_encodeVariant, size_le_iff (by omega), ← zigzagEncode_toNat]
  exact (zigzagEncode x).toNat_lt.trans (by decide)

/-- A number in the range of an `int`. -/
theorem length_encodeVariant_le_five {x : Int64} (low : -1 ≤ x.toInt) (high : x.toInt ≤ int32Max) :
    (encodeVariant x).length ≤ 5 := by
  rw [length_encodeVariant, size_le_iff (by omega)]
  simp only [int32Max] at high
  unfold zigzag
  split <;> omega

theorem length_variantBytesOutput_le {s : Bytes} (small : s.length ≤ int32Max) :
    (variantBytesOutput s).length ≤ 5 + s.length := by
  have prefix_ : (encodeVariant (variantBytesLength s)).length ≤ 5 := by
    unfold variantBytesLength
    split
    · exact length_encodeVariant_le_five (by decide) (by decide)
    · have value : (Int64.ofNat s.length).toInt = s.length :=
        Int64.toInt_ofNat_of_lt (by simp only [int32Max] at small; omega)
      exact length_encodeVariant_le_five (by omega) (by omega)
  rw [variantBytesOutput, List.length_append]
  omega

namespace Record

/-- The strings of a record, and ten bytes for each header. -/
def payload (r : Record) : ℕ :=
  r.key.length + r.value.length + (r.headers.map fun h => h.key.length + h.value.length + 10).sum

theorem accepted_of_payload {r : Record} (small : r.payload ≤ int32Max) : r.Accepted := by
  have strings : r.key.length + r.value.length ≤ r.payload := Nat.le_add_right _ _
  refine ⟨by omega, by omega, fun h member => ?_⟩
  have within := List.single_le_sum (fun _ _ => Nat.zero_le _) _ (List.mem_map_of_mem (f := fun h : RecordHeader =>
    h.key.length + h.value.length + 10) member)
  have below : (r.headers.map fun h => h.key.length + h.value.length + 10).sum ≤ r.payload := Nat.le_add_left _ _
  exact ⟨by omega, by omega⟩

theorem length_headers_le {r : Record} : r.headers.length ≤ r.payload := by
  have each : r.headers.length ≤ (r.headers.map fun h => h.key.length + h.value.length + 10).sum := by
    induction r.headers with
    | nil => exact Nat.zero_le _
    | cons h rest ih =>
      rw [List.map_cons, List.sum_cons, List.length_cons]
      omega
  exact each.trans (Nat.le_add_left _ _)

theorem length_headerBytes_le {headers : List RecordHeader} (accepted : ∀ h ∈ headers, h.Accepted) :
    (headers.flatMap RecordHeader.bytes).length ≤ (headers.map fun h => h.key.length + h.value.length + 10).sum := by
  induction headers with
  | nil => exact Nat.zero_le _
  | cons h rest ih =>
    obtain ⟨head, tail⟩ := List.forall_mem_cons.mp accepted
    have key := length_variantBytesOutput_le head.1
    have value := length_variantBytesOutput_le head.2
    have others := ih tail
    rw [List.flatMap_cons, List.length_append, List.map_cons, List.sum_cons, RecordHeader.bytes, List.length_append]
    omega

theorem length_value_le_counted (r : Record) : r.value.length ≤ r.counted := by
  have body : r.value.length ≤ r.body.length := by
    simp only [Record.body, variantBytesOutput, List.length_append]
    omega
  exact body.trans (Nat.le_add_left _ _)

/-- The bytes of a record on the wire. -/
theorem counted_le {r : Record} (small : r.payload ≤ maxRequestSize) (nonneg : 0 ≤ r.offsetDelta.toInt)
    (offset : r.offsetDelta.toInt ≤ int32Max) : r.counted ≤ 36 + r.payload := by
  have inInt : r.payload ≤ int32Max := small.trans (by decide)
  obtain ⟨keySmall, valueSmall, headersSmall⟩ := accepted_of_payload inInt
  have timestamp := length_encodeVariant_le r.timestampDelta
  have offset := length_encodeVariant_le_five (by omega) offset
  have key := length_variantBytesOutput_le keySmall
  have value := length_variantBytesOutput_le valueSmall
  have headers := length_headerBytes_le headersSmall
  have few : r.headers.length ≤ int32Max := length_headers_le.trans inInt
  have number : (encodeVariant (Int64.ofNat r.headers.length)).length ≤ 5 := by
    have same : (Int64.ofNat r.headers.length).toInt = r.headers.length :=
      Int64.toInt_ofNat_of_lt (by simp only [int32Max] at few; omega)
    exact length_encodeVariant_le_five (by omega) (by omega)
  have body : r.body.length ≤ 31 + r.payload := by
    simp only [Record.body, List.length_append, length_bigEndian]
    unfold payload
    omega
  have prefix_ : size r.body.length ≤ 5 := by
    rw [size_le_iff (by omega)]
    simp only [maxRequestSize] at small
    omega
  unfold counted
  omega

end Record

end Coev.Kafka

/-! ## The bytes of a set that is accounted for

The producer counts 77 bytes for a record that takes 36 besides its strings, and 49 for a batch that takes 69 in a
request. With a record in each partition and a partition in each topic the difference makes up for what stands in
front of a topic's name, so the names are all that can be too much.
-/

namespace Coev.Kafka

open ByteString PacketEncoder ProduceRequest

variable {library : CompressionLibrary} {encodeMessageSet : MessageSet → Encode MessageSet} {conf : ProducerConfig}
  {s : ProduceSet}

/-! ## Batches whose records encode -/

/-- The records of a partition as encoding leaves them. -/
def Records.measured : Records → Records
  | .batch b => .batch { b with records := b.records.map Record.measured }
  | other => other

/-- The bytes of the records of a partition. -/
def Records.sent : Records → Bytes
  | .batch b => b.sent (b.records.flatMap Record.encoded)
  | _ => []

namespace RecordBatch

variable {b : RecordBatch}

/-- A batch that was never encoded, and compresses nothing. -/
structure Plain (b : RecordBatch) : Prop where
  version : b.version = 2
  codec : b.codec = .None
  cache : b.compressedRecords = []
  encodable : ∀ r ∈ b.records, r.Encodable

theorem Plain.encodeRecords (plain : b.Plain) :
    encodeRecords b.records = .ok (b.records.flatMap Record.encoded, b.records.map Record.measured) :=
  encodeRecords_of_encodable plain.encodable

theorem Plain.section_ (plain : b.Plain) :
    b.section_ library = .ok (b.records.flatMap Record.encoded, b.records.map Record.measured) := by
  rw [section_of_absent plain.cache, plain.encodeRecords, plain.codec]
  rfl

theorem Plain.again {b : RecordBatch} (plain : b.Plain) :
    { b with records := b.records.map Record.measured }.section_ library =
      .ok (b.records.flatMap Record.encoded, b.records.map Record.measured) := by
  rw [section_of_absent (b := { b with records := b.records.map Record.measured }) plain.cache]
  dsimp only
  rw [encodeRecords_measured plain.encodeRecords, plain.codec]
  rfl

theorem Plain.length_section (plain : b.Plain) :
    (b.records.flatMap Record.encoded).length = (b.records.map Record.counted).sum := by
  rw [List.length_flatMap]
  exact congrArg List.sum (List.map_congr_left fun r member => (plain.encodable r member).length_encoded)

theorem Plain.settles (plain : b.Plain) (small : (b.records.flatMap Record.encoded).length ≤ int32Max) :
    Settles false (ProduceRequest.encodeRecords library encodeMessageSet) (.batch b) (Records.batch b).measured
      (Records.batch b).sent := by
  have settles : Settles false (RecordBatch.encode library) b _ _ :=
    settles_encode plain.version plain.section_ plain.again (List.length_map _) small
  have wrapped (b : RecordBatch) : ProduceRequest.encodeRecords library encodeMessageSet (.batch b) =
      b.encode library >>= fun b => pure (.batch b) := rfl
  constructor
  · rw [wrapped]
    exact settles.counts.seq (k := fun b => pure (Records.batch b)) (Prep.pure _)
  · rw [Records.measured, wrapped]
    refine (settles.stores.seq (k := fun b => pure (Records.batch b)) (Real.pure _)).of_eq ?_
    exact congrArg some (List.append_nil _)

end RecordBatch

/-! ## Sums -/

/-- Terms that are smaller by a constant, in sum. -/
theorem sum_map_add_le {α : Type} {l : List α} {f : α → ℕ} {g : α → ℤ} {c : ℕ} (each : ∀ a ∈ l, (f a : ℤ) + c ≤ g a) :
    (((l.map f).sum : ℕ) : ℤ) + c * l.length ≤ (l.map g).sum := by
  induction l with
  | nil => simp
  | cons a rest ih =>
    obtain ⟨first, others⟩ := List.forall_mem_cons.mp each
    have next := ih others
    rw [List.map_cons, List.sum_cons, List.map_cons, List.sum_cons, List.length_cons, Nat.cast_add, Nat.cast_add,
      Nat.cast_one]
    linarith

namespace ProduceSet

/-! ## Records of messages -/

/-- Lengths of a message that the first pass counts in full. -/
structure SafeLengths (msg : ProducerMessage) : Prop where
  key : VarintSafe msg.key.length
  value : VarintSafe msg.value.length
  number : VarintSafe msg.headers.length
  headers : ∀ h ∈ msg.headers, h.Safe

/-- An entry is safe behind others of its partition, whose times are taken from the first one. -/
structure SafeAt (first : Timestamp) (i : ℕ) (entry : Entry) : Prop where
  lengths : SafeLengths entry.1
  number : VarintSafe i
  delta : VarintSafe (entry.2.millisSince first).toInt

/-- The record of an entry in a request. -/
def sentRecord (first : Timestamp) (i : ℕ) (entry : Entry) : Record :=
  { recordOf first entry.1 entry.2 with offsetDelta := Int64.ofNat i }

theorem payload_sentRecord (first : Timestamp) (i : ℕ) (entry : Entry) :
    ((sentRecord first i entry).payload : ℤ) + 77 = recordSize entry.1 := by
  have headers : (((entry.1.headers.map fun h => h.key.length + h.value.length + 10).sum : ℕ) : ℤ) =
      (entry.1.headers.map ProducerMessage.headerSize).sum := by
    induction entry.1.headers with
    | nil => rfl
    | cons h rest ih =>
      rw [List.map_cons, List.sum_cons, List.map_cons, List.sum_cons, ← ih, ProducerMessage.headerSize]
      push_cast
      ring
  have whole : (sentRecord first i entry).payload = entry.1.key.length + entry.1.value.length +
      (entry.1.headers.map fun h => h.key.length + h.value.length + 10).sum := rfl
  rw [recordSize, ← headers, whole, MaximumRecordOverhead]
  push_cast
  ring

/-- The record of a safe entry encodes, and takes 41 bytes less than is counted for it. -/
theorem encodable_sentRecord {first : Timestamp} {i : ℕ} {entry : Entry} (safe : SafeAt first i entry)
    (few : i ≤ int32Max) (small : recordSize entry.1 ≤ maxRequestSize) :
    (sentRecord first i entry).Encodable ∧ ((sentRecord first i entry).counted : ℤ) + 41 ≤ recordSize entry.1 := by
  have size := payload_sentRecord first i entry
  have number : (Int64.ofNat i).toInt = i := Int64.toInt_ofNat_of_lt (by simp only [int32Max] at few; omega)
  have payload : (sentRecord first i entry).payload ≤ maxRequestSize := by omega
  have counted := Record.counted_le payload (by rw [sentRecord, number]; omega)
    (by rw [sentRecord, number]; simpa using few)
  have headers : (Int64.ofNat entry.1.headers.length).toInt = entry.1.headers.length := by
    have within : entry.1.headers.length ≤ _ := (sentRecord first i entry).length_headers_le.trans payload
    exact Int64.toInt_ofNat_of_lt (within.trans_lt (by decide))
  refine ⟨⟨?_, Record.accepted_of_payload (payload.trans (by decide)), ?_, ?_⟩, ?_⟩
  · exact (Int64.toInt_zero).ge
  · exact ⟨safe.delta, by rw [sentRecord, number]; exact safe.number, safe.lengths.key, safe.lengths.value,
      by rw [sentRecord, recordOf, headers]; exact safe.lengths.number, safe.lengths.headers⟩
  · omega
  · omega

/-! ## Batches of messages -/

variable {first : Entry} {entries : List Entry}

/-- The batch of some entries in a request. -/
def sentBatch (conf : ProducerConfig) (s : ProduceSet) (first : Entry) (entries : List Entry) : RecordBatch :=
  finishBatch conf
    { newBatch conf s first.1 first.2 with records := entries.map fun entry => recordOf first.2 entry.1 entry.2 }

theorem requestRecords_heldSet (modern : conf.version.isAtLeast V0_11_0_0) :
    requestRecords conf (heldSet conf s first entries).records = .batch (sentBatch conf s first entries) := by
  rw [heldSet, recordsOf, if_pos modern]
  rfl

theorem records_sentBatch : (sentBatch conf s first entries).records = entries.mapIdx (sentRecord first.2) := by
  rw [sentBatch, finishBatch_records]
  refine List.ext_getElem (by simp) fun i _ _ => ?_
  simp [sentRecord]

theorem sum_entryBytes (modern : conf.version.isAtLeast V0_11_0_0) :
    (entries.map fun entry => entryBytes conf entry.1).sum = (entries.map fun entry => recordSize entry.1).sum := by
  simp only [entryBytes, if_pos modern]

theorem recordSize_nonneg (msg : ProducerMessage) : 77 ≤ recordSize msg := by
  have size := payload_sentRecord {} 0 (msg, {})
  dsimp only at size
  omega

/-- A batch of safe entries is plain, and its records take less than is counted for the partition. -/
theorem plain_sentBatch (modern : conf.version.isAtLeast V0_11_0_0) (uncompressed : conf.compression = .None)
    (safe : ∀ i entry, entries[i]? = some entry → SafeAt first.2 i entry)
    (small : entriesBytes conf entries ≤ maxRequestSize) : (sentBatch conf s first entries).Plain ∧
      (((sentBatch conf s first entries).records.flatMap Record.encoded).length : ℤ) + 41 * entries.length + 49 ≤
        entriesBytes conf entries := by
  rw [entriesBytes, if_pos modern, sum_entryBytes modern] at small ⊢
  have overhead : recordBatchOverhead.toInt = 49 := rfl
  have many :=
    sum_map_add_le (l := entries) (f := fun _ => 0) (g := fun entry => recordSize entry.1) (c := 77) fun entry _ => by
    have size := recordSize_nonneg entry.1
    omega
  have each : ∀ entry ∈ entries, recordSize entry.1 ≤ maxRequestSize := fun entry member => by
    have within := List.single_le_sum (l := entries.map fun entry => recordSize entry.1) (fun x present => by
      obtain ⟨other, -, rfl⟩ := List.mem_map.mp present
      have size := recordSize_nonneg other.1
      omega) _ (List.mem_map_of_mem member)
    omega
  have encodes : ∀ r ∈ (sentBatch conf s first entries).records,
      r.Encodable ∧ (r.counted : ℤ) + 41 ≤ (r.payload : ℤ) + 77 := by
    rw [records_sentBatch]
    intro r member
    obtain ⟨i, within, rfl⟩ := List.mem_mapIdx.mp member
    rw [payload_sentRecord]
    refine encodable_sentRecord (safe i entries[i] (List.getElem?_eq_getElem within)) ?_ (each _ (List.getElem_mem within))
    simp only [List.map_const', List.sum_replicate, maxRequestSize] at many small
    simp only [int32Max]
    omega
  have plain : (sentBatch conf s first entries).Plain := by
    refine ⟨?_, ?_, ?_, fun r member => (encodes r member).1⟩
    all_goals unfold sentBatch finishBatch
    all_goals dsimp only
    all_goals split
    all_goals first | rfl | exact uncompressed
  have same : (sentBatch conf s first entries).records.map (fun r => (r.payload : ℤ) + 77) =
      entries.map fun entry => recordSize entry.1 := by
    rw [records_sentBatch]
    refine List.ext_getElem (by simp) fun i _ _ => ?_
    rw [List.getElem_map, List.getElem_mapIdx, payload_sentRecord, List.getElem_map]
  have total := sum_map_add_le (c := 41) fun r member => (encodes r member).2
  have length : (sentBatch conf s first entries).records.length = entries.length := by
    rw [records_sentBatch, List.length_mapIdx]
  rw [same, length, Nat.cast_ofNat] at total
  exact ⟨plain, by rw [plain.length_section]; omega⟩

/-! ## Requests of sets -/

/-- The bytes of the topic names, each once. -/
def nameBytes {α : Type} (messages : TopicPartitionMap α) : ℕ :=
  ((ProduceRequest.byTopic messages.toList).map (·.1.length)).sum

/-- The batch of a partition set is plain, and its records take less than the set counts. -/
structure Covered (conf : ProducerConfig) (pset : PartitionSet) (batch : RecordBatch) : Prop where
  records : requestRecords conf pset.records = .batch batch
  plain : batch.Plain
  section_ : ((batch.records.flatMap Record.encoded).length : ℤ) + 90 ≤ pset.bufferBytes.toInt

/-- The batches of a set are covered, and with the names of the topics and the id it is not larger than a request. -/
structure WithinLimit (conf : ProducerConfig) (s : ProduceSet) : Prop where
  topic : ∀ (tp : TopicPartition) pset, s.messages[tp]? = some pset → tp.1.length ≤ int16Max
  batches : ∀ (tp : TopicPartition) pset, s.messages[tp]? = some pset → ∃ batch, Covered conf pset batch
  bound : s.partitionBytes + nameBytes s.messages + conf.transactionID.length ≤ maxRequestSize

/-- A map and the entries of its inner maps. -/
theorem sum_byTopic {α : Type} (entries : List (TopicPartition × α)) (f : α → ℤ) :
    ((ProduceRequest.byTopic entries).map fun topic => (topic.2.map fun partition => f partition.2).sum).sum =
      (entries.map fun entry => f entry.2).sum := by
  conv_rhs => rw [← ProduceRequest.ofTopics_byTopic entries]
  induction ProduceRequest.byTopic entries with
  | nil => rfl
  | cons topic rest ih =>
    rw [List.map_cons, List.sum_cons, ih, ProduceRequest.ofTopics, ProduceRequest.ofTopics, List.flatMap_cons,
      List.map_append, List.sum_append, List.map_map]
    rfl

/-- A topic of a request takes fifteen bytes less than its name and what its partitions count for. -/
theorem length_topicBytes_le {topic : Bytes × List (Int32 × PartitionSet)} (nonempty : topic.2 ≠ [])
    (batches : ∀ partition ∈ topic.2, ∃ batch, Covered conf partition.2 batch) :
    ((topicBytes (fun _ records => records.sent)
      (topic.1, topic.2.map fun partition => (partition.1, requestRecords conf partition.2.records))).length : ℤ) + 15 ≤
        topic.1.length + (topic.2.map fun partition => partition.2.bufferBytes.toInt).sum := by
  have each : ∀ partition ∈ topic.2,
      ((8 + (requestRecords conf partition.2.records).sent.length : ℕ) : ℤ) + (21 : ℕ) ≤ partition.2.bufferBytes.toInt := by
    intro partition member
    obtain ⟨batch, covered⟩ := batches partition member
    have sent := batch.length_sent_le (batch.records.flatMap Record.encoded)
    have taken := covered.section_
    rw [covered.records, Records.sent]
    omega
  have total := sum_map_add_le each
  have some_ : 0 < topic.2.length := List.length_pos_of_ne_nil nonempty
  rw [length_topicBytes, List.map_map]
  simp only [Function.comp_def]
  omega

/-- The request of a set. -/
def requestOf (conf : ProducerConfig) (s : ProduceSet) : ProduceRequest :=
  { emptyRequest conf with records := s.messages.map fun _ pset => requestRecords conf pset.records }

theorem length_transactionalId_le (conf : ProducerConfig) (s : ProduceSet) :
    (requestOf conf s).transactionalId.length ≤ conf.transactionID.length := by
  simp only [requestOf, emptyRequest]
  split
  · exact le_rfl
  · exact Nat.zero_le _

/-- Covered batches encode, whatever they come to. -/
theorem encodes_requestOf (topic : ∀ (tp : TopicPartition) pset, s.messages[tp]? = some pset → tp.1.length ≤ int16Max)
    (batches : ∀ (tp : TopicPartition) pset, s.messages[tp]? = some pset → ∃ batch, Covered conf pset batch) :
    Encodes library encodeMessageSet (requestOf conf s).records (fun _ records => records.measured)
      (fun _ records => records.sent) := by
  have found : ∀ (tp : TopicPartition) records, (requestOf conf s).records[tp]? = some records →
      ∃ pset : PartitionSet, s.messages[tp]? = some pset ∧ requestRecords conf pset.records = records := by
    intro tp records present
    rw [requestOf, Std.ExtTreeMap.getElem?_map, Option.map_eq_some_iff] at present
    exact present
  constructor
  · intro tp records present
    obtain ⟨pset, held, -⟩ := found tp records present
    exact topic tp pset held
  · intro tp records present
    obtain ⟨pset, held, rfl⟩ := found tp records present
    obtain ⟨batch, covered⟩ := batches tp pset held
    have counted := covered.section_
    have limit := pset.bufferBytes.toInt_lt
    rw [covered.records]
    exact covered.plain.settles (by simp only [int32Max]; omega)

/-- A set with one partition takes at least the name of the topic and the records. -/
theorem le_length_requestBytes {tp : TopicPartition} {pset : PartitionSet} {batch : RecordBatch}
    (single : s.messages.toList = [(tp, pset)]) (covered : Covered conf pset batch) :
    59 + tp.1.length + (batch.records.flatMap Record.encoded).length ≤
      (requestBytes (fun _ records => records.sent) (requestOf conf s)).length := by
  have topics : ProduceRequest.byTopic (requestOf conf s).records.toList =
      [(tp.1, [(tp.2, requestRecords conf pset.records)])] := by
    rw [requestOf, Std.ExtTreeMap.toList_map, single]
    rfl
  rw [requestBytes, topics, List.length_append, List.flatMap_cons, List.flatMap_nil, List.append_nil, length_topicBytes,
    covered.records]
  simp only [Records.sent, List.map_cons, List.map_nil, List.sum_singleton, RecordBatch.length_sent]
  omega

theorem WithinLimit.length_requestBytes_le (within : WithinLimit conf s) (id : conf.transactionID.length ≤ int16Max) :
    (requestBytes (fun _ records => records.sent) (requestOf conf s)).length ≤ maxRequestSize := by
  have bytes := ProduceRequest.length_requestBytes_le (fun _ records => records.sent) (requestOf conf s)
  have topics : ProduceRequest.byTopic (requestOf conf s).records.toList =
      mapTopics (fun _ pset => requestRecords conf pset.records) (ProduceRequest.byTopic s.messages.toList) := by
    rw [requestOf, Std.ExtTreeMap.toList_map]
    exact byTopic_map (fun _ (pset : PartitionSet) => requestRecords conf pset.records) _
  have each : ∀ topic ∈ ProduceRequest.byTopic s.messages.toList,
      ((topicBytes (fun _ records => records.sent)
        (topic.1, topic.2.map fun partition => (partition.1, requestRecords conf partition.2.records))).length : ℤ) +
          (15 : ℕ) ≤
          (topic.1.length : ℤ) + (topic.2.map fun partition => partition.2.bufferBytes.toInt).sum := by
    intro topic member
    refine length_topicBytes_le (byTopic_nonempty _ topic member) fun partition present => ?_
    have entry := mem_ofTopics member present
    rw [ofTopics_byTopic] at entry
    exact within.batches _ _ (Std.ExtTreeMap.mem_toList_iff_getElem?_eq_some.mp entry)
  have total := sum_map_add_le each
  have apart : ((ProduceRequest.byTopic s.messages.toList).map fun topic =>
      (topic.1.length : ℤ) + (topic.2.map fun partition => partition.2.bufferBytes.toInt).sum).sum =
        nameBytes s.messages + s.partitionBytes := by
    rw [List.sum_map_add, sum_byTopic s.messages.toList fun pset =>
      pset.bufferBytes.toInt, nameBytes, Nat.cast_list_sum, List.map_map]
    rfl
  have bound := within.bound
  have transactionalId := length_transactionalId_le conf s
  rw [topics, mapTopics, List.map_map] at bytes
  simp only [Function.comp_def] at bytes
  rw [apart] at total
  rcases Nat.eq_zero_or_pos (ProduceRequest.byTopic s.messages.toList).length with none_ | some_
  · have limit : 12 + int16Max ≤ maxRequestSize := by decide
    rw [List.length_eq_zero_iff.mp none_, List.map_nil, List.sum_nil] at bytes
    omega
  · omega

end ProduceSet

end Coev.Kafka
