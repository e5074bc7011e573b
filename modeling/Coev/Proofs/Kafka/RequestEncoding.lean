import Coev.Model.Kafka.ProduceRequest
import Coev.Proofs.Kafka.RecordBatch
import Coev.Proofs.Kafka.Writes
import Coev.ToMathlib.OrderedMap

/-! # Objects that settle while they are encoded

Encoding writes lengths into the members of an object. `Settles` says what the object is after the counting pass, and
that the storing pass, which is given that object, leaves it and stores as many bytes as were counted.
-/

namespace Coev.Kafka.PacketEncoder

variable {α β : Type} {flexible : Bool}

/-- The counting pass of `f` makes `y` of `x`, and the storing pass keeps `y` and stores the bytes that were counted. -/
structure Settles (flexible : Bool) (f : α → Encode α) (x y : α) (bytes : Bytes) : Prop where
  counts : Prep flexible (f x) y (.ok bytes.length)
  stores : Real flexible (f y) y (some bytes)

namespace Settles

variable {f : α → Encode α} {x y : α} {bytes : Bytes}

/-- Within the limit the bytes are the encoding. -/
theorem encode (settles : Settles false f x y bytes) (small : bytes.length ≤ maxRequestSize) :
    Kafka.encode false f x = .ok (bytes, y) := encode_eq_ok settles.counts settles.stores small

/-- A loop over objects that settle. -/
theorem mapM {xs : List α} {g : α → α} {bytes : α → Bytes} (each : ∀ x ∈ xs, Settles flexible f x (g x) (bytes x)) :
    Settles flexible (fun xs : List α => xs.mapM f) xs (xs.map g) (xs.flatMap bytes) := by
  induction xs with
  | nil => exact ⟨Prep.pure [], Real.pure []⟩
  | cons x xs ih =>
    obtain ⟨first, rest⟩ := List.forall_mem_cons.mp each
    have tail := ih rest
    constructor
    · have counts :
          Prep flexible ((x :: xs).mapM f) (g x :: xs.map g)
            (.ok ((bytes x).length + ((xs.flatMap bytes).length + 0))) := by
        rw [List.mapM_cons]
        exact first.counts.seq (tail.counts.seq (Prep.pure _))
      exact counts.of_eq (by rw [List.flatMap_cons, List.length_append, Nat.add_zero])
    · have stores :
          Real flexible ((g x :: xs.map g).mapM f) (g x :: xs.map g) (some (bytes x ++ (xs.flatMap bytes ++ []))) := by
        rw [List.mapM_cons]
        exact first.stores.seq (tail.stores.seq (Real.pure _))
      exact stores.of_eq (by rw [List.flatMap_cons, List.append_nil])

end Settles

end Coev.Kafka.PacketEncoder

/-! # The bytes of a produce request

A batch takes at most 61 bytes besides its record section, a partition eight more, and a topic six and its name. The
headers of a batch need not be dated: a time before the epoch is left out by both passes.
-/

namespace Coev.Kafka

open ByteString PacketEncoder

variable {flexible : Bool} {library : CompressionLibrary} {encodeMessageSet : MessageSet → Encode MessageSet}

/-! ## Batches -/

namespace Timestamp

/-- The bytes of a timestamp; there are none for a time before the epoch. -/
def sent (t : Timestamp) : Bytes := if 0 ≤ t.time then bigEndian 8 t.millis.toUInt64.toNat else []

theorem length_sent_le (t : Timestamp) : t.sent.length ≤ 8 := by
  unfold sent
  split
  · exact (length_bigEndian _ _).le
  · exact Nat.zero_le _

theorem encode_of_neg {t : Timestamp} (negative : ¬ 0 ≤ t.time) : t.encode = failCode ErrEncodeError := by
  have nonzero : t.time ≠ 0 := fun zero => negative (zero ▸ Int64.le_refl 0)
  rw [encode, if_neg negative, if_pos nonzero]

theorem prep_sent (t : Timestamp) : Prep flexible (ignoreCode () t.encode) () (.ok t.sent.length) := by
  by_cases nonneg : 0 ≤ t.time
  · rw [sent, if_pos nonneg, length_bigEndian]
    exact (prep_encode nonneg).ignoreCode
  · rw [sent, if_neg nonneg, encode_of_neg nonneg]
    exact fun pe inPass => ignoreCode_of_code rfl

theorem real_sent (t : Timestamp) : Real flexible (ignoreCode () t.encode) () (some t.sent) := by
  by_cases nonneg : 0 ≤ t.time
  · rw [sent, if_pos nonneg]
    exact (real_encode nonneg).ignoreCode
  · rw [sent, if_neg nonneg, encode_of_neg nonneg]
    exact Real.pure ()

end Timestamp

namespace RecordBatch

/-- The bytes under the CRC. -/
def sentCovered (b : RecordBatch) (section_ : Bytes) : Bytes :=
  bigEndian 2 b.computeAttributes.toUInt16.toNat ++ (bigEndian 4 b.lastOffsetDelta.toUInt32.toNat ++
    (b.firstTimestamp.sent ++ (b.maxTimestamp.sent ++
      (bigEndian 8 b.producerId.toUInt64.toNat ++ (bigEndian 2 b.producerEpoch.toUInt16.toNat ++
        (bigEndian 4 b.firstSequence.toUInt32.toNat ++
          (bigEndian 4 (Int32.ofNat b.records.length).toUInt32.toNat ++ section_)))))))

/-- The bytes under the length. -/
def sentFrame (b : RecordBatch) (section_ : Bytes) : Bytes :=
  bigEndian 4 b.partitionLeaderEpoch.toUInt32.toNat ++ (bigEndian 1 b.version.toUInt8.toNat ++
    (bigEndian 4 (crc32 .CrcCastagnoli (b.sentCovered section_)).toNat ++ b.sentCovered section_))

/-- The bytes of a batch. -/
def sent (b : RecordBatch) (section_ : Bytes) : Bytes :=
  bigEndian 8 b.firstOffset.toUInt64.toNat ++
    (bigEndian 4 ((b.sentFrame section_).length % 2 ^ 32) ++ b.sentFrame section_)

theorem length_sent (b : RecordBatch) (section_ : Bytes) :
    (b.sent section_).length = 45 + b.firstTimestamp.sent.length + b.maxTimestamp.sent.length + section_.length := by
  simp only [sent, sentFrame, sentCovered, List.length_append, length_bigEndian]
  omega

theorem length_sent_le (b : RecordBatch) (section_ : Bytes) : (b.sent section_).length ≤ 61 + section_.length := by
  have first := b.firstTimestamp.length_sent_le
  have last := b.maxTimestamp.length_sent_le
  rw [length_sent]
  omega

theorem prep_sentCovered (b : RecordBatch) {section_ : Bytes} (small : section_.length ≤ int32Max) :
    Prep false (b.encodeCovered section_) () (.ok (b.sentCovered section_).length) := by
  have written : Prep false (ignoreCode () (putRawBytes section_)) () (.ok section_.length) :=
    (prep_ignoreCode_putRawBytes section_).of_eq (by rw [if_pos small])
  have counts : Prep false (b.encodeCovered section_) () (.ok (2 + (4 + (b.firstTimestamp.sent.length +
      (b.maxTimestamp.sent.length + (8 + (2 + (4 + (4 + section_.length))))))))) :=
    (prep_putInt16 _).seq ((prep_putInt32 _).seq (b.firstTimestamp.prep_sent.seq (b.maxTimestamp.prep_sent.seq
      ((prep_putInt64 _).seq ((prep_putInt16 _).seq ((prep_putInt32 _).seq ((prep_putArrayLength _).seq written)))))))
  exact counts.of_eq (by simp only [sentCovered, List.length_append, length_bigEndian])

theorem real_sentCovered (b : RecordBatch) (section_ : Bytes) :
    Real false (b.encodeCovered section_) () (some (b.sentCovered section_)) :=
  (real_putInt16 _).seq ((real_putInt32 _).seq (b.firstTimestamp.real_sent.seq (b.maxTimestamp.real_sent.seq
    ((real_putInt64 _).seq ((real_putInt16 _).seq ((real_putInt32 _).seq
      ((real_putArrayLength _).seq (real_putRawBytes section_).ignoreCode)))))))

theorem sent_congr {b : RecordBatch} {records : List Record} (length : records.length = b.records.length)
    (section_ : Bytes) : { b with records }.sent section_ = b.sent section_ := by
  simp only [sent, sentFrame, sentCovered, length, computeAttributes]

/-- A batch whose record section is settled. -/
theorem settles_encode {b : RecordBatch} (version : b.version = 2) {section_ : Bytes} {records : List Record}
    (contents : b.section_ library = .ok (section_, records))
    (again : { b with records }.section_ library = .ok (section_, records)) (length : records.length = b.records.length)
    (small : section_.length ≤ int32Max) : Settles false (encode library) b { b with records } (b.sent section_) := by
  constructor
  · rw [encode, if_neg (not_not.mpr version), contents]
    have counts := (b.prep_sentCovered small).seq (k := fun _ => pure records) (Prep.pure records)
    refine Prep.of_eq ((prep_putInt64 b.firstOffset).seq ((Prep.enclose_fixed (fun _ => PushField.noConfusion)
      ((prep_putInt32 b.partitionLeaderEpoch).seq ((prep_putInt8 b.version).seq
        (Prep.enclose_fixed (fun _ => PushField.noConfusion) counts)))).seq (Prep.pure { b with records }))) ?_
    simp only [sent, sentFrame, List.length_append, length_bigEndian]
    congr 1
  · rw [← sent_congr length, encode, if_neg (not_not.mpr (by exact version)), again]
    have stores := ({ b with records }.real_sentCovered section_).seq (k := fun _ => pure records) (Real.pure records)
    refine Real.of_eq ((real_putInt64 b.firstOffset).seq ((Real.enclose_fixed (fun _ => PushField.noConfusion)
      ((real_putInt32 b.partitionLeaderEpoch).seq ((real_putInt8 b.version).seq
        (Real.enclose_fixed (fun _ => PushField.noConfusion) stores)))).seq (Real.pure { b with records }))) ?_
    simp only [sectionHeader, List.append_nil, sent, sentFrame]

end RecordBatch

namespace ProduceRequest

/-! ## The maps of a request -/

section

variable {α β : Type}

theorem ofTopics_byTopic (entries : List (TopicPartition × α)) : ofTopics (byTopic entries) = entries := by
  induction entries with
  | nil => rfl
  | cons entry rest ih =>
    obtain ⟨⟨topic, partition⟩, a⟩ := entry
    unfold byTopic
    cases topics : byTopic rest with
    | nil =>
      rw [topics] at ih
      rw [← ih]
      rfl
    | cons head others =>
      obtain ⟨next, partitions⟩ := head
      rw [topics] at ih
      dsimp only
      split
      next same =>
        subst same
        rw [← ih]
        rfl
      next =>
        rw [← ih]
        rfl

/-- A change of the values at their keys. -/
def mapTopics (f : TopicPartition → α → β) (topics : List (Bytes × List (Int32 × α))) : List (Bytes × List (Int32 × β)) :=
  topics.map fun topic => (topic.1, topic.2.map fun partition => (partition.1, f (topic.1, partition.1) partition.2))

theorem byTopic_map (f : TopicPartition → α → β) (entries : List (TopicPartition × α)) :
    byTopic (entries.map fun entry => (entry.1, f entry.1 entry.2)) = mapTopics f (byTopic entries) := by
  induction entries with
  | nil => rfl
  | cons entry rest ih =>
    obtain ⟨⟨topic, partition⟩, a⟩ := entry
    rw [List.map_cons, byTopic, byTopic, ih]
    cases byTopic rest with
    | nil => rfl
    | cons next others =>
      simp only [mapTopics, List.map_cons]
      split
      next same =>
        subst same
        rfl
      next => rfl

theorem ofTopics_mapTopics (f : TopicPartition → α → β) (topics : List (Bytes × List (Int32 × α))) :
    ofTopics (mapTopics f topics) = (ofTopics topics).map fun entry => (entry.1, f entry.1 entry.2) := by
  simp only [ofTopics, mapTopics, List.flatMap_map, List.map_flatMap, List.map_map]
  rfl

/-- Every topic has a partition. -/
theorem byTopic_nonempty (entries : List (TopicPartition × α)) : ∀ topic ∈ byTopic entries, topic.2 ≠ [] := by
  induction entries with
  | nil => nofun
  | cons entry rest ih =>
    obtain ⟨⟨topic, partition⟩, a⟩ := entry
    unfold byTopic
    cases topics : byTopic rest with
    | nil => simp
    | cons next others =>
      rw [topics] at ih
      obtain ⟨first, others'⟩ := List.forall_mem_cons.mp ih
      dsimp only
      split
      · exact List.forall_mem_cons.mpr ⟨nofun, others'⟩
      · exact List.forall_mem_cons.mpr ⟨nofun, ih⟩

theorem mem_ofTopics {topics : List (Bytes × List (Int32 × α))} {topic : Bytes × List (Int32 × α)} {partition : Int32 × α}
    (topicMember : topic ∈ topics) (member : partition ∈ topic.2) :
    ((topic.1, partition.1), partition.2) ∈ ofTopics topics :=
  List.mem_flatMap.mpr ⟨topic, topicMember, List.mem_map.mpr ⟨partition, member, rfl⟩⟩

end

/-! ## Partitions, topics and requests -/

/-- The records of a request as encoding leaves them, and their bytes. -/
structure Encodes (library : CompressionLibrary) (encodeMessageSet : MessageSet → Encode MessageSet)
    (records : TopicPartitionMap Records) (settled : TopicPartition → Records → Records)
    (bytes : TopicPartition → Records → Bytes) : Prop where
  topic : ∀ (tp : TopicPartition) records', records[tp]? = some records' → tp.1.length ≤ int16Max
  settles : ∀ (tp : TopicPartition) records', records[tp]? = some records' →
    Settles false (encodeRecords library encodeMessageSet) records' (settled tp records') (bytes tp records')

/-- The bytes of a partition. -/
def partitionBytes (partition : Int32) (bytes : Bytes) : Bytes :=
  bigEndian 4 partition.toUInt32.toNat ++ (bigEndian 4 (bytes.length % 2 ^ 32) ++ bytes)

theorem length_partitionBytes (partition : Int32) (bytes : Bytes) :
    (partitionBytes partition bytes).length = 8 + bytes.length := by
  simp only [partitionBytes, List.length_append, length_bigEndian]
  omega

theorem settles_encodePartition (partition : Int32) {records settled : Records} {bytes : Bytes}
    (settles : Settles false (encodeRecords library encodeMessageSet) records settled bytes) :
    Settles false (encodePartition library encodeMessageSet) (partition, records) (partition, settled)
      (partitionBytes partition bytes) := by
  unfold encodePartition
  constructor
  · refine Prep.of_eq ((prep_putInt32 partition).seq
      ((Prep.enclose_fixed (fun _ => PushField.noConfusion) settles.counts).seq (Prep.pure (partition, settled)))) ?_
    rw [length_partitionBytes]
    congr 1
    omega
  · refine Real.of_eq ((real_putInt32 partition).seq
      ((Real.enclose_fixed (fun _ => PushField.noConfusion) settles.stores).seq (Real.pure (partition, settled)))) ?_
    simp only [sectionHeader, List.append_nil, partitionBytes]

variable {records : TopicPartitionMap Records} {settled : TopicPartition → Records → Records}
  {bytes : TopicPartition → Records → Bytes}

/-- The bytes of a topic. -/
def topicBytes (bytes : TopicPartition → Records → Bytes) (topic : Bytes × List (Int32 × Records)) : Bytes :=
  (bigEndian 2 (Int16.ofNat topic.1.length).toUInt16.toNat ++ topic.1) ++
    (bigEndian 4 (Int32.ofNat topic.2.length).toUInt32.toNat ++
      topic.2.flatMap fun partition => partitionBytes partition.1 (bytes (topic.1, partition.1) partition.2))

theorem length_topicBytes (bytes : TopicPartition → Records → Bytes) (topic : Bytes × List (Int32 × Records)) :
    (topicBytes bytes topic).length = 6 + topic.1.length +
      (topic.2.map fun partition => 8 + (bytes (topic.1, partition.1) partition.2).length).sum := by
  simp only [topicBytes, List.length_append, length_bigEndian, List.length_flatMap, length_partitionBytes]
  omega

theorem settles_encodeTopic {topic : Bytes × List (Int32 × Records)} (name : topic.1.length ≤ int16Max)
    (settles : ∀ partition ∈ topic.2, Settles false (encodeRecords library encodeMessageSet) partition.2
      (settled (topic.1, partition.1) partition.2) (bytes (topic.1, partition.1) partition.2)) :
    Settles false (encodeTopic library encodeMessageSet) topic
      (topic.1, topic.2.map fun partition => (partition.1, settled (topic.1, partition.1) partition.2))
      (topicBytes bytes topic) := by
  have partitions := Settles.mapM (f := encodePartition library encodeMessageSet) fun partition member =>
    settles_encodePartition partition.1 (settles partition member)
  have counted : Prep false (putString topic.1) () (.ok (2 + topic.1.length)) :=
    (prep_putString topic.1).of_eq (by rw [stringReserve, if_neg Bool.false_ne_true, if_pos name])
  unfold encodeTopic
  constructor
  · refine Prep.of_eq (counted.seq ((prep_putArrayLength _).seq (partitions.counts.seq (Prep.pure _)))) ?_
    simp only [topicBytes, List.length_append, length_bigEndian]
    rfl
  · refine Real.of_eq ((real_putString topic.1).seq ((real_putArrayLength _).seq (partitions.stores.seq (Real.pure _)))) ?_
    simp only [topicBytes, List.length_map, List.append_nil]

/-- The bytes in front of the topics. -/
def headerBytes (req : ProduceRequest) (topics : ℕ) : Bytes :=
  (if 3 ≤ req.version then
    if req.transactionalId.isEmpty then bigEndian 2 (-1 : Int16).toUInt16.toNat
    else bigEndian 2 (Int16.ofNat req.transactionalId.length).toUInt16.toNat ++ req.transactionalId
  else []) ++ (bigEndian 2 req.acks.toUInt16.toNat ++ (bigEndian 4 req.timeout.toInt32.toUInt32.toNat ++
    bigEndian 4 (Int32.ofNat topics).toUInt32.toNat))

/-- The bytes of a request. -/
def requestBytes (bytes : TopicPartition → Records → Bytes) (req : ProduceRequest) : Bytes :=
  headerBytes req (byTopic req.records.toList).length ++ (byTopic req.records.toList).flatMap (topicBytes bytes)

theorem length_requestBytes_le (bytes : TopicPartition → Records → Bytes) (req : ProduceRequest) :
    (requestBytes bytes req).length ≤ 12 + req.transactionalId.length +
      ((byTopic req.records.toList).map fun topic => (topicBytes bytes topic).length).sum := by
  have header : (headerBytes req (byTopic req.records.toList).length).length ≤ 12 + req.transactionalId.length := by
    simp only [headerBytes, List.length_append, length_bigEndian]
    repeat' split
    all_goals simp only [List.length_append, length_bigEndian, List.length_nil]; omega
  rw [requestBytes, List.length_append, List.length_flatMap]
  omega

theorem writes_encodeHeader {req : ProduceRequest} (small : req.transactionalId.length ≤ int16Max) (topics : ℕ) :
    Writes false (encodeHeader req topics) () (some (headerBytes req topics)) := by
  have id : Writes false (putNullableString req.transactionalId) ()
      (some (if req.transactionalId.isEmpty then bigEndian 2 (-1 : Int16).toUInt16.toNat
        else bigEndian 2 (Int16.ofNat req.transactionalId.length).toUInt16.toNat ++ req.transactionalId)) := by
    refine (writes_putNullableString req.transactionalId).of_eq ?_
    simp only [nullableStringReserve, nullableStringOutput, stringReserve, stringOutput, Bool.false_eq_true, if_false,
      if_pos small]
    split <;> rfl
  have duration : Writes false (putDurationMs req.timeout) () (some (bigEndian 4 req.timeout.toInt32.toUInt32.toNat)) :=
    ⟨(Prep.byPass (prep_grow 4)).of_eq (by rw [length_bigEndian]), Real.byPass (real_putInt32 _)⟩
  refine ((Writes.inVersions fun _ => id).bind ((writes_putInt16 req.acks).bind (duration.bind
    (writes_putArrayLength (Int32.ofNat topics))))).of_eq ?_
  unfold headerBytes
  split <;> rfl

/-- A request whose records settle. -/
theorem settles_encode {req : ProduceRequest} (small : req.transactionalId.length ≤ int16Max)
    (encodes : Encodes library encodeMessageSet req.records settled bytes) :
    Settles false (encode library encodeMessageSet) req { req with records := req.records.map settled }
      (requestBytes bytes req) := by
  obtain ⟨topics, isTopics⟩ : ∃ topics, topics = byTopic req.records.toList := ⟨_, rfl⟩
  have found : ∀ topic ∈ topics, ∀ partition ∈ topic.2, req.records[(topic.1, partition.1)]? = some partition.2 := by
    intro topic topicMember partition member
    have present := mem_ofTopics topicMember member
    rw [isTopics, ofTopics_byTopic] at present
    exact Std.ExtTreeMap.mem_toList_iff_getElem?_eq_some.mp present
  have each := Settles.mapM (f := encodeTopic library encodeMessageSet) fun topic (topicMember : topic ∈ topics) => by
    obtain ⟨partition, rest, nonempty⟩ := List.exists_cons_of_ne_nil (byTopic_nonempty _ topic (isTopics ▸ topicMember))
    have member : partition ∈ topic.2 := nonempty ▸ List.mem_cons_self
    exact settles_encodeTopic (encodes.topic _ _ (found topic topicMember partition member)) fun partition member =>
      encodes.settles _ _ (found topic topicMember partition member)
  have header := writes_encodeHeader small topics.length
  have rebuilt : (ofTopics (mapTopics settled topics)).foldl (fun m entry => m.insert entry.1 entry.2) ∅ =
      req.records.map settled := by
    rw [isTopics, ofTopics_mapTopics, ofTopics_byTopic, List.foldl_map]
    exact Std.ExtTreeMap.foldl_insert_map req.records settled
  have again : byTopic (req.records.map settled).toList = mapTopics settled topics := by
    rw [Std.ExtTreeMap.toList_map, byTopic_map, isTopics]
  have length : (mapTopics settled topics).length = topics.length := List.length_map _
  constructor
  · unfold encode
    rw [← isTopics, ← rebuilt]
    refine Prep.of_eq (header.1.seq (each.counts.seq (Prep.pure _))) ?_
    rw [requestBytes, ← isTopics, List.length_append, Nat.add_zero]
  · unfold encode
    rw [again, length, ← rebuilt]
    refine Real.of_eq (header.2.seq (each.stores.seq (Real.pure _))) ?_
    rw [requestBytes, ← isTopics, List.append_nil]

end ProduceRequest

end Coev.Kafka
