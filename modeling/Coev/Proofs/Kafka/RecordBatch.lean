import Coev.Proofs.Kafka.Record

/-! # A record batch on the wire

What the two passes make of a batch, what a decoder reads from it, and the record section between
them: the records that encode are concatenated, the others leave no trace.
-/

namespace Coev.Kafka

open ByteString Leb128 DecodeInto PacketEncoder PacketDecoder

variable {flexible : Bool} {library : CompressionLibrary}
variable {bytes : Bytes}

/-! ## The records -/

theorem Record.Encodable.measured {r : Record} (encodable : r.Encodable) : r.measured.Encodable := by
  have value := Record.sectionLength_toInt encodable.bodyCount_small
  exact ⟨value.ge.trans' (Int.natCast_nonneg _), encodable.accepted, encodable.safe, encodable.small⟩

namespace RecordBatch

variable {records measured : List Record} {plain : Bytes}

theorem encodeRecords_of_encodable {records : List Record} (all : ∀ r ∈ records, r.Encodable) :
    encodeRecords records = .ok (records.flatMap Record.encoded, records.map Record.measured) := by
  induction records with
  | nil => rfl
  | cons r rest ih =>
    obtain ⟨head, tail⟩ := List.forall_mem_cons.mp all
    simp only [encodeRecords, Record.encode_of_encodable head, ih tail]
    rfl

/-- One record more: it either adds its bytes or fails with a code and adds nothing. -/
theorem encodeRecords_cons {r : Record} {rest measured : List Record}
    (run : encodeRecords (r :: rest) = .ok (plain, measured)) :
    ∃ others records, encodeRecords rest = .ok (others, records) ∧
      (r.Encodable ∧ plain = r.encoded ++ others ∧ measured = r.measured :: records ∨
        ¬ r.Encodable ∧ (∃ err, Kafka.encode false Record.encode r = .error (.code err)) ∧
          plain = others ∧ measured = r :: records) := by
  unfold encodeRecords at run
  cases rests : encodeRecords rest with
  | error failure => rw [rests] at run; split at run <;> cases run
  | ok both =>
    obtain ⟨others, records⟩ := both
    rw [rests] at run
    refine ⟨others, records, rfl, ?_⟩
    by_cases encodable : r.Encodable
    · rw [Record.encode_of_encodable encodable] at run
      injection run with same
      injection same with bytes objects
      exact .inl ⟨encodable, bytes.symm, objects.symm⟩
    · obtain ⟨failure, failed⟩ := Record.encode_of_not_encodable encodable
      rw [failed] at run
      cases failure with
      | fault f => cases run
      | code err =>
        injection run with same
        injection same with bytes objects
        exact .inr ⟨encodable, ⟨err, failed⟩, bytes.symm, objects.symm⟩

/-- Encoding the records once more gives the same bytes. -/
theorem encodeRecords_measured (run : encodeRecords records = .ok (plain, measured)) :
    encodeRecords measured = .ok (plain, measured) := by
  induction records generalizing plain measured with
  | nil => injection run with same; injection same with bytes objects; rw [← bytes, ← objects]; rfl
  | cons r rest ih =>
    obtain ⟨others, records, tail, ⟨encodable, rfl, rfl⟩ | ⟨-, ⟨err, failed⟩, rfl, rfl⟩⟩ := encodeRecords_cons run
    · have again : Kafka.encode false Record.encode r.measured = .ok (r.encoded, r.measured) :=
        Record.encode_of_encodable encodable.measured
      simp only [encodeRecords, again, ih tail]
      rfl
    · simp only [encodeRecords, failed, ih tail]
      rfl

theorem length_encodeRecords (run : encodeRecords records = .ok (plain, measured)) : measured.length = records.length := by
  induction records generalizing plain measured with
  | nil => injection run with same; injection same with _ objects; rw [← objects]
  | cons r rest ih =>
    obtain ⟨others, records, tail, ⟨-, -, rfl⟩ | ⟨-, -, -, rfl⟩⟩ := encodeRecords_cons run
    · rw [List.length_cons, List.length_cons, ih tail]
    · rw [List.length_cons, List.length_cons, ih tail]

/-- The section is no longer than its records take, and shorter when one of them was left out. -/
theorem encodeRecords_counted (run : encodeRecords records = .ok (plain, measured)) :
    plain.length ≤ (records.map Record.counted).sum ∧
      ((records.map Record.counted).sum ≤ plain.length → ∀ r ∈ records, r.Encodable) := by
  induction records generalizing plain measured with
  | nil =>
    injection run with same
    injection same with bytes _
    subst bytes
    exact ⟨le_rfl, fun _ r member => absurd member List.not_mem_nil⟩
  | cons r rest ih =>
    rw [List.map_cons, List.sum_cons, List.forall_mem_cons]
    obtain ⟨others, records, tail, ⟨encodable, rfl, -⟩ | ⟨-, -, rfl, -⟩⟩ := encodeRecords_cons run
    · obtain ⟨le, all⟩ := ih tail
      rw [List.length_append, encodable.length_encoded]
      refine ⟨Nat.add_le_add_left le _, fun ge => ⟨encodable, all ?_⟩⟩
      exact Nat.le_of_add_le_add_left ge
    · obtain ⟨le, -⟩ := ih tail
      have positive := r.counted_pos
      exact ⟨by omega, fun ge => absurd ge (by omega)⟩

end RecordBatch

/-! ## The two passes -/

theorem PacketEncoder.Prep.ignoreCode {x : Encode Unit} {n : ℕ} (counts : Prep flexible x () (.ok n)) :
    Prep flexible (Kafka.ignoreCode () x) () (.ok n) := fun pe inPass => ignoreCode_of_ok (counts pe inPass)

theorem PacketEncoder.Real.ignoreCode {x : Encode Unit} (stores : Real flexible x () (some bytes)) :
    Real flexible (Kafka.ignoreCode () x) () (some bytes) := by
  intro pe inPass inside
  obtain ⟨stored, failed⟩ := stores pe inPass inside
  refine ⟨fun room => ignoreCode_of_ok (stored room), fun short => ?_⟩
  obtain ⟨f, s, run⟩ := failed short
  exact ⟨f, s, ignoreCode_of_fault run⟩

/-- A fixed-size field is stored in the room reserved for it. -/
theorem PacketEncoder.Real.enclose_fixed {field : PushField} {α : Type} {body : Encode α} {a : α}
    (fixed : ∀ f, field ≠ .variantLength f) (section_ : Real flexible body a (some bytes)) :
    Real flexible (PacketEncoder.enclose field body) (field, a) (some (sectionHeader bytes field ++ bytes)) := by
  have room : field.reserveLength = some 4 ∧ (sectionHeader bytes field).length = 4 := by
    cases field with
    | length _ => exact ⟨rfl, length_bigEndian ..⟩
    | crc32 _ => exact ⟨rfl, length_bigEndian ..⟩
    | variantLength f => exact absurd rfl (fixed f)
  obtain ⟨reserve, width⟩ := room
  exact (Real.enclose reserve section_ width.ge (by omega)).of_eq (by rw [width, Nat.sub_self, List.drop_zero])

/-- A string that is too long counts nothing when the code of the failure is dropped. -/
theorem prep_ignoreCode_putRawBytes (s : Bytes) :
    Prep flexible (ignoreCode () (putRawBytes s)) () (.ok (if s.length ≤ int32Max then s.length else 0)) := by
  rcases Nat.lt_or_ge int32Max s.length with large | small
  · rw [if_neg (Nat.not_le.mpr large)]
    intro pe inPass
    have refused : putRawBytes s pe = .error (.code (-1)) pe := by
      simp only [putRawBytes, byPass, inPass.pass, gt_iff_lt, if_pos large]
      rfl
    exact ignoreCode_of_code refused
  · rw [if_pos small]
    exact ((prep_putRawBytes s).of_eq (if_pos small)).ignoreCode

namespace Timestamp

/-- The milliseconds a timestamp is stored as. -/
def millis (t : Timestamp) : Int64 := t.time / 1000000

theorem prep_encode {t : Timestamp} (nonneg : 0 ≤ t.time) : Prep flexible t.encode () (.ok 8) := by
  rw [encode, if_pos nonneg]
  exact prep_putInt64 _

theorem real_encode {t : Timestamp} (nonneg : 0 ≤ t.time) :
    Real flexible t.encode () (some (bigEndian 8 t.millis.toUInt64.toNat)) := by
  rw [encode, if_pos nonneg]
  exact real_putInt64 _

end Timestamp

namespace RecordBatch

variable {b : RecordBatch} {section_ : Bytes}

/-- The bytes under the CRC. -/
def covered (b : RecordBatch) (section_ : Bytes) : Bytes :=
  bigEndian 2 b.computeAttributes.toUInt16.toNat ++ (bigEndian 4 b.lastOffsetDelta.toUInt32.toNat ++
    (bigEndian 8 b.firstTimestamp.millis.toUInt64.toNat ++ (bigEndian 8 b.maxTimestamp.millis.toUInt64.toNat ++
      (bigEndian 8 b.producerId.toUInt64.toNat ++ (bigEndian 2 b.producerEpoch.toUInt16.toNat ++
        (bigEndian 4 b.firstSequence.toUInt32.toNat ++
          (bigEndian 4 (Int32.ofNat b.records.length).toUInt32.toNat ++ section_)))))))

/-- The bytes under the length. -/
def framed (b : RecordBatch) (section_ : Bytes) : Bytes :=
  bigEndian 4 b.partitionLeaderEpoch.toUInt32.toNat ++ (bigEndian 1 b.version.toUInt8.toNat ++
    (bigEndian 4 (crc32 .CrcCastagnoli (b.covered section_)).toNat ++ b.covered section_))

/-- A batch on the wire. -/
def wire (b : RecordBatch) (section_ : Bytes) : Bytes :=
  bigEndian 8 b.firstOffset.toUInt64.toNat ++
    (bigEndian 4 ((b.framed section_).length % 2 ^ 32) ++ b.framed section_)

theorem length_covered (b : RecordBatch) (section_ : Bytes) : (b.covered section_).length = 40 + section_.length := by
  simp only [covered, List.length_append, length_bigEndian]
  omega

theorem length_framed (b : RecordBatch) (section_ : Bytes) : (b.framed section_).length = 49 + section_.length := by
  simp only [framed, List.length_append, length_bigEndian, length_covered]
  omega

theorem length_wire (b : RecordBatch) (section_ : Bytes) : (b.wire section_).length = 61 + section_.length := by
  simp only [wire, List.length_append, length_bigEndian, length_framed]
  omega

theorem drop_wire (b : RecordBatch) (section_ : Bytes) : (b.wire section_).drop 61 = section_ := by
  have split : b.wire section_ = (b.wire section_).take 61 ++ section_ := by
    simp only [wire, framed, covered, ← List.append_assoc]
    rw [List.take_left' (by simp only [List.length_append, length_bigEndian])]
  have front : ((b.wire section_).take 61).length = 61 := by
    rw [List.length_take, length_wire]
    omega
  calc (b.wire section_).drop 61 = ((b.wire section_).take 61 ++ section_).drop 61 := by rw [← split]
    _ = section_ := List.drop_left' front

/-- Neither timestamp is before the epoch. -/
def Dated (b : RecordBatch) : Prop := 0 ≤ b.firstTimestamp.time ∧ 0 ≤ b.maxTimestamp.time

theorem prep_encodeCovered (dated : b.Dated) (section_ : Bytes) : Prep false (b.encodeCovered section_) ()
      (.ok (40 + if section_.length ≤ int32Max then section_.length else 0)) := by
  have counts : Prep false (b.encodeCovered section_) () (.ok (2 + (4 + (8 + (8 + (8 + (2 + (4 + (4 +
      if section_.length ≤ int32Max then section_.length else 0))))))))) :=
    (prep_putInt16 _).seq ((prep_putInt32 _).seq ((Timestamp.prep_encode dated.1).ignoreCode.seq
      ((Timestamp.prep_encode dated.2).ignoreCode.seq ((prep_putInt64 _).seq ((prep_putInt16 _).seq
        ((prep_putInt32 _).seq ((prep_putArrayLength _).seq (prep_ignoreCode_putRawBytes section_))))))))
  exact counts.of_eq (by congr 1; omega)

theorem real_encodeCovered (dated : b.Dated) (section_ : Bytes) :
    Real false (b.encodeCovered section_) () (some (b.covered section_)) :=
  (real_putInt16 _).seq ((real_putInt32 _).seq ((Timestamp.real_encode dated.1).ignoreCode.seq
    ((Timestamp.real_encode dated.2).ignoreCode.seq ((real_putInt64 _).seq ((real_putInt16 _).seq
      ((real_putInt32 _).seq ((real_putArrayLength _).seq (real_putRawBytes section_).ignoreCode)))))))

theorem prep_encode {b : RecordBatch} (version : b.version = 2) (dated : b.Dated) {section_ : Bytes}
    {records : List Record} (contents : b.section_ library = .ok (section_, records)) :
    Prep false (b.encode library) { b with records }
      (.ok (61 + if section_.length ≤ int32Max then section_.length else 0)) := by
  rw [encode, if_neg (not_not.mpr version), contents]
  have counts := (prep_encodeCovered dated section_).seq (k := fun _ => pure records) (Prep.pure records)
  refine Prep.of_eq ((prep_putInt64 b.firstOffset).seq ((Prep.enclose_fixed (fun _ => PushField.noConfusion)
    ((prep_putInt32 b.partitionLeaderEpoch).seq ((prep_putInt8 b.version).seq
      (Prep.enclose_fixed (fun _ => PushField.noConfusion) counts)))).seq (Prep.pure { b with records }))) ?_
  congr 1
  omega

theorem real_encode (version : b.version = 2) (dated : b.Dated)
    (contents : b.section_ library = .ok (section_, b.records)) :
    Real false (b.encode library) b (some (b.wire section_)) := by
  rw [encode, if_neg (not_not.mpr version), contents]
  have stores := (real_encodeCovered dated section_).seq (k := fun _ => pure b.records) (Real.pure b.records)
  refine Real.of_eq ((real_putInt64 b.firstOffset).seq ((Real.enclose_fixed (fun _ => PushField.noConfusion)
    ((real_putInt32 b.partitionLeaderEpoch).seq ((real_putInt8 b.version).seq
      (Real.enclose_fixed (fun _ => PushField.noConfusion) stores)))).seq (Real.pure b))) ?_
  simp only [sectionHeader, List.append_nil, wire, framed]

/-- A batch whose record section is settled encodes exactly when its bytes are within the limit. -/
theorem encode_eq_ok_iff (version : b.version = 2) (dated : b.Dated) {records : List Record}
    (contents : b.section_ library = .ok (section_, records))
    (again : { b with records }.section_ library = .ok (section_, records)) (length : records.length = b.records.length)
    {b' : RecordBatch} : Kafka.encode false (encode library) b = .ok (bytes, b') ↔
      61 + section_.length ≤ maxRequestSize ∧ bytes = b.wire section_ ∧ b' = { b with records } := by
  have counts := prep_encode version dated contents
  have stores := real_encode (b := { b with records }) version dated again
  have same : { b with records }.wire section_ = b.wire section_ := by
    simp only [wire, framed, covered, length, computeAttributes]
  rw [same] at stores
  have total := b.length_wire section_
  rcases Nat.lt_or_ge int32Max section_.length with large | small
  · rw [if_neg (Nat.not_le.mpr large)] at counts
    obtain ⟨f, failed⟩ := encode_of_overrun counts stores (by rw [total]; simp only [int32Max] at large; omega)
      (by simp only [maxRequestSize]; omega)
    rw [failed]
    constructor
    · intro encoded
      cases encoded
    · rintro ⟨within, -⟩
      simp only [int32Max, maxRequestSize] at large within
      omega
  · rw [if_pos small, ← total] at counts
    rw [← total]
    rcases Nat.lt_or_ge maxRequestSize (b.wire section_).length with large | within
    · rw [encode_of_large counts large]
      constructor
      · intro encoded
        cases encoded
      · rintro ⟨within, -⟩
        exact absurd within (Nat.not_le.mpr large)
    · rw [encode_eq_ok counts stores within, Except.ok.injEq, Prod.mk.injEq]
      constructor
      · rintro ⟨rfl, rfl⟩
        exact ⟨within, rfl, rfl⟩
      · rintro ⟨-, rfl, rfl⟩
        exact ⟨rfl, rfl⟩

/-- Without a record section nothing is encoded. -/
theorem encode_of_section_error (version : b.version = 2) {failure : Failure}
    (contents : b.section_ library = .error failure) :
    ∃ failure, Kafka.encode false (encode library) b = .error failure := by
  have refuses : Prep false (b.encode library) b (.error failure) := by
    rw [encode, if_neg (not_not.mpr version), contents]
    have inner : Prep false (PacketEncoder.enclose (.crc32 ⟨.CrcCastagnoli⟩) (throw failure : Encode (List Record)))
        (.crc32 ⟨.CrcCastagnoli⟩, []) (.error failure) :=
      Prep.enclose_error rfl fun pe _ => ⟨pe, rfl⟩
    exact (prep_putInt64 b.firstOffset).seq_fail ((Prep.enclose_error (a := (.crc32 ⟨.CrcCastagnoli⟩, [])) rfl
      ((prep_putInt32 b.partitionLeaderEpoch).seq_fail ((prep_putInt8 b.version).seq_fail inner))).fail _ b)
  exact encode_of_prep_error refuses

/-! ## The cached section -/

/-- The cached bytes are absent or those of the records, as `encode_records` leaves them. -/
def Cached (library : CompressionLibrary) (b : RecordBatch) : Prop :=
  b.compressedRecords = [] ∨ ∃ plain measured, encodeRecords b.records = .ok (plain, measured) ∧
    b.compressedRecords = library.compressed b.codec plain

theorem section_of_absent (absent : b.compressedRecords = []) :
    b.section_ library = (do
      let (plain, records) ← encodeRecords b.records
      return (library.compressed b.codec plain, records)) := by
  rw [RecordBatch.section_, absent, List.isEmpty_nil, if_pos rfl]

theorem section_of_present (present : b.compressedRecords ≠ []) :
    b.section_ library = .ok (b.compressedRecords, b.records) := by
  rw [RecordBatch.section_, if_neg (by rwa [List.isEmpty_iff])]
  rfl

/-- The record section is the compression of what the records encode to, and encoding the batch once
more finds the same section. -/
theorem section_eq_ok (cached : b.Cached library) {records : List Record}
    (run : b.section_ library = .ok (section_, records)) :
    (∃ plain measured, encodeRecords b.records = .ok (plain, measured) ∧ section_ = library.compressed b.codec plain) ∧
      { b with records }.section_ library = .ok (section_, records) ∧ records.length = b.records.length := by
  by_cases absent : b.compressedRecords = []
  · rw [section_of_absent absent] at run
    cases plain : encodeRecords b.records with
    | error failure => rw [plain] at run; cases run
    | ok both =>
      obtain ⟨bytes, measured⟩ := both
      rw [plain] at run
      injection run with same
      injection same with sectionEq recordsEq
      subst sectionEq recordsEq
      refine ⟨⟨bytes, measured, rfl, rfl⟩, ?_, length_encodeRecords plain⟩
      rw [section_of_absent (b := { b with records := measured }) absent, encodeRecords_measured plain]
      rfl
  · rw [section_of_present absent] at run
    injection run with same
    injection same with sectionEq recordsEq
    subst sectionEq recordsEq
    exact ⟨cached.resolve_left absent, section_of_present absent, rfl⟩

/-- Records that all encode have a section. -/
theorem section_of_encodable (cached : b.Cached library) (all : ∀ r ∈ b.records, r.Encodable) :
    ∃ records, b.section_ library = .ok (library.compressed b.codec (b.records.flatMap Record.encoded), records) := by
  have plain := encodeRecords_of_encodable all
  by_cases absent : b.compressedRecords = []
  · refine ⟨b.records.map Record.measured, ?_⟩
    rw [section_of_absent absent, plain]
    rfl
  · obtain ⟨bytes, measured, run, same⟩ := cached.resolve_left absent
    rw [plain] at run
    injection run with eq
    injection eq with bytesEq _
    exact ⟨b.records, by rw [section_of_present absent, bytesEq, ← same]⟩

end RecordBatch

end Coev.Kafka
