import Coev.Proofs.Kafka.ArrayLength
import Coev.Proofs.Kafka.RecordBatch

/-! # Reading a record batch

In front of the bytes of a batch a decoder reads every field of its header back but the two timestamps,
and goes on with the record section and with the number of records as its signed bytes give it.
-/

namespace Coev.Kafka.RecordBatch

open EStateM (bind_of_ok bind_of_error)
open ByteString DecodeInto PacketDecoder

variable {library : CompressionLibrary}
variable {b b' : RecordBatch} {buf : Bytes} {numRecord : Int32} {failure : Failure} {section_ : Bytes}

/-- The flags and the codec are packed without overlap. -/
theorem computeAttributes_flags (b : RecordBatch) : CompressionCodec.ofAttributes b.computeAttributes = b.codec ∧
      decide (b.computeAttributes &&& 0x20 ≠ 0) = b.control ∧
        decide (b.computeAttributes &&& 0x08 ≠ 0) = b.logAppendTime ∧
          decide (b.computeAttributes &&& 0x10 ≠ 0) = b.isTransactional := by
  have all (codec : CompressionCodec) (control logAppendTime isTransactional : Bool) :
      let attributes := computeAttributes { codec, control, logAppendTime, isTransactional }
      CompressionCodec.ofAttributes attributes = codec ∧ decide (attributes &&& 0x20 ≠ 0) = control ∧
        decide (attributes &&& 0x08 ≠ 0) = logAppendTime ∧ decide (attributes &&& 0x10 ≠ 0) = isTransactional := by
    cases codec <;> cases control <;> cases logAppendTime <;> cases isTransactional <;> decide
  exact all b.codec b.control b.logAppendTime b.isTransactional

/-- The stored count of the records. -/
def countBytes (b : RecordBatch) : Bytes := bigEndian 4 (Int32.ofNat b.records.length).toUInt32.toNat

theorem length_countBytes (b : RecordBatch) : b.countBytes.length = 4 := length_bigEndian ..

/-- The object once the bytes under the CRC of `b` are read into it, up to the record section. -/
def receivedCovered (b o : RecordBatch) : RecordBatch :=
  { o with
    codec := b.codec, control := b.control, logAppendTime := b.logAppendTime, isTransactional := b.isTransactional,
    lastOffsetDelta := b.lastOffsetDelta, producerId := b.producerId, producerEpoch := b.producerEpoch,
    firstSequence := b.firstSequence }

theorem readsInto_timestamp (b : RecordBatch) (get : RecordBatch → Timestamp) (x : Int64) :
    ReadsInto false (ignoreCode () (part get (fun _ b => b) Timestamp.decode)) (bigEndian 8 x.toUInt64.toNat) b b () :=
  (ReadsInto.part ((reads_getInt64 x).read (get b)).storeLast).ignoreCode

/-- The bytes under the CRC in front of the record section. -/
def coveredHeader (b : RecordBatch) : Bytes :=
  bigEndian 2 b.computeAttributes.toUInt16.toNat ++ (bigEndian 4 b.lastOffsetDelta.toUInt32.toNat ++
    (bigEndian 8 b.firstTimestamp.millis.toUInt64.toNat ++ (bigEndian 8 b.maxTimestamp.millis.toUInt64.toNat ++
      (bigEndian 8 b.producerId.toUInt64.toNat ++ (bigEndian 2 b.producerEpoch.toUInt16.toNat ++
        (bigEndian 4 b.firstSequence.toUInt32.toNat ++ b.countBytes))))))

theorem covered_eq (b : RecordBatch) (section_ : Bytes) : b.covered section_ = b.coveredHeader ++ section_ := by
  simp only [covered, coveredHeader, countBytes, List.append_assoc]

theorem readsInto_decodeCovered (b o : RecordBatch) :
    ReadsInto false decodeCovered b.coveredHeader o (b.receivedCovered o) (countRead b.countBytes) := by
  obtain ⟨codec, control, logAppendTime, isTransactional⟩ := computeAttributes_flags b
  unfold decodeCovered decodeNumRecord
  refine ((reads_getInt16 b.computeAttributes).read o).ignoreCode.store ?_
  rw [codec, control, logAppendTime, isTransactional]
  refine ((reads_getInt32 b.lastOffsetDelta).read _).ignoreCode.store ?_
  refine (readsInto_timestamp _ _ b.firstTimestamp.millis).bind ?_
  refine (readsInto_timestamp _ _ b.maxTimestamp.millis).bind ?_
  refine ((reads_getInt64 b.producerId).read _).ignoreCode.store ?_
  refine ((reads_getInt16 b.producerEpoch).read _).ignoreCode.store ?_
  refine ((reads_getInt32 b.firstSequence).read _).ignoreCode.store ?_
  exact readsInto_getArrayLength (length_bigEndian ..) _

theorem getRecordSection_eq (section_ : Bytes) (small : 49 + section_.length ≤ int32Max) :
    getRecordSection (Int32.ofNat ((49 + section_.length) % 2 ^ 32)) = getRawBytes (Int32.ofNat section_.length) := by
  simp only [int32Max] at small
  have value : (Int32.ofNat ((49 + section_.length) % 2 ^ 32)).toInt = 49 + section_.length := by
    rw [Nat.mod_eq_of_lt (by omega), Int32.toInt_ofNat_of_lt (by omega)]
    omega
  have overhead : recordBatchOverhead.toInt = 49 := rfl
  have rest : Int32.ofNat ((49 + section_.length) % 2 ^ 32) - recordBatchOverhead = Int32.ofNat section_.length := by
    rw [← Int32.toInt_inj, Int32.toInt_sub, value, overhead, Int32.toInt_ofNat_of_lt (by omega)]
    exact (Int.bmod_eq_of_le (by omega) (by omega)).trans (by omega)
  rw [getRecordSection, rest, if_neg (by rw [value, overhead]; omega)]

/-- The bytes in front of the CRC, for a record section of `n` bytes. -/
def frameHeader (b : RecordBatch) (n : ℕ) : Bytes :=
  bigEndian 8 b.firstOffset.toUInt64.toNat ++ (bigEndian 4 ((49 + n) % 2 ^ 32) ++
    (bigEndian 4 b.partitionLeaderEpoch.toUInt32.toNat ++ bigEndian 1 b.version.toUInt8.toNat))

theorem wire_eq (b : RecordBatch) (section_ : Bytes) : b.wire section_ = b.frameHeader section_.length ++
    (bigEndian 4 (crc32 .CrcCastagnoli (b.covered section_)).toNat ++ (b.coveredHeader ++ section_)) := by
  rw [wire, length_framed]
  simp only [framed, frameHeader, covered_eq, List.append_assoc]

/-- The object once the fields of `b` in front of its CRC are read into it. -/
def receivedFrame (b o : RecordBatch) : RecordBatch :=
  { o with firstOffset := b.firstOffset, partitionLeaderEpoch := b.partitionLeaderEpoch, version := b.version }

theorem readsInto_decodeFrame (b o : RecordBatch) (n : ℕ) :
    ReadsInto false decodeFrame (b.frameHeader n) o (b.receivedFrame o)
      (Int32.ofNat ((49 + n) % 2 ^ 32), b.version) := by
  have length : Reads false getInt32 (bigEndian 4 ((49 + n) % 2 ^ 32)) (Int32.ofNat ((49 + n) % 2 ^ 32)) := by
    have reads := @reads_value false 4 ((49 + n) % 2 ^ 32) _ Int32.ofNat
    have word : (49 + n) % 2 ^ 32 % 256 ^ 4 = (49 + n) % 2 ^ 32 := by omega
    rwa [word] at reads
  unfold decodeFrame
  refine ((reads_getInt64 b.firstOffset).readOr _ o).store ((length.read _).bind
    (((reads_getInt32 b.partitionLeaderEpoch).readOr _ _).store ?_))
  exact ((reads_getInt8 b.version).readOr _ _).storeReturn

/-- The object once the header of `b` is read into it, in front of its record section. -/
def received (b o : RecordBatch) : RecordBatch :=
  withRoom (countRead b.countBytes) (b.receivedCovered (b.receivedFrame o))

theorem withRoom_eq (numRecord : Int32) (b : RecordBatch) : withRoom numRecord b =
    { b with records := if 0 ≤ numRecord then resize numRecord.toInt.toNat {} b.records else b.records } := by
  unfold withRoom
  split <;> rfl

/-- Only version 2 goes on behind the frame. -/
theorem decode_of_frame {o o' : RecordBatch} {pd pd' : PacketDecoder} {batchLen : Int32} {version : Int8}
    (run : decodeFrame (o, pd) = .ok (batchLen, version) (o', pd')) :
    decode library (o, pd) = if version = 2 then decodeChecked library batchLen (o', pd')
      else .error (.fault (.thrown (.runtimeError "unsupported record batch version"))) (o', pd') := by
  rw [decode, bind_of_ok run]
  dsimp only
  by_cases two : version = 2
  · rw [if_neg (not_not.mpr two), if_pos two]
  · rw [if_pos two, if_neg two]
    rfl

/-- The reader with the checksum pushed. -/
def checking (pd : PacketDecoder) : PacketDecoder :=
  { pd.advance 4 with stack := ⟨pd.offset, .crc32 ⟨.CrcCastagnoli⟩⟩ :: pd.stack }

/-- Under a checksum the record section decides; whether the checksum agrees does not. -/
theorem decodeRecordSection_of_section {o : RecordBatch} {pd pd' : PacketDecoder} {batchLen numRecord : Int32}
    {section_ : Bytes} {start : ℕ} {stack : List Pushed} (contents : getRecordSection batchLen pd = .ok section_ pd')
    (top : pd'.stack = ⟨start, .crc32 ⟨.CrcCastagnoli⟩⟩ :: stack) :
    decodeRecordSection library batchLen numRecord (o, pd) =
      onObject (decodeContents library section_ numRecord) (o, { pd' with stack }) := by
  rw [decodeRecordSection, bind_of_ok (read_eq_ok_iff.mpr ⟨contents, rfl⟩)]
  exact bind_of_ok (ignoreCode_pop_crc32 _ top) _

theorem decodeRecordSection_of_error {o : RecordBatch} {pd pd' : PacketDecoder} {batchLen numRecord : Int32}
    {failure : Failure} (failed : getRecordSection batchLen pd = .error failure pd') :
    decodeRecordSection library batchLen numRecord (o, pd) = .error failure (o, pd') :=
  bind_of_error (read_of_error failed) _

/-- Without a checksum on the stack the pop has nothing to take. -/
theorem decodeRecordSection_of_emptyStack {o : RecordBatch} {pd pd' : PacketDecoder} {batchLen numRecord : Int32}
    {section_ : Bytes} (contents : getRecordSection batchLen pd = .ok section_ pd') (empty : pd'.stack = []) :
    decodeRecordSection library batchLen numRecord (o, pd) = .error (.fault .emptyStack) (o, pd') := by
  have popped : PacketDecoder.pop pd' = .error (.fault .emptyStack) pd' := by
    rw [PacketDecoder.pop, empty]
  rw [decodeRecordSection, bind_of_ok (read_eq_ok_iff.mpr ⟨contents, rfl⟩)]
  exact bind_of_error (ignoreCode_of_fault (read_of_error popped)) _

/-- The reader after the push whose error code is ignored: without room for a checksum it is at the end. -/
def pushed (pd : PacketDecoder) : PacketDecoder := if 4 ≤ pd.remaining then checking pd else pd.atEnd

theorem push_pushed (o : RecordBatch) (pd : PacketDecoder) :
    ignoreCode (.crc32 ⟨.CrcCastagnoli⟩) (read (PacketDecoder.push (.crc32 ⟨.CrcCastagnoli⟩))) (o, pd) =
      .ok (.crc32 ⟨.CrcCastagnoli⟩) (o, pushed pd) := by
  unfold pushed
  split_ifs with room
  · exact ignoreCode_of_ok (read_eq_ok_iff.mpr ⟨push_crc32 _ room, rfl⟩)
  · exact ignoreCode_of_code (read_of_error (push_crc32_of_short _ (not_le.mp room)))

theorem decodeChecked_of_covered {o o' : RecordBatch} {pd pd' : PacketDecoder} {batchLen numRecord : Int32}
    (covered : decodeCovered (o, pushed pd) = .ok numRecord (o', pd')) : decodeChecked library batchLen (o, pd) =
      decodeRecordSection library batchLen numRecord (withRoom numRecord o', pd') := by
  have resized : update (withRoom numRecord) (o', pd') = .ok () (withRoom numRecord o', pd') := rfl
  rw [decodeChecked, bind_of_ok (push_pushed o pd), bind_of_ok covered, bind_of_ok resized]

/-- In front of a batch a decoder reads its header and goes on with the record section. -/
theorem decode_wire {b : RecordBatch} (version : b.version = 2) {section_ : Bytes}
    (small : 49 + section_.length ≤ int32Max) (o : RecordBatch) {pd : PacketDecoder} {rest : Bytes}
    (mode : InMode false pd) (ahead : pd.unread = b.wire section_ ++ rest) :
    decode library (o, pd) = onObject (decodeContents library section_ (countRead b.countBytes))
      (b.received o, pd.advance (b.wire section_).length) := by
  have header : b.coveredHeader.length = 40 := by
    simp only [coveredHeader, countBytes, List.length_append, length_bigEndian]
  have frame : (b.frameHeader section_.length).length = 17 := by
    simp only [frameHeader, List.length_append, length_bigEndian]
  have total := b.length_wire section_
  rw [wire_eq, List.append_assoc] at ahead
  have behindFrame := unread_advance ahead
  have run := readsInto_decodeFrame b o section_.length pd _ mode ahead
  rw [frame, List.append_assoc] at behindFrame
  rw [frame] at run
  have behindCrc := unread_advance behindFrame
  rw [length_bigEndian, List.append_assoc] at behindCrc
  have behindHeader := unread_advance behindCrc
  have room : 4 ≤ (pd.advance 17).remaining := by
    rw [remaining_eq, behindFrame, List.length_append, length_bigEndian]
    omega
  have covered := readsInto_decodeCovered b (b.receivedFrame o) (checking (pd.advance 17)) _ mode behindCrc
  have checked : pushed (pd.advance 17) = checking (pd.advance 17) := if_pos room
  rw [← checked] at covered
  have contents := @reads_getRawBytes false _ (by simp only [int32Max] at small ⊢; omega)
    ((checking (pd.advance 17)).advance b.coveredHeader.length) rest mode behindHeader
  rw [← getRecordSection_eq section_ small] at contents
  rw [decode_of_frame run, if_pos version, decodeChecked_of_covered covered, checked,
    decodeRecordSection_of_section contents rfl, received, total, header]
  simp only [checking, advance]
  congr 3
  omega

/-! ## The record section -/

/-- Faithful records are read back from their concatenation into any records. -/
theorem decodeRecords_encoded {records targets : List Record} (faithful : ∀ r ∈ records, r.Faithful)
    (small : (records.flatMap Record.encoded).length ≤ int32Max) (length : targets.length = records.length) :
    decodeRecords (records.flatMap Record.encoded) targets = .ok () (records.map Record.measured) := by
  have each := @ReadsInto.each _ _ false Record.decode Record.encoded Record.measured records
    (fun r member o => Record.readsInto_decode (faithful r member).1 (faithful r member).2.1 (faithful r member).2.2 o)
    _ length { raw := records.flatMap Record.encoded } [] (iff_of_true rfl rfl) (List.append_nil _).symm
  dsimp only at each
  unfold decodeRecords
  split_ifs with empty large
  · cases records with
    | nil => rw [List.eq_nil_of_length_eq_zero length]; rfl
    | cons r rest =>
      have present : 0 < r.encoded.length := by
        rw [(faithful r (List.mem_cons_self ..)).1.length_encoded]
        exact r.counted_pos
      rw [List.isEmpty_iff, List.flatMap_cons, List.append_eq_nil_iff] at empty
      rw [empty.1] at present
      exact absurd present (Nat.lt_irrefl 0)
  · exact absurd small (Nat.not_le.mpr large)
  · rw [each]
    simp only [advance, Nat.zero_add, ne_eq, not_true, if_false]

/-- A round that succeeds from any records is repeated without effect. -/
theorem decodeRounds_of_stable {records : List Record}
    (stable : ∀ targets : List Record, targets.length = records.length → decodeRecords buf targets = .ok () records)
    {targets : List Record} (length : targets.length = records.length) (n : ℕ) :
    decodeRounds buf (n + 1) targets = .ok () records := by
  induction n generalizing targets with
  | zero =>
    rw [decodeRounds, bind_of_ok (ignoreCode_of_ok (stable targets length))]
    rfl
  | succ n ih =>
    rw [decodeRounds, bind_of_ok (ignoreCode_of_ok (stable targets length))]
    exact ih rfl

/-- A record section that is decoded fits the `int` offsets of its decoder. -/
theorem decodeRecords_small {records decoded : List Record} (run : decodeRecords buf records = .ok () decoded) :
    buf.length ≤ int32Max := by
  unfold decodeRecords at run
  split_ifs at run with empty large
  · rw [List.isEmpty_iff.mp empty]
    exact Nat.zero_le _
  · exact Nat.not_lt.mp large

theorem decodeSection_header {n : ℕ} (run : decodeSection buf n b = .ok () b') :
    ∃ partialTrailingRecord records, b' = { b with partialTrailingRecord, records } := by
  unfold decodeSection at run
  split at run
  · injection run with _ same
    exact ⟨_, _, same.symm⟩
  · split at run
    · injection run with _ same
      exact ⟨_, _, same.symm⟩
    · injection run with _ same
      exact ⟨_, _, same.symm⟩
  · cases run

/-- Decoding the record section changes nothing of the header. -/
theorem decodeContents_header (run : decodeContents library section_ numRecord b = .ok () b') :
    ∃ partialTrailingRecord recordsLen records, b' = { b with partialTrailingRecord, recordsLen, records } := by
  obtain ⟨partialTrailingRecord, records, same⟩ := decodeSection_header run
  exact ⟨partialTrailingRecord, _, records, same⟩

/-- Without a round nothing is decoded. -/
theorem decodeContents_zero (none : numRecord.toInt.toNat = 0) (b : RecordBatch) :
    decodeContents library section_ numRecord b =
      .ok () { b with recordsLen := (library.decompressed b.codec section_).length } := by
  rw [decodeContents, decodeSection, none]
  rfl

theorem decodeContents_of_rounds {section_ : Bytes} {numRecord : Int32} {b : RecordBatch} {records : List Record}
    (rounds : decodeRounds (library.decompressed b.codec section_) numRecord.toInt.toNat b.records = .ok () records) :
    decodeContents library section_ numRecord b =
      .ok () { b with recordsLen := (library.decompressed b.codec section_).length, records } := by
  rw [decodeContents, decodeSection]
  simp only [rounds]

/-- Faithful records are what the rounds over their section leave. -/
theorem decodeContents_encoded {records : List Record} (faithful : ∀ r ∈ records, r.Faithful)
    (small : (records.flatMap Record.encoded).length ≤ int32Max) {b : RecordBatch}
    (length : b.records.length = records.length)
    {section_ : Bytes} (plain : library.decompressed b.codec section_ = records.flatMap Record.encoded)
    {numRecord : Int32} (number : numRecord.toInt = records.length) :
    decodeContents library section_ numRecord b = .ok ()
      { b with recordsLen := (records.flatMap Record.encoded).length, records := records.map Record.measured } := by
  have rounds : decodeRounds (records.flatMap Record.encoded) records.length b.records =
      .ok () (records.map Record.measured) := by
    cases count : records.length with
    | zero =>
      rw [count] at length
      rw [List.eq_nil_of_length_eq_zero length, List.eq_nil_of_length_eq_zero count]
      rfl
    | succ n =>
      refine decodeRounds_of_stable (fun targets same => decodeRecords_encoded faithful small ?_) ?_ n
      · rw [same, List.length_map]
      · rw [length, List.length_map]
  rw [← plain] at rounds
  rw [decodeContents_of_rounds (by rw [number, Int.toNat_natCast]; exact rounds), plain]

theorem countBytes_eq {b : RecordBatch} (small : b.records.length ≤ int32Max) :
    value b.countBytes = b.records.length := by
  have word : (Int32.ofNat b.records.length).toUInt32.toNat = b.records.length := by
    simp only [int32Max] at small
    exact UInt32.toNat_ofNat_of_lt (by simp only [UInt32.size]; omega)
  rw [countBytes, word]
  exact value_bigEndian_of_lt (by simp only [int32Max] at small; omega)

/-- No error code of the records reaches the caller. -/
theorem decodeRounds_fault {n : ℕ} {records records' : List Record}
    (run : decodeRounds buf n records = .error failure records') : ∃ f, failure = .fault f := by
  induction n generalizing records with
  | zero => cases run
  | succ n ih =>
    rcases EStateM.bind_eq_error_iff.mp run with failed | ⟨_, _, _, rest⟩
    · unfold ignoreCode at failed
      split at failed
      · cases failed
      · next result kept =>
        cases failure with
        | code err => exact absurd failed (kept err records')
        | fault f => exact ⟨f, rfl⟩
    · exact ih rest

theorem decodeSection_fault {n : ℕ} (run : decodeSection buf n b = .error failure b') : ∃ f, failure = .fault f := by
  unfold decodeSection at run
  split at run
  · cases run
  · split at run <;> cases run
  · next rounds =>
    injection run with same _
    subst same
    exact decodeRounds_fault rounds

theorem decodeContents_fault (run : decodeContents library section_ numRecord b = .error failure b') :
    ∃ f, failure = .fault f :=
  decodeSection_fault run

end Coev.Kafka.RecordBatch
