import Coev.Proofs.Kafka.RecordBatchDecode

/-! # The record round trip

`encode` and `Record::decode` are inverse exactly for the records whose varints are counted as they
are stored, whose deltas fit in nine bytes and whose body has a length without the missing byte. The
last condition is necessary because a decoder never moves past less than the record it returns takes.
-/

namespace Coev.Kafka.Record

open ByteString Leb128 PacketDecoder

/-- Encoding the record and decoding the bytes into any record object succeeds, consumes exactly the
bytes and yields the same attributes, deltas, key, value and headers. -/
def RoundTrips (r : Record) : Prop :=
  ∃ bytes measured, Kafka.encode false Record.encode r = .ok (bytes, measured) ∧
    ∀ target : Record, ∃ decoded pd, Record.decode (target, { raw := bytes }) = .ok () (decoded, pd) ∧
      pd.offset = bytes.length ∧ decoded = { r with length := decoded.length }

/-- A record round-trips exactly when it encodes at all, its deltas are readable and the length of its
body needs no byte more than `variantSize` counts. -/
theorem record_round_trip_iff (r : Record) : r.RoundTrips ↔ r.Encodable ∧ r.Readable ∧ VarintSafe r.body.length := by
  constructor
  · rintro ⟨bytes, measured, encoded, decodes⟩
    by_cases encodable : r.Encodable
    · rw [encode_of_encodable encodable] at encoded
      injection encoded with same
      injection same with same _
      obtain ⟨decoded, pd, run, consumed, again⟩ := decodes {}
      have total : bytes.length = r.counted := by rw [← same, encodable.length_encoded]
      have limit : bytes.length ≤ int32Max := total.trans_le (encodable.small.trans (by decide))
      obtain ⟨k, rfl, ⟨readable, cost⟩, -⟩ := decode_consumes _ _ _ _ rfl limit run
      have body : decoded.body = r.body := by rw [again]; rfl
      have deltas : decoded.Readable = r.Readable := by rw [again]; rfl
      refine ⟨encodable, deltas ▸ readable, ?_⟩
      -- an unsafe length leaves the decoder one byte short of what the record takes
      simp only [advance, Nat.zero_add] at consumed
      rw [footprint, counted, body, consumed, total, counted] at cost
      by_contra unsafe_
      rw [if_neg unsafe_] at cost
      omega
    · obtain ⟨failure, failed⟩ := encode_of_not_encodable encodable
      rw [failed] at encoded
      cases encoded
  · rintro ⟨encodable, readable, exact_⟩
    refine ⟨r.encoded, r.measured, encode_of_encodable encodable, fun target => ?_⟩
    refine ⟨r.measured, _, @readsInto_decode false r encodable readable exact_ target
      { raw := r.encoded } [] (iff_of_true rfl rfl) (List.append_nil _).symm, Nat.zero_add _, rfl⟩

/-- A record with a key of 64 bytes does not survive: its length is counted as one byte and stored as
two. -/
theorem sixtyFourByteKey_fails : ¬ RoundTrips { key := List.replicate 64 0x6B } := by
  rintro ⟨bytes, measured, encoded, -⟩
  have not : ¬ Encodable { key := List.replicate 64 0x6B } := by
    rintro ⟨-, -, safe, -⟩
    have key : VarintSafe (List.replicate 64 (0x6B : UInt8)).length := safe.2.2.1
    rw [List.length_replicate] at key
    exact absurd key (by decide)
  obtain ⟨failure, failed⟩ := encode_of_not_encodable not
  rw [failed] at encoded
  cases encoded

end Coev.Kafka.Record

/-! ## The record batch round trip

A batch is read back exactly when both timestamps are the epoch, which is what a decoder that drops
them leaves in a fresh object, the bytes of the record count are read as they were stored, every record
is faithful and the sizes are within the limits of the encoder and the decoder.
-/

namespace Coev.Kafka

open ByteString Leb128 PacketDecoder

/-- The wire fields of a record. -/
def Record.content (r : Record) : Record := { r with length := {} }

namespace RecordBatch

variable {library : CompressionLibrary}
variable {section_ : Bytes}

/-- The wire fields of a batch; the rest of the object is local to it. -/
def content (b : RecordBatch) : RecordBatch :=
  { b with
    partialTrailingRecord := false, compressedRecords := [], recordsLen := 0, records := b.records.map Record.content }

/-- Decoding the bytes into a fresh batch succeeds, consumes exactly the bytes and returns the wire
fields of `b`. -/
def Returned (library : CompressionLibrary) (b : RecordBatch) (bytes : Bytes) : Prop :=
  ∃ b' pd, decode library ({}, { raw := bytes }) = .ok () (b', pd) ∧ pd.offset = bytes.length ∧ b'.content = b.content

/-- The decoder of the records consumes the record section and returns the records. -/
def ReadWhole (library : CompressionLibrary) (b : RecordBatch) (bytes : Bytes) : Prop :=
  ∃ records, decodeRecords (library.decompressed b.codec (bytes.drop 61)) (List.replicate b.records.length {}) =
    .ok () records ∧ records.map Record.content = b.records.map Record.content

/-- The batch encodes, and both decoders consume exactly what was encoded and return it. -/
def RoundTrips (library : CompressionLibrary) (b : RecordBatch) : Prop :=
  ∃ bytes b', Kafka.encode false (encode library) b = .ok (bytes, b') ∧ b.Returned library bytes ∧
    b.ReadWhole library bytes

/-- A record that looks like a new one encodes or hangs. -/
theorem encodable_of_new {r : Record} (fresh : 0 ≤ r.length.length.toInt) (same : r.content = Record.content {}) :
    r.Encodable := by
  have accepted : r.content.Accepted := by rw [same]; decide
  have safe : r.content.Safe := by rw [same]; decide
  have small : r.content.counted ≤ maxRequestSize := by
    rw [same]
    simp only [Record.counted, Record.body, Record.content, PacketEncoder.variantBytesOutput, List.length_append,
      length_bigEndian,
      length_encodeVariant, List.flatMap_nil, List.length_nil]
    decide
  exact ⟨fresh, accepted, safe, small⟩

/-- Records that are read back from what they encode to are faithful: a record that was left out or
whose length prefix is one byte short would make them need more than the section has. -/
theorem faithful_of_decodeRecords {records measured decoded : List Record} {plain : Bytes}
    (run : encodeRecords records = .ok (plain, measured))
    (decodes : decodeRecords plain (List.replicate records.length {}) = .ok () decoded)
    (same : decoded.map Record.content = records.map Record.content) : ∀ r ∈ records, r.Faithful := by
  unfold decodeRecords at decodes
  split_ifs at decodes with empty large
  · injection decodes with _ objects
    rw [List.isEmpty_iff] at empty
    subst empty objects
    cases records with
    | nil => exact fun r member => absurd member List.not_mem_nil
    | cons r rest =>
      simp only [List.length_cons, List.replicate_succ, List.map_cons, List.cons.injEq] at same
      obtain ⟨others, _, -, ⟨encodable, bytes, -⟩ | ⟨not, ⟨err, failed⟩, -, -⟩⟩ := encodeRecords_cons run
      · have present := r.counted_pos
        rw [← encodable.length_encoded, (List.append_eq_nil_iff.mp bytes.symm).1] at present
        exact absurd present (Nat.lt_irrefl 0)
      · have negative : r.length.length.toInt < 0 := by
          by_contra nonneg
          exact not (encodable_of_new (not_lt.mp nonneg) same.1.symm)
        rw [Record.encode_of_negative negative] at failed
        cases failed
  · split at decodes
    · cases decodes
    · cases decodes
    · next objects pd each =>
      split_ifs at decodes with leftover
      injection decodes with _ objectsEq
      subst objectsEq
      obtain ⟨-, ks, posts, rfl, room⟩ := Record.decode_consumes.each
        (fun o member => by rw [List.eq_of_mem_replicate member]) (by exact Nat.not_lt.mp large) each
      simp only [advance, Nat.zero_add, not_not] at leftover
      obtain ⟨readable, footprint⟩ := (List.forall₂_and_left _ _).mp posts
      have fits := sum_cost_le footprint fun _ _ le => le
      have footprints : objects.map Record.footprint = records.map Record.footprint := by
        calc objects.map Record.footprint = (objects.map Record.content).map Record.footprint := by rw [List.map_map]; rfl
          _ = (records.map Record.content).map Record.footprint := by rw [same]
          _ = records.map Record.footprint := by rw [List.map_map]; rfl
      rw [footprints, leftover] at fits
      obtain ⟨counted, all⟩ := encodeRecords_counted run
      have least : ∀ r ∈ records, r.counted ≤ r.footprint := fun r _ => Nat.le_add_right _ _
      have encodable := all ((List.sum_le_sum least).trans fits)
      intro r member
      refine ⟨encodable r member, ?_, ?_⟩
      · obtain ⟨o, inside, content⟩ := List.mem_map.mp (same ▸ List.mem_map_of_mem member)
        have deltas : o.content.Readable := readable o inside
        rwa [content] at deltas
      · by_contra unsafe_
        have more : r.counted < r.footprint := by
          rw [Record.footprint, if_neg unsafe_]
          exact Nat.lt_succ_self _
        exact absurd (List.sum_lt_sum _ _ least ⟨r, member, more⟩) (Nat.not_lt.mpr (fits.trans counted))

/-- The batches that survive: the timestamps are those of a new object, the count and the records are
read as they were stored, and the sizes are within the limits. -/
structure Transmittable (library : CompressionLibrary) (b : RecordBatch) : Prop where
  epoch : b.firstTimestamp = {} ∧ b.maxTimestamp = {}
  count : CountReadable b.countBytes
  faithful : ∀ r ∈ b.records, r.Faithful
  plain : (b.records.flatMap Record.encoded).length ≤ int32Max
  small : 61 + (library.compressed b.codec (b.records.flatMap Record.encoded)).length ≤ maxRequestSize

private theorem length_le_section {records : List Record} (encodable : ∀ r ∈ records, r.Encodable) :
    records.length ≤ (records.flatMap Record.encoded).length := by
  induction records with
  | nil => exact le_rfl
  | cons r rest ih =>
    obtain ⟨head, tail⟩ := List.forall_mem_cons.mp encodable
    have positive := r.counted_pos
    have others := ih tail
    rw [List.flatMap_cons, List.length_append, head.length_encoded, List.length_cons]
    omega

/-- A decoder of the wire of a batch goes on with its record section. -/
theorem decode_wire_eq_ok {b d : RecordBatch} (version : b.version = 2) (small : 49 + section_.length ≤ int32Max)
    {pd : PacketDecoder} (run : decode library ({}, { raw := b.wire section_ }) = .ok () (d, pd)) :
    decodeContents library section_ (countRead b.countBytes) (b.received {}) = .ok () d := by
  have start := @decode_wire library b version section_ small {} { raw := b.wire section_ } []
    (iff_of_true rfl rfl) (List.append_nil _).symm
  rw [start] at run
  exact (onObject_eq_ok_iff.mp run).1

/-- The timestamps of a batch that is returned are those of a new object. -/
theorem epoch_of_returned {b : RecordBatch} (version : b.version = 2) (small : 49 + section_.length ≤ int32Max)
    (returned : b.Returned library (b.wire section_)) : b.firstTimestamp = {} ∧ b.maxTimestamp = {} := by
  obtain ⟨d, pd, run, -, same⟩ := returned
  obtain ⟨_, _, _, rfl⟩ := decodeContents_header (decode_wire_eq_ok version small run)
  have untouched : (b.received {}).firstTimestamp = {} ∧ (b.received {}).maxTimestamp = {} := by
    rw [received, withRoom_eq]
    exact ⟨rfl, rfl⟩
  exact ⟨(congrArg firstTimestamp same).symm.trans untouched.1, (congrArg maxTimestamp same).symm.trans untouched.2⟩

/-- The count of the records of a batch that is returned is read as it was stored. -/
theorem count_of_returned {b : RecordBatch} (version : b.version = 2) (small : 49 + section_.length ≤ int32Max)
    (returned : b.Returned library (b.wire section_)) : CountReadable b.countBytes := by
  obtain ⟨d, pd, run, -, same⟩ := returned
  have contents := decode_wire_eq_ok version small run
  by_contra unreadable
  -- a negative count leaves the fresh object without records
  have negative := countRead_of_unreadable b.length_countBytes unreadable
  have none : (countRead b.countBytes).toInt.toNat = 0 := by
    rw [Int32.lt_iff_toInt_lt] at negative
    exact Int.toNat_of_nonpos (le_of_lt negative)
  rw [decodeContents_zero none, received, withRoom_eq, if_neg (Int32.not_le.mpr negative)] at contents
  injection contents with _ object
  have empty : b.records.map Record.content = [] := by
    calc b.records.map Record.content = d.content.records := (congrArg records same).symm
      _ = [] := by rw [← object]; rfl
  rw [List.map_eq_nil_iff] at empty
  rw [countBytes, empty] at unreadable
  exact unreadable (by decide)

/-- Under its hypotheses a batch round-trips exactly when it is transmittable. -/
theorem record_batch_round_trip_iff {b : RecordBatch} (version : b.version = 2) (dated : b.Dated)
    (inverse : library.Inverse b.codec) (cached : b.Cached library) : b.RoundTrips library ↔ b.Transmittable library := by
  constructor
  · rintro ⟨bytes, b', encoded, returned, decoded, decodes, records⟩
    cases contents : b.section_ library with
    | error failure =>
      obtain ⟨failure, failed⟩ := encode_of_section_error version contents
      rw [failed] at encoded
      cases encoded
    | ok both =>
      obtain ⟨section_, measured⟩ := both
      obtain ⟨⟨plain, measured', encRun, rfl⟩, again, length⟩ := section_eq_ok cached contents
      obtain ⟨within, rfl, -⟩ := (encode_eq_ok_iff version dated contents again length).mp encoded
      rw [drop_wire, inverse] at decodes
      have faithful := faithful_of_decodeRecords encRun decodes records
      have whole := encodeRecords_of_encodable fun r member => (faithful r member).1
      rw [encRun] at whole
      injection whole with whole
      injection whole with plainEq _
      subst plainEq
      have small : 49 + (library.compressed b.codec (b.records.flatMap Record.encoded)).length ≤ int32Max := by
        simp only [int32Max, maxRequestSize] at within ⊢
        omega
      exact ⟨epoch_of_returned version small returned, count_of_returned version small returned, faithful,
        decodeRecords_small decodes, within⟩
  · rintro ⟨epoch, count, faithful, plain, small⟩
    have encodable : ∀ r ∈ b.records, r.Encodable := fun r member => (faithful r member).1
    obtain ⟨measured, contents⟩ := section_of_encodable cached encodable
    obtain ⟨-, again, length⟩ := section_eq_ok cached contents
    have few := (length_le_section encodable).trans plain
    have number : (countRead b.countBytes).toInt = b.records.length := by
      rw [countRead_of_readable b.length_countBytes count, countBytes_eq few]
    have nonneg : 0 ≤ countRead b.countBytes := by
      rw [Int32.le_iff_toInt_le, number]
      exact Int.natCast_nonneg _
    refine ⟨_, _, (encode_eq_ok_iff version dated contents again length).mpr ⟨small, rfl, rfl⟩, ?_, ?_⟩
    · have start := @decode_wire library b version _ (by simp only [int32Max, maxRequestSize] at small ⊢; omega)
        {} { raw := b.wire (library.compressed b.codec (b.records.flatMap Record.encoded)) } []
        (iff_of_true rfl rfl) (List.append_nil _).symm
      have room : (b.received {}).records.length = b.records.length := by
        rw [received, withRoom_eq, if_pos nonneg]
        dsimp only
        rw [Record.length_resize, number, Int.toNat_natCast]
      have codec : (b.received {}).codec = b.codec := by
        rw [received, withRoom_eq]
        rfl
      have run := @decodeContents_encoded library _ faithful plain _ room _
        (by rw [codec]; exact inverse _) _ number
      refine ⟨_, _, start.trans (onObject_eq_ok_iff.mpr ⟨run, rfl⟩), Nat.zero_add _, ?_⟩
      rw [received, withRoom_eq]
      simp only [content, receivedCovered, receivedFrame, List.map_map, epoch.1, epoch.2]
      rfl
    · refine ⟨b.records.map Record.measured, ?_, ?_⟩
      · rw [drop_wire, inverse]
        exact decodeRecords_encoded faithful plain (List.length_replicate ..)
      · rw [List.map_map]
        rfl

/-- A batch of one record at the epoch round-trips. -/
theorem oneRecord_round_trips :
    RoundTrips ⟨fun _ data => data, fun _ data => data⟩ { records := [{ key := [0x6B], value := [0x76] }] } := by
  have length : (Record.body { key := [0x6B], value := [0x76] }).length = 8 := by
    simp only [Record.body, PacketEncoder.variantBytesOutput, List.length_append, length_bigEndian,
      length_encodeVariant, List.flatMap_nil, List.length_nil]
    decide
  have faithful : Record.Faithful { key := [0x6B], value := [0x76] } := by
    refine ⟨⟨by decide, by decide, by decide, ?_⟩, by decide, ?_⟩
    · rw [Record.counted, length]
      decide
    · rw [length]
      decide
  have plain : (List.flatMap Record.encoded [{ key := [0x6B], value := [0x76] }]).length = 9 := by
    rw [List.flatMap_singleton, faithful.1.length_encoded, Record.counted, length]
    decide
  refine (record_batch_round_trip_iff rfl ⟨by decide, by decide⟩ (fun _ => rfl) (.inl rfl)).mpr
    ⟨⟨rfl, rfl⟩, by decide, ?_, ?_, ?_⟩
  · exact List.forall_mem_singleton.mpr faithful
  · exact plain.trans_le (by decide)
  · exact (congrArg (61 + ·) plain).trans_le (by decide)

/-- A first timestamp of one millisecond is stored, read into a temporary and lost. -/
theorem oneMillisecond_lost :
    let b : RecordBatch := { firstTimestamp := ⟨1000000⟩ }
    let library : CompressionLibrary := ⟨fun _ data => data, fun _ data => data⟩
    b.Dated ∧ library.Inverse b.codec ∧
      ∃ bytes b', Kafka.encode false (encode library) b = .ok (bytes, b') ∧ ¬ b.Returned library bytes := by
  intro b library
  have dated : b.Dated := ⟨by decide, by decide⟩
  have contents : b.section_ library = .ok ([], []) := rfl
  refine ⟨dated, fun _ => rfl, b.wire [], b, ?_, fun returned => ?_⟩
  · exact (encode_eq_ok_iff rfl dated contents contents rfl).mpr ⟨by decide, rfl, rfl⟩
  · exact absurd (epoch_of_returned rfl (by decide) returned).1 (by decide)

end RecordBatch

end Coev.Kafka
