import Coev.Proofs.Kafka.RecordBatchBytes

/-! # What a decoded record batch vouches for

A decode notices that a batch is cut short and nothing else: neither the checksum nor the errors of the
records reach the caller. So it vouches for the bytes exactly when it refuses them for their length, or
when nothing is wrong with them.
-/

namespace Coev.Kafka.RecordBatch

open ByteString DecodeInto PacketDecoder

variable {library : CompressionLibrary}
variable {s : RecordBatch × PacketDecoder} {bytes : Bytes} {pd : PacketDecoder} {b : RecordBatch}

/-- The record section of a batch, by the length in its bytes. -/
def sectionOf (bytes : Bytes) : Bytes := (bytes.take (12 + (lengthOf bytes).toInt.toNat)).drop 61

/-- The bytes the checksum of a batch covers. -/
def coveredOf (bytes : Bytes) : Bytes := (bytes.take (12 + (lengthOf bytes).toInt.toNat)).drop 21

/-- The number of records declared in the bytes of a batch. -/
def declaredOf (bytes : Bytes) : ℤ := (Int32.ofNat (value (countOf (bytes.drop 21)))).toInt

/-- The decoder of the records reads `buf` to its end as exactly `n` records. -/
def ParsesTo (buf : Bytes) (n : ℤ) : Prop :=
  buf.length ≤ int32Max ∧ ∃ records pd, (records.length : ℤ) = n ∧
    each Record.decode (List.replicate records.length {}) { raw := buf } = .ok () (records, pd) ∧ pd.offset = buf.length

/-- The bytes hold a whole batch whose checksum agrees and whose record section parses to the declared
number of records. -/
structure Intact (library : CompressionLibrary) (bytes : Bytes) : Prop where
  header : 61 ≤ bytes.length
  contents : 49 ≤ (lengthOf bytes).toInt ∧ 12 + (lengthOf bytes).toInt ≤ bytes.length
  checksum : crc32 .CrcCastagnoli (coveredOf bytes) = UInt32.ofNat (value ((bytes.drop 17).take 4))
  records : ParsesTo (library.decompressed (codecOf (bytes.drop 21)) (sectionOf bytes)) (declaredOf bytes)

/-- A decode returns an error code, or a batch with the declared number of records from bytes that are
intact; no exception and no other fault. -/
def Vouches (library : CompressionLibrary) (bytes : Bytes) : Prop :=
  (∃ err s, decode library ({}, { raw := bytes }) = .error (.code err) s) ∨
    ∃ b pd, decode library ({}, { raw := bytes }) = .ok () (b, pd) ∧ Intact library bytes ∧
      (b.records.length : ℤ) = declaredOf bytes

/-- The bytes end in front of the version, or before the end their length gives. -/
def Refused (bytes : Bytes) : Prop :=
  bytes.length < 17 ∨ versionOf bytes = 2 ∧ -2 ^ 31 ≤ (lengthOf bytes).toInt - 49 ∧
    ((lengthOf bytes).toInt < 49 ∨ max (bytes.length : ℤ) 61 < 12 + (lengthOf bytes).toInt)
deriving Decidable

/-- Refused bytes are reported. -/
theorem decode_of_refused (refused : Refused bytes) :
    ∃ err s, decode library ({}, { raw := bytes }) = .error (.code err) s := by
  rcases Nat.lt_or_ge bytes.length 17 with short | long
  · obtain ⟨o', failed⟩ := @decode_of_short library {} { raw := bytes } short
    exact ⟨_, _, failed⟩
  · obtain ⟨version, noOverflow, size⟩ := refused.resolve_left (Nat.not_lt.mpr long)
    obtain ⟨o', run, -⟩ := @decode_of_long library {} { raw := bytes } (Nat.zero_le _) rfl long version
    have left : ((pushed (advance { raw := bytes } 17)).skip 40).remaining = bytes.length - 61 := by
      rw [remaining_skip, remaining_pushed, remaining_advance]
      simp only [remaining]
      omega
    obtain ⟨err, pd', failed⟩ := @getRecordSection_of_refused ((pushed (advance { raw := bytes } 17)).skip 40)
      (lengthOf bytes) noOverflow (by rw [left]; omega)
    exact ⟨err, (_, pd'), run.trans (EStateM.bind_of_error (read_of_error failed) _)⟩

/-- A whole header in front of a record section that is there: the section decides. -/
theorem decode_of_whole {bytes : Bytes} (version : versionOf bytes = 2) (header : 61 ≤ bytes.length)
    (contents : 49 ≤ (lengthOf bytes).toInt ∧ 12 + (lengthOf bytes).toInt ≤ bytes.length) :
    ∃ o' pd', decode library ({}, { raw := bytes }) =
        onObject (decodeContents library (sectionOf bytes) (numRecordOf bytes)) (withRoom (numRecordOf bytes) o', pd') ∧
      o'.records = [] ∧ o'.codec = codecOf (bytes.drop 21) := by
  obtain ⟨o', run, records, codec⟩ := @decode_of_long library {} { raw := bytes } (Nat.zero_le _) rfl
    (by simp only [remaining]; omega) version
  have room : 4 ≤ (advance { raw := bytes } 17).remaining := by
    simp only [remaining, advance]
    omega
  have reader : (pushed (advance { raw := bytes } 17)).skip 40 =
      { offset := 61, raw := bytes, stack := [⟨17, .crc32 ⟨.CrcCastagnoli⟩⟩] } := by
    rw [pushed, if_pos room]
    simp only [skip, checking, advance, Nat.zero_add, Nat.reduceAdd]
    rw [Nat.min_eq_left header]
  have fits := @getRecordSection_of_fits
    { offset := 61, raw := bytes, stack := [⟨17, .crc32 ⟨.CrcCastagnoli⟩⟩] } (lengthOf bytes) contents.1
    (by simp only [remaining]; omega)
  have taken : (bytes.drop 61).take ((lengthOf bytes).toInt - 49).toNat = sectionOf bytes := by
    rw [sectionOf, List.drop_take]
    congr 1
    omega
  rw [reader] at run
  rw [← taken]
  exact ⟨o', _, run.trans (decodeRecordSection_of_section fits rfl), records, codec header⟩

/-- The record section reports no error code. -/
theorem onObject_no_code {section_ : Bytes} {numRecord : Int32} {err : KError} :
    onObject (decodeContents library section_ numRecord) (b, pd) ≠ .error (.code err) s := by
  intro failed
  obtain ⟨run, -⟩ := onObject_eq_error_iff.mp failed
  obtain ⟨f, fault⟩ := decodeContents_fault run
  cases fault

/-- A header that is cut short, in front of no record section, ends without an error code. -/
theorem decode_of_cut (version : versionOf bytes = 2) (long : 17 ≤ bytes.length) (cut : bytes.length < 61)
    (empty : (lengthOf bytes).toInt = 49) {err : KError} :
    decode library ({}, { raw := bytes }) ≠ .error (.code err) s := by
  obtain ⟨o', run, -⟩ := @decode_of_long library {} { raw := bytes } (Nat.zero_le _) rfl long version
  have left : ((pushed (advance { raw := bytes } 17)).skip 40).remaining = bytes.length - 61 := by
    rw [remaining_skip, remaining_pushed, remaining_advance]
    simp only [remaining]
    omega
  have fits := @getRecordSection_of_fits ((pushed (advance { raw := bytes } 17)).skip 40) (lengthOf bytes) (by omega)
    (by rw [left]; omega)
  rw [run]
  intro failed
  by_cases room : 4 ≤ (advance { raw := bytes } 17).remaining
  · rw [pushed, if_pos room] at fits failed
    have decided := @decodeRecordSection_of_section library (withRoom (numRecordOf bytes) o') _ _ _
      (numRecordOf bytes) _ _ _ fits rfl
    exact onObject_no_code (decided.symm.trans failed)
  · rw [pushed, if_neg room] at fits failed
    have stopped := @decodeRecordSection_of_emptyStack library (withRoom (numRecordOf bytes) o') _ _ _
      (numRecordOf bytes) _ fits rfl
    have clash := stopped.symm.trans failed
    cases clash

/-- Bytes that are not refused are never reported as an error code. -/
theorem decode_of_not_refused (accepted : ¬ Refused bytes) {err : KError} :
    decode library ({}, { raw := bytes }) ≠ .error (.code err) s := by
  simp only [Refused, not_or, not_and, not_lt] at accepted
  obtain ⟨long, size⟩ := accepted
  by_cases version : versionOf bytes = 2
  · by_cases noOverflow : -2 ^ 31 ≤ (lengthOf bytes).toInt - 49
    · obtain ⟨least, most⟩ := size version noOverflow
      rcases Nat.lt_or_ge bytes.length 61 with cut | header
      · exact decode_of_cut version long cut (by omega)
      · obtain ⟨o', pd', run, -⟩ := @decode_of_whole library _ version header ⟨least, by omega⟩
        rw [run]
        exact onObject_no_code
    · obtain ⟨o', run, -⟩ := @decode_of_long library {} { raw := bytes } (Nat.zero_le _) rfl long version
      have stopped := @decodeRecordSection_of_error library (withRoom (numRecordOf bytes) o') _ _ _ (numRecordOf bytes) _
        (@getRecordSection_of_overflow ((pushed (advance { raw := bytes } 17)).skip 40) _ (not_le.mp noOverflow))
      intro failed
      have clash := stopped.symm.trans (run.symm.trans failed)
      cases clash
  · obtain ⟨o', failed⟩ := @decode_of_version library {} { raw := bytes } long version
    rw [failed]
    intro failed
    cases failed

/-- A decode that succeeds has accepted version 2. -/
theorem version_of_decoded (long : 17 ≤ bytes.length) (run : decode library ({}, { raw := bytes }) = .ok () (b, pd)) :
    versionOf bytes = 2 := by
  by_contra version
  obtain ⟨o', failed⟩ := @decode_of_version library {} { raw := bytes } long version
  rw [failed] at run
  cases run

/-- A decode that returns as many records as an intact batch declares has read the count as it stands. -/
theorem count_of_decoded (run : decode library ({}, { raw := bytes }) = .ok () (b, pd)) (intact : Intact library bytes)
    (declared : (b.records.length : ℤ) = declaredOf bytes) : CountReadable (countOf (bytes.drop 21)) := by
  have header := intact.header
  have four : (countOf (bytes.drop 21)).length = 4 := by
    rw [countOf, List.length_take, List.length_drop, List.length_drop]
    omega
  obtain ⟨o', pd', start, bare, -⟩ := @decode_of_whole library _
    (version_of_decoded (by omega) run) header intact.contents
  by_contra unreadable
  -- a negative count leaves the fresh object without records, so none are declared
  have negative := countRead_of_unreadable four unreadable
  have number : numRecordOf bytes = countRead (countOf (bytes.drop 21)) := if_pos header
  have none : (numRecordOf bytes).toInt.toNat = 0 := by
    rw [number]
    rw [Int32.lt_iff_toInt_lt] at negative
    exact Int.toNat_of_nonpos (le_of_lt negative)
  rw [start, onObject_eq_ok_iff, decodeContents_zero none, withRoom_eq, number, if_neg (Int32.not_le.mpr negative),
    bare] at run
  obtain ⟨object, -⟩ := run
  injection object with _ object
  rw [← object, declaredOf] at declared
  exact unreadable (countReadable_of_zero four declared.symm)

/-- A record section that parses leaves the declared number of records, whatever the rounds start from. -/
theorem decodeRounds_of_parses {buf : Bytes} {n : ℕ} (parses : ParsesTo buf n) (rounds : ℕ) {targets : List Record}
    (length : targets.length = n) :
    ∃ records, decodeRounds buf rounds targets = .ok () records ∧ records.length = n := by
  obtain ⟨small, records, pd, count, each, whole⟩ := parses
  obtain rfl : records.length = n := by exact_mod_cast count
  induction rounds generalizing targets with
  | zero => exact ⟨targets, rfl, length⟩
  | succ rounds ih =>
    have one : ∃ decoded, decodeRecords buf targets = .ok () decoded ∧ decoded.length = records.length := by
      unfold decodeRecords
      split_ifs with empty large
      · exact ⟨targets, rfl, length⟩
      · exact absurd small (Nat.not_le.mpr large)
      · obtain ⟨decoded, again, same⟩ := Record.uniform_decode.each
          (length.trans (List.length_replicate ..).symm) each
        refine ⟨decoded, ?_, same.trans length⟩
        rw [again]
        simp only [whole, ne_eq, not_true, if_false]
    obtain ⟨decoded, run, same⟩ := one
    obtain ⟨final, rest, count⟩ := ih same
    exact ⟨final, (EStateM.bind_of_ok (ignoreCode_of_ok run) _).trans rest, count⟩

/-- An intact batch is returned with the declared number of records. -/
theorem decode_of_intact (version : versionOf bytes = 2) (readable : CountReadable (countOf (bytes.drop 21)))
    (intact : Intact library bytes) :
    ∃ b pd, decode library ({}, { raw := bytes }) = .ok () (b, pd) ∧ (b.records.length : ℤ) = declaredOf bytes := by
  have four : (countOf (bytes.drop 21)).length = 4 := by
    have header := intact.header
    rw [countOf, List.length_take, List.length_drop, List.length_drop]
    omega
  obtain ⟨o', pd', start, bare, codec⟩ := @decode_of_whole library _ version intact.header intact.contents
  have number : (numRecordOf bytes).toInt = value (countOf (bytes.drop 21)) := by
    rw [numRecordOf, if_pos intact.header, countRead_of_readable four readable]
  have declared : declaredOf bytes = value (countOf (bytes.drop 21)) := by
    have small := readable.1
    simp only [maxResponseSize] at small
    exact Int32.toInt_ofNat_of_lt (by omega)
  have nonneg : 0 ≤ numRecordOf bytes := by
    rw [Int32.le_iff_toInt_le, number]
    exact Int.natCast_nonneg _
  have parses := intact.records
  rw [declared] at parses
  have room : (resize (numRecordOf bytes).toInt.toNat {} o'.records).length = value (countOf (bytes.drop 21)) := by
    rw [Record.length_resize, number, Int.toNat_natCast]
  obtain ⟨records, rounds, count⟩ := decodeRounds_of_parses parses (numRecordOf bytes).toInt.toNat room
  rw [withRoom_eq, if_pos nonneg] at start
  rw [← codec] at rounds
  have contents := @decodeContents_of_rounds library (sectionOf bytes) (numRecordOf bytes)
    { o' with records := resize (numRecordOf bytes).toInt.toNat {} o'.records } records rounds
  exact ⟨_, pd', start.trans (onObject_eq_ok_iff.mpr ⟨contents, rfl⟩), by rw [declared]; exact congrArg _ count⟩

/-- A decode vouches for the bytes exactly when it refuses them or when they are an intact batch of
version 2 whose count is read as it stands. -/
theorem batch_integrity_iff (library : CompressionLibrary) (bytes : Bytes) : Vouches library bytes ↔
      Refused bytes ∨ versionOf bytes = 2 ∧ CountReadable (countOf (bytes.drop 21)) ∧ Intact library bytes := by
  constructor
  · rintro (⟨err, s, failed⟩ | ⟨b, pd, run, intact, declared⟩)
    · by_cases refused : Refused bytes
      · exact .inl refused
      · exact absurd failed (decode_of_not_refused refused)
    · have header := intact.header
      exact .inr ⟨version_of_decoded (by omega) run, count_of_decoded run intact declared, intact⟩
  · rintro (refused | ⟨version, readable, intact⟩)
    · exact .inl (decode_of_refused refused)
    · obtain ⟨b, pd, run, declared⟩ := decode_of_intact version readable intact
      exact .inr ⟨b, pd, run, intact, declared⟩

/-- An empty batch of version 2 whose stored checksum is zero. -/
def zeroChecksum : Bytes :=
  List.replicate 11 0 ++ [49] ++ List.replicate 4 0 ++ [2] ++ List.replicate 44 0

/-- The checksum of the empty batch does not agree, and no error reports it. -/
theorem zeroChecksum_not_vouched : ¬ Vouches ⟨fun _ data => data, fun _ data => data⟩ zeroChecksum := by
  rintro (⟨err, s, failed⟩ | ⟨b, pd, run, intact, declared⟩)
  · exact decode_of_not_refused (by decide) failed
  · have agrees := intact.checksum
    revert agrees
    decide +kernel

end Coev.Kafka.RecordBatch
