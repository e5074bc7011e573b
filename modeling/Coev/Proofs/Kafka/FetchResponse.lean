import Coev.Proofs.Kafka.PartitionConsumer

/-! # What a decoded block holds

The loop over the records of a block drops batches without records. A batch that is cut off ends the loop, and
stands in the block when it is all there is.
-/

namespace Coev.Kafka.FetchResponseBlock

open PartitionConsumer PacketDecoder

variable {decodeRecords : Decode Records} {pd pd' : PacketDecoder} {batch : RecordBatch} {batches taken : List RecordBatch}
  {block block' : FetchResponseBlock}
variable {goesOn : Bool}

/-- The batches that the loop of `decode` finds, of which the last one may be cut off. A part of a batch may follow them. -/
inductive Received (decodeRecords : Decode Records) : PacketDecoder → List RecordBatch → Prop
  | done {pd : PacketDecoder} (ends : pd.remaining = 0) : Received decodeRecords pd []
  | part {pd pd' : PacketDecoder} (goesOn : pd.remaining ≠ 0)
      (lacks : decodeRecords pd = .error (.code ErrInsufficientData) pd') : Received decodeRecords pd []
  | cut {pd pd' : PacketDecoder} {batch : RecordBatch} (goesOn : pd.remaining ≠ 0)
      (decoded : decodeRecords pd = .ok (.batch batch) pd') (isPartial : batch.partialTrailingRecord = true) :
      Received decodeRecords pd [batch]
  | next {pd pd' : PacketDecoder} {batch : RecordBatch} {rest : List RecordBatch} (goesOn : pd.remaining ≠ 0)
      (decoded : decodeRecords pd = .ok (.batch batch) pd') (whole : batch.partialTrailingRecord = false)
      (received : Received decodeRecords pd' rest) : Received decodeRecords pd (batch :: rest)

/-- The batches with records. -/
def withRecords (batches : List RecordBatch) : List RecordBatch := batches.filter fun batch => !batch.records.isEmpty

/-- The next offset follows the last batch. -/
def Follows (block : FetchResponseBlock) (batches : List RecordBatch) : Prop :=
  ∀ last ∈ batches.getLast?, block.recordsNextOffset.toInt = lastRecordOffset last + 1

/-- The block stands for the batches: it holds those with records, and the next offset follows the last one. -/
structure Reflects (block : FetchResponseBlock) (batches : List RecordBatch) : Prop where
  records : block.numRecords ≠ 0 → block.recordsSet = (withRecords batches).map .batch
  empty : block.numRecords = 0 → ∀ batch ∈ batches, batch.records = []
  follows : block.Follows batches

/-- Every batch leaves room for an offset behind it. -/
def Fits (batches : List RecordBatch) : Prop := ∀ batch ∈ batches, lastRecordOffset batch + 1 < 2 ^ 63

theorem withRecords_eq_nil_iff : withRecords batches = [] ↔ ∀ batch ∈ batches, batch.records = [] := by
  simp [withRecords, List.filter_eq_nil_iff]

theorem numRecords_eq_zero_iff (kept : block.recordsSet = batches.map .batch) :
    block.numRecords = 0 ↔ ∀ batch ∈ batches, batch.records = [] := by
  rw [numRecords, kept, sumRecords_batches, zero_add, Int.natCast_eq_zero, List.sum_eq_zero_iff]
  simp

theorem Reflects.of_kept (kept : block.recordsSet = (withRecords batches).map .batch) (follows : block.Follows batches) :
    block.Reflects batches := by
  refine ⟨fun _ => kept, fun none_ batch member => ?_, follows⟩
  by_contra hasRecords
  have stays : batch ∈ withRecords batches := List.mem_filter.mpr ⟨member, by simpa using hasRecords⟩
  exact hasRecords ((numRecords_eq_zero_iff kept).mp none_ batch stays)

theorem int64Sum_ok {n : ℤ} {a : Int64} (inside : int64Sum n = .ok a) : a.toInt = n := by
  unfold int64Sum at inside
  split at inside
  · next range =>
    injection inside with value
    rw [← value, Int64.toInt_ofInt_of_le range.1 range.2]
  · cases inside

theorem nextOffset_batch {next : Int64} (found : (Records.batch batch).nextOffset = .ok next) :
    next.toInt = lastRecordOffset batch + 1 := by
  change (int64Sum (lastRecordOffset batch) >>= fun last => int64Sum (last.toInt + 1)) = _ at found
  cases reached : int64Sum (lastRecordOffset batch) with
  | error failure =>
    rw [reached] at found
    cases found
  | ok last =>
    rw [reached] at found
    rw [int64Sum_ok found, int64Sum_ok reached]

/-- What the loop does with a batch that it has decoded. -/
theorem takeIn_batch (takes : block.takeIn (.batch batch) = .ok (block', goesOn)) :
    block'.recordsNextOffset.toInt = lastRecordOffset batch + 1 ∧ goesOn = !batch.partialTrailingRecord ∧
      block'.recordsSet = if 0 < batch.records.length ∨ batch.partialTrailingRecord = true ∧ block.recordsSet.isEmpty = true
        then block.recordsSet ++ [.batch batch] else block.recordsSet := by
  unfold takeIn at takes
  cases found : (Records.batch batch).nextOffset with
  | error failure =>
    rw [found] at takes
    cases takes
  | ok next =>
    rw [found] at takes
    injection takes with pair
    injection pair with same goes
    subst same goes
    exact ⟨nextOffset_batch found, congrArg _ (Bool.or_false _), rfl⟩

/-- A batch behind those that a block holds. -/
theorem Reflects.takeIn (kept : block.recordsSet = (withRecords taken).map .batch)
    (takes : block.takeIn (.batch batch) = .ok (block', goesOn)) : block'.Reflects (taken ++ [batch]) ∧
      (goesOn = true → block'.recordsSet = (withRecords (taken ++ [batch])).map .batch) := by
  obtain ⟨next, goes, records⟩ := takeIn_batch takes
  have follows : block'.Follows (taken ++ [batch]) := by
    intro last isLast
    rw [List.getLast?_append, List.getLast?_singleton] at isLast
    obtain rfl : batch = last := by simpa using isLast
    exact next
  by_cases empty : batch.records = []
  · have same : withRecords (taken ++ [batch]) = withRecords taken := by simp [withRecords, empty]
    rw [same, ← kept]
    rw [empty, List.length_nil] at records
    by_cases alone : batch.partialTrailingRecord = true ∧ block.recordsSet.isEmpty = true
    · rw [if_pos (.inr alone), List.isEmpty_iff.mp alone.2, List.nil_append] at records
      have none_ : block'.numRecords = 0 := by
        rw [numRecords, records]
        change (0 : ℤ) + batch.records.length = 0
        rw [empty]
        rfl
      have before : withRecords taken = [] := List.map_eq_nil_iff.mp (kept ▸ List.isEmpty_iff.mp alone.2)
      refine ⟨⟨fun some_ => absurd none_ some_, fun _ => ?_, follows⟩, fun goes' => ?_⟩
      · exact withRecords_eq_nil_iff.mp (same.trans before)
      · rw [goes, alone.1] at goes'
        cases goes'
    · have stays : ¬ (0 < 0 ∨ batch.partialTrailingRecord = true ∧ block.recordsSet.isEmpty = true) := by
        rintro (positive | both)
        · exact Nat.lt_irrefl 0 positive
        · exact alone both
      rw [if_neg stays] at records
      exact ⟨.of_kept (by rw [same, ← kept, records]) follows, fun _ => records⟩
  · rw [if_pos (.inl (List.length_pos_iff.mpr empty)), kept] at records
    have grown : withRecords (taken ++ [batch]) = withRecords taken ++ [batch] := by simp [withRecords, empty]
    have kept' : block'.recordsSet = (withRecords (taken ++ [batch])).map .batch := by
      rw [grown, List.map_append, records]
      rfl
    exact ⟨.of_kept kept' follows, fun _ => kept'⟩

/-- A round of the loop that decodes a batch. -/
theorem decodeRecordsSet_batch {rounds : ℕ} {after : PacketDecoder} (goesOn : pd.remaining ≠ 0)
    (decoded : decodeRecords pd = .ok (.batch batch) after)
    (run : decodeRecordsSet decodeRecords (rounds + 1) (block, pd) = .ok () (block', pd')) :
    ∃ between, block.takeIn (.batch batch) = .ok (between, !batch.partialTrailingRecord) ∧
      (batch.partialTrailingRecord = true → block' = between) ∧ (batch.partialTrailingRecord = false →
        decodeRecordsSet decodeRecords rounds (between, after) = .ok () (block', pd')) := by
  simp only [decodeRecordsSet, if_neg goesOn, decoded] at run
  cases takes : block.takeIn (.batch batch) with
  | error failure =>
    rw [takes] at run
    cases run
  | ok pair =>
    obtain ⟨between, goes⟩ := pair
    rw [takes] at run
    have whether := (takeIn_batch takes).2.1
    subst whether
    refine ⟨between, rfl, fun isPartial => ?_, fun whole => ?_⟩
    · rw [isPartial] at run
      injection run with _ state
      exact (congrArg Prod.fst state).symm
    · rw [whole] at run
      exact run

/-- A batch that is taken in leaves room for the next offset. -/
theorem fits_of_takeIn (takes : block.takeIn (.batch batch) = .ok (block', goesOn)) :
    lastRecordOffset batch + 1 < 2 ^ 63 := by
  rw [← (takeIn_batch takes).1]
  exact Int64.toInt_lt _

/-- What the loop makes of the batches it finds behind those that a block holds. -/
theorem decodeRecordsSet_reflects (received : Received decodeRecords pd batches) {rounds : ℕ}
    (kept : block.recordsSet = (withRecords taken).map .batch) (follows : block.Follows taken)
    (run : decodeRecordsSet decodeRecords rounds (block, pd) = .ok () (block', pd')) :
    block'.Reflects (taken ++ batches) ∧ Fits batches := by
  induction received generalizing block taken rounds with
  | done ends =>
    cases rounds with
    | zero => cases run
    | succ rounds =>
      simp only [decodeRecordsSet, if_pos ends] at run
      injection run with _ state
      injection state with same _
      subst same
      rw [List.append_nil]
      exact ⟨.of_kept kept follows, List.forall_mem_nil _⟩
  | part goesOn lacks =>
    cases rounds with
    | zero => cases run
    | succ rounds =>
      simp only [decodeRecordsSet, if_neg goesOn, lacks] at run
      injection run with _ state
      injection state with same _
      subst same
      rw [List.append_nil]
      exact ⟨.of_kept kept follows, List.forall_mem_nil _⟩
  | cut goesOn decoded isPartial =>
    cases rounds with
    | zero => cases run
    | succ rounds =>
      obtain ⟨between, takes, stops, -⟩ := decodeRecordsSet_batch goesOn decoded run
      rw [stops isPartial]
      exact ⟨(Reflects.takeIn kept takes).1, List.forall_mem_singleton.mpr (fits_of_takeIn takes)⟩
  | next goesOn decoded whole _ ih =>
    cases rounds with
    | zero => cases run
    | succ rounds =>
      obtain ⟨between, takes, -, onward⟩ := decodeRecordsSet_batch goesOn decoded run
      obtain ⟨reflects, keeps⟩ := Reflects.takeIn kept takes
      have holds := keeps (congrArg _ whole)
      obtain ⟨later, fits⟩ := ih holds reflects.follows (onward whole)
      rw [List.append_assoc] at later
      exact ⟨later, List.forall_mem_cons.mpr ⟨fits_of_takeIn takes, fits⟩⟩

/-! ## Responses -/

/-- A response answers the consumer with a block that is decoded from the batches. -/
structure Answers (library : CompressionLibrary) (decodeMessageSet : Decode MessageSet) (response : FetchResponse)
    (pc : PartitionConsumer) (block : FetchResponseBlock) (batches : List RecordBatch) : Prop where
  has : BlockFor response pc block
  decoded : ∃ bytes header rounds pd, header.recordsSet = [] ∧
    Received (Records.decode library decodeMessageSet) { raw := bytes } batches ∧
    decodeRecordsSet (Records.decode library decodeMessageSet) rounds (header, { raw := bytes }) = .ok () (block, pd)

variable {library : CompressionLibrary} {decodeMessageSet : Decode MessageSet} {response : FetchResponse}
  {pc : PartitionConsumer}

theorem Answers.reflects (answers : Answers library decodeMessageSet response pc block batches) :
    block.Reflects batches ∧ Fits batches := by
  obtain ⟨bytes, header, rounds, pd, fresh, received, run⟩ := answers.decoded
  have starts : header.Follows [] := fun _ isLast => absurd isLast (by simp)
  have nothing : header.recordsSet = (withRecords []).map .batch := fresh
  exact decodeRecordsSet_reflects received nothing starts run

theorem decode_of_batch {after : PacketDecoder} (magic : pd.unread[16]? = some 2)
    (decoded : RecordBatch.decode library ({}, pd) = .ok () (batch, after)) :
    Records.decode library decodeMessageSet pd = .ok (.batch batch) after := by
  have isMagic : magicValue pd = .ok 2 pd := by
    unfold magicValue
    rw [magic]
    rfl
  rw [Records.decode, EStateM.bind_of_ok isMagic, if_neg (by decide), Records.decodeBatch, decoded]

end Coev.Kafka.FetchResponseBlock
