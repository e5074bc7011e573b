import Coev.Soundness.Kafka.UncommittedDelivery

/-! # Progress on responses without records

A consumer that gets no record has to ask for more or to go on behind what was compacted away. Neither the fetch
size nor the errors ever change; the offset goes on only when part of a batch follows, to where the last batch of
the block ends, whatever stands there.
-/

namespace Coev.Kafka.PartitionConsumer

open FetchResponseBlock

variable {pc pc' : PartitionConsumer} {response : FetchResponse} {block : FetchResponseBlock} {batches : List RecordBatch}
  {library : CompressionLibrary} {decodeMessageSet : Decode MessageSet}

/-- The response holds no whole message but a part of one. -/
structure OnlyPart (response : FetchResponse) (pc : PartitionConsumer) (block : FetchResponseBlock) : Prop where
  has : BlockFor response pc block
  noError : block.err = ErrNoError
  none_ : block.numRecords = 0
  isPartial : block.isPartial = true

/-- The batches that are not cut off. -/
def wholeBatches (batches : List RecordBatch) : List RecordBatch := batches.filter fun batch => !batch.partialTrailingRecord

/-- The batches of the response lost their records to compaction; one of the whole ones ends at or behind the offset. -/
structure Compacted (library : CompressionLibrary) (decodeMessageSet : Decode MessageSet) (response : FetchResponse)
    (pc : PartitionConsumer) (block : FetchResponseBlock) (batches : List RecordBatch) : Prop where
  answers : Answers library decodeMessageSet response pc block batches
  noError : block.err = ErrNoError
  empty : ∀ batch ∈ batches, batch.records = []
  covers : ∃ batch ∈ wholeBatches batches, pc.offset.toInt ≤ lastRecordOffset batch

/-- The consumer asks for more than before, or it has passed the message and said so. -/
def Grows (pc pc' : PartitionConsumer) : Prop :=
  pc.fetchSize < pc'.fetchSize ∨ pc.offset < pc'.offset ∧ pc'.errors = pc.errors ++ [ErrMessageTooLarge]

/-- The consumer is behind the whole batches. -/
def Passed (pc : PartitionConsumer) (batches : List RecordBatch) : Prop :=
  ∀ batch ∈ wholeBatches batches, lastRecordOffset batch < pc.offset.toInt

/-- Part of a batch follows, and the next offset is up to the high watermark. -/
def Skips (block : FetchResponseBlock) : Prop :=
  block.isPartial = true ∧ block.recordsNextOffset ≤ block.highWaterMarkOffset
deriving Decidable

/-- A response that holds no record for the user. -/
def WithoutRecords (library : CompressionLibrary) (decodeMessageSet : Decode MessageSet) (response : FetchResponse)
    (pc : PartitionConsumer) (block : FetchResponseBlock) : Prop :=
  OnlyPart response pc block ∨ ∃ batches, Compacted library decodeMessageSet response pc block batches

/-- The consumer after so many responses. -/
def afterResponses (pc : PartitionConsumer) (responses : ℕ → FetchResponse) : ℕ → PartitionConsumer
  | 0 => pc
  | n + 1 => (parseResponse (responses n) (afterResponses pc responses n)).state

/-- Neither the fetch size nor the offset ever changes. -/
def Stuck (pc : PartitionConsumer) (responses : ℕ → FetchResponse) : Prop :=
  ∀ n, (afterResponses pc responses n).fetchSize = pc.fetchSize ∧ (afterResponses pc responses n).offset = pc.offset

/-! ## One response -/

/-- What a block without records does to the consumer. -/
structure Idles (block : FetchResponseBlock) (pc pc' : PartitionConsumer) : Prop where
  topic : pc'.topic = pc.topic
  partition : pc'.partition = pc.partition
  fetchSize : pc'.fetchSize = pc.fetchSize
  errors : pc'.errors = pc.errors
  offset : pc'.offset = if Skips block then block.recordsNextOffset else pc.offset

private theorem idles_preferReplica (keeps : ¬ Skips block) : Idles block pc (preferReplica block pc) := by
  constructor
  case offset => rw [if_neg keeps, preferReplica_offset]
  all_goals
    unfold preferReplica
    split <;> rfl

private theorem parseResponse_idles (has : BlockFor response pc block) (noError : block.err = ErrNoError)
    (none_ : block.numRecords = 0) : ∃ pc', parseResponse response pc = .ok (0, []) pc' ∧ Idles block pc pc' := by
  rw [parseResponse_of_block has noError, parseFetched_of_empty none_]
  refine ⟨_, rfl, ?_⟩
  by_cases isPartial : block.isPartial = true
  · rw [if_pos isPartial, skipToNext]
    split
    · next watermark =>
      have skips : Skips block := ⟨isPartial, watermark⟩
      constructor
      case offset => rw [if_pos skips]
      all_goals
        unfold preferReplica
        split <;> rfl
    · next above => exact idles_preferReplica fun skips => above skips.2
  · rw [if_neg isPartial]
    exact idles_preferReplica fun skips => isPartial skips.1

theorem Compacted.none_ (compacted : Compacted library decodeMessageSet response pc block batches) :
    block.numRecords = 0 := by
  by_contra some_
  have kept := compacted.answers.reflects.1.records some_
  rw [withRecords_eq_nil_iff.mpr compacted.empty] at kept
  exact some_ (congrArg (sumRecords · 0) kept)

theorem WithoutRecords.idles (without : WithoutRecords library decodeMessageSet response pc block) :
    BlockFor response pc block ∧ ∃ pc', parseResponse response pc = .ok (0, []) pc' ∧ Idles block pc pc' := by
  rcases without with part | ⟨batches, compacted⟩
  · exact ⟨part.has, parseResponse_idles part.has part.noError part.none_⟩
  · exact ⟨compacted.answers.has, parseResponse_idles compacted.answers.has compacted.noError compacted.none_⟩

/-- A part of a message never makes the consumer ask for more, and is never reported. -/
theorem OnlyPart.not_grows (part : OnlyPart response pc block) :
    ∃ pc', parseResponse response pc = .ok (0, []) pc' ∧ ¬ Grows pc pc' := by
  obtain ⟨pc', run, idles⟩ := parseResponse_idles part.has part.noError part.none_
  refine ⟨pc', run, ?_⟩
  rintro (larger | ⟨-, reported⟩)
  · rw [idles.fetchSize] at larger
    exact Int32.lt_irrefl larger
  · rw [idles.errors] at reported
    exact List.cons_ne_nil _ _ (List.self_eq_append_right.mp reported)

/-- Compacted batches are passed exactly when part of a batch follows, and the next offset is behind them and up to
the high watermark. -/
theorem Compacted.passed_iff (compacted : Compacted library decodeMessageSet response pc block batches) :
    ∃ pc', parseResponse response pc = .ok (0, []) pc' ∧ (Passed pc' batches ↔ Skips block ∧
        ∀ batch ∈ wholeBatches batches, lastRecordOffset batch < block.recordsNextOffset.toInt) := by
  obtain ⟨pc', run, idles⟩ := parseResponse_idles compacted.answers.has compacted.noError compacted.none_
  refine ⟨pc', run, ?_⟩
  unfold Passed
  rw [idles.offset]
  by_cases skips : Skips block
  · rw [if_pos skips]
    exact (and_iff_right skips).symm
  · rw [if_neg skips]
    obtain ⟨batch, member, ahead⟩ := compacted.covers
    constructor
    · intro passed
      exact absurd (passed batch member) (not_lt.mpr ahead)
    · rintro ⟨skips', -⟩
      exact absurd skips' skips

/-! ## Endless responses -/

/-- A block moves the consumer when it skips to another offset. -/
def Moves (pc : PartitionConsumer) (block : FetchResponseBlock) : Prop := Skips block ∧ block.recordsNextOffset ≠ pc.offset

/-- Endless responses without records leave the consumer where it is exactly when no block skips to another offset. -/
private theorem not_stuck_iff {responses : ℕ → FetchResponse} {blocks : ℕ → FetchResponseBlock}
    (without : ∀ n, WithoutRecords library decodeMessageSet (responses n) (afterResponses pc responses n) (blocks n)) :
    ¬ Stuck pc responses ↔ ∃ n, Moves pc (blocks n) := by
  have step : ∀ n, Idles (blocks n) (afterResponses pc responses n) (afterResponses pc responses (n + 1)) := by
    intro n
    obtain ⟨-, pc', run, idles⟩ := (without n).idles
    rw [afterResponses, run]
    exact idles
  constructor
  · intro moves
    by_contra none_
    refine moves fun n => ?_
    induction n with
    | zero => exact ⟨rfl, rfl⟩
    | succ n ih =>
      refine ⟨(step n).fetchSize.trans ih.1, ?_⟩
      rw [(step n).offset]
      split
      · next skips =>
        by_contra other
        exact none_ ⟨n, skips, other⟩
      · exact ih.2
  · rintro ⟨n, skips, other⟩ stuck
    have next := (step n).offset
    rw [if_pos skips, (stuck (n + 1)).2] at next
    exact other next.symm

theorem BlockFor.congr (has : BlockFor response pc block) (topic : pc'.topic = pc.topic)
    (partition : pc'.partition = pc.partition) : BlockFor response pc' block := by
  unfold BlockFor
  rw [topic, partition]
  exact has

theorem WithoutRecords.congr (without : WithoutRecords library decodeMessageSet response pc block)
    (topic : pc'.topic = pc.topic) (partition : pc'.partition = pc.partition) (offset : pc'.offset = pc.offset) :
    WithoutRecords library decodeMessageSet response pc' block := by
  rcases without with part | ⟨batches, compacted⟩
  · exact .inl { part with has := part.has.congr topic partition }
  · have answers : Answers library decodeMessageSet response pc' block batches :=
      ⟨compacted.answers.has.congr topic partition, compacted.answers.decoded⟩
    exact .inr ⟨batches, answers, compacted.noError, compacted.empty, offset ▸ compacted.covers⟩

/-- A response without records that does not move the consumer holds it forever, when it is the answer again and again. -/
private theorem stuck_of_still (without : WithoutRecords library decodeMessageSet response pc block)
    (still : ¬ Moves pc block) :
    Stuck pc (fun _ => response) ∧
      ∀ n, WithoutRecords library decodeMessageSet response (afterResponses pc (fun _ => response) n) block := by
  have kept : ∀ n, (afterResponses pc (fun _ => response) n).topic = pc.topic ∧
      (afterResponses pc (fun _ => response) n).partition = pc.partition ∧
      (afterResponses pc (fun _ => response) n).fetchSize = pc.fetchSize ∧
      (afterResponses pc (fun _ => response) n).offset = pc.offset := by
    intro n
    induction n with
    | zero => exact ⟨rfl, rfl, rfl, rfl⟩
    | succ n ih =>
      obtain ⟨topic, partition, fetchSize, offset⟩ := ih
      obtain ⟨-, pc', run, idles⟩ := (without.congr topic partition offset).idles
      rw [afterResponses, run]
      refine ⟨idles.topic.trans topic, idles.partition.trans partition, idles.fetchSize.trans fetchSize, ?_⟩
      change pc'.offset = pc.offset
      rw [idles.offset]
      split
      · next skips =>
        by_contra other
        exact still ⟨skips, other⟩
      · exact offset
  exact ⟨fun n => (kept n).2.2, fun n => without.congr (kept n).1 (kept n).2.1 (kept n).2.2.2⟩

/-- For every consumer: a part of a message never makes it ask for more or report the message, compacted batches are
passed exactly when a part follows them and the next offset is behind them and up to the high watermark, and endless
responses without records move it exactly when one of them skips to another offset. -/
theorem fetch_progress_iff (library : CompressionLibrary) (decodeMessageSet : Decode MessageSet) (pc : PartitionConsumer) :
    (∀ response block, OnlyPart response pc block → ∃ pc', parseResponse response pc = .ok (0, []) pc' ∧ ¬ Grows pc pc') ∧
    (∀ response block batches, Compacted library decodeMessageSet response pc block batches →
      ∃ pc', parseResponse response pc = .ok (0, []) pc' ∧ (Passed pc' batches ↔
          Skips block ∧ ∀ batch ∈ wholeBatches batches, lastRecordOffset batch < block.recordsNextOffset.toInt)) ∧
    (∀ (responses : ℕ → FetchResponse) (blocks : ℕ → FetchResponseBlock),
      (∀ n, WithoutRecords library decodeMessageSet (responses n) (afterResponses pc responses n) (blocks n)) →
      (¬ Stuck pc responses ↔ ∃ n, Moves pc (blocks n))) :=
  ⟨fun _ _ part => part.not_grows, fun _ _ _ compacted => compacted.passed_iff, fun _ _ without => not_stuck_iff without⟩

/-- What compaction leaves of a batch of three records. -/
def emptied : RecordBatch := { lastOffsetDelta := 2 }

def emptiedBlock : FetchResponseBlock := decodedBlock { highWaterMarkOffset := 5 } [emptied]

/-- A consumer that is answered with nothing but a part of a message, or with a batch whose records were compacted
away, stays where it is forever. -/
theorem reader_spins :
    (OnlyPart onlyPart reader { partial_ := true, highWaterMarkOffset := 1 } ∧ Stuck reader fun _ => onlyPart) ∧
      Compacted plainLibrary noMessageSet (responseWith emptiedBlock) reader emptiedBlock [emptied] ∧
      Stuck reader fun _ => responseWith emptiedBlock := by
  have part : OnlyPart onlyPart reader { partial_ := true, highWaterMarkOffset := 1 } :=
    ⟨⟨_, Std.ExtTreeMap.getElem?_insert_self, Std.ExtTreeMap.getElem?_insert_self⟩, rfl, rfl, rfl⟩
  have received : Received (Records.decode plainLibrary noMessageSet) { raw := [emptied].flatMap wireBytes } [emptied] := by
    have only : DecodesTo { raw := [emptied].flatMap wireBytes } emptied 61 := by decide +kernel
    exact only.received (.done (by decide +kernel))
  have compacted : Compacted plainLibrary noMessageSet (responseWith emptiedBlock) reader emptiedBlock [emptied] :=
    ⟨answers_decodedBlock rfl received (by decide +kernel), by decide +kernel, by decide, ⟨emptied, by decide, by decide⟩⟩
  have waits : ¬ Moves reader emptiedBlock := by
    rintro ⟨skips, -⟩
    revert skips
    decide +kernel
  have back : ¬ Moves reader { partial_ := true, highWaterMarkOffset := 1 } := by
    rintro ⟨-, other⟩
    exact other rfl
  exact ⟨⟨part, (@stuck_of_still _ _ _ plainLibrary noMessageSet (.inl part) back).1⟩, compacted,
    (stuck_of_still (.inr ⟨_, compacted⟩) waits).1⟩

end Coev.Kafka.PartitionConsumer
