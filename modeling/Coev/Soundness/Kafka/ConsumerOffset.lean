import Coev.Proofs.Kafka.PartitionConsumer
import Coev.ToMathlib.Transition

/-! # The offset of a consumer

Every response moves the offset of a consumer forward over what it delivers, but for one kind: a block
without records that ends in a part of a message sets the offset to the next one of the block, which is
zero when the part is all there is.
-/

namespace Coev.Kafka.PartitionConsumer

open Transition

variable {pc pc' : PartitionConsumer} {response : FetchResponse} {out : List ConsumerMessage} {err : KError}

/-- A consumer and what it has delivered. -/
structure Consuming where
  consumer : PartitionConsumer
  delivered : List ConsumerMessage := []

/-- A response is parsed, whatever code comes of it, and its messages are delivered. -/
def Step (s : Consuming) (response : FetchResponse) (t : Consuming) : Prop :=
  ∃ code messages, parseResponse response s.consumer = .ok (code, messages) t.consumer ∧
    t.delivered = s.delivered ++ messages

/-- The offset does not decrease, and everything delivered ascends from the requested offset. -/
def Sound (requested : Int64) (s : Consuming) (response : FetchResponse) : Prop :=
  ∀ t, Step s response t → s.consumer.offset ≤ t.consumer.offset ∧
    (t.delivered.Pairwise fun a b => a.offset < b.offset) ∧ ∀ m ∈ t.delivered, requested ≤ m.offset

/-- The block of the consumer has no error and no records, holds part of a message, and its next offset is
up to the high watermark and below the offset of the consumer. -/
def Rewinds (pc : PartitionConsumer) (response : FetchResponse) : Prop :=
  let block := response.getBlock pc.topic pc.partition
  block.err = ErrNoError ∧ block.numRecords = 0 ∧ block.isPartial = true ∧
    block.recordsNextOffset ≤ block.highWaterMarkOffset ∧ block.recordsNextOffset < pc.offset

/-! ## One response -/

/-- Parsing a response advances, or the response rewinds and nothing is delivered. -/
private theorem parseResponse_advances (run : parseResponse response pc = .ok (err, out) pc')
    (forward : ¬ Rewinds pc response) :
    Advances pc pc' out := by
  unfold parseResponse at run
  have stops {code : KError} {u : PartitionConsumer} (le : pc.offset ≤ u.offset)
      (returned : (pure (code, []) : Parse (KError × List ConsumerMessage)) u = .ok (err, out) pc') :
        Advances pc pc' out := by
    injection returned with pair kept
    injection pair with _ same
    subst same kept
    exact .nil le
  split at run
  · exact stops (Int64.le_refl _) run
  rw [EStateM.get_bind_apply] at run
  split at run
  · exact stops (Int64.le_refl _) run
  next noError =>
  let block := response.getBlock pc.topic pc.partition
  have kept : (preferReplica block pc).offset = pc.offset := preferReplica_offset block pc
  by_cases none_ : block.numRecords = 0
  · rw [parseFetched_of_empty none_] at run
    refine stops ?_ run
    split
    · next isPartial =>
      unfold skipToNext
      split
      · next watermark =>
        exact Int64.not_lt.mp fun below => forward ⟨not_not.mp noError, none_, isPartial, watermark, below⟩
      · exact kept ▸ Int64.le_refl _
    · exact kept ▸ Int64.le_refl _
  · rw [parseFetched_of_records none_] at run
    obtain ⟨fresh, rfl, advances⟩ := parseRecordsSet_advances run
    have same : (reading block pc).offset = pc.offset := kept
    exact ⟨same ▸ advances.le, advances.ascending, fun m member => same ▸ advances.from_ m member, advances.below⟩

/-- A response that rewinds is parsed without an error, and the offset decreases. -/
private theorem parseResponse_of_rewinds (rewinds : Rewinds pc response) :
    ∃ pc', parseResponse response pc = .ok (0, []) pc' ∧ pc'.offset < pc.offset := by
  obtain ⟨noError, none_, partial_, watermark, below⟩ := rewinds
  let block := response.getBlock pc.topic pc.partition
  have notThrottled : ¬ (response.throttleTime ≠ 0 ∧ response.blocks.isEmpty = true) := by
    rintro ⟨-, empty⟩
    rw [getBlock_of_isEmpty empty] at partial_
    cases partial_
  refine ⟨{ preferReplica block pc with offset := block.recordsNextOffset }, ?_, below⟩
  unfold parseResponse
  rw [if_neg notThrottled, EStateM.get_bind_apply, if_neg (not_not.mpr noError), parseFetched_of_empty none_,
    if_pos partial_,
    skipToNext, if_pos watermark]

/-! ## Every run -/

/-- Along every sequence of responses, from every consumer: the offset never decreases and what is delivered
ascends strictly from the requested offset, if and only if no response on the way rewinds. -/
theorem offsets_ascend_iff (pc : PartitionConsumer) (responses : List FetchResponse) :
    Along (Sound pc.offset) Step { consumer := pc } responses ↔
      Along (fun s response => ¬ Rewinds s.consumer response) Step { consumer := pc } responses := by
  constructor
  · intro along
    refine Along.mono (fun s response sound rewinds => ?_) along
    obtain ⟨pc', run, below⟩ := parseResponse_of_rewinds rewinds
    have forward := (sound { consumer := pc', delivered := s.delivered ++ [] } ⟨0, [], run, rfl⟩).1
    exact Int64.not_lt.mpr forward below
  · intro along
    have advances : ∀ s response t, Advances pc s.consumer s.delivered → ¬ Rewinds s.consumer response →
        Step s response t → Advances pc t.consumer t.delivered := by
      rintro s response t before forward ⟨code, messages, run, delivered⟩
      rw [delivered]
      exact before.append (parseResponse_advances run forward)
    refine Along.imp advances (fun s response before forward t step => ?_) (.nil (Int64.le_refl _)) along
    have after := advances s response t before forward step
    obtain ⟨code, messages, run, -⟩ := step
    exact ⟨(parseResponse_advances run forward).le, after.ascending, after.from_⟩

/-- A reader of partition 0 of the topic `t`, from offset 0 on. -/
def reader : PartitionConsumer := { topic := [0x74], partition := 0 }

def responseWith (block : FetchResponseBlock) : FetchResponse :=
  { blocks := Std.ExtTreeMap.insert ∅ [0x74] (Std.ExtTreeMap.insert ∅ 0 block) }

/-- A batch with the record at offset 0. -/
def firstRecord : FetchResponse :=
  responseWith
    { recordsSet := [.batch { records := [{ value := [0x61] }] }], recordsNextOffset := 1, highWaterMarkOffset := 1 }

/-- Bytes that end before the first batch does: no next offset was found. -/
def onlyPart : FetchResponse := responseWith { partial_ := true, highWaterMarkOffset := 1 }

/-- Between two responses with the record at offset 0, one with only a part of a batch takes the offset back
from 1 to 0: the record is delivered twice. -/
theorem part_of_batch_rewinds :
    ∃ t u v, Step { consumer := reader } firstRecord t ∧ Step t onlyPart u ∧ Step u firstRecord v ∧
      u.consumer.offset < t.consumer.offset ∧ v.delivered.map (·.offset) = [0, 0] := by
  let message : ConsumerMessage :=
    { timestamp := {}, key := [], value := [0x61], topic := [0x74], partition := 0, offset := 0 }
  let first := (parseResponse firstRecord reader).state
  let second := (parseResponse onlyPart first).state
  let third := (parseResponse firstRecord second).state
  have delivers : parseResponse firstRecord reader = .ok (0, [message]) first := EStateM.Result.eq_ok_of_returned (by decide)
  have rewinds : parseResponse onlyPart first = .ok (0, []) second := EStateM.Result.eq_ok_of_returned (by decide)
  have again : parseResponse firstRecord second = .ok (0, [message]) third := EStateM.Result.eq_ok_of_returned (by decide)
  have back : second.offset < first.offset := by decide
  clear_value third second first
  refine ⟨⟨first, [message]⟩, ⟨second, [message]⟩, ⟨third, [message, message]⟩, ?_, ?_, ?_, back, rfl⟩
  · exact ⟨0, [message], delivers, rfl⟩
  · exact ⟨0, [], rewinds, rfl⟩
  · exact ⟨0, [message], again, rfl⟩

end Coev.Kafka.PartitionConsumer
