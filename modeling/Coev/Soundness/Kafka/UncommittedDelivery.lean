import Coev.Proofs.Kafka.FetchResponse
import Coev.Soundness.Kafka.ConsumerOffset

/-! # Delivering without isolation

A block whose batches lie in the order of their offsets is delivered without gaps under `ReadUncommitted`: the
offset that filters the records is moved by the same loop, but never past a batch that is still to come.
-/

namespace Coev.Kafka.PartitionConsumer

open FetchResponseBlock

variable {pc : PartitionConsumer} {response : FetchResponse} {messages : List ConsumerMessage} {batches : List RecordBatch}
  {aborted : List AbortedTransaction} {producers : Finset Int64} {block : FetchResponseBlock}
  {library : CompressionLibrary} {decodeMessageSet : Decode MessageSet}

/-- The offset ranges of the batches increase and do not overlap, and each ends at or behind an offset. -/
structure Ranged (offset : ℤ) (batches : List RecordBatch) : Prop where
  covers : ∀ batch ∈ batches, batch.firstOffset.toInt ≤ lastRecordOffset batch
  apart : batches.Pairwise fun a b => lastRecordOffset a < b.firstOffset.toInt
  ahead : ∀ batch ∈ batches, offset ≤ lastRecordOffset batch

/-- The records of a batch ascend within its range. -/
def Placed (batch : RecordBatch) : Prop :=
  (batch.records.Pairwise fun a b => recordOffset batch a < recordOffset batch b) ∧
    ∀ rec ∈ batch.records, batch.firstOffset.toInt ≤ recordOffset batch rec ∧ recordOffset batch rec ≤ lastRecordOffset batch
deriving Decidable

/-- The batches for the user. -/
def dataBatches (batches : List RecordBatch) : List RecordBatch := batches.filter fun batch => !batch.control

/-- Parsing delivers exactly the records from the offset on that are in no control batch, in order, and leaves the
offset above them and at most one behind the last batch. -/
def DeliversAll (pc : PartitionConsumer) (response : FetchResponse) (batches : List RecordBatch) : Prop :=
  ∃ code messages pc', parseResponse response pc = .ok (code, messages) pc' ∧
    List.Forall₂ (HandsOn pc) (recordsFrom pc.offset.toInt (dataBatches batches)) messages ∧
    (messages.Pairwise fun a b => a.offset < b.offset) ∧ (∀ m ∈ messages, m.offset < pc'.offset) ∧
    ∀ last ∈ batches.getLast?, pc'.offset.toInt ≤ lastRecordOffset last + 1

theorem Ranged.sublist {offset : ℤ} {kept : List RecordBatch} (ranged : Ranged offset batches) (sub : kept.Sublist batches) :
    Ranged offset kept where
  covers batch member := ranged.covers batch (sub.subset member)
  apart := ranged.apart.sublist sub
  ahead batch member := ranged.ahead batch (sub.subset member)

/-- No batch ends behind the last one. -/
theorem Ranged.le_last {offset : ℤ} (ranged : Ranged offset batches) {last : RecordBatch}
    (isLast : last ∈ batches.getLast?) : ∀ batch ∈ batches, lastRecordOffset batch ≤ lastRecordOffset last := by
  obtain ⟨front, rfl⟩ := List.getLast?_eq_some_iff.mp isLast
  intro batch member
  rcases List.mem_append.mp member with before | isIt
  · have below := (List.pairwise_append.mp ranged.apart).2.2 batch before last List.mem_cons_self
    have inside := ranged.covers last (List.mem_append_right _ List.mem_cons_self)
    omega
  · rw [List.mem_singleton.mp isIt]

/-- The loop over batches in order delivers their records from the offset on, and moves the offset behind none that
is still to come. -/
theorem parseRecordsSet_uncommitted (uncommitted : pc.conf.isolationLevel = .ReadUncommitted) {offset : Int64}
    (reached : pc.offset.toInt ≤ offset.toInt) (ranged : Ranged offset.toInt batches) (laid : ∀ batch ∈ batches, Laid batch)
    (readable : ∀ batch ∈ batches, batch.control = true → ∃ record, batch.getControlRecord = .ok record)
    (same : ∀ batch ∈ batches, ∀ rec ∈ batch.records,
      offset.toInt ≤ recordOffset batch rec ↔ pc.offset.toInt ≤ recordOffset batch rec) :
    ∃ next : Int64, parseRecordsSet (batches.map .batch) aborted producers messages { pc with offset } =
        .ok (0, messages ++ messagesOf pc (dataBatches batches)) { pc with offset := next } ∧
      ∀ bound, offset.toInt ≤ bound → (∀ batch ∈ batches, lastRecordOffset batch < bound) → next.toInt ≤ bound := by
  induction batches generalizing aborted producers messages offset with
  | nil => exact ⟨offset, by simp [parseRecordsSet, messagesOf, dataBatches, pure, EStateM.pure], fun _ upTo _ => upTo⟩
  | cons batch rest ih =>
    have covers := ranged.covers batch List.mem_cons_self
    have here := laid batch List.mem_cons_self
    obtain ⟨last, found, -⟩ := lastOffset_run covers here.follows { pc with offset }
    obtain ⟨between, parsed, up, behind⟩ :=
      @parseRecords_run { pc with offset } batch here (ranged.ahead batch List.mem_cons_self)
    rw [messagesFrom_congr (same batch List.mem_cons_self)] at parsed
    dsimp only at up
    have later : ∀ b ∈ rest, between.toInt ≤ b.firstOffset.toInt := by
      intro b member
      have apart := (List.pairwise_cons.mp ranged.apart).1 b member
      omega
    have onward : Ranged between.toInt rest := by
      refine ⟨fun b member => ranged.covers b (List.mem_cons_of_mem _ member), (List.pairwise_cons.mp ranged.apart).2, ?_⟩
      intro b member
      exact (later b member).trans (ranged.covers b (List.mem_cons_of_mem _ member))
    have sameLater : ∀ b ∈ rest, ∀ rec ∈ b.records,
        between.toInt ≤ recordOffset b rec ↔ pc.offset.toInt ≤ recordOffset b rec := by
      intro b member rec isRecord
      have inside := (laid b (List.mem_cons_of_mem _ member)).within rec isRecord
      have start := later b member
      constructor <;> intro <;> omega
    -- the rest of the batches, from the next offset on
    have goOn (aborted : List AbortedTransaction) (producers : Finset Int64) (messages : List ConsumerMessage) :
        ∃ next : Int64, parseRecordsSet (rest.map .batch) aborted producers messages { pc with offset := between } =
            .ok (0, messages ++ messagesOf pc (dataBatches rest)) { pc with offset := next } ∧
          ∀ bound, offset.toInt ≤ bound → (∀ b ∈ batch :: rest, lastRecordOffset b < bound) → next.toInt ≤ bound := by
      obtain ⟨next, run, upTo⟩ := @ih messages aborted producers between (reached.trans up)
        onward (fun b member => laid b (List.mem_cons_of_mem _ member))
        (fun b member => readable b (List.mem_cons_of_mem _ member)) sameLater
      refine ⟨next, run, fun bound _ below => upTo bound ?_ fun b member => below b (List.mem_cons_of_mem _ member)⟩
      have passed := below batch List.mem_cons_self
      omega
    rw [List.map_cons, parseRecordsSet, EStateM.bind_of_ok found, EStateM.bind_of_ok parsed, EStateM.get_bind_apply]
    cases control : batch.control with
    | true =>
      obtain ⟨record, decoded⟩ := readable batch List.mem_cons_self control
      have skipped : dataBatches (batch :: rest) = dataBatches rest := List.filter_cons_of_neg (by simp [control])
      rw [if_pos rfl, decoded, skipped]
      dsimp only
      split
      · exact goOn _ _ messages
      · exact goOn _ _ messages
    | false =>
      have read : dataBatches (batch :: rest) = batch :: dataBatches rest := List.filter_cons_of_pos (by simp [control])
      have notIsolated : ¬ (pc.conf.isolationLevel = .ReadCommitted ∧ batch.isTransactional = true ∧
          batch.producerId ∈ (openAborted last aborted producers).2) := by
        rw [uncommitted]
        rintro ⟨isolated, -⟩
        cases isolated
      rw [if_neg Bool.false_ne_true, if_neg notIsolated]
      obtain ⟨next, run, upTo⟩ := goOn (openAborted last aborted producers).1 (openAborted last aborted producers).2
        (messages ++ messagesFrom pc pc.offset.toInt batch batch.records)
      refine ⟨next, run.trans ?_, upTo⟩
      rw [read, messagesOf, messagesOf, List.flatMap_cons, List.append_assoc]

/-- Batches without records deliver nothing. -/
theorem messagesOf_withRecords (pc : PartitionConsumer) (batches : List RecordBatch) :
    messagesOf pc (withRecords batches) = messagesOf pc batches := by
  induction batches with
  | nil => rfl
  | cons batch rest ih =>
    unfold messagesOf withRecords at ih ⊢
    cases records : batch.records with
    | nil =>
      have nothing : messagesFrom pc pc.offset.toInt batch batch.records = [] := by rw [records]; rfl
      rw [List.filter_cons_of_neg (by simp [records]), ih, List.flatMap_cons, nothing, List.nil_append]
    | cons rec others => rw [List.filter_cons_of_pos (by simp [records]), List.flatMap_cons, List.flatMap_cons, ih]

/-- What parsing delivers of a block without an error that stands for batches in the order of their offsets. -/
theorem parseFetched_uncommitted (uncommitted : pc.conf.isolationLevel = .ReadUncommitted)
    (reflects : block.Reflects batches) (ranged : Ranged pc.offset.toInt batches) (laid : ∀ batch ∈ batches, Laid batch)
    (readable : ∀ batch ∈ withRecords batches, batch.control = true → ∃ record, batch.getControlRecord = .ok record) :
    ∃ pc', parseFetched block pc = .ok (0, messagesOf pc (dataBatches batches)) pc' ∧
      ((messagesOf pc (dataBatches batches)).Pairwise fun a b => a.offset < b.offset) ∧
      (∀ m ∈ messagesOf pc (dataBatches batches), m.offset < pc'.offset) ∧
      ∀ last ∈ batches.getLast?, pc'.offset.toInt ≤ lastRecordOffset last + 1 := by
  by_cases none_ : block.numRecords = 0
  · have nothing : messagesOf pc (dataBatches batches) = [] :=
      messagesOf_of_empty fun batch member => reflects.empty none_ batch (List.mem_of_mem_filter member)
    rw [parseFetched_of_empty none_, nothing]
    refine ⟨_, rfl, .nil, List.forall_mem_nil _, fun last isLast => ?_⟩
    have behind := reflects.follows last isLast
    have stays : (preferReplica block pc).offset.toInt ≤ lastRecordOffset last + 1 := by
      rw [preferReplica_offset]
      have ahead := ranged.ahead last (List.mem_of_getLast? isLast)
      omega
    split
    · unfold skipToNext
      split
      · exact behind.le
      · exact stays
    · exact stays
  · have sub : (withRecords batches).Sublist batches := List.filter_sublist
    rw [parseFetched_of_records none_, reflects.records none_]
    obtain ⟨next, run, upTo⟩ := @parseRecordsSet_uncommitted (reading block pc) [] (withRecords batches)
      block.getAbortedTransactions ∅ (by rw [reading_conf, uncommitted]) _ le_rfl
      (by rw [reading_offset]; exact ranged.sublist sub) (fun batch member => laid batch (sub.subset member)) readable
      fun _ _ _ _ => Iff.rfl
    have apart : dataBatches (withRecords batches) = withRecords (dataBatches batches) := List.filter_comm _ _ _
    rw [List.nil_append, messagesOf_reading, apart, messagesOf_withRecords] at run
    obtain ⟨fresh, isFresh, advances⟩ := parseRecordsSet_advances run
    rw [List.nil_append] at isFresh
    subst isFresh
    refine ⟨_, run, advances.ascending, advances.below, fun last isLast => upTo _ ?_ fun batch member => ?_⟩
    · rw [reading_offset]
      have ahead := ranged.ahead last (List.mem_of_getLast? isLast)
      omega
    · have upToLast := ranged.le_last isLast batch (sub.subset member)
      omega

/-- Under `ReadUncommitted`, for every block without an error that is decoded from batches in the order of their
offsets, where the records of a batch ascend within it and the record of a control batch is readable: exactly the
records from the offset on are delivered. -/
theorem delivers_uncommitted (uncommitted : pc.conf.isolationLevel = .ReadUncommitted)
    (answers : Answers library decodeMessageSet response pc block batches) (ranged : Ranged pc.offset.toInt batches)
    (noError : block.err = ErrNoError) (placed : ∀ batch ∈ batches, Placed batch)
    (readable : ∀ batch ∈ withRecords batches, batch.control = true → ∃ record, batch.getControlRecord = .ok record) :
    DeliversAll pc response batches := by
  obtain ⟨reflects, fits⟩ := answers.reflects
  have laid : ∀ batch ∈ batches, Laid batch := fun batch member =>
    ⟨(placed batch member).1, (placed batch member).2, fits batch member⟩
  obtain ⟨pc', run, ordered⟩ := parseFetched_uncommitted uncommitted reflects ranged laid readable
  have hands := @handsOn_messagesOf pc (dataBatches batches) fun batch member => laid batch (List.mem_of_mem_filter member)
  exact ⟨0, _, pc', (parseResponse_of_block answers.has noError).trans run, hands, ordered⟩

/-! ## Decoded blocks -/

def plainLibrary : CompressionLibrary := ⟨fun _ data => data, fun _ data => data⟩

def noMessageSet : Decode MessageSet := fun pd => .error (.code ErrDecodeError) pd

/-- The bytes of a batch. -/
def wireBytes (batch : RecordBatch) : Bytes :=
  (Kafka.encode false (RecordBatch.encode plainLibrary) batch).toOption.elim [] Prod.fst

/-- A batch from which compaction took the record in the middle. -/
def gapped (firstOffset : Int64) : RecordBatch :=
  { firstOffset, lastOffsetDelta := 2, recordsLen := 16,
    records :=
      [{ value := [0x61], length := { length := 7 } }, { value := [0x62], offsetDelta := 2, length := { length := 7 } }]
        }

/-- A control batch with a key. -/
def marker (key : Bytes) : RecordBatch :=
  { control := true, recordsLen := 7 + key.length, records := [{ key, length := { length := .ofNat (6 + key.length) } }] }

/-- A batch whose records do not ascend. -/
def disordered : RecordBatch :=
  { lastOffsetDelta := 1, recordsLen := 16,
    records :=
      [{ value := [0x61], offsetDelta := 1, length := { length := 7 } }, { value := [0x62], length := { length := 7 } }]
        }

/-- The block that is decoded from batches. -/
def decodedBlock (header : FetchResponseBlock) (batches : List RecordBatch) : FetchResponseBlock :=
  (decodeRecordsSet (Records.decode plainLibrary noMessageSet) (batches.length + 1)
    (header, { raw := batches.flatMap wireBytes })).state.1

/-- The batch is decoded from the bytes, up to an offset. -/
def DecodesTo (pd : PacketDecoder) (batch : RecordBatch) (offset : ℕ) : Prop :=
  pd.unread[16]? = some 2 ∧ (RecordBatch.decode plainLibrary ({}, pd)).returned = some () ∧
    (RecordBatch.decode plainLibrary ({}, pd)).state = (batch, { pd with offset }) ∧ batch.partialTrailingRecord = false
deriving Decidable

theorem DecodesTo.received {pd : PacketDecoder} {batch : RecordBatch} {offset : ℕ} (decodes : DecodesTo pd batch offset)
    (rest : Received (Records.decode plainLibrary noMessageSet) { pd with offset } batches) :
    Received (Records.decode plainLibrary noMessageSet) pd (batch :: batches) := by
  obtain ⟨magic, returns, state, whole⟩ := decodes
  have goesOn : pd.remaining ≠ 0 := by
    intro ends
    have nothing : pd.unread = [] := List.drop_eq_nil_of_le (Nat.le_of_sub_eq_zero ends)
    rw [nothing] at magic
    cases magic
  have run := EStateM.Result.eq_ok_of_returned returns
  rw [state] at run
  exact .next goesOn (decode_of_batch magic run) whole rest

theorem answers_decodedBlock {header : FetchResponseBlock} (fresh : header.recordsSet = [])
    (received : Received (Records.decode plainLibrary noMessageSet) { raw := batches.flatMap wireBytes } batches)
    (returns : (decodeRecordsSet (Records.decode plainLibrary noMessageSet) (batches.length + 1)
      (header, { raw := batches.flatMap wireBytes })).returned = some ()) :
    Answers plainLibrary noMessageSet (responseWith (decodedBlock header batches)) reader
      (decodedBlock header batches) batches where
  has := ⟨_, Std.ExtTreeMap.getElem?_insert_self, Std.ExtTreeMap.getElem?_insert_self⟩
  decoded := ⟨_, header, _, _, fresh, received, EStateM.Result.eq_ok_of_returned returns⟩

/-- A commit marker in front of a batch with a gap. -/
def markerWindow : List RecordBatch := [marker (ControlRecord.encodeKey 0 .ControlRecordCommit), gapped 1]

private theorem received_markerWindow :
    Received (Records.decode plainLibrary noMessageSet) { raw := markerWindow.flatMap wireBytes } markerWindow := by
  have first :
      DecodesTo { raw := markerWindow.flatMap wireBytes }
        (marker (ControlRecord.encodeKey 0 .ControlRecordCommit)) 72 := by
    decide +kernel
  have second : DecodesTo { offset := 72, raw := markerWindow.flatMap wireBytes } (gapped 1) 149 := by decide +kernel
  exact first.received (second.received (.done (by decide +kernel)))

/-- Of the window, the two records of the batch with a gap are delivered. -/
theorem markerWindow_delivers : DeliversAll reader (responseWith (decodedBlock {} markerWindow)) markerWindow := by
  have readable : ∀ batch ∈ markerWindow, batch.control = true → ∃ record, batch.getControlRecord = .ok record := by
    refine List.forall_mem_cons.mpr ⟨fun _ => ⟨{ version := 0, type := .ControlRecordCommit }, by decide⟩, ?_⟩
    refine List.forall_mem_singleton.mpr ?_
    intro isControl
    cases isControl
  exact delivers_uncommitted rfl (answers_decodedBlock rfl received_markerWindow (by decide +kernel))
    ⟨by decide, by decide, by decide⟩ (by decide +kernel) (by decide) fun batch member =>
      readable batch (List.mem_of_mem_filter member)

/-- Batches in the order of their offsets are decoded, and not delivered. -/
def Undelivered (header : FetchResponseBlock) (batches : List RecordBatch) : Prop :=
  Answers plainLibrary noMessageSet (responseWith (decodedBlock header batches)) reader
    (decodedBlock header batches) batches ∧
    Ranged reader.offset.toInt batches ∧ ¬ DeliversAll reader (responseWith (decodedBlock header batches)) batches

private theorem not_deliversAll {count : ℕ} (returned : (parseResponse response pc).returned.map (·.2.length) = some count)
    (differs : count ≠ (recordsFrom pc.offset.toInt (dataBatches batches)).length) : ¬ DeliversAll pc response batches := by
  rintro ⟨code, messages, pc', run, hands, -⟩
  rw [run] at returned
  exact differs ((Option.some.inj returned).symm.trans hands.length_eq.symm)

/-- A block with an error delivers nothing, an unreadable control record ends the delivery, and a record below the
one in front of it is skipped. -/
theorem some_undelivered :
    Undelivered { err := 6 } [gapped 0] ∧ Undelivered {} [marker [], gapped 1] ∧ Undelivered {} [disordered] := by
  refine ⟨⟨answers_decodedBlock rfl ?_ (by decide +kernel), ⟨by decide, by decide, by decide⟩, ?_⟩,
    ⟨answers_decodedBlock rfl ?_ (by decide +kernel), ⟨by decide, by decide, by decide⟩, ?_⟩,
    answers_decodedBlock rfl ?_ (by decide +kernel), ⟨by decide, by decide, by decide⟩, ?_⟩
  · have only : DecodesTo { raw := [gapped 0].flatMap wireBytes } (gapped 0) 77 := by decide +kernel
    exact only.received (.done (by decide +kernel))
  · exact @not_deliversAll _ _ _ 0 (by decide +kernel) (by decide +kernel)
  · have first : DecodesTo { raw := [marker [], gapped 1].flatMap wireBytes } (marker []) 68 := by decide +kernel
    have second : DecodesTo { offset := 68, raw := [marker [], gapped 1].flatMap wireBytes } (gapped 1) 145 := by
      decide +kernel
    exact first.received (second.received (.done (by decide +kernel)))
  · exact @not_deliversAll _ _ _ 0 (by decide +kernel) (by decide +kernel)
  · have only : DecodesTo { raw := [disordered].flatMap wireBytes } disordered 77 := by decide +kernel
    exact only.received (.done (by decide +kernel))
  · exact @not_deliversAll _ _ _ 1 (by decide +kernel) (by decide +kernel)

end Coev.Kafka.PartitionConsumer
