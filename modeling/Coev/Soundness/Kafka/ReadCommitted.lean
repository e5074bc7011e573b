import Coev.Proofs.Kafka.PartitionConsumer
import Coev.ToMathlib.Session

/-! # Reading committed messages

A partition log is a log of sessions: the batches of a transaction open one for their producer, and a control
batch closes it. Under `ReadCommitted` a response delivers the records of its batches that are neither control
batches nor part of a transaction which the next control batch of the producer aborts. The markers that follow
behind the window are not seen: the names of the aborted transactions stand for them.
-/

namespace Coev.Kafka.PartitionConsumer

open ByteString PacketDecoder Session

variable {pc : PartitionConsumer} {response : FetchResponse} {messages : List ConsumerMessage}
  {before done window after : List RecordBatch} {batch : RecordBatch} {aborted : List AbortedTransaction}
  {producers : Finset Int64} {block : FetchResponseBlock}

/-! ## Partition logs -/

/-- The transactions of a log; a marker aborts when the type in the key of its record is zero. -/
def transactions : Reading RecordBatch Int64 where
  key batch := batch.producerId
  opens batch := batch.isTransactional && !batch.control
  closes batch := batch.control
  aborts batch := batch.records.head?.any fun rec => rec.key.drop 2 == bigEndian 2 0
  start batch := batch.firstOffset.toInt
  stop := lastRecordOffset

/-- The batch is the marker of a transaction, with or without a value. -/
def Marks (type : ControlRecordType) (batch : RecordBatch) : Prop :=
  ∃ rec rest version, batch.records = rec :: rest ∧ rec.key = ControlRecord.encodeKey version type ∧
    (rec.value = [] ∨ ∃ coordinatorEpoch, rec.value = ControlRecord.encodeValue version coordinatorEpoch)

/-- Batches lie in the order of their offsets, and control batches commit or abort. -/
structure WellFormed (log : List RecordBatch) : Prop where
  ordered : transactions.Ordered log
  laid : ∀ batch ∈ log, Laid batch
  marks : ∀ batch ∈ log, batch.control = true → Marks .ControlRecordCommit batch ∨ Marks .ControlRecordAbort batch

/-- The batches of a window that are read: not the control batches, and none of an aborted transaction. -/
def committed (after : List RecordBatch) : List RecordBatch → List RecordBatch
  | [] => []
  | batch :: rest =>
    if batch.control ∨ batch.isTransactional ∧ transactions.aborted batch.producerId (rest ++ after) then
      committed after rest
    else batch :: committed after rest

/-- The name of an aborted transaction. -/
def AbortedTransaction.name (txn : AbortedTransaction) : Int64 × ℤ := (txn.producerId, txn.firstOffset.toInt)

/-- The block answers a fetch from an offset with a window of the log, no batch of which ends below the offset.
It names the aborted transactions that reach into the window or begin behind it; of the ones behind the window
it may leave some out. -/
structure Serves (block : FetchResponseBlock) (offset : Int64) (before window after : List RecordBatch) : Prop where
  noError : block.err = ErrNoError
  records : block.recordsSet = window.map .batch
  ahead : ∀ batch ∈ window, offset.toInt ≤ lastRecordOffset batch
  sound : ∀ txn ∈ block.abortedTransactions, transactions.Listed before (window ++ after) (AbortedTransaction.name txn)
  complete : ∀ name, transactions.Listed before (window ++ after) name →
    (∃ batch ∈ before ++ window, name.2 ≤ lastRecordOffset batch) →
    ∃ txn ∈ block.abortedTransactions, AbortedTransaction.name txn = name

/-! ## Markers -/

/-- A marker is decoded, and what it does to the transaction is what the log reads in it. -/
private theorem getControlRecord_of_marks {type : ControlRecordType} (marks : Marks type batch) :
    ∃ control, batch.getControlRecord = .ok control ∧
      (control.type = .ControlRecordAbort ↔ transactions.aborts batch = true) := by
  obtain ⟨rec, rest, version, records, key, value⟩ := marks
  obtain ⟨control, pd, decoded, isType⟩ := ControlRecord.decode_of_encoded key value
  refine ⟨control, ?_, ?_⟩
  · rw [RecordBatch.getControlRecord, records]
    dsimp only
    rw [decoded]
  · have ahead : (ControlRecord.encodeKey version type).drop 2 = bigEndian 2 type.toInt16.toUInt16.toNat :=
      List.drop_left' (length_bigEndian 2 _)
    have reads : transactions.aborts batch = (bigEndian 2 type.toInt16.toUInt16.toNat == bigEndian 2 0) := by
      change batch.records.head?.any _ = _
      rw [records, List.head?_cons, Option.any_some, key, ahead]
    rw [isType, reads]
    cases type <;> decide

/-! ## The names of aborted transactions -/

/-- The names of a list. -/
def names (aborted : List AbortedTransaction) : Set (Int64 × ℤ) :=
  {name | ∃ txn ∈ aborted, AbortedTransaction.name txn = name}

/-- Of a sorted list, the transactions that begin up to an offset are taken. -/
private theorem openAborted_eq (sorted : aborted.Pairwise fun a b => a.firstOffset ≤ b.firstOffset) (last : Int64) :
    openAborted last aborted producers = (aborted.filter fun txn => last < txn.firstOffset,
        producers ∪ ((aborted.filter fun txn => txn.firstOffset ≤ last).map (·.producerId)).toFinset) := by
  induction aborted generalizing producers with
  | nil => simp [openAborted]
  | cons txn rest ih =>
    obtain ⟨first, sorted⟩ := List.pairwise_cons.mp sorted
    unfold openAborted
    split
    · next later =>
      have all : ∀ t ∈ txn :: rest, last < t.firstOffset := by
        intro t member
        rcases List.mem_cons.mp member with rfl | member
        · exact later
        · exact Int64.lt_of_lt_of_le later (first t member)
      have none_ : ∀ t ∈ txn :: rest, ¬ (decide (t.firstOffset ≤ last) = true) := by
        intro t member
        simpa using all t member
      rw [List.filter_eq_self.mpr fun t member => decide_eq_true (all t member), List.filter_eq_nil_iff.mpr none_]
      simp
    · next notLater =>
      have upTo : txn.firstOffset ≤ last := Int64.not_lt.mp notLater
      rw [ih sorted, List.filter_cons_of_neg (by simpa using upTo), List.filter_cons_of_pos (by simpa using upTo)]
      simp

private theorem names_openAborted (sorted : aborted.Pairwise fun a b => a.firstOffset ≤ b.firstOffset) {last : Int64}
    (isLast : last.toInt = lastRecordOffset batch) :
    names (openAborted last aborted producers).1 = transactions.left batch (names aborted) := by
  rw [openAborted_eq sorted]
  ext name
  simp only [names, Reading.left, Set.mem_ofPred_eq, List.mem_filter, decide_eq_true_eq]
  change _ ↔ _ ∧ lastRecordOffset batch < name.2
  rw [← isLast]
  constructor
  · rintro ⟨txn, ⟨member, later⟩, rfl⟩
    exact ⟨⟨txn, member, rfl⟩, Int64.lt_iff_toInt_lt.mp later⟩
  · rintro ⟨⟨txn, member, rfl⟩, later⟩
    exact ⟨txn, ⟨member, Int64.lt_iff_toInt_lt.mpr later⟩, rfl⟩

private theorem coe_openAborted (sorted : aborted.Pairwise fun a b => a.firstOffset ≤ b.firstOffset) {last : Int64}
    (isLast : last.toInt = lastRecordOffset batch) :
    ((openAborted last aborted producers).2 : Set Int64) = transactions.taken batch (names aborted) producers := by
  rw [openAborted_eq sorted]
  ext producerId
  simp only [Reading.taken, names, Finset.coe_union, Set.mem_union, Finset.mem_coe, List.mem_toFinset, List.mem_map,
    List.mem_filter, decide_eq_true_eq, Set.mem_ofPred_eq]
  change _ ↔ _ ∨ ∃ start, _ ∧ start ≤ lastRecordOffset batch
  rw [← isLast]
  refine or_congr_right ⟨?_, ?_⟩
  · rintro ⟨txn, ⟨member, upTo⟩, rfl⟩
    exact ⟨txn.firstOffset.toInt, ⟨txn, member, rfl⟩, Int64.le_iff_toInt_le.mp upTo⟩
  · rintro ⟨start, ⟨txn, member, same⟩, upTo⟩
    obtain ⟨rfl, rfl⟩ := Prod.mk.inj same
    exact ⟨txn, ⟨member, Int64.le_iff_toInt_le.mpr upTo⟩, rfl⟩

/-! ## A window -/

/-- Reading on over a window delivers the records of its committed batches. -/
private theorem parseRecordsSet_run (wellFormed : WellFormed (done ++ (window ++ after)))
    (isolation : pc.conf.isolationLevel = .ReadCommitted)
    (sorted : aborted.Pairwise fun a b => a.firstOffset ≤ b.firstOffset)
    (tracks : transactions.Tracks done window after (names aborted) producers) {offset : Int64}
    (reached : pc.offset.toInt ≤ offset.toInt) (ahead : ∀ batch ∈ window, offset.toInt ≤ lastRecordOffset batch)
    (same : ∀ batch ∈ window, ∀ rec ∈ batch.records, offset.toInt ≤ recordOffset batch rec ↔
      pc.offset.toInt ≤ recordOffset batch rec) :
    ∃ pc', parseRecordsSet (window.map .batch) aborted producers messages { pc with offset } =
      .ok (0, messages ++ messagesOf pc (committed after window)) pc' := by
  induction window generalizing done aborted producers messages offset with
  | nil => exact ⟨{ pc with offset }, by simp [committed, messagesOf, parseRecordsSet, pure, EStateM.pure]⟩
  | cons batch rest ih =>
    have ordered : transactions.Ordered (done ++ batch :: (rest ++ after)) := wellFormed.ordered
    have member : batch ∈ done ++ (batch :: rest ++ after) := by simp
    have laid := wellFormed.laid batch member
    have covers : batch.firstOffset.toInt ≤ lastRecordOffset batch := ordered.covers batch member
    obtain ⟨last, found, isLast⟩ := lastOffset_run covers laid.follows { pc with offset }
    obtain ⟨next, parsed, up, behind⟩ := @parseRecords_run { pc with offset } batch laid (ahead batch List.mem_cons_self)
    rw [messagesFrom_congr (same batch List.mem_cons_self)] at parsed
    dsimp only at up
    have left := @names_openAborted batch aborted producers sorted last isLast
    have taken := @coe_openAborted batch aborted producers sorted last isLast
    have sortedLeft : (openAborted last aborted producers).1.Pairwise fun a b => a.firstOffset ≤ b.firstOffset := by
      rw [openAborted_eq sorted]
      exact sorted.filter _
    have onward := tracks.step ordered
    rw [← left, ← taken] at onward
    have later : ∀ b ∈ rest, next.toInt ≤ b.firstOffset.toInt ∧ b ∈ done ++ (batch :: rest ++ after) := by
      intro b inRest
      have apart : lastRecordOffset batch < b.firstOffset.toInt := ordered.stop_lt (List.mem_append_left _ inRest)
      exact ⟨by omega, by simp [inRest]⟩
    -- the rest of the window, from the next offset on
    have goOn {keys : Finset Int64} (messages : List ConsumerMessage)
        (tracks : transactions.Tracks (done ++ [batch]) rest after (names (openAborted last aborted producers).1) keys) :
        ∃ pc', parseRecordsSet (rest.map .batch) (openAborted last aborted producers).1 keys messages
          { pc with offset := next } =
          .ok (0, messages ++ messagesOf pc (committed after rest)) pc' := by
      apply ih _ sortedLeft tracks (by omega)
      · intro b inRest
        have inside : b.firstOffset.toInt ≤ lastRecordOffset b := ordered.covers b (later b inRest).2
        exact le_trans (later b inRest).1 inside
      · intro b inRest rec isRecord
        have inside := (wellFormed.laid b (later b inRest).2).within rec isRecord
        have reached' := (later b inRest).1
        constructor <;> intro <;> omega
      · rwa [List.append_assoc]
    rw [List.map_cons, parseRecordsSet, EStateM.bind_of_ok found, EStateM.bind_of_ok parsed, EStateM.get_bind_apply]
    cases control : batch.control with
    | true =>
      have closes : transactions.closes batch = true := control
      have skipped : committed after (batch :: rest) = committed after rest := if_pos (.inl control)
      obtain ⟨record, decoded, aborts⟩ : ∃ record, batch.getControlRecord = .ok record ∧
          (record.type = .ControlRecordAbort ↔ transactions.aborts batch = true) := by
        rcases wellFormed.marks batch member control with marks | marks
        · exact getControlRecord_of_marks marks
        · exact getControlRecord_of_marks marks
      rw [if_pos rfl, decoded, skipped]
      dsimp only
      split
      · next isAbort =>
        rw [if_pos ⟨closes, aborts.mp isAbort⟩] at onward
        apply goOn messages
        rw [Finset.coe_erase]
        exact onward
      · next notAbort =>
        rw [if_neg fun both => notAbort (aborts.mpr both.2)] at onward
        exact goOn messages onward
    | false =>
      have notCloses : ¬ (transactions.closes batch = true ∧ transactions.aborts batch = true) := by
        rintro ⟨closes, -⟩
        exact Bool.false_ne_true (control.symm.trans closes)
      rw [if_neg notCloses] at onward
      rw [if_neg Bool.false_ne_true]
      have dropped : batch.isTransactional = true →
          (batch.producerId ∈ (openAborted last aborted producers).2 ↔
            transactions.aborted batch.producerId (rest ++ after) = true) := by
        intro transactional
        have opens : transactions.opens batch = true := by
          change (batch.isTransactional && !batch.control) = true
          rw [transactional, control]
          rfl
        have opened := tracks.mem_taken_iff_aborted ordered opens
        rw [← taken] at opened
        exact opened
      have skips : (pc.conf.isolationLevel = .ReadCommitted ∧ batch.isTransactional = true ∧
            batch.producerId ∈ (openAborted last aborted producers).2) ↔
          (batch.control = true ∨ batch.isTransactional = true ∧
            transactions.aborted batch.producerId (rest ++ after) = true) := by
        rw [control, and_iff_right isolation, or_iff_right Bool.false_ne_true]
        exact and_congr_right dropped
      split
      · next drop =>
        have skipped : committed after (batch :: rest) = committed after rest := if_pos (skips.mp drop)
        rw [skipped]
        exact goOn messages onward
      · next keep =>
        have read : committed after (batch :: rest) = batch :: committed after rest :=
          if_neg fun drop => keep (skips.mpr drop)
        obtain ⟨pc', run⟩ := goOn (messages ++ messagesFrom pc pc.offset.toInt batch batch.records) onward
        refine ⟨pc', run.trans ?_⟩
        rw [read, messagesOf, messagesOf, List.flatMap_cons, List.append_assoc]

/-! ## A response -/

private theorem committed_subset : committed after window ⊆ window := by
  induction window with
  | nil => exact List.Subset.refl _
  | cons batch rest ih =>
    unfold committed
    split
    · exact List.subset_cons_of_subset _ ih
    · exact List.cons_subset_cons _ ih

/-- A window without records delivers nothing. -/
private theorem messagesOf_committed_of_empty (empty : (window.map (·.records.length)).sum = 0) :
    messagesOf pc (committed after window) = [] := by
  refine messagesOf_of_empty fun batch member => List.eq_nil_of_length_eq_zero ?_
  exact List.sum_eq_zero_iff.mp empty _ (List.mem_map_of_mem (committed_subset member))

/-- What is known before a window is read: the names of its block, and no aborted producers. -/
theorem Serves.tracks {offset : Int64} (serves : Serves block offset before window after)
    (ordered : transactions.Ordered (before ++ (window ++ after))) :
    transactions.Tracks before window after (names block.getAbortedTransactions) (∅ : Finset Int64) := by
  have same : names block.getAbortedTransactions = names block.abortedTransactions := by
    ext name
    simp [names, FetchResponseBlock.getAbortedTransactions]
  rw [same, Finset.coe_empty]
  apply Reading.Tracks.start ordered
  · rintro name ⟨txn, member, rfl⟩
    exact serves.sound txn member
  · intro name listed upTo
    exact serves.complete name listed upTo

private theorem pairwise_getAbortedTransactions (block : FetchResponseBlock) :
    block.getAbortedTransactions.Pairwise fun a b => a.firstOffset ≤ b.firstOffset := by
  have total : Std.Total fun a b : AbortedTransaction => a.firstOffset ≤ b.firstOffset := ⟨fun a b => Int64.le_total _ _⟩
  have trans : IsTrans AbortedTransaction fun a b => a.firstOffset ≤ b.firstOffset := ⟨fun a b c => Int64.le_trans⟩
  exact List.pairwise_insertionSort _ _

theorem WellFormed.laid_committed (wellFormed : WellFormed (before ++ (window ++ after))) :
    ∀ batch ∈ committed after window, Laid batch := by
  intro batch member
  have inWindow := committed_subset member
  exact wellFormed.laid batch (List.mem_append_right _ (List.mem_append_left _ inWindow))

/-- Under `ReadCommitted`, from every window of every log, parsing a response delivers exactly the records at or
after the offset of the batches that are no control batches and belong to no aborted transaction, in offset order. -/
theorem delivers_committed (wellFormed : WellFormed (before ++ (window ++ after)))
    (isolation : pc.conf.isolationLevel = .ReadCommitted) {partitions : Std.ExtTreeMap Int32 FetchResponseBlock}
    (hasTopic : response.blocks[pc.topic]? = some partitions) (hasPartition : partitions[pc.partition]? = some block)
    (serves : Serves block pc.offset before window after) :
    ∃ messages pc', parseResponse response pc = .ok (ErrNoError, messages) pc' ∧
      List.Forall₂ (HandsOn pc) (recordsFrom pc.offset.toInt (committed after window)) messages ∧
      messages.Pairwise fun a b => a.offset < b.offset := by
  refine ⟨messagesOf pc (committed after window), ?_⟩
  have hands := @handsOn_messagesOf pc _ wellFormed.laid_committed
  rw [parseResponse_of_block ⟨partitions, hasTopic, hasPartition⟩ serves.noError]
  have counted : block.numRecords = (window.map (·.records.length)).sum := by
    rw [FetchResponseBlock.numRecords, serves.records, sumRecords_batches, zero_add]
  by_cases none_ : block.numRecords = 0
  · have nothing := @messagesOf_committed_of_empty pc window after (Int.ofNat_eq_zero.mp (counted ▸ none_))
    rw [nothing] at hands ⊢
    rw [parseFetched_of_empty none_]
    exact ⟨_, rfl, hands, .nil⟩
  · rw [parseFetched_of_records none_]
    obtain ⟨pc', run⟩ :=
      @parseRecordsSet_run (reading block pc) [] before window after block.getAbortedTransactions ∅ wellFormed
      (by rw [reading_conf, isolation]) (pairwise_getAbortedTransactions block) (serves.tracks wellFormed.ordered) _
      le_rfl (by rw [reading_offset]; exact serves.ahead) fun _ _ _ _ => Iff.rfl
    rw [List.nil_append, messagesOf_reading, ← serves.records] at run
    obtain ⟨fresh, isFresh, advances⟩ := parseRecordsSet_advances run
    rw [List.nil_append] at isFresh
    exact ⟨pc', run, hands, isFresh ▸ advances.ascending⟩

/-- A record of a transaction. -/
def dataBatch (producerId firstOffset : Int64) : RecordBatch :=
  { firstOffset, producerId, isTransactional := true, records := [{ value := [0x61] }] }

def markerBatch (type : ControlRecordType) (producerId firstOffset : Int64) : RecordBatch :=
  { firstOffset, producerId, isTransactional := true, control := true,
    records := [{ key := ControlRecord.encodeKey 0 type, value := ControlRecord.encodeValue 0 0 }] }

/-- Producer 1 aborts what it began in front of the window, producer 2 commits in between. -/
def interleaved : List RecordBatch :=
  [dataBatch 2 1, dataBatch 1 2, markerBatch .ControlRecordAbort 1 3, markerBatch .ControlRecordCommit 2 4]

def interleavedBlock : FetchResponseBlock :=
  { abortedTransactions := [⟨1, 0⟩], recordsSet := interleaved.map .batch, highWaterMarkOffset := 5 }

/-- A reader of partition 0 of the topic `t` that has passed the record at offset 0. -/
def committedReader : PartitionConsumer :=
  { conf := { isolationLevel := .ReadCommitted }, topic := [0x74], partition := 0, offset := 1 }

def interleavedResponse : FetchResponse :=
  { blocks := Std.ExtTreeMap.insert ∅ [0x74] (Std.ExtTreeMap.insert ∅ 0 interleavedBlock) }

private theorem laid_singleton {batch : RecordBatch} {rec : Record} (records : batch.records = [rec])
    (within : batch.firstOffset.toInt ≤ recordOffset batch rec ∧ recordOffset batch rec ≤ lastRecordOffset batch)
    (follows : lastRecordOffset batch + 1 < 2 ^ 63) : Laid batch := by
  constructor
  · rw [records]
    exact List.pairwise_singleton _ _
  · rw [records]
    intro r member
    rw [List.mem_singleton.mp member]
    exact within
  · exact follows

private theorem wellFormed_interleaved : WellFormed (dataBatch 1 0 :: interleaved) := by
  constructor
  · constructor <;> decide
  · simp only [interleaved, List.forall_mem_cons]
    refine ⟨?_, ?_, ?_, ?_, ?_, fun _ member => absurd member List.not_mem_nil⟩ <;>
      exact laid_singleton rfl (by decide) (by decide)
  · simp only [interleaved, List.forall_mem_cons]
    have data {k o : Int64} {p : Prop} (control : (dataBatch k o).control = true) : p := absurd control Bool.false_ne_true
    refine ⟨data, data, data, ?_, ?_, fun _ member => absurd member List.not_mem_nil⟩
    · exact fun _ => .inr ⟨_, _, 0, rfl, rfl, .inr ⟨0, rfl⟩⟩
    · exact fun _ => .inl ⟨_, _, 0, rfl, rfl, .inr ⟨0, rfl⟩⟩

private theorem serves_interleaved : Serves interleavedBlock 1 [dataBatch 1 0] interleaved [] := by
  constructor
  · rfl
  · rfl
  · decide
  · intro txn member
    rw [List.mem_singleton.mp member]
    refine ⟨[], dataBatch 1 0, interleaved, rfl, rfl, rfl, rfl, rfl, by decide, ?_⟩
    intro mid same b inMid
    obtain rfl : mid = [] := (List.cons.inj same).2.symm
    cases inMid
  · rintro ⟨producerId, firstOffset⟩ ⟨pre, a, post, split, rfl, rfl, opens, fresh, aborts, -⟩ -
    simp only [interleaved, List.append_nil, List.singleton_append] at split
    rcases pre with _ | ⟨b, _ | ⟨c, _ | ⟨d, _ | ⟨e, _ | ⟨f, pre⟩⟩⟩⟩⟩ <;>
      simp only [List.nil_append, List.cons_append, List.cons.injEq] at split
    · obtain ⟨rfl, -⟩ := split
      exact ⟨⟨1, 0⟩, List.mem_singleton.mpr rfl, rfl⟩
    · obtain ⟨-, rfl, rfl⟩ := split
      revert aborts
      decide
    · obtain ⟨rfl, rfl, rfl, -⟩ := split
      revert fresh
      decide
    · obtain ⟨-, -, -, rfl, -⟩ := split
      revert opens
      decide
    · obtain ⟨-, -, -, -, rfl, -⟩ := split
      revert opens
      decide
    · have empty : ¬ [] = pre ++ a :: post := by simp
      exact absurd split.2.2.2.2.2 empty

/-- Of the records in the window only that of producer 2 is delivered. -/
theorem interleaved_delivers : ∃ m pc', parseResponse interleavedResponse committedReader = .ok (ErrNoError, [m]) pc' ∧
      m.value = [0x61] ∧ m.topic = [0x74] ∧ m.offset.toInt = 1 := by
  obtain ⟨messages, pc', run, hands, -⟩ := @delivers_committed committedReader interleavedResponse [dataBatch 1 0]
    interleaved [] interleavedBlock (by rw [List.append_nil]; exact wellFormed_interleaved) rfl
    (Std.ExtTreeMap.insert ∅ 0 interleavedBlock) Std.ExtTreeMap.getElem?_insert_self
    Std.ExtTreeMap.getElem?_insert_self serves_interleaved
  have only : recordsFrom committedReader.offset.toInt (committed [] interleaved) =
      [(dataBatch 2 1, { value := [0x61] })] := by decide
  rw [only] at hands
  obtain ⟨m, rest, first, done, rfl⟩ := List.forall₂_cons_left_iff.mp hands
  obtain rfl := List.forall₂_nil_left_iff.mp done
  exact ⟨m, pc', run, first.value, first.topic, first.offset⟩

end Coev.Kafka.PartitionConsumer
