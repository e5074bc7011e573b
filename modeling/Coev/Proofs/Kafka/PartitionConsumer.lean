import Coev.Model.Kafka.PartitionConsumer
import Coev.Proofs.Kafka.Reads

/-! # Reading the marker of a transaction -/

namespace Coev.Kafka

open ByteString PacketDecoder

namespace ControlRecord

theorem ofInt16_toInt16 (type : ControlRecordType) : ControlRecordType.ofInt16 type.toInt16 = type := by
  cases type <;> rfl

theorem reads_decodeKey (version : Int16) (type : ControlRecordType) :
    Reads false decodeKey (encodeKey version type) { version, type } := by
  apply Reads.bind (reads_getInt16 version).failWith
  have last : Reads false (failWith ErrDecodeError getInt16) _ _ := (reads_getInt16 type.toInt16).failWith
  nth_rewrite 2 [← ofInt16_toInt16 type]
  exact last.map fun recordType => ({ version, type := .ofInt16 recordType } : ControlRecord)

theorem reads_decodeValue (control : ControlRecord) (coordinatorEpoch : Int32) :
    Reads false (decodeValue control) (encodeValue control.version coordinatorEpoch)
      { control with coordinatorEpoch := some coordinatorEpoch } := by
  apply Reads.bind (reads_getInt16 control.version).failWith
  rw [if_neg (not_not.mpr rfl)]
  have last : Reads false (failWith ErrDecodeError getInt32) _ _ := (reads_getInt32 coordinatorEpoch).failWith
  exact last.map fun coordinatorEpoch => { control with coordinatorEpoch := some coordinatorEpoch }

/-- A whole packet is read. -/
theorem reads_raw {α : Type} {x : Decode α} {bytes : Bytes} {a : α} (reads : Reads false x bytes a) :
    ∃ pd, x { raw := bytes } = .ok a pd :=
  ⟨_, reads { raw := bytes } [] (by simp [InMode]) (by simp [PacketDecoder.unread])⟩

/-- What `encode` writes is decoded with the type it was written for, with or without the value. -/
theorem decode_of_encoded {type : ControlRecordType} {key value : Bytes} {version : Int16}
    (isKey : key = encodeKey version type)
    (isValue : value = [] ∨ ∃ coordinatorEpoch, value = encodeValue version coordinatorEpoch) :
    ∃ control pd, decode key value = .ok control pd ∧ control.type = type := by
  obtain ⟨pd, readKey⟩ := reads_raw (reads_decodeKey version type)
  subst isKey
  unfold decode
  rw [readKey]
  dsimp only
  split
  · next present =>
    rcases isValue with rfl | ⟨coordinatorEpoch, rfl⟩
    · exact absurd present.2 (Nat.lt_irrefl 0)
    · obtain ⟨pd', readValue⟩ := reads_raw (reads_decodeValue { version, type } coordinatorEpoch)
      exact ⟨_, pd', readValue, rfl⟩
  · exact ⟨_, pd, rfl, rfl⟩

end ControlRecord

end Coev.Kafka

/-! # What parsing delivers and how far it moves the offset -/

namespace Coev.Kafka.PartitionConsumer

open EStateM (bind_of_ok bind_eq_ok_iff get_bind_apply)

variable {pc pc' pc'' : PartitionConsumer} {messages out fresh later : List ConsumerMessage}

/-- The offset moves from `pc` to `pc'` over the messages: they ascend from the one and stay below the other. -/
structure Advances (pc pc' : PartitionConsumer) (messages : List ConsumerMessage) : Prop where
  le : pc.offset ≤ pc'.offset
  ascending : messages.Pairwise fun a b => a.offset < b.offset
  from_ : ∀ m ∈ messages, pc.offset ≤ m.offset
  below : ∀ m ∈ messages, m.offset < pc'.offset

theorem Advances.nil (le : pc.offset ≤ pc'.offset) : Advances pc pc' [] where
  le := le
  ascending := .nil
  from_ _ member := absurd member List.not_mem_nil
  below _ member := absurd member List.not_mem_nil

theorem Advances.append (first : Advances pc pc' fresh) (rest : Advances pc' pc'' later) :
    Advances pc pc'' (fresh ++ later) := by
  constructor
  · exact Int64.le_trans first.le rest.le
  · refine List.pairwise_append.mpr ⟨first.ascending, rest.ascending, fun a before b after => ?_⟩
    exact Int64.lt_of_lt_of_le (first.below a before) (rest.from_ b after)
  · intro m member
    rcases List.mem_append.mp member with before | after
    · exact first.from_ m before
    · exact Int64.le_trans first.le (rest.from_ m after)
  · intro m member
    rcases List.mem_append.mp member with before | after
    · exact Int64.lt_of_lt_of_le (first.below m before) rest.le
    · exact rest.below m after

/-- The messages may be dropped. -/
theorem Advances.dropped (advances : Advances pc pc' messages) : Advances pc pc' [] := .nil advances.le

/-- What `x` returns are the messages it was given and those it delivers on the way. -/
def Appends (x : List ConsumerMessage → Parse (List ConsumerMessage)) : Prop :=
  ∀ messages pc out pc', x messages pc = .ok out pc' → ∃ fresh, out = messages ++ fresh ∧ Advances pc pc' fresh

theorem checked_ok {n : ℤ} {a : Int64} (run : checked n pc = .ok a pc') : a.toInt = n ∧ pc' = pc := by
  unfold checked at run
  split at run
  · next range =>
    injection run with value same
    subst value same
    exact ⟨Int64.toInt_ofInt_of_le range.1 range.2, rfl⟩
  · cases run

theorem moveTo_ok {n : ℤ} (run : moveTo n pc = .ok () pc') :
    pc'.offset.toInt = n ∧ pc' = { pc with offset := pc'.offset } := by
  obtain ⟨offset, u, checks, changed⟩ := bind_eq_ok_iff.mp run
  obtain ⟨value, rfl⟩ := checked_ok checks
  injection changed with _ same
  subst same
  exact ⟨value, rfl⟩

theorem appends_deliver {offset : Int64} {build : PartitionConsumer → ConsumerMessage}
    (built : ∀ pc, (build pc).offset = offset) : Appends (deliver · offset build) := by
  intro messages pc out pc' run
  change deliver messages offset build pc = _ at run
  unfold deliver at run
  rw [get_bind_apply] at run
  split at run
  · injection run with same kept
    subst same kept
    exact ⟨[], (List.append_nil _).symm, .nil (Int64.le_refl _)⟩
  next notPassed =>
  obtain ⟨_, u, moved, run⟩ := bind_eq_ok_iff.mp run
  injection run with same kept
  subst same kept
  have next := (moveTo_ok moved).1
  have reached : pc.offset ≤ offset := Int64.not_lt.mp notPassed
  have passed : offset < u.offset := Int64.lt_iff_toInt_lt.mpr (by omega)
  refine ⟨[build pc], rfl, Int64.le_of_lt (Int64.lt_of_le_of_lt reached passed), List.pairwise_singleton _ _, ?_, ?_⟩
  · intro m member
    rw [List.mem_singleton.mp member, built]
    exact reached
  · intro m member
    rw [List.mem_singleton.mp member, built]
    exact passed

theorem appends_skipIfEmpty : Appends skipIfEmpty := by
  intro messages pc out pc' run
  unfold skipIfEmpty at run
  rw [get_bind_apply] at run
  split at run
  · obtain ⟨_, u, moved, run⟩ := bind_eq_ok_iff.mp run
    injection run with same kept
    subst same kept
    have next := (moveTo_ok moved).1
    exact ⟨[], (List.append_nil _).symm, .nil (Int64.le_iff_toInt_le.mpr (by omega))⟩
  · injection run with same kept
    subst same kept
    exact ⟨[], (List.append_nil _).symm, .nil (Int64.le_refl _)⟩

theorem Appends.andThen {x y : List ConsumerMessage → Parse (List ConsumerMessage)} (first : Appends x) (rest : Appends y) :
    Appends fun messages => x messages >>= y := by
  intro messages pc out pc' run
  obtain ⟨between, u, head, tail⟩ := bind_eq_ok_iff.mp run
  obtain ⟨fresh, rfl, before⟩ := first messages pc between u head
  obtain ⟨later, rfl, after⟩ := rest _ u out pc' tail
  exact ⟨fresh ++ later, List.append_assoc _ _ _, before.append after⟩

theorem Appends.foldlM {α : Type} {step : List ConsumerMessage → α → Parse (List ConsumerMessage)}
    (appends : ∀ a, Appends (step · a)) (items : List α) : Appends fun messages => items.foldlM step messages := by
  induction items with
  | nil =>
    intro messages pc out pc' run
    injection run with same kept
    subst same kept
    exact ⟨[], (List.append_nil _).symm, .nil (Int64.le_refl _)⟩
  | cons item rest ih => exact (appends item).andThen ih

/-- A computation before a delivery that only finds its offset. -/
theorem appends_found {find : Parse Int64} {x : Int64 → List ConsumerMessage → Parse (List ConsumerMessage)}
    (keeps : ∀ pc a pc', find pc = .ok a pc' → pc' = pc) (appends : ∀ a, Appends (x a)) :
    Appends fun messages => find >>= fun a => x a messages := by
  intro messages pc out pc' run
  obtain ⟨a, u, head, tail⟩ := bind_eq_ok_iff.mp run
  obtain rfl := keeps pc a u head
  exact appends a messages u out pc' tail

theorem messageOffset_keeps (block msg : MessageBlock) {a : Int64} (run : messageOffset block msg pc = .ok a pc') :
    pc' = pc := by
  unfold messageOffset at run
  split at run
  · obtain ⟨base, u, head, tail⟩ := bind_eq_ok_iff.mp run
    obtain ⟨-, rfl⟩ := checked_ok head
    exact (checked_ok tail).2
  · injection run with _ same
    exact same.symm

theorem appends_parseMessages (messageSet : MessageSet) : Appends (parseMessages messageSet) := by
  refine Appends.andThen (Appends.foldlM (fun block => ?_) _) appends_skipIfEmpty
  refine Appends.foldlM (fun msg => ?_) _
  exact appends_found (fun _ _ _ run => messageOffset_keeps block msg run) fun _ => appends_deliver fun _ => rfl

theorem appends_parseRecord (batch : RecordBatch) (rec : Record) : Appends (parseRecord batch · rec) :=
  appends_found (fun _ _ _ run => (checked_ok run).2) fun _ => appends_deliver fun _ => rfl

theorem parseRecords_advances {batch : RecordBatch} (run : parseRecords batch pc = .ok out pc') : Advances pc pc' out := by
  have appends := (Appends.foldlM (appends_parseRecord batch) batch.records).andThen appends_skipIfEmpty
  obtain ⟨fresh, rfl, advances⟩ := appends [] pc out pc' run
  exact advances

/-- The loop over the records of a block delivers in ascending order from the offset on. -/
theorem parseRecordsSet_advances {set : List Records} {aborted : List AbortedTransaction} {producers : Finset Int64}
    {err : KError} (run : parseRecordsSet set aborted producers messages pc = .ok (err, out) pc') :
    ∃ fresh, out = messages ++ fresh ∧ Advances pc pc' fresh := by
  have stops {messages : List ConsumerMessage} {code : KError} {u : PartitionConsumer}
      (returned : (pure (code, messages) : Parse _) u = .ok (err, out) pc') :
      ∃ fresh, out = messages ++ fresh ∧ Advances u pc' fresh := by
    injection returned with pair kept
    injection pair with _ same
    subst same kept
    exact ⟨[], (List.append_nil _).symm, .nil (Int64.le_refl _)⟩
  -- what is delivered from a later offset on, behind messages that were delivered up to it
  have follow {messages between : List ConsumerMessage} {u v : PartitionConsumer} (before : Advances u v between)
      (rest : ∃ fresh, out = messages ++ between ++ fresh ∧ Advances v pc' fresh) :
      ∃ fresh, out = messages ++ fresh ∧ Advances u pc' fresh := by
    obtain ⟨later, rfl, after⟩ := rest
    exact ⟨between ++ later, List.append_assoc _ _ _, before.append after⟩
  induction set generalizing aborted producers messages pc with
  | nil => exact stops run
  | cons records rest ih =>
    cases records with
    | unknown => exact stops run
    | legacy messageSet =>
      obtain ⟨between, u, head, tail⟩ := bind_eq_ok_iff.mp run
      obtain ⟨fresh, rfl, before⟩ := appends_parseMessages messageSet messages pc between u head
      exact follow before (ih tail)
    | batch batch =>
      obtain ⟨last, u, head, tail⟩ := bind_eq_ok_iff.mp run
      obtain ⟨-, rfl⟩ := checked_ok head
      obtain ⟨batchMessages, v, parsed, tail⟩ := bind_eq_ok_iff.mp tail
      rw [get_bind_apply] at tail
      have advances := parseRecords_advances parsed
      have dropped {messages : List ConsumerMessage} (later : ∃ fresh, out = messages ++ fresh ∧ Advances v pc' fresh) :
          ∃ fresh, out = messages ++ fresh ∧ Advances u pc' fresh :=
        follow advances.dropped (by rwa [List.append_nil])
      split at tail
      · cases decoded : batch.getControlRecord with
        | error failure =>
          rw [decoded] at tail
          cases failure with
          | code code => exact dropped (stops tail)
          | fault f => cases tail
        | ok control =>
          rw [decoded] at tail
          dsimp only at tail
          split at tail
          · exact dropped (ih tail)
          · exact dropped (ih tail)
      · split at tail
        · exact dropped (ih tail)
        · exact follow advances (ih tail)

/-! ## What a record batch delivers -/

/-- The offset of a record in the log. -/
def recordOffset (batch : RecordBatch) (rec : Record) : ℤ := batch.firstOffset.toInt + rec.offsetDelta.toInt

/-- The offset of the last record a batch was written with. -/
def lastRecordOffset (batch : RecordBatch) : ℤ := batch.firstOffset.toInt + batch.lastOffsetDelta.toInt

/-- The records of a batch ascend within it, and an offset follows its last one. -/
structure Laid (batch : RecordBatch) : Prop where
  ascending : batch.records.Pairwise fun a b => recordOffset batch a < recordOffset batch b
  within : ∀ rec ∈ batch.records, batch.firstOffset.toInt ≤ recordOffset batch rec ∧
    recordOffset batch rec ≤ lastRecordOffset batch
  follows : lastRecordOffset batch + 1 < 2 ^ 63

/-- The messages of the records from an offset on. -/
def messagesFrom (pc : PartitionConsumer) (offset : ℤ) (batch : RecordBatch) (records : List Record) :
    List ConsumerMessage :=
  (records.filter fun rec => offset ≤ recordOffset batch rec).map fun rec =>
    recordMessage batch rec (.ofInt (recordOffset batch rec)) pc

variable {batch : RecordBatch} {rec : Record} {records : List Record}

theorem checked_of_range {n : ℤ} (low : -2 ^ 63 ≤ n) (high : n < 2 ^ 63) (pc : PartitionConsumer) :
    checked n pc = .ok (.ofInt n) pc := by
  unfold checked
  rw [if_pos ⟨low, high⟩]
  rfl

theorem messagesFrom_congr {offset bound : ℤ}
    (same : ∀ rec ∈ records, offset ≤ recordOffset batch rec ↔ bound ≤ recordOffset batch rec) (later : Int64) :
    messagesFrom { pc with offset := later } offset batch records = messagesFrom pc bound batch records := by
  have kept : (records.filter fun rec => offset ≤ recordOffset batch rec) =
      records.filter fun rec => bound ≤ recordOffset batch rec :=
    List.filter_congr fun rec member => decide_eq_decide.mpr (same rec member)
  unfold messagesFrom
  rw [kept]
  rfl

/-- A record the consumer has passed is skipped, and the offset moves behind any other one. -/
theorem parseRecord_run (low : -2 ^ 63 ≤ recordOffset batch rec) (high : recordOffset batch rec + 1 < 2 ^ 63) :
    ∃ offset : Int64, parseRecord batch messages rec pc =
        .ok (messages ++ messagesFrom pc pc.offset.toInt batch [rec]) { pc with offset } ∧
      offset.toInt = max pc.offset.toInt (recordOffset batch rec + 1) := by
  have found : checked (recordOffset batch rec) pc = .ok (.ofInt (recordOffset batch rec)) pc :=
    checked_of_range low (by omega) pc
  have place : (Int64.ofInt (recordOffset batch rec)).toInt = recordOffset batch rec :=
    Int64.toInt_ofInt_of_le low (by omega)
  have run : parseRecord batch messages rec pc =
      deliver messages (.ofInt (recordOffset batch rec)) (recordMessage batch rec (.ofInt (recordOffset batch rec))) pc :=
    bind_of_ok found _
  rw [run]
  unfold deliver
  rw [get_bind_apply]
  by_cases passed : recordOffset batch rec < pc.offset.toInt
  · have skips : Int64.ofInt (recordOffset batch rec) < pc.offset := Int64.lt_iff_toInt_lt.mpr (by rw [place]; exact passed)
    rw [if_pos skips]
    refine ⟨pc.offset, ?_, by omega⟩
    rw [messagesFrom, List.filter_cons_of_neg (by simpa using passed), List.filter_nil, List.map_nil, List.append_nil]
    rfl
  · have reached : ¬ Int64.ofInt (recordOffset batch rec) < pc.offset := by
      rw [Int64.lt_iff_toInt_lt, place]
      exact passed
    rw [if_neg reached, place]
    have moved : moveTo (recordOffset batch rec + 1) pc = .ok () { pc with offset := .ofInt (recordOffset batch rec + 1) } :=
      bind_of_ok (checked_of_range (by omega) high pc) _
    refine ⟨.ofInt (recordOffset batch rec + 1), ?_, ?_⟩
    · refine (bind_of_ok moved _).trans ?_
      rw [messagesFrom, List.filter_cons_of_pos (by simpa using passed)]
      rfl
    · rw [Int64.toInt_ofInt_of_le (by omega) high]
      omega

/-- The loop over ascending records keeps those from the offset on, and moves it up to behind the last of them. -/
theorem parseRecord_foldlM_run (ascending : records.Pairwise fun a b => recordOffset batch a < recordOffset batch b)
    (range : ∀ rec ∈ records, -2 ^ 63 ≤ recordOffset batch rec ∧ recordOffset batch rec + 1 < 2 ^ 63) :
    ∃ offset : Int64, records.foldlM (parseRecord batch) messages pc =
        .ok (messages ++ messagesFrom pc pc.offset.toInt batch records) { pc with offset } ∧
      pc.offset.toInt ≤ offset.toInt ∧
      ∀ bound, (∀ rec ∈ records, recordOffset batch rec < bound) → offset.toInt ≤ max pc.offset.toInt bound := by
  induction records generalizing messages pc with
  | nil => exact ⟨pc.offset, by simp [messagesFrom, pure, EStateM.pure], le_refl _, fun _ _ => le_max_left _ _⟩
  | cons rec rest ih =>
    obtain ⟨before, ascending⟩ := List.pairwise_cons.mp ascending
    obtain ⟨low, high⟩ := range rec List.mem_cons_self
    obtain ⟨between, head, reached⟩ := @parseRecord_run pc messages batch rec low high
    obtain ⟨offset, tail, from_, upTo⟩ := @ih { pc with offset := between }
      (messages ++ messagesFrom pc pc.offset.toInt batch [rec]) ascending fun r member =>
        range r (List.mem_cons_of_mem _ member)
    dsimp only at tail from_ upTo
    refine ⟨offset, ?_, by omega, ?_⟩
    · rw [List.foldlM_cons]
      refine (bind_of_ok head _).trans (tail.trans ?_)
      have same : messagesFrom { pc with offset := between } between.toInt batch rest =
          messagesFrom pc pc.offset.toInt batch rest := by
        refine messagesFrom_congr (fun r member => ?_) between
        have later := before r member
        omega
      have split : messagesFrom pc pc.offset.toInt batch [rec] ++ messagesFrom pc pc.offset.toInt batch rest =
          messagesFrom pc pc.offset.toInt batch (rec :: rest) := by
        simp only [messagesFrom, ← List.map_append, ← List.filter_append, List.singleton_append]
      rw [same, List.append_assoc, split]
    · intro bound below
      have first := below rec List.mem_cons_self
      have rest_ := upTo bound fun r member => below r (List.mem_cons_of_mem _ member)
      omega

/-- A batch that is not wholly passed delivers its records from the offset on, which moves up to behind the batch. -/
theorem parseRecords_run (laid : Laid batch) (ahead : pc.offset.toInt ≤ lastRecordOffset batch) :
    ∃ offset : Int64, parseRecords batch pc = .ok (messagesFrom pc pc.offset.toInt batch batch.records) { pc with offset } ∧
      pc.offset.toInt ≤ offset.toInt ∧ offset.toInt ≤ lastRecordOffset batch + 1 := by
  have low := Int64.le_toInt batch.firstOffset
  have follows := laid.follows
  have range : ∀ rec ∈ batch.records, -2 ^ 63 ≤ recordOffset batch rec ∧ recordOffset batch rec + 1 < 2 ^ 63 := by
    intro rec member
    obtain ⟨from_, upTo⟩ := laid.within rec member
    omega
  obtain ⟨between, loop, from_, upTo⟩ := @parseRecord_foldlM_run pc [] batch batch.records laid.ascending range
  rw [List.nil_append] at loop
  unfold parseRecords
  rw [bind_of_ok loop]
  unfold skipIfEmpty
  rw [get_bind_apply]
  dsimp only
  split
  · next empty =>
    have passed : ∀ rec ∈ batch.records, recordOffset batch rec < pc.offset.toInt := by
      intro rec member
      have none_ := List.filter_eq_nil_iff.mp (List.map_eq_nil_iff.mp (List.isEmpty_iff.mp empty)) rec member
      simpa using none_
    have kept := upTo pc.offset.toInt passed
    have lowest := Int64.le_toInt pc.offset
    have moved : moveTo (between.toInt + 1) { pc with offset := between } =
        .ok () { pc with offset := .ofInt (between.toInt + 1) } :=
      bind_of_ok (checked_of_range (by omega) (by omega) _) _
    have next := Int64.toInt_ofInt_of_le (n := between.toInt + 1) (by omega) (by omega)
    exact ⟨.ofInt (between.toInt + 1), bind_of_ok moved _, by omega, by omega⟩
  · have inside := upTo (lastRecordOffset batch + 1) fun rec member => Int.lt_add_one_of_le (laid.within rec member).2
    exact ⟨between, rfl, from_, by omega⟩

theorem lastOffset_run (covers : batch.firstOffset.toInt ≤ lastRecordOffset batch)
    (follows : lastRecordOffset batch + 1 < 2 ^ 63) (pc : PartitionConsumer) :
    ∃ last : Int64, lastOffset batch pc = .ok last pc ∧ last.toInt = lastRecordOffset batch := by
  have lowest := Int64.le_toInt batch.firstOffset
  exact ⟨_, checked_of_range (le_trans lowest covers) (by omega) pc,
    Int64.toInt_ofInt_of_le (le_trans lowest covers) (by omega)⟩

/-- The messages of batches, of the records from an offset on. -/
def messagesOf (pc : PartitionConsumer) (batches : List RecordBatch) : List ConsumerMessage :=
  batches.flatMap fun batch => messagesFrom pc pc.offset.toInt batch batch.records

/-- The records of batches from an offset on, each with its batch. -/
def recordsFrom (offset : ℤ) (batches : List RecordBatch) : List (RecordBatch × Record) :=
  batches.flatMap fun batch => (batch.records.filter fun rec => offset ≤ recordOffset batch rec).map (batch, ·)

/-- The message hands a record of the log on to the user. -/
structure HandsOn (pc : PartitionConsumer) (record : RecordBatch × Record) (m : ConsumerMessage) : Prop where
  key : m.key = record.2.key
  value : m.value = record.2.value
  headers : m.headers = record.2.headers
  /-- Deltas are in milliseconds, times in nanoseconds. -/
  timestamp : m.timestamp.time = if record.1.logAppendTime then record.1.maxTimestamp.time
    else record.1.firstTimestamp.time + record.2.timestampDelta * 1000000
  topic : m.topic = pc.topic
  partition : m.partition = pc.partition
  offset : m.offset.toInt = recordOffset record.1 record.2

theorem Laid.handsOn (laid : Laid batch) (member : rec ∈ batch.records) (pc : PartitionConsumer) :
    HandsOn pc (batch, rec) (recordMessage batch rec (.ofInt (recordOffset batch rec)) pc) := by
  refine ⟨rfl, rfl, rfl, ?_, rfl, rfl, ?_⟩
  · exact apply_ite Timestamp.time _ _ _
  · have lowest := Int64.le_toInt batch.firstOffset
    obtain ⟨from_, upTo⟩ := laid.within rec member
    have follows := laid.follows
    exact Int64.toInt_ofInt_of_le (by omega) (by omega)

/-- The messages of batches are their records from the offset on, one message a record. -/
theorem handsOn_messagesOf {batches : List RecordBatch} (laid : ∀ batch ∈ batches, Laid batch) :
    List.Forall₂ (HandsOn pc) (recordsFrom pc.offset.toInt batches) (messagesOf pc batches) := by
  induction batches with
  | nil => exact .nil
  | cons batch rest ih =>
    obtain ⟨here, later⟩ := List.forall_mem_cons.mp laid
    refine List.rel_append ?_ (ih later)
    refine List.forall₂_map_right_iff.mpr (List.forall₂_map_left_iff.mpr (List.forall₂_same.mpr ?_))
    intro rec member
    exact here.handsOn (List.mem_of_mem_filter member) pc

theorem messagesOf_of_empty {batches : List RecordBatch} (empty : ∀ batch ∈ batches, batch.records = []) :
    messagesOf pc batches = [] := by
  refine List.flatMap_eq_nil_iff.mpr fun batch member => ?_
  rw [empty batch member]
  rfl

theorem sumRecords_batches (batches : List RecordBatch) (sum : ℤ) :
    FetchResponseBlock.sumRecords (batches.map .batch) sum = sum + (batches.map (·.records.length)).sum := by
  induction batches generalizing sum with
  | nil => simp [FetchResponseBlock.sumRecords]
  | cons batch rest ih =>
    rw [List.map_cons, FetchResponseBlock.sumRecords]
    change FetchResponseBlock.sumRecords (rest.map .batch) (sum + batch.records.length) = _
    rw [ih, List.map_cons, List.sum_cons, Nat.cast_add, add_assoc]

/-! ## What a response does -/

variable {response : FetchResponse} {block : FetchResponseBlock}

theorem preferReplica_offset (block : FetchResponseBlock) (pc : PartitionConsumer) :
    (preferReplica block pc).offset = pc.offset := by
  unfold preferReplica
  split <;> rfl

/-- No pointer to a partial message is ever set, so the fetch size stays as it is. -/
theorem parseEmpty_run (block : FetchResponseBlock) (pc : PartitionConsumer) :
    parseEmpty block pc = .ok 0 (if block.isPartial then skipToNext block pc else pc) := by
  unfold parseEmpty
  cases block.isPartial <;> rfl

theorem parseFetched_of_empty (none_ : block.numRecords = 0) (pc : PartitionConsumer) :
    parseFetched block pc = .ok (0, [])
      (if block.isPartial then skipToNext block (preferReplica block pc) else preferReplica block pc) := by
  change (if block.numRecords = 0 then _ else _ : Parse (KError × List ConsumerMessage)) (preferReplica block pc) = _
  rw [if_pos none_, bind_of_ok (parseEmpty_run block _)]
  rfl

/-- The consumer that reads the records of a block. -/
def reading (block : FetchResponseBlock) (pc : PartitionConsumer) : PartitionConsumer :=
  { preferReplica block pc with fetchSize := pc.conf.fetchDefault, highWaterMarkOffset := block.highWaterMarkOffset }

theorem reading_conf (block : FetchResponseBlock) (pc : PartitionConsumer) : (reading block pc).conf = pc.conf := by
  unfold reading preferReplica
  split <;> rfl

theorem reading_offset (block : FetchResponseBlock) (pc : PartitionConsumer) : (reading block pc).offset = pc.offset :=
  preferReplica_offset block pc

/-- The messages for the user do not depend on what the block says of itself. -/
theorem messagesOf_reading (block : FetchResponseBlock) (pc : PartitionConsumer) (batches : List RecordBatch) :
    messagesOf (reading block pc) batches = messagesOf pc batches := by
  unfold messagesOf messagesFrom recordMessage reading preferReplica
  split <;> rfl

theorem parseFetched_of_records (some_ : block.numRecords ≠ 0) (pc : PartitionConsumer) :
    parseFetched block pc = parseRecordsSet block.recordsSet block.getAbortedTransactions ∅ [] (reading block pc) := by
  change (if block.numRecords = 0 then _ else _ : Parse (KError × List ConsumerMessage)) (preferReplica block pc) = _
  have conf : (preferReplica block pc).conf = pc.conf := reading_conf block pc
  rw [if_neg some_, reading, ← conf]
  rfl

theorem getBlock_of_isEmpty (empty : response.blocks.isEmpty = true) (topic : Bytes) (partition : Int32) :
    response.getBlock topic partition = {} := by
  unfold FetchResponse.getBlock
  rw [Std.ExtTreeMap.isEmpty_iff.mp empty]
  simp

/-- The response has a block for the consumer. -/
def BlockFor (response : FetchResponse) (pc : PartitionConsumer) (block : FetchResponseBlock) : Prop :=
  ∃ partitions, response.blocks[pc.topic]? = some partitions ∧ partitions[pc.partition]? = some block

theorem BlockFor.getBlock (has : BlockFor response pc block) : response.getBlock pc.topic pc.partition = block := by
  obtain ⟨partitions, hasTopic, hasPartition⟩ := has
  unfold FetchResponse.getBlock
  rw [hasTopic]
  dsimp only
  rw [hasPartition]
  rfl

/-- A response with a block for the consumer is read from that block, unless the block has an error. -/
theorem parseResponse_of_block (has : BlockFor response pc block) (noError : block.err = ErrNoError) :
    parseResponse response pc = parseFetched block pc := by
  have notThrottled : ¬ (response.throttleTime ≠ 0 ∧ response.blocks.isEmpty = true) := by
    rintro ⟨-, empty⟩
    obtain ⟨partitions, hasTopic, -⟩ := has
    rw [Std.ExtTreeMap.isEmpty_iff.mp empty] at hasTopic
    simp at hasTopic
  unfold parseResponse
  rw [if_neg notThrottled, get_bind_apply, has.getBlock, if_neg (not_not.mpr noError)]

end Coev.Kafka.PartitionConsumer
