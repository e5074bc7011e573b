import Coev.Model.Kafka.ProduceSet
import Coev.ToMathlib.OrderedMap

/-! # What a produce set holds

A set is determined by the messages it holds for each partition, with the time taken for each: these say which
partition sets there are and what is in them. `Holds` states this, and the set's own counters are the totals
over its partition sets.
-/

namespace Coev.Kafka.ProduceSet

open Std (ExtTreeMap)

variable {conf : ProducerConfig} {s : ProduceSet} {now : Timestamp} {msg : ProducerMessage} {tp : TopicPartition}

/-- A message with the time that was taken for it. -/
abbrev Entry := ProducerMessage × Timestamp

/-- The partition of a message. -/
def partitionOf (msg : ProducerMessage) : TopicPartition := (msg.topic, msg.partition)

/-- What a message counts for. -/
def entryBytes (conf : ProducerConfig) (msg : ProducerMessage) : ℤ :=
  if conf.version.isAtLeast V0_11_0_0 then recordSize msg
  else ProducerMessageOverhead + (msg.key.length + msg.value.length)

/-- What a partition counts for. -/
def entriesBytes (conf : ProducerConfig) (entries : List Entry) : ℤ :=
  (if conf.version.isAtLeast V0_11_0_0 then recordBatchOverhead.toInt else 0) +
    (entries.map fun entry => entryBytes conf entry.1).sum

/-- The records of a partition, the first message given apart. -/
def recordsOf (conf : ProducerConfig) (s : ProduceSet) (first : Entry) (entries : List Entry) : Records :=
  if conf.version.isAtLeast V0_11_0_0 then
    .batch { newBatch conf s first.1 first.2 with records := entries.map fun entry => recordOf first.2 entry.1 entry.2 }
  else .legacy { messages := entries.map fun entry => blockOf conf entry.1 entry.2 }

/-- The partition set that some messages make, the first message given apart. -/
def heldSet (conf : ProducerConfig) (s : ProduceSet) (first : Entry) (entries : List Entry) : PartitionSet :=
  { messages := entries.map (·.1)
    records := recordsOf conf s first entries
    bufferBytes := Int32.ofInt (entriesBytes conf entries) }

/-- The partition set of a partition that holds some messages. -/
def partitionSetOf (conf : ProducerConfig) (s : ProduceSet) : List Entry → Option PartitionSet
  | [] => none
  | first :: rest => some (heldSet conf s first (first :: rest))

/-- The size of all partition sets together, and the number of their messages. -/
def partitionBytes (s : ProduceSet) : ℤ := s.messages.total fun _ pset => pset.bufferBytes.toInt

def messageCount (s : ProduceSet) : ℕ := s.messages.total fun _ pset => pset.messages.length

/-- The set holds these messages. -/
structure Holds (conf : ProducerConfig) (s : ProduceSet) (held : TopicPartition → List Entry) : Prop where
  partitions : ∀ tp, s.messages[tp]? = partitionSetOf conf s (held tp)
  bytes : s.bufferBytes = Int32.ofInt s.partitionBytes
  count : s.bufferCount = Int32.ofNat s.messageCount

/-- A message that is numbered before the first one that is held for its partition. -/
def Rejected (conf : ProducerConfig) (held : TopicPartition → List Entry) (msg : ProducerMessage) : Prop :=
  conf.version.isAtLeast V0_11_0_0 ∧ conf.idempotent ∧
    ∃ first ∈ (held (partitionOf msg)).head?, msg.sequenceNumber < first.1.sequenceNumber

theorem partitionSetOf_congr {s t : ProduceSet} (id : t.producerId = s.producerId)
    (epoch : t.producerEpoch = s.producerEpoch)
    (entries : List Entry) : partitionSetOf conf t entries = partitionSetOf conf s entries := by
  cases entries with
  | nil => rfl
  | cons first rest => simp only [partitionSetOf, heldSet, recordsOf, newBatch, id, epoch]

/-! ## `add` -/

theorem outOfOrder_iff {pset : PartitionSet} {first : Entry} {entries : List Entry}
    (records : pset.records = recordsOf conf s first entries) : outOfOrder conf pset msg ↔
      conf.version.isAtLeast V0_11_0_0 ∧ conf.idempotent ∧ msg.sequenceNumber < first.1.sequenceNumber := by
  unfold outOfOrder
  rw [records, recordsOf, Bool.and_eq_true]
  refine and_congr_right fun modern => ?_
  rw [if_pos modern]
  simp only [newBatch, Bool.and_eq_true]
  refine and_congr_right fun idempotent => ?_
  simp only [idempotent, if_true, decide_eq_true_eq]

theorem appendRecord_recordsOf (first : Entry) (entries : List Entry) (timestamp : Timestamp) (size : Int32) :
    appendRecord conf (recordsOf conf s first entries) msg timestamp size =
      (recordsOf conf s first (entries ++ [(msg, timestamp)]),
        if conf.version.isAtLeast V0_11_0_0 then size + Int32.ofInt (entryBytes conf msg)
        else Int32.ofInt (entryBytes conf msg)) := by
  unfold appendRecord recordsOf entryBytes
  split
  · simp [newBatch]
  · simp

theorem entriesBytes_append (entries : List Entry) (entry : Entry) :
    entriesBytes conf (entries ++ [entry]) = entriesBytes conf entries + entryBytes conf entry.1 := by
  simp only [entriesBytes, List.map_append, List.sum_append, List.map_singleton, List.sum_singleton, Int.add_assoc]

/-- The set with a partition set that a message of some size was put into. -/
def withSet (s : ProduceSet) (tp : TopicPartition) (pset : PartitionSet) (size : ℤ) : ProduceSet :=
  { s.setPartition tp pset with bufferBytes := s.bufferBytes + Int32.ofInt size, bufferCount := s.bufferCount + 1 }

theorem setPartition_setPartition (s : ProduceSet) (tp : TopicPartition) (pset pset' : PartitionSet) :
    (s.setPartition tp pset).setPartition tp pset' = s.setPartition tp pset' := by
  rw [setPartition, setPartition, setPartition, ExtTreeMap.insert_insert_self]

theorem newPartitionSet_eq (s : ProduceSet) (msg : ProducerMessage) (timestamp : Timestamp) :
    newPartitionSet conf s msg timestamp = ({ records := recordsOf conf s (msg, timestamp) [] },
      if conf.version.isAtLeast V0_11_0_0 then recordBatchOverhead else 0) := by
  unfold newPartitionSet recordsOf
  split <;> rfl

theorem entriesBytes_singleton (entry : Entry) : Int32.ofInt (entriesBytes conf [entry]) =
      if conf.version.isAtLeast V0_11_0_0 then recordBatchOverhead + Int32.ofInt (entryBytes conf entry.1)
      else Int32.ofInt (entryBytes conf entry.1) := by
  rw [entriesBytes, List.map_singleton, List.sum_singleton]
  split
  · rw [Int32.ofInt_add, Int32.ofInt_toInt]
  · rw [Int.zero_add]

/-- The first message of a partition is taken. -/
theorem add_first (absent : s.messages[partitionOf msg]? = none) : s.add conf now msg = (0, s.withSet (partitionOf msg)
      (heldSet conf s (msg, messageTime now msg) [(msg, messageTime now msg)])
      (entriesBytes conf [(msg, messageTime now msg)])) := by
  obtain ⟨timestamp, isTime⟩ : ∃ timestamp, timestamp = messageTime now msg := ⟨_, rfl⟩
  obtain ⟨fresh, isFresh⟩ : ∃ fresh : PartitionSet, fresh = { records := recordsOf conf s (msg, timestamp) [] } := ⟨_, rfl⟩
  have made : partitionSet conf s msg timestamp = (fresh,
      if conf.version.isAtLeast V0_11_0_0 then recordBatchOverhead else 0, s.setPartition (partitionOf msg) fresh) := by
    rw [partitionSet, ← partitionOf, absent, newPartitionSet_eq, isFresh]
  have inOrder : ¬ outOfOrder conf fresh msg := by
    rw [outOfOrder_iff (s := s) (by rw [isFresh])]
    rintro ⟨-, -, less⟩
    exact Int32.lt_irrefl less
  rw [add, ← isTime, made]
  simp only [if_neg inOrder]
  have size : (if conf.version.isAtLeast V0_11_0_0 then
      (if conf.version.isAtLeast V0_11_0_0 then recordBatchOverhead else 0) + Int32.ofInt (entryBytes conf msg)
      else Int32.ofInt (entryBytes conf msg)) = Int32.ofInt (entriesBytes conf [(msg, timestamp)]) := by
    rw [entriesBytes_singleton]
    split <;> rfl
  rw [append, isFresh, appendRecord_recordsOf, ← partitionOf]
  simp only [size, setPartition_setPartition, List.nil_append, Int32.zero_add]
  rfl

theorem add_next {first : Entry} {rest : List Entry}
    (held : s.messages[partitionOf msg]? = partitionSetOf conf s (first :: rest)) : s.add conf now msg =
      if conf.version.isAtLeast V0_11_0_0 ∧ conf.idempotent ∧ msg.sequenceNumber < first.1.sequenceNumber then (-1, s)
      else (0, s.withSet (partitionOf msg) (heldSet conf s first (first :: rest ++ [(msg, messageTime now msg)]))
        (entryBytes conf msg)) := by
  have found : partitionSet conf s msg (messageTime now msg) = (heldSet conf s first (first :: rest), 0, s) := by
    rw [partitionSet, ← partitionOf, held]
    rfl
  rw [add, found]
  refine if_congr (outOfOrder_iff rfl) rfl ?_
  have size : (if conf.version.isAtLeast V0_11_0_0 then 0 + Int32.ofInt (entryBytes conf msg)
      else Int32.ofInt (entryBytes conf msg)) = Int32.ofInt (entryBytes conf msg) := by
    rw [Int32.zero_add, ite_self]
  rw [append, heldSet, appendRecord_recordsOf, ← partitionOf, heldSet, entriesBytes_append, Int32.ofInt_add,
    List.map_append]
  simp only [size]
  rfl

/-! ## The invariant -/

namespace Holds

variable {held : TopicPartition → List Entry}

theorem empty (conf : ProducerConfig) (producerId : Int64) (producerEpoch : Int16) :
    Holds conf (create producerId producerEpoch) fun _ => [] where
  partitions _ := ExtTreeMap.getElem?_empty
  bytes := rfl
  count := rfl

/-- A partition set is put in place of the one before, and the counters go up by the difference. -/
theorem withSet (holds : Holds conf s held) {entries : List Entry} {pset : PartitionSet} {size : ℤ}
    (makes : partitionSetOf conf s entries = some pset)
    (bytes : Int32.ofInt (s.messages[tp]?.elim 0 (·.bufferBytes.toInt)) + Int32.ofInt size = pset.bufferBytes)
    (count : s.messages[tp]?.elim 0 (·.messages.length) + 1 = pset.messages.length) :
    Holds conf (s.withSet tp pset size) (Function.update held tp entries) where
  partitions tp' := by
    rw [partitionSetOf_congr (s := s) (t := s.withSet tp pset size) rfl rfl, ProduceSet.withSet, setPartition,
      ExtTreeMap.getElem?_insert_eq]
    by_cases same : tp = tp'
    · subst same
      rw [if_pos rfl, Function.update_self, makes]
    · rw [if_neg same, Function.update_of_ne (Ne.symm same), holds.partitions]
  bytes := by
    change s.bufferBytes + Int32.ofInt size = Int32.ofInt ((s.messages.insert tp pset).total _)
    rw [ExtTreeMap.total_insert, holds.bytes, partitionBytes, ExtTreeMap.total_eq _ s.messages tp, Int32.ofInt_add,
      Int32.ofInt_add, Int32.ofInt_toInt, ← bytes]
    ac_rfl
  count := by
    change s.bufferCount + 1 = Int32.ofNat ((s.messages.insert tp pset).total _)
    rw [ExtTreeMap.total_insert, holds.count, messageCount, ExtTreeMap.total_eq _ s.messages tp, ← count,
      Int32.ofNat_add, Int32.ofNat_add, Int32.ofNat_add, show Int32.ofNat 1 = 1 from rfl]
    ac_rfl

theorem add_rejected (holds : Holds conf s held) (rejected : Rejected conf held msg) : s.add conf now msg = (-1, s) := by
  obtain ⟨modern, idempotent, first, isFirst, less⟩ := rejected
  obtain ⟨rest, entries⟩ : ∃ rest, held (partitionOf msg) = first :: rest := List.head?_eq_some_iff.mp isFirst
  rw [add_next (entries ▸ holds.partitions _), if_pos ⟨modern, idempotent, less⟩]

/-- A message that is not rejected is held behind those of its partition. -/
theorem add_taken (holds : Holds conf s held) (now : Timestamp) (taken : ¬ Rejected conf held msg) :
    (s.add conf now msg).1 = 0 ∧ Holds conf (s.add conf now msg).2
      (Function.update held (partitionOf msg) (held (partitionOf msg) ++ [(msg, messageTime now msg)])) := by
  have found := holds.partitions (partitionOf msg)
  cases entries : held (partitionOf msg) with
  | nil =>
    rw [entries] at found
    rw [add_first found]
    refine ⟨rfl, holds.withSet rfl ?_ ?_⟩
    · rw [found]
      exact Int32.zero_add _
    · rw [found]
      rfl
  | cons first rest =>
    rw [entries] at found
    have inOrder : ¬ (conf.version.isAtLeast V0_11_0_0 ∧ conf.idempotent ∧ msg.sequenceNumber < first.1.sequenceNumber) := by
      rintro ⟨modern, idempotent, less⟩
      exact taken ⟨modern, idempotent, first, by rw [entries]; rfl, less⟩
    rw [add_next found, if_neg inOrder]
    refine ⟨rfl, holds.withSet rfl ?_ ?_⟩
    · rw [found]
      change Int32.ofInt (Int32.ofInt _).toInt + _ = Int32.ofInt _
      rw [Int32.ofInt_toInt, ← Int32.ofInt_add]
      exact congrArg Int32.ofInt (entriesBytes_append (first :: rest) (msg, messageTime now msg)).symm
    · rw [found]
      simp [partitionSetOf, heldSet]

/-- A partition that is dropped takes with it what it counts for. -/
theorem drop (holds : Holds conf s held) (topic : Bytes) (partition : Int32) :
    Holds conf (s.dropPartition topic partition).2 (Function.update held (topic, partition) []) := by
  cases found : s.messages[(topic, partition)]? with
  | none =>
    have nothing : held (topic, partition) = [] := by
      have same := holds.partitions (topic, partition)
      rw [found] at same
      cases entries : held (topic, partition) with
      | nil => rfl
      | cons first rest =>
        rw [entries] at same
        cases same
    rwa [dropPartition, found, ← nothing, Function.update_eq_self]
  | some pset =>
    rw [dropPartition, found]
    refine ⟨fun tp' => ?_, ?_, ?_⟩
    · refine Eq.trans ?_ (partitionSetOf_congr (s := s) rfl rfl _).symm
      change (s.messages.erase (topic, partition))[tp']? = _
      rw [ExtTreeMap.getElem?_erase_eq]
      by_cases same : (topic, partition) = tp'
      · subst same
        rw [if_pos rfl, Function.update_self]
        rfl
      · rw [if_neg same, Function.update_of_ne (Ne.symm same), holds.partitions]
    · change s.bufferBytes - pset.bufferBytes = Int32.ofInt ((s.messages.erase (topic, partition)).total _)
      rw [holds.bytes, partitionBytes, ExtTreeMap.total_of_getElem? _ found, Int32.ofInt_add, Int32.ofInt_toInt,
        Int32.add_comm, Int32.add_sub_cancel]
    · change s.bufferCount - Int32.ofNat pset.messages.length = Int32.ofNat ((s.messages.erase (topic, partition)).total _)
      rw [holds.count, messageCount, ExtTreeMap.total_of_getElem? _ found, Int32.ofNat_add, Int32.add_comm,
        Int32.add_sub_cancel]

end Holds

/-! ## Runs -/

/-- The operations on a produce set; each `add` reads the clock. -/
inductive SetCall where
  | add (now : Timestamp) (msg : ProducerMessage)
  | drop (topic : Bytes) (partition : Int32)

def SetCall.run (conf : ProducerConfig) (s : ProduceSet) : SetCall → ProduceSet
  | .add now msg => (s.add conf now msg).2
  | .drop topic partition => (s.dropPartition topic partition).2

/-- Some operations, one after the other. -/
def setRun (conf : ProducerConfig) (s : ProduceSet) (calls : List SetCall) : ProduceSet := calls.foldl (SetCall.run conf) s

theorem Holds.run {held : TopicPartition → List Entry} (holds : Holds conf s held) (call : SetCall) :
    ∃ held', Holds conf (call.run conf s) held' := by
  cases call with
  | add now msg =>
    by_cases rejected : Rejected conf held msg
    · exact ⟨held, by rwa [SetCall.run, holds.add_rejected rejected]⟩
    · exact ⟨_, (holds.add_taken now rejected).2⟩
  | drop topic partition => exact ⟨_, holds.drop topic partition⟩

theorem holds_setRun {held : TopicPartition → List Entry} (holds : Holds conf s held) (calls : List SetCall) :
    ∃ held', Holds conf (setRun conf s calls) held' := by
  induction calls generalizing s held with
  | nil => exact ⟨held, holds⟩
  | cons call calls ih =>
    obtain ⟨held', next⟩ := holds.run call
    exact ih next

end Coev.Kafka.ProduceSet
