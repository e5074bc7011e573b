import Coev.Model.Kafka.BrokerProducer
import Coev.Proofs.Kafka.RequestSize
import Coev.ToMathlib.Transition

/-! # The size of the requests that are sent

What `add` counts covers the records, and what stands around them, except for the names of the topics and the id of
the transaction. Nothing keeps a message out of an empty buffer, and a length like 64 takes a byte that the first pass
does not count.
-/

namespace Coev.Kafka

open Std (ExtTreeMap)
open PacketEncoder ProduceRequest

variable {library : CompressionLibrary} {encodeMessageSet : MessageSet → Encode MessageSet} {conf : ProducerConfig}

namespace ProduceSet

variable {s : ProduceSet} {now : Timestamp} {msg : ProducerMessage} {held : TopicPartition → List Entry}

/-- The records of each partition take what is counted for them, and the request is encoded within the limit. -/
structure Accounted (library : CompressionLibrary) (encodeMessageSet : MessageSet → Encode MessageSet)
    (conf : ProducerConfig) (s : ProduceSet) (req : ProduceRequest) : Prop where
  built : buildRequest conf s = .ok req
  batches : ∀ (tp : TopicPartition) pset, s.messages[tp]? = some pset → ∃ batch bytes records,
    req.records[tp]? = some (.batch batch) ∧ RecordBatch.encodeRecords batch.records = .ok (bytes, records) ∧
      (bytes.length : ℤ) ≤ pset.bufferBytes.toInt - recordBatchOverhead.toInt
  encoded : ∃ bytes req', Kafka.encode false (ProduceRequest.encode library encodeMessageSet) req = .ok (bytes, req') ∧
    bytes.length ≤ maxRequestSize

/-- A message for a set: its lengths and deltas are counted in full, and there is room for it, the names of the topics
and the id. -/
structure Fits (conf : ProducerConfig) (s : ProduceSet) (now : Timestamp) (msg : ProducerMessage) : Prop where
  topic : msg.topic.length ≤ int16Max
  lengths : SafeLengths msg
  number : VarintSafe (s.messages[partitionOf msg]?.elim 0 (·.messages.length) : ℕ)
  delta : ∀ pset batch, s.messages[partitionOf msg]? = some pset → pset.records = .batch batch →
    VarintSafe ((messageTime now msg).millisSince batch.firstTimestamp).toInt
  room : s.bufferBytes.toInt + s.messages[partitionOf msg]?.elim recordBatchOverhead.toInt (fun _ => 0) + recordSize msg +
    nameBytes (s.messages.insert (partitionOf msg) {}) + conf.transactionID.length ≤ maxRequestSize

/-- The batch that the deltas of a partition are counted in. -/
def openBatch : Records → Option RecordBatch
  | .batch batch => some batch
  | _ => none

instance : Decidable (Fits conf s now msg) :=
  decidable_of_iff (msg.topic.length ≤ int16Max ∧
      (VarintSafe msg.key.length ∧ VarintSafe msg.value.length ∧ VarintSafe msg.headers.length ∧ ∀ h ∈ msg.headers, h.Safe) ∧
      VarintSafe (s.messages[partitionOf msg]?.elim 0 (·.messages.length) : ℕ) ∧
      (∀ pset ∈ s.messages[partitionOf msg]?, ∀ batch ∈ openBatch pset.records,
        VarintSafe ((messageTime now msg).millisSince batch.firstTimestamp).toInt) ∧
      s.bufferBytes.toInt + s.messages[partitionOf msg]?.elim recordBatchOverhead.toInt (fun _ => 0) + recordSize msg +
        nameBytes (s.messages.insert (partitionOf msg) {}) + conf.transactionID.length ≤ maxRequestSize) <| by
    constructor
    · rintro ⟨topic, ⟨key, value, number, headers⟩, counted, delta, room⟩
      exact ⟨topic, ⟨key, value, number, headers⟩, counted,
        fun pset batch found opened => delta pset found batch (congrArg openBatch opened), room⟩
    · rintro ⟨topic, ⟨key, value, number, headers⟩, counted, delta, room⟩
      refine ⟨topic, ⟨key, value, number, headers⟩, counted, fun pset found batch opened => ?_, room⟩
      refine delta pset batch found ?_
      cases records : pset.records with
      | batch held =>
        rw [records] at opened
        exact congrArg Records.batch (Option.some.inj opened)
      | unknown | legacy =>
        rw [records] at opened
        cases opened

/-- What a set holds is safe, and with the names and the id not larger than a request. -/
structure SmallSet (conf : ProducerConfig) (s : ProduceSet) (held : TopicPartition → List Entry) : Prop where
  holds : Holds conf s held
  topic : ∀ (tp : TopicPartition), held tp ≠ [] → tp.1.length ≤ int16Max
  safe : ∀ tp first, (held tp).head? = some first → ∀ i entry, (held tp)[i]? = some entry → SafeAt first.2 i entry
  each : ∀ tp, entriesBytes conf (held tp) ≤ maxRequestSize
  bound : s.partitionBytes + nameBytes s.messages + conf.transactionID.length ≤ maxRequestSize

private theorem nameBytes_map {α β : Type} (m : TopicPartitionMap α) (f : TopicPartition → α → β) :
    nameBytes (m.map f) = nameBytes m := by
  have topics := ProduceRequest.byTopic_map f m.toList
  rw [nameBytes, ExtTreeMap.toList_map, topics, ProduceRequest.mapTopics, List.map_map]
  rfl

/-- The names are those of the keys. -/
theorem nameBytes_insert {α : Type} (m : TopicPartitionMap α) (tp : TopicPartition) (a b : α) :
    nameBytes (m.insert tp a) = nameBytes (m.insert tp b) := by
  have same : m.insert tp b = (m.insert tp a).map fun tp' value => if tp = tp' then b else value := by
    apply ExtTreeMap.ext_getElem?
    intro tp'
    rw [ExtTreeMap.getElem?_map, ExtTreeMap.getElem?_insert_eq, ExtTreeMap.getElem?_insert_eq]
    split
    next => rfl
    next => simp
  rw [same, nameBytes_map]

private theorem entryBytes_nonneg (msg : ProducerMessage) : 0 ≤ entryBytes conf msg := by
  have size := recordSize_nonneg msg
  unfold entryBytes ProducerMessageOverhead
  split <;> omega

private theorem entriesBytes_nonneg (conf : ProducerConfig) (entries : List Entry) : 0 ≤ entriesBytes conf entries := by
  have sum : 0 ≤ (entries.map fun entry => entryBytes conf entry.1).sum := List.sum_nonneg fun x member => by
    obtain ⟨entry, -, rfl⟩ := List.mem_map.mp member
    exact entryBytes_nonneg entry.1
  have overhead : recordBatchOverhead.toInt = 49 := rfl
  unfold entriesBytes
  split <;> omega

namespace SmallSet

private theorem partition_cases (fitted : SmallSet conf s held) (tp : TopicPartition) :
    held tp = [] ∧ s.messages[tp]? = none ∨
      ∃ first rest, held tp = first :: rest ∧ s.messages[tp]? = some (heldSet conf s first (held tp)) := by
  rw [fitted.holds.partitions]
  cases held tp with
  | nil => exact .inl ⟨rfl, rfl⟩
  | cons first rest => exact .inr ⟨first, rest, rfl, rfl⟩

/-- The counter of a partition set is exact. -/
theorem bufferBytes_eq (fitted : SmallSet conf s held) {tp : TopicPartition} {pset : PartitionSet}
    (found : s.messages[tp]? = some pset) : pset.bufferBytes.toInt = entriesBytes conf (held tp) := by
  obtain ⟨-, absent⟩ | ⟨first, rest, -, present⟩ := fitted.partition_cases tp
  · rw [absent] at found
    cases found
  · obtain rfl := Option.some.inj (present.symm.trans found)
    have limit := fitted.each tp
    have nonneg := entriesBytes_nonneg conf (held tp)
    simp only [maxRequestSize] at limit
    exact Int32.toInt_ofInt_of_le (by omega) (by omega)

private theorem partitionBytes_nonneg (fitted : SmallSet conf s held) : 0 ≤ s.partitionBytes :=
  ExtTreeMap.total_nonneg fun tp pset found => by
    rw [fitted.bufferBytes_eq found]
    exact entriesBytes_nonneg conf _

/-- The counter of the set is exact. -/
theorem bufferBytes_set (fitted : SmallSet conf s held) : s.bufferBytes.toInt = s.partitionBytes := by
  have nonneg := fitted.partitionBytes_nonneg
  have limit := fitted.bound
  simp only [maxRequestSize] at limit
  rw [fitted.holds.bytes]
  exact Int32.toInt_ofInt_of_le (by omega) (by omega)

/-- What a partition counts for, or is going to count for without a message. -/
theorem entriesBytes_eq (modern : conf.version.isAtLeast V0_11_0_0) (fitted : SmallSet conf s held) (tp : TopicPartition) :
    entriesBytes conf (held tp) = s.messages[tp]?.elim 0 (·.bufferBytes.toInt) +
      s.messages[tp]?.elim recordBatchOverhead.toInt (fun _ => 0) := by
  obtain ⟨nothing, absent⟩ | ⟨first, rest, -, present⟩ := fitted.partition_cases tp
  · rw [absent, nothing, entriesBytes, if_pos modern]
    exact Int.add_comm _ _
  · have exact_ := fitted.bufferBytes_eq present
    rw [present, ← exact_]
    exact (Int.add_zero _).symm

theorem empty (producerId : Int64) (producerEpoch : Int16) (id : conf.transactionID.length ≤ int16Max) :
    SmallSet conf (create producerId producerEpoch) fun _ => [] where
  holds := Holds.empty conf producerId producerEpoch
  topic tp nonempty := absurd rfl nonempty
  safe tp first isFirst := by cases isFirst
  each tp := by
    have overhead : recordBatchOverhead.toInt = 49 := rfl
    simp only [entriesBytes, List.map_nil, List.sum_nil, maxRequestSize]
    split <;> omega
  bound := by
    have limit : int16Max ≤ maxRequestSize := by decide
    have nothing :
        (create producerId producerEpoch).partitionBytes + nameBytes (create producerId producerEpoch).messages = 0 :=
          rfl
    omega

/-- A message that is taken is put behind those of its partition. -/
theorem add_eq (fitted : SmallSet conf s held) (now : Timestamp) (taken : ¬ Rejected conf held msg) : ∃ first size,
    (held (partitionOf msg) ++ [(msg, messageTime now msg)]).head? = some first ∧
      (s.add conf now msg).2 = s.withSet (partitionOf msg)
        (heldSet conf s first (held (partitionOf msg) ++ [(msg, messageTime now msg)])) size := by
  have found := fitted.holds.partitions (partitionOf msg)
  cases entries : held (partitionOf msg) with
  | nil =>
    rw [entries] at found
    exact ⟨_, _, rfl, by rw [add_first found]; rfl⟩
  | cons first rest =>
    rw [entries] at found
    have inOrder : ¬ (conf.version.isAtLeast V0_11_0_0 ∧ conf.idempotent ∧ msg.sequenceNumber < first.1.sequenceNumber) := by
      rintro ⟨modern, idempotent, less⟩
      exact taken ⟨modern, idempotent, first, by rw [entries]; rfl, less⟩
    exact ⟨_, _, rfl, by rw [add_next found, if_neg inOrder]⟩

/-- The entries of the partition are still safe. -/
theorem safe_append (modern : conf.version.isAtLeast V0_11_0_0) (fitted : SmallSet conf s held)
    (fits : Fits conf s now msg)
    {first : Entry} (isFirst : (held (partitionOf msg) ++ [(msg, messageTime now msg)]).head? = some first) (i : ℕ)
    (entry : Entry)
    (found : (held (partitionOf msg) ++ [(msg, messageTime now msg)])[i]? = some entry) : SafeAt first.2 i entry := by
  have number : VarintSafe (held (partitionOf msg)).length := by
    have counted := fits.number
    obtain ⟨nothing, -⟩ | ⟨head, rest, -, present⟩ := fitted.partition_cases (partitionOf msg)
    · rw [nothing]
      exact .inl le_rfl
    · rwa [present, Option.elim_some, heldSet, List.length_map] at counted
  have delta : VarintSafe ((messageTime now msg).millisSince first.2).toInt := by
    obtain ⟨nothing, -⟩ | ⟨head, rest, some_, present⟩ := fitted.partition_cases (partitionOf msg)
    · rw [nothing] at isFirst
      obtain rfl := Option.some.inj isFirst
      have zero : (messageTime now msg).millisSince (messageTime now msg) = 0 := by
        rw [Timestamp.millisSince, Int64.sub_self]
        rfl
      rw [zero]
      exact .inl le_rfl
    · have isHead : head = first := Option.some.inj (by rwa [some_] at isFirst)
      have records : (heldSet conf s head (held (partitionOf msg))).records = .batch { newBatch conf s head.1 head.2 with
          records := (held (partitionOf msg)).map fun entry => recordOf head.2 entry.1 entry.2 } := by
        rw [heldSet, recordsOf, if_pos modern]
      have counted := fits.delta _ _ present records
      rwa [newBatch, isHead] at counted
  rw [List.getElem?_append] at found
  split at found
  next earlier =>
    obtain ⟨nothing, -⟩ | ⟨head, rest, some_, -⟩ := fitted.partition_cases (partitionOf msg)
    · rw [nothing] at found
      cases found
    · refine fitted.safe _ first ?_ i entry found
      rw [some_] at isFirst ⊢
      exact isFirst
  next later =>
    rw [List.getElem?_singleton, Option.ite_none_right_eq_some] at found
    obtain ⟨last, same⟩ := found
    obtain rfl := Option.some.inj same
    obtain rfl : i = (held (partitionOf msg)).length := by omega
    exact ⟨fits.lengths, number, delta⟩

/-- The partitions other than one count for something. -/
theorem others_nonneg (fitted : SmallSet conf s held) (tp : TopicPartition) :
    0 ≤ (s.messages.erase tp).total fun _ (pset : PartitionSet) => pset.bufferBytes.toInt :=
  ExtTreeMap.total_nonneg fun tp' pset found => by
    rw [ExtTreeMap.getElem?_erase_eq] at found
    split at found
    next => cases found
    next =>
      rw [fitted.bufferBytes_eq found]
      exact entriesBytes_nonneg conf _

/-- A message that fits leaves the set small enough. -/
theorem add (modern : conf.version.isAtLeast V0_11_0_0) (fitted : SmallSet conf s held) (fits : Fits conf s now msg) :
    ∃ held', SmallSet conf (s.add conf now msg).2 held' := by
  by_cases rejected : Rejected conf held msg
  · exact ⟨held, by rwa [fitted.holds.add_rejected rejected]⟩
  · obtain ⟨first, size, isFirst, after⟩ := fitted.add_eq now rejected
    obtain ⟨entries, isEntries⟩ : ∃ entries, entries = held (partitionOf msg) ++ [(msg, messageTime now msg)] := ⟨_, rfl⟩
    have holds := (fitted.holds.add_taken now rejected).2
    have before := fitted.entriesBytes_eq modern (partitionOf msg)
    have apart : s.partitionBytes = _ := ExtTreeMap.total_eq (fun _ (pset : PartitionSet) => pset.bufferBytes.toInt)
      s.messages (partitionOf msg)
    have others := fitted.others_nonneg (partitionOf msg)
    have room := fits.room
    have counted : entriesBytes conf entries = entriesBytes conf (held (partitionOf msg)) + recordSize msg := by
      rw [isEntries, entriesBytes_append, entryBytes, if_pos modern]
    have small : entriesBytes conf entries ≤ maxRequestSize := by
      rw [fitted.bufferBytes_set] at room
      omega
    have exact_ : (heldSet conf s first entries).bufferBytes.toInt = entriesBytes conf entries := by
      have nonneg := entriesBytes_nonneg conf entries
      simp only [maxRequestSize] at small
      exact Int32.toInt_ofInt_of_le (by omega) (by omega)
    have total : (s.withSet (partitionOf msg) (heldSet conf s first entries) size).partitionBytes = _ :=
      ExtTreeMap.total_insert (fun _ (pset : PartitionSet) => pset.bufferBytes.toInt) s.messages (partitionOf msg)
        (heldSet conf s first entries)
    rw [← isEntries, after, ← isEntries] at holds
    rw [after, ← isEntries]
    refine ⟨_, holds, fun tp nonempty => ?_, fun tp head isHead => ?_, fun tp => ?_, ?_⟩
    · rcases eq_or_ne tp (partitionOf msg) with rfl | other
      · exact fits.topic
      · rw [Function.update_of_ne other] at nonempty
        exact fitted.topic tp nonempty
    · rcases eq_or_ne tp (partitionOf msg) with rfl | other
      · rw [Function.update_self, isEntries] at isHead ⊢
        exact fitted.safe_append modern fits isHead
      · rw [Function.update_of_ne other] at isHead ⊢
        exact fitted.safe tp head isHead
    · rcases eq_or_ne tp (partitionOf msg) with rfl | other
      · rwa [Function.update_self]
      · rw [Function.update_of_ne other]
        exact fitted.each tp
    · have names : nameBytes (s.withSet (partitionOf msg) (heldSet conf s first entries) size).messages =
          nameBytes (s.messages.insert (partitionOf msg) {}) := nameBytes_insert s.messages _ _ _
      rw [fitted.bufferBytes_set] at room
      rw [total, names, exact_]
      omega

/-- A set of safe messages is within the limit. -/
theorem withinLimit (modern : conf.version.isAtLeast V0_11_0_0) (uncompressed : conf.compression = .None)
    (fitted : SmallSet conf s held) : WithinLimit conf s where
  topic tp pset found := by
    obtain ⟨-, absent⟩ | ⟨first, rest, some_, -⟩ := fitted.partition_cases tp
    · rw [absent] at found
      cases found
    · exact fitted.topic tp (by rw [some_]; exact List.cons_ne_nil _ _)
  batches tp pset found := by
    have exact_ := fitted.bufferBytes_eq found
    obtain ⟨-, absent⟩ | ⟨first, rest, some_, present⟩ := fitted.partition_cases tp
    · rw [absent] at found
      cases found
    · obtain rfl := Option.some.inj (present.symm.trans found)
      have isFirst : (held tp).head? = some first := by rw [some_]; rfl
      have some_ : 0 < (held tp).length := by rw [some_]; exact Nat.succ_pos _
      obtain ⟨plain, section_⟩ :=
        plain_sentBatch (s := s) modern uncompressed (fitted.safe tp first isFirst) (fitted.each tp)
      exact ⟨_, requestRecords_heldSet modern, plain, by rw [exact_]; omega⟩
  bound := fitted.bound

/-- The request of a set of safe messages. -/
theorem accounted (modern : conf.version.isAtLeast V0_11_0_0) (uncompressed : conf.compression = .None)
    (id : conf.transactionID.length ≤ int16Max) (fitted : SmallSet conf s held) :
    ∃ req, Accounted library encodeMessageSet conf s req := by
  have within := fitted.withinLimit modern uncompressed
  refine ⟨requestOf conf s, ?_, fun tp pset found => ?_, ?_⟩
  · refine buildRequest_of_prepared fun tp pset found => ?_
    obtain ⟨-, absent⟩ | ⟨first, rest, -, present⟩ := fitted.partition_cases tp
    · rw [absent] at found
      cases found
    · obtain rfl := Option.some.inj (present.symm.trans found)
      exact prepared_recordsOf (.inl modern) first _
  · obtain ⟨batch, covered⟩ := within.batches tp pset found
    refine ⟨batch, _, _, ?_, covered.plain.encodeRecords, ?_⟩
    · rw [requestOf, ExtTreeMap.getElem?_map, found]
      exact congrArg some covered.records
    · have section_ := covered.section_
      have overhead : recordBatchOverhead.toInt = 49 := rfl
      omega
  · have encodes : Encodes library encodeMessageSet (requestOf conf s).records _ _ :=
      encodes_requestOf within.topic within.batches
    have settles := ProduceRequest.settles_encode ((length_transactionalId_le _ _).trans id) encodes
    exact ⟨_, _, settles.encode (within.length_requestBytes_le id), within.length_requestBytes_le id⟩

end SmallSet

end ProduceSet

namespace BrokerProducer

open Transition ProduceSet

variable {s t : BrokerProducer} {now : Timestamp} {msg : ProducerMessage}

/-- A set is sent, or waits for the bridge. -/
def Sends (s : BrokerProducer) (set : ProduceSet) : Prop := set ∈ s.output ∨ s.sent = some set

/-- What happens while the messages are gathered; responses and retried batches do not come. -/
def Gathering : Event → Prop
  | .receive _ _ | .send | .producer _ _ | .parent _ => True
  | .answer _ _ | .refreshed | .leaderFound _ | .takeBatch _ _ => False

def Gathers (conf : ProducerConfig) (s : BrokerProducer) (e : Event) (t : BrokerProducer) : Prop :=
  Gathering e ∧ s.Step conf e t

/-- A message goes into the buffer. -/
def Takes (s : BrokerProducer) (msg : ProducerMessage) : Prop :=
  ¬ msg.has Syn ∧ s.needsRetry msg = ErrNoError ∧ ¬ msg.has Fin_

/-- The set that a message goes into. -/
def target (conf : ProducerConfig) (s : BrokerProducer) (msg : ProducerMessage) : ProduceSet :=
  if s.buffer.wouldOverflow conf msg ∨ (s.producerId ≠ noProducerID ∧ s.buffer.producerEpoch ≠ msg.producerEpoch) then
    .create s.producerId s.producerEpoch
  else s.buffer

/-- A message that goes into the buffer fits in there. -/
def Fitting (conf : ProducerConfig) (s : BrokerProducer) : Event → Prop
  | .receive now (some msg) => s.Takes msg → Fits conf (s.target conf msg) now msg
  | _ => True

/-- The buffer is small, and what is sent is accounted for. -/
structure Gathered (library : CompressionLibrary) (encodeMessageSet : MessageSet → Encode MessageSet) (conf : ProducerConfig)
    (s : BrokerProducer) : Prop where
  buffer : ∃ held, SmallSet conf s.buffer held
  sends : ∀ set, s.Sends set → ∃ req, Accounted library encodeMessageSet conf set req

private theorem buffer_matchEpoch (conf : ProducerConfig) (s : BrokerProducer) (msg : ProducerMessage) :
    ((s.makeRoom conf msg).matchEpoch msg).buffer = s.target conf msg := by
  unfold makeRoom target
  by_cases full : s.buffer.wouldOverflow conf msg
  · rw [if_pos full, if_pos (Or.inl full), matchEpoch]
    split <;> rfl
  · rw [if_neg full, matchEpoch]
    by_cases other : s.producerId ≠ noProducerID ∧ s.buffer.producerEpoch ≠ msg.producerEpoch
    · rw [if_pos other, if_pos (Or.inr other)]
      rfl
    · rw [if_neg other, if_neg (not_or.mpr ⟨full, other⟩)]

namespace Gathered

section

variable (modern : conf.version.isAtLeast V0_11_0_0) (uncompressed : conf.compression = .None)
  (id : conf.transactionID.length ≤ int16Max) (gathered : Gathered library encodeMessageSet conf s)
include modern uncompressed id gathered

theorem flush : Gathered library encodeMessageSet conf s.flush where
  buffer := ⟨_, SmallSet.empty _ _ id⟩
  sends set sends := by
    obtain waits | sent := sends
    · obtain earlier | last := List.mem_append.mp waits
      · exact gathered.sends set (.inl earlier)
      · obtain rfl := List.mem_singleton.mp last
        obtain ⟨held, fitted⟩ := gathered.buffer
        exact fitted.accounted modern uncompressed id
    · exact gathered.sends set (.inr sent)

theorem makeRoom (msg : ProducerMessage) : Gathered library encodeMessageSet conf (s.makeRoom conf msg) := by
  unfold BrokerProducer.makeRoom
  split
  · exact gathered.flush modern uncompressed id
  · exact gathered

theorem matchEpoch (msg : ProducerMessage) : Gathered library encodeMessageSet conf (s.matchEpoch msg) := by
  unfold BrokerProducer.matchEpoch
  split
  · exact gathered.flush modern uncompressed id
  · exact gathered

theorem addMessage (fits : Fits conf s.buffer now msg) :
    Gathered library encodeMessageSet conf (s.addMessage conf now msg) := by
  obtain ⟨held, fitted⟩ := gathered.buffer
  have added : Gathered library encodeMessageSet conf { s with buffer := (s.buffer.add conf now msg).2 } :=
    ⟨fitted.add modern fits, gathered.sends⟩
  unfold BrokerProducer.addMessage
  dsimp only
  split
  · exact ⟨added.buffer, added.sends⟩
  · split
    · exact added.flush modern uncompressed id
    · exact added

theorem receiveMessage (fitting : s.Takes msg → Fits conf (s.target conf msg) now msg) :
    Gathered library encodeMessageSet conf (s.receiveMessage conf now msg) := by
  unfold BrokerProducer.receiveMessage
  split
  next => exact ⟨gathered.buffer, gathered.sends⟩
  next data =>
    split
    next =>
      unfold BrokerProducer.redirect
      dsimp only
      split <;> exact ⟨gathered.buffer, gathered.sends⟩
    next quiet =>
      split
      next => exact ⟨gathered.buffer, gathered.sends⟩
      next open_ =>
        have fits := fitting ⟨data, not_not.mp quiet, open_⟩
        rw [← buffer_matchEpoch] at fits
        exact ((gathered.makeRoom modern uncompressed id msg).matchEpoch modern uncompressed id msg).addMessage modern
          uncompressed id fits

theorem step {e : Event} (fitting : s.Fitting conf e) (gathers : s.Gathers conf e t) :
    Gathered library encodeMessageSet conf t := by
  obtain ⟨gathering, -, rfl⟩ := gathers
  cases e with
  | receive now received =>
    cases received with
    | none =>
      simp only [apply, receive, shutdown]
      split
      · exact ⟨gathered.buffer, gathered.sends⟩
      · have flushed := gathered.flush modern uncompressed id
        exact ⟨flushed.buffer, flushed.sends⟩
    | some msg => exact gathered.receiveMessage modern uncompressed id fitting
  | send =>
    simp only [apply, BrokerProducer.send]
    split
    next => exact gathered
    next set output waits =>
      refine ⟨gathered.buffer, fun other sends => ?_⟩
      obtain later | first := sends
      · exact gathered.sends other (.inl (waits ▸ List.mem_cons_of_mem _ later))
      · obtain rfl := Option.some.inj first
        exact gathered.sends set (.inl (waits ▸ List.mem_cons_self))
  | producer producerId producerEpoch => exact ⟨gathered.buffer, gathered.sends⟩
  | parent e => exact ⟨gathered.buffer, gathered.sends⟩
  | answer err response => cases gathering
  | refreshed => cases gathering
  | leaderFound found => cases gathering
  | takeBatch tp pset => cases gathering

end

end Gathered

/-- While every message fits, the records of what is sent take what was counted for them, and its requests encode. -/
theorem sent_sets_accounted (modern : conf.version.isAtLeast V0_11_0_0) (uncompressed : conf.compression = .None)
    (id : conf.transactionID.length ≤ int16Max) {parent : AsyncProducer} {producerId : Int64} {producerEpoch : Int16}
    (run : Reaches (When (Fitting conf) (Gathers conf)) (create parent producerId producerEpoch) s) (set : ProduceSet)
    (sends : s.Sends set) : ∃ req, Accounted library encodeMessageSet conf set req := by
  have keeps : ∀ s e t, Gathered library encodeMessageSet conf s → When (Fitting conf) (Gathers conf) s e t →
      Gathered library encodeMessageSet conf t := fun s e t gathered taken =>
    gathered.step modern uncompressed id taken.1 taken.2
  have start : Gathered library encodeMessageSet conf (create parent producerId producerEpoch) :=
    ⟨⟨_, SmallSet.empty _ _ id⟩, fun set sends => by obtain waits | sent := sends <;> contradiction⟩
  exact (run.invariant keeps start).sends set sends

/-- `run` gets messages one after the other. -/
def receives (conf : ProducerConfig) (now : Timestamp) (s : BrokerProducer) (msgs : List ProducerMessage) :
    Option BrokerProducer :=
  msgs.foldlM (fun s msg => if Fits conf (s.target conf msg) now msg then
    if s.stopped then none else some (s.receive conf now (some msg)) else none) s

private theorem reaches_of_receives {msgs : List ProducerMessage} (run : s.receives conf now msgs = some t) :
    Reaches (When (Fitting conf) (Gathers conf)) s t := by
  have whole : Reaches (When (fun s msg => Fits conf (s.target conf msg) now msg) fun s msg t =>
      (if s.stopped then none else some (s.receive conf now (some msg))) = some t) s t := Reaches.of_foldlM msgs run
  refine Relation.ReflTransGen.mono (fun s t taken => ?_) _ _ whole
  obtain ⟨msg, fits, taken⟩ := taken
  obtain ⟨running, received⟩ := Option.ite_none_left_eq_some.mp taken
  exact ⟨.receive now (some msg), fun _ => fits, trivial, running, (Option.some.inj received).symm⟩

/-- Three messages make a set. -/
def setOfThree : ProducerConfig := { flush := { messages := 10, maxMessages := 3 } }

/-- The first three are for two partitions, and the last one finds the set full. -/
def fourMessages : List ProducerMessage := [
  { topic := [116], key := [107], value := [1, 2], headers := [{ key := [104], value := [3] }] },
  { topic := [116], partition := 1, value := [4] },
  { topic := [116], value := [5, 6, 7] },
  { topic := [116], partition := 1, key := [107] }]

theorem full_set_accounted : ∃ s set, (create {} 1 0).receives setOfThree ⟨1000000⟩ fourMessages = some s ∧
    s.output = [set] ∧ set.messages.toList.map (fun entry => (entry.1, entry.2.messages.map (·.value))) =
      [(([116], 0), [[1, 2], [5, 6, 7]]), (([116], 1), [[4]])] ∧
    ∃ req, Accounted ⟨fun _ data => data, fun _ data => data⟩ (fun set => pure set) setOfThree set req := by
  have run : ((create {} 1 0).receives setOfThree ⟨1000000⟩ fourMessages).map (fun s =>
      s.output.map fun set => set.messages.toList.map fun entry => (entry.1, entry.2.messages.map (·.value))) =
      some [[(([116], 0), [[1, 2], [5, 6, 7]]), (([116], 1), [[4]])]] := by
    decide +kernel
  obtain ⟨s, received, contents⟩ := Option.map_eq_some_iff.mp run
  obtain ⟨set, output, contents⟩ := List.map_eq_singleton_iff.mp contents
  have sends : s.Sends set := .inl (output ▸ List.mem_singleton_self set)
  exact ⟨s, set, received, output, contents,
    sent_sets_accounted (by decide) rfl (by decide) (reaches_of_receives received) set sends⟩

/-- A message that is alone in its set, and takes a whole request without the name of its topic. -/
def wholeMessage : ProducerMessage := { topic := List.replicate 100 116, value := List.replicate (maxRequestSize - 126) 0 }

/-- The configuration lets such a message through. -/
abbrev wholeRequest : ProducerConfig := { maxMessageBytes := maxRequestSize }

/-- The set that such a message goes out in. -/
def wholeSet : ProduceSet := ((ProduceSet.create 1 0).add wholeRequest ⟨1000000⟩ wholeMessage).2

/-- A set that is ready goes out. -/
theorem sends_addMessage {set : ProduceSet} (added : s.buffer.add conf now msg = (0, set)) (ready : set.readyToFlush conf) :
    (s.addMessage conf now msg).Sends set := by
  have taken : ¬ (0 : KError) ≠ 0 := not_not.mpr rfl
  simp only [BrokerProducer.addMessage, added, if_neg taken, if_pos ready]
  exact .inl (List.mem_append_right _ List.mem_cons_self)

/-- The entry of such a message. -/
abbrev wholeEntry : Entry := (wholeMessage, messageTime ⟨1000000⟩ wholeMessage)

private theorem add_wholeMessage : (ProduceSet.create 1 0).add wholeRequest ⟨1000000⟩ wholeMessage = (0, wholeSet) := by
  rw [wholeSet, add_first rfl]

private theorem sends_wholeSet : ((create {} 1 0).receive wholeRequest ⟨1000000⟩ (some wholeMessage)).Sends wholeSet := by
  have target : (((create {} 1 0).makeRoom wholeRequest wholeMessage).matchEpoch wholeMessage).buffer = .create 1 0 := by
    rw [buffer_matchEpoch]
    unfold BrokerProducer.target
    split <;> rfl
  have ready : wholeSet.readyToFlush wholeRequest := by
    rw [wholeSet, add_first rfl]
    rfl
  have quiet : ¬ (create {} 1 0).needsRetry wholeMessage ≠ ErrNoError := not_not.mpr rfl
  rw [receive, receiveMessage, if_neg (show ¬ wholeMessage.has Syn by decide), if_neg quiet,
    if_neg (show ¬ wholeMessage.has Fin_ by decide), buffered]
  exact sends_addMessage (by rw [target, add_wholeMessage]) ready

private theorem recordSize_of_value {msg : ProducerMessage} (key : msg.key = []) (headers : msg.headers = []) :
    recordSize msg = 77 + msg.value.length := by
  simp [recordSize, key, headers, MaximumRecordOverhead]

private theorem covered_wholeSet : Covered wholeRequest (heldSet wholeRequest (.create 1 0) wholeEntry [wholeEntry])
    (sentBatch wholeRequest (.create 1 0) wholeEntry [wholeEntry]) := by
  have length : wholeMessage.value.length = maxRequestSize - 126 := List.length_replicate
  have size : entriesBytes wholeRequest [wholeEntry] = maxRequestSize := by
    have overhead : recordBatchOverhead.toInt = 49 := rfl
    rw [entriesBytes, if_pos (by decide), List.map_singleton, List.sum_singleton, entryBytes, if_pos (by decide),
      recordSize_of_value rfl rfl, length, overhead]
    simp only [maxRequestSize]
    omega
  have safe : ∀ i entry, [wholeEntry][i]? = some entry → SafeAt wholeEntry.2 i entry := by
    intro i entry found
    rw [List.getElem?_singleton, Option.ite_none_right_eq_some] at found
    obtain ⟨rfl, same⟩ := found
    obtain rfl := Option.some.inj same
    have headers : ∀ h ∈ wholeMessage.headers, h.Safe := fun h member => absurd member List.not_mem_nil
    exact ⟨⟨by decide, by rw [length]; decide, by decide, headers⟩, by decide, by decide⟩
  obtain ⟨plain, section_⟩ := plain_sentBatch (s := .create 1 0) (by decide) rfl safe size.le
  refine ⟨requestRecords_heldSet (by decide), plain, ?_⟩
  have counted : (heldSet wholeRequest (.create 1 0) wholeEntry [wholeEntry]).bufferBytes.toInt = maxRequestSize := by
    rw [heldSet, size]
    rfl
  rw [size, List.length_singleton] at section_
  rw [counted]
  omega

private theorem messages_wholeSet :
    wholeSet.messages = (∅ : TopicPartitionMap PartitionSet).insert (partitionOf wholeMessage)
    (heldSet wholeRequest (.create 1 0) wholeEntry [wholeEntry]) := by
  rw [wholeSet, add_first rfl]
  rfl

private theorem partition_wholeSet {tp : TopicPartition} {pset : PartitionSet} (found : wholeSet.messages[tp]? = some pset) :
    partitionOf wholeMessage = tp ∧ heldSet wholeRequest (.create 1 0) wholeEntry [wholeEntry] = pset := by
  rw [messages_wholeSet, ExtTreeMap.getElem?_insert_eq] at found
  split at found
  next same => exact ⟨same, Option.some.inj found⟩
  next => cases found

private theorem large_wholeSet :
    maxRequestSize < (requestBytes (fun _ records => records.sent) (requestOf wholeRequest wholeSet)).length := by
  have single : wholeSet.messages.toList =
      [(partitionOf wholeMessage, heldSet wholeRequest (.create 1 0) wholeEntry [wholeEntry])] := by
    rw [messages_wholeSet]
    rfl
  have bytes := le_length_requestBytes single covered_wholeSet
  have records :
      (sentBatch wholeRequest (.create 1 0) wholeEntry [wholeEntry]).records =
        [sentRecord wholeEntry.2 0 wholeEntry] := by
    rw [records_sentBatch]
    rfl
  have value := (sentRecord wholeEntry.2 0 wholeEntry).length_value_le_counted
  have length : (sentRecord wholeEntry.2 0 wholeEntry).value.length = maxRequestSize - 126 := List.length_replicate
  have name : (partitionOf wholeMessage).1.length = 100 := List.length_replicate
  rw [covered_wholeSet.plain.length_section, records, List.map_singleton, List.sum_singleton, name] at bytes
  rw [length] at value
  have limit : 126 ≤ maxRequestSize := by decide
  omega

/-- The topic's name is not counted. -/
theorem whole_message_rejected : ¬ ∀ set,
    ((create {} 1 0).receive wholeRequest ⟨1000000⟩ (some wholeMessage)).Sends set →
      ∃ req, Accounted ⟨fun _ data => data, fun _ data => data⟩ (fun set => pure set) wholeRequest set req := by
  intro all
  obtain ⟨req, built, -, bytes, req', encoded, -⟩ := all wholeSet sends_wholeSet
  have prepared : buildRequest wholeRequest wholeSet = .ok (requestOf wholeRequest wholeSet) :=
    buildRequest_of_prepared fun tp pset found => by
      obtain ⟨-, rfl⟩ := partition_wholeSet found
      exact prepared_recordsOf (.inl (by decide)) wholeEntry _
  obtain rfl := Except.ok.inj (built.symm.trans prepared)
  have encodes : Encodes ⟨fun _ data => data, fun _ data => data⟩ (fun set => pure set)
      (requestOf wholeRequest wholeSet).records _ _ :=
    encodes_requestOf (fun tp pset found => by
      obtain ⟨rfl, -⟩ := partition_wholeSet found
      rw [partitionOf, wholeMessage, List.length_replicate]
      decide) fun tp pset found => by
      obtain ⟨-, rfl⟩ := partition_wholeSet found
      exact ⟨_, covered_wholeSet⟩
  have settles := ProduceRequest.settles_encode ((length_transactionalId_le _ _).trans (Nat.zero_le _)) encodes
  rw [encode_of_large settles.counts large_wholeSet] at encoded
  cases encoded

end BrokerProducer

end Coev.Kafka
