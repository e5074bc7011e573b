import Coev.Proofs.Kafka.Client
import Mathlib.Data.List.Induction

/-! # The cached lists of partitions

`m_cached_partitions_results` repeats what `m_metadata` says. An update rebuilds the lists of a topic from
the stored partitions, so only the presence of the two entries can come apart: an update stores an empty
cache entry for an accepted topic without partitions, and a close leaves the whole cache behind.
-/

namespace Coev.Kafka.Client

open Std (ExtTreeMap)
open Transition

variable {c d : Client} {topic : Bytes} {id : Int32}

/-- A list has exactly the ids with a property, in ascending order and each once. -/
def SortedOf (ids : List Int32) (p : Int32 → Prop) : Prop := ids.Pairwise (· < ·) ∧ ∀ id, id ∈ ids ↔ p id

/-- The lists of a topic are its known partitions and those of them that have a leader, and its cache entry
is there if and only if its metadata is. -/
structure CoherentAt (c : Client) (topic : Bytes) : Prop where
  all : SortedOf (c.cachedAllPartitions topic) fun id => ∃ partition, c.cachedMetadata topic id = some partition
  writable : SortedOf (c.cachedWritablePartitions topic) fun id =>
    ∃ partition, c.cachedMetadata topic id = some partition ∧ ¬ partition.Leaderless
  known : topic ∈ c.cachedPartitionsResults ↔ topic ∈ c.metadata

def Coherent (c : Client) : Prop := ∀ topic, c.CoherentAt topic

/-- What the three questions answer fits together: the leader is unknown for exactly the partitions that are not
listed, it is not available for a listed one that is not writable, and for a writable one it is found unless its
broker is not registered or does not open. -/
structure Agrees (c : Client) (topic : Bytes) (id : Int32) (opened : Broker → KError) : Prop where
  unknown : c.cachedLeader topic id opened = .error ErrUnknownTopicOrPartition ↔ id ∉ c.cachedAllPartitions topic
  unavailable : id ∈ c.cachedAllPartitions topic → id ∉ c.cachedWritablePartitions topic →
    c.cachedLeader topic id opened = .error ErrLeaderNotAvailable
  available : id ∈ c.cachedWritablePartitions topic → ∃ partition, c.cachedMetadata topic id = some partition ∧
    ∀ broker, c.brokers[partition.leader]? = some broker → opened broker = 0 →
      c.cachedLeader topic id opened = .ok (broker, partition.leaderEpoch)

/-- The topic's entry stores its partitions. -/
def Accepted (topic : TopicMetadata) : Prop :=
  topic.err.toInt = ErrNoError ∨ topic.err.toInt = ErrLeaderNotAvailable

/-- The last entry of a name. -/
def lastNamed (topics : List TopicMetadata) (name : Bytes) : Option TopicMetadata :=
  topics.reverse.find? fun topic => topic.name = name

/-- The client is not closed, and the event is a close while metadata is known, or an update in which the last
entry of some name is accepted and has no partitions. -/
def Spoils (c : Client) : Event → Prop
  | .close => c.closed = false ∧ c.metadata ≠ ∅
  | .updateMetadata data _ _ => c.closed = false ∧
    ∃ name entry, lastNamed data.topics name = some entry ∧ Accepted entry ∧ entry.partitions = []
  | _ => False

/-! ## One topic -/

theorem CoherentAt.congr (metadata : d.metadata[topic]? = c.metadata[topic]?)
    (cached : d.cachedPartitionsResults[topic]? = c.cachedPartitionsResults[topic]?) (at_ : c.CoherentAt topic) :
    d.CoherentAt topic := by
  have all : d.cachedAllPartitions topic = c.cachedAllPartitions topic := by
    simp only [cachedAllPartitions, cached]
  have writable : d.cachedWritablePartitions topic = c.cachedWritablePartitions topic := by
    simp only [cachedWritablePartitions, cached]
  have same : d.cachedMetadata topic = c.cachedMetadata topic := by
    funext id
    simp only [cachedMetadata, metadata]
  constructor
  · rw [all, same]
    exact at_.all
  · rw [writable, same]
    exact at_.writable
  · rw [ExtTreeMap.mem_iff_isSome_getElem?, cached, ← ExtTreeMap.mem_iff_isSome_getElem?, at_.known,
      ExtTreeMap.mem_iff_isSome_getElem?, ← metadata, ← ExtTreeMap.mem_iff_isSome_getElem?]

private theorem coherentAt_congr_iff (metadata : d.metadata[topic]? = c.metadata[topic]?)
    (cached : d.cachedPartitionsResults[topic]? = c.cachedPartitionsResults[topic]?) :
    d.CoherentAt topic ↔ c.CoherentAt topic :=
  ⟨.congr metadata.symm cached.symm, .congr metadata cached⟩

/-- A topic of which nothing is kept is coherent. -/
private theorem coherentAt_of_absent (metadata : topic ∉ c.metadata) (cached : topic ∉ c.cachedPartitionsResults) :
    c.CoherentAt topic := by
  have noCache : c.cachedPartitionsResults[topic]? = none := ExtTreeMap.getElem?_eq_none cached
  have noMetadata : c.metadata[topic]? = none := ExtTreeMap.getElem?_eq_none metadata
  constructor
  · simp [SortedOf, cachedAllPartitions, cachedMetadata, noCache, noMetadata]
  · simp [SortedOf, cachedWritablePartitions, cachedMetadata, noCache, noMetadata]
  · exact iff_of_false cached metadata

/-- The list that is cached has the partitions that are not skipped. -/
private theorem sortedOf_setPartitionCache (c : Client) (topic : Bytes) (skip : PartitionMetadata → Bool) :
    SortedOf (c.setPartitionCache topic skip) fun id =>
      ∃ partition, c.cachedMetadata topic id = some partition ∧ skip partition = false := by
  have at_ (id : Int32) : (c.metadata[topic]?.getD ∅)[id]? = c.cachedMetadata topic id := by
    unfold cachedMetadata
    cases c.metadata[topic]? <;> simp
  set known := c.metadata[topic]?.getD ∅ with known_def
  have member (id : Int32) : id ∈ c.setPartitionCache topic skip ↔
      ∃ partition, c.cachedMetadata topic id = some partition ∧ skip partition = false := by
    simp only [setPartitionCache, List.mem_insertionSort, List.mem_filterMap, Prod.exists, ← known_def,
      ExtTreeMap.mem_toList_iff_getElem?_eq_some, at_]
    grind
  have distinct : (c.setPartitionCache topic skip).Nodup := by
    refine (List.perm_insertionSort _ _).nodup_iff.mpr (List.pairwise_filterMap.mpr ?_)
    refine ExtTreeMap.distinct_keys_toList.imp fun differ a found b found' same => differ ?_
    grind
  have sorted : (c.setPartitionCache topic skip).Pairwise (· ≤ ·) := List.pairwise_insertionSort _ _
  refine ⟨(sorted.and distinct).imp fun ordered => ?_, member⟩
  exact Int32.lt_of_le_of_ne ordered.1 ordered.2

/-! ## One round of an update -/

/-- A topic of which nothing was kept is stored coherently if and only if it has partitions. -/
private theorem storeTopic_coherentAt_iff (retry : Bool) {c : Client} {entry : TopicMetadata}
    (absent : entry.name ∉ c.metadata) :
    (storeTopic retry c entry).2.CoherentAt entry.name ↔ entry.partitions ≠ [] := by
  obtain ⟨metadata, left_, -, member⟩ := storePartitions_spec entry.name entry.partitions retry c
  set stored := (storeTopic retry c entry).2 with stored_def
  have known : entry.name ∈ stored.metadata ↔ entry.partitions ≠ [] := by
    simp only [stored_def, storeTopic, left_]
    rw [member, or_iff_right absent]
  have cached : stored.cachedPartitionsResults[entry.name]? = some
      { allPartitions := stored.setPartitionCache entry.name fun _ => false
        writablePartitions := stored.setPartitionCache entry.name fun partition => partition.Leaderless } := by
    simp only [stored_def, storeTopic, left_, ExtTreeMap.getElem?_insert_self]
    rfl
  have present : entry.name ∈ stored.cachedPartitionsResults := by
    rw [ExtTreeMap.mem_iff_isSome_getElem?, cached, Option.isSome_some]
  constructor
  · exact fun at_ => known.mp (at_.known.mp present)
  · intro some_
    constructor
    · simpa [cachedAllPartitions, cached] using sortedOf_setPartitionCache stored entry.name fun _ => false
    · simpa [cachedWritablePartitions, cached] using
        sortedOf_setPartitionCache stored entry.name fun partition => partition.Leaderless
    · exact iff_of_true present (known.mpr some_)

theorem forgetTopic_absent (c : Client) (name : Bytes) :
    name ∉ (c.forgetTopic name).metadata ∧ name ∉ (c.forgetTopic name).cachedPartitionsResults := by
  simp [forgetTopic]

/-- A round over the topics changes nothing about other topics. -/
private theorem updateTopic_of_ne (now : Bytes → TimePoint) (retry : Bool) (c : Client) {entry : TopicMetadata}
    (other : topic ≠ entry.name) : (updateTopic now (retry, c) entry).2.CoherentAt topic ↔ c.CoherentAt topic := by
  obtain ⟨metadata, cached⟩ := updateTopic_frame now retry c other
  exact coherentAt_congr_iff metadata cached

/-- It leaves its own topic coherent if and only if the entry is refused or has partitions. -/
private theorem updateTopic_self (now : Bytes → TimePoint) (retry : Bool) (c : Client) (entry : TopicMetadata) :
    (updateTopic now (retry, c) entry).2.CoherentAt entry.name ↔ (Accepted entry → entry.partitions ≠ []) := by
  obtain ⟨metadata, cached⟩ := forgetTopic_absent c entry.name
  have stored (accepted : Accepted entry) {d : Client} (absent : entry.name ∉ d.metadata) (retry : Bool) :
      (storeTopic retry d entry).2.CoherentAt entry.name ↔ (Accepted entry → entry.partitions ≠ []) := by
    rw [storeTopic_coherentAt_iff retry absent]
    exact ⟨fun some_ _ => some_, fun holds => holds accepted⟩
  have refused (notAccepted : ¬ Accepted entry) :
      (c.forgetTopic entry.name).CoherentAt entry.name ↔ (Accepted entry → entry.partitions ≠ []) :=
    iff_of_true (coherentAt_of_absent metadata cached) fun accepted => absurd accepted notAccepted
  simp only [updateTopic]
  split_ifs with noError denied unknown noLeader
  · refine stored (.inl noError) ?_ retry
    exact metadata
  · exact refused (by rcases denied with denied | denied <;> simp [Accepted, denied] <;> decide)
  · exact refused (by simp [Accepted, unknown]; decide)
  · exact stored (.inr noLeader) metadata true
  · exact refused (not_or.mpr ⟨noError, noLeader⟩)

/-! ## Updates and closes -/

theorem lastNamed_append_singleton (topics : List TopicMetadata) (entry : TopicMetadata) (name : Bytes) :
    lastNamed (topics ++ [entry]) name = if entry.name = name then some entry else lastNamed topics name := by
  simp only [lastNamed, List.reverse_append, List.reverse_singleton, List.singleton_append, List.find?_cons]
  by_cases same : entry.name = name <;> simp [same]

/-- After the loop over the topics a name is coherent if and only if it was or the last entry of the name makes it so. -/
private theorem updateTopics_coherentAt_iff (now : Bytes → TimePoint) (topics : List TopicMetadata) (retry : Bool)
    (at_ : c.CoherentAt topic) : (topics.foldl (updateTopic now) (retry, c)).2.CoherentAt topic ↔
      ∀ entry, lastNamed topics topic = some entry → Accepted entry → entry.partitions ≠ [] := by
  induction topics using List.reverseRecOn with
  | nil => exact iff_of_true at_ (fun entry found => by cases found)
  | append_singleton topics last ih =>
    rw [List.foldl_append, lastNamed_append_singleton]
    change (updateTopic now (_, _) last).2.CoherentAt topic ↔ _
    by_cases same : last.name = topic
    · subst same
      rw [updateTopic_self, if_pos rfl]
      simp
    · rw [updateTopic_of_ne now _ _ (Ne.symm same), if_neg same]
      exact ih

private theorem updateMetadata_coherent_iff (coherent : c.Coherent) (data : MetadataResponse) (all : Bool)
    (now : Bytes → TimePoint) :
    (c.updateMetadata data all now).2.Coherent ↔ ¬ Spoils c (.updateMetadata data all now) := by
  unfold updateMetadata
  split
  · next closed => exact iff_of_true coherent (by simp [Spoils, closed])
  next opened =>
  have start (topic : Bytes) : (if all then { c.updateBroker data.brokers with controllerId := data.controllerId }.forgetAll
      else { c.updateBroker data.brokers with controllerId := data.controllerId } : Client).CoherentAt topic := by
    split
    · exact coherentAt_of_absent ExtTreeMap.not_mem_empty ExtTreeMap.not_mem_empty
    · exact CoherentAt.congr (c := c) rfl rfl (coherent topic)
  have each (topic : Bytes) := updateTopics_coherentAt_iff now data.topics false (start topic)
  rw [Coherent, forall_congr' each]
  simp [Spoils, opened]

private theorem close_coherent_iff (coherent : c.Coherent) : c.close.2.Coherent ↔ ¬ Spoils c .close := by
  unfold close
  split
  · next closed => exact iff_of_true coherent (by simp [Spoils, closed])
  next opened =>
  have opened : c.closed = false := Bool.eq_false_of_not_eq_true opened
  simp only [Spoils, opened, true_and, ne_eq, not_not]
  constructor
  · intro after
    refine ExtTreeMap.eq_empty_iff_forall_not_mem.mpr fun topic known => ?_
    have cached := (coherent topic).known.mpr known
    exact ExtTreeMap.not_mem_empty ((after topic).known.mp cached)
  · intro none_ topic
    refine coherentAt_of_absent ExtTreeMap.not_mem_empty fun cached => ?_
    have known := (coherent topic).known.mp cached
    rw [none_] at known
    exact ExtTreeMap.not_mem_empty known

/-- What happens to a coherent client leaves it coherent if and only if it does not spoil it. -/
private theorem apply_coherent_iff (coherent : c.Coherent) (event : Event) :
    (c.apply event).Coherent ↔ ¬ Spoils c event := by
  have kept {d : Client} (metadata : d.metadata = c.metadata)
      (cached : d.cachedPartitionsResults = c.cachedPartitionsResults) : d.Coherent :=
    fun topic => (coherent topic).congr (by rw [metadata]) (by rw [cached])
  cases event with
  | updateMetadata data all now => exact updateMetadata_coherent_iff coherent data all now
  | close => exact close_coherent_iff coherent
  | addTopics topics now => exact iff_of_true (kept rfl rfl) id
  | registerBroker broker =>
    refine iff_of_true ?_ id
    simp only [apply, registerBroker]
    split <;> exact kept rfl rfl
  | deregisterBroker broker =>
    refine iff_of_true ?_ id
    simp only [apply, deregisterBroker]
    split
    · exact kept rfl rfl
    · split
      · exact kept rfl rfl
      · split <;> exact kept rfl rfl
  | deregisterController => exact iff_of_true (kept rfl rfl) id
  | resurrectDeadBrokers => exact iff_of_true (kept rfl rfl) id
  | refreshBrokers seeds =>
    refine iff_of_true ?_ id
    simp only [apply, refreshBrokers]
    split <;> exact kept rfl rfl

/-- In a coherent client the questions about a topic never disagree. -/
theorem Coherent.agrees (coherent : c.Coherent) (topic : Bytes) (id : Int32) (opened : Broker → KError) :
    c.Agrees topic id opened := by
  have at_ := coherent topic
  have listed := at_.all.2 id
  have writable := at_.writable.2 id
  constructor
  · rw [listed]
    unfold cachedLeader
    split
    · next absent => simp [absent]
    · next partition found =>
      refine iff_of_false (fun code => ?_) (not_not.mpr ⟨partition, found⟩)
      split at code
      · cases code
      · split at code
        · cases code
        · split at code <;> cases code
  · intro inAll notWritable
    obtain ⟨partition, found⟩ := listed.mp inAll
    have leaderless : partition.Leaderless := by
      by_contra hasLeader
      exact notWritable (writable.mpr ⟨partition, found, hasLeader⟩)
    simp only [cachedLeader, found, if_pos leaderless]
  · intro inWritable
    obtain ⟨partition, found, hasLeader⟩ := writable.mp inWritable
    refine ⟨partition, found, fun broker registered opens => ?_⟩
    simp only [cachedLeader, found, if_neg hasLeader, registered, opens, ne_eq, not_true_eq_false, if_false]

/-! ## Every sequence of events -/

private theorem coherent_create (seeds : List Seed) : Coherent { seedBrokers := seeds } :=
  fun _ => coherentAt_of_absent ExtTreeMap.not_mem_empty ExtTreeMap.not_mem_empty

/-- Along every sequence of events from a new client: the cache is coherent after every event, and then the questions
agree, if and only if no event spoils it. -/
theorem cache_coherent_iff (seeds : List Seed) (events : List Event) :
    Along (fun c event => (c.apply event).Coherent ∧ ∀ topic id opened, (c.apply event).Agrees topic id opened) Step
        { seedBrokers := seeds } events ↔
      Along (fun c event => ¬ Spoils c event) Step { seedBrokers := seeds } events := by
  constructor
  · have keeps (c : Client) (event : Event) (d : Client) (_ : c.Coherent)
        (after : (c.apply event).Coherent ∧ ∀ topic id opened, (c.apply event).Agrees topic id opened)
        (step : Step c event d) : d.Coherent := step ▸ after.1
    exact Along.imp keeps (fun c event coherent after => (apply_coherent_iff coherent event).mp after.1)
      (coherent_create seeds)
  · have keeps (c : Client) (event : Event) (d : Client) (coherent : c.Coherent) (kept : ¬ Spoils c event)
        (step : Step c event d) : d.Coherent := step ▸ (apply_coherent_iff coherent event).mpr kept
    apply Along.imp keeps _ (coherent_create seeds)
    intro c event coherent kept
    have after := (apply_coherent_iff coherent event).mpr kept
    exact ⟨after, after.agrees⟩

/-- One topic `t` with one partition, led by broker 1. -/
def oneTopic : MetadataResponse :=
  { brokers := [{ id := 1, addr := [0x61] }]
    topics := [{ name := [0x74], partitions := [{ id := 0, leader := 1 }] }] }

/-- A client with a seed learns a topic and is closed: the partition stays listed, and its leader is unknown. -/
theorem close_leaves_cache : ∃ c d : Client,
    Step { seedBrokers := [⟨0, [0x61]⟩] } (.updateMetadata oneTopic true fun _ => 0) c ∧ Step c .close d ∧
      d.closed = false ∧ ¬ d.Coherent := by
  let learnt := (apply { seedBrokers := [⟨0, [0x61]⟩] } (.updateMetadata oneTopic true fun _ => 0))
  have listed : (0 : Int32) ∈ learnt.close.2.cachedAllPartitions [0x74] := by decide +kernel
  have unknown : learnt.close.2.cachedMetadata [0x74] 0 = none := by decide +kernel
  refine ⟨learnt, learnt.close.2, rfl, rfl, by decide +kernel, fun coherent => ?_⟩
  obtain ⟨partition, found⟩ := ((coherent [0x74]).all.2 0).mp listed
  cases unknown.symm.trans found

end Coev.Kafka.Client
