import Coev.Model.Kafka.Client
import Coev.ToMathlib.Transition

/-! # What an update of the metadata changes

Each round of the loop over the topics changes the entries of its own topic only.
-/

namespace Coev.Kafka.Client

variable {topic : Bytes}
variable {brokers : Std.ExtTreeMap Int32 Broker}

/-- The loop over the partitions of a topic adds metadata of that topic and nothing else. -/
theorem storePartitions_spec (name : Bytes) (partitions : List PartitionMetadata) (retry : Bool) (c : Client) :
    ∃ metadata, (partitions.foldl (storePartition name) (retry, c)).2 = { c with metadata } ∧
      (∀ other, other ≠ name → metadata[other]? = c.metadata[other]?) ∧
      (name ∈ metadata ↔ name ∈ c.metadata ∨ partitions ≠ []) := by
  induction partitions generalizing retry c with
  | nil => exact ⟨c.metadata, rfl, fun _ _ => rfl, by simp⟩
  | cons partition partitions ih =>
    obtain ⟨metadata, left_, frame, member⟩ := ih (retry || partition.Leaderless)
      { c with metadata := c.metadata.insert name ((c.metadata[name]?.getD ∅).insert partition.id partition) }
    refine ⟨metadata, left_, fun other differs => ?_, ?_⟩
    · rw [frame other differs, Std.ExtTreeMap.getElem?_insert, if_neg]
      simpa using differs.symm
    · rw [member]
      simp

theorem storeTopic_metadata_of_ne (retry : Bool) (c : Client) (entry : TopicMetadata) (other : topic ≠ entry.name) :
    (storeTopic retry c entry).2.metadata[topic]? = c.metadata[topic]? := by
  obtain ⟨metadata, left_, frame, -⟩ := storePartitions_spec entry.name entry.partitions retry c
  simp only [storeTopic, left_]
  exact frame topic other

theorem storeTopic_cached_of_ne (retry : Bool) (c : Client) (entry : TopicMetadata) (other : topic ≠ entry.name) :
    (storeTopic retry c entry).2.cachedPartitionsResults[topic]? = c.cachedPartitionsResults[topic]? := by
  obtain ⟨metadata, left_, -, -⟩ := storePartitions_spec entry.name entry.partitions retry c
  simp only [storeTopic, left_]
  rw [Std.ExtTreeMap.getElem?_insert, if_neg]
  simpa using other.symm

theorem forgetTopic_of_ne (c : Client) {name : Bytes} (other : topic ≠ name) :
    (c.forgetTopic name).metadata[topic]? = c.metadata[topic]? ∧
      (c.forgetTopic name).cachedPartitionsResults[topic]? = c.cachedPartitionsResults[topic]? := by
  simp only [forgetTopic, Std.ExtTreeMap.getElem?_erase]
  constructor
  · rw [if_neg (by simpa using other.symm)]
  · rw [if_neg (by simpa using other.symm)]

/-- A round over the topics changes nothing that is kept of other topics. -/
theorem updateTopic_frame (now : Bytes → TimePoint) (retry : Bool) (c : Client) {entry : TopicMetadata}
    (other : topic ≠ entry.name) : (updateTopic now (retry, c) entry).2.metadata[topic]? = c.metadata[topic]? ∧
      (updateTopic now (retry, c) entry).2.cachedPartitionsResults[topic]? = c.cachedPartitionsResults[topic]? := by
  obtain ⟨metadata, cached⟩ := forgetTopic_of_ne c other
  have stored (retry : Bool) {d : Client} (metadata : d.metadata[topic]? = c.metadata[topic]?)
      (cached : d.cachedPartitionsResults[topic]? = c.cachedPartitionsResults[topic]?) :
      (storeTopic retry d entry).2.metadata[topic]? = c.metadata[topic]? ∧
        (storeTopic retry d entry).2.cachedPartitionsResults[topic]? = c.cachedPartitionsResults[topic]? :=
    ⟨(storeTopic_metadata_of_ne _ _ _ other).trans metadata, (storeTopic_cached_of_ne _ _ _ other).trans cached⟩
  simp only [updateTopic]
  split_ifs
  · exact stored retry metadata cached
  · exact ⟨metadata, cached⟩
  · exact ⟨metadata, cached⟩
  · exact stored true metadata cached
  · exact ⟨metadata, cached⟩

/-- The loop over the topics changes nothing that is kept of a topic it does not come to. -/
theorem updateTopics_frame (now : Bytes → TimePoint) {topics : List TopicMetadata} (retry : Bool) (c : Client)
    (others : topic ∉ topics.map TopicMetadata.name) :
    (topics.foldl (updateTopic now) (retry, c)).2.metadata[topic]? = c.metadata[topic]? ∧
      (topics.foldl (updateTopic now) (retry, c)).2.cachedPartitionsResults[topic]? =
        c.cachedPartitionsResults[topic]? := by
  induction topics generalizing retry c with
  | nil => exact ⟨rfl, rfl⟩
  | cons entry topics ih =>
    rw [List.map_cons, List.mem_cons, not_or] at others
    obtain ⟨metadata, cached⟩ := updateTopic_frame now retry c others.1
    obtain ⟨metadata_, cached_⟩ := ih (updateTopic now (retry, c) entry).1 (updateTopic now (retry, c) entry).2 others.2
    exact ⟨metadata_.trans metadata, cached_.trans cached⟩

/-- An update of some topics changes nothing that is kept of a topic it does not name. -/
theorem updateMetadata_frame (c : Client) (data : MetadataResponse) (now : Bytes → TimePoint)
    (others : topic ∉ data.topics.map TopicMetadata.name) :
    (c.updateMetadata data false now).2.metadata[topic]? = c.metadata[topic]? ∧
      (c.updateMetadata data false now).2.cachedPartitionsResults[topic]? = c.cachedPartitionsResults[topic]? := by
  unfold updateMetadata
  split
  · exact ⟨rfl, rfl⟩
  · exact updateTopics_frame now false _ others

/-! ## The registered brokers -/

variable {c d : Client}

/-- Every broker is found by its own id. -/
def WellKeyed (brokers : Std.ExtTreeMap Int32 Broker) : Prop :=
  ∀ (id : Int32) (broker : Broker), brokers[id]? = some broker → broker.id = id

theorem wellKeyed_empty : WellKeyed ∅ := by
  intro id broker found
  simp at found

theorem WellKeyed.insert (keyed : WellKeyed brokers) (broker : Broker) :
    WellKeyed (brokers.insert broker.id broker) := by
  intro id other found
  rw [Std.ExtTreeMap.getElem?_insert] at found
  split at found
  · next same =>
    rw [← Option.some.inj found]
    simpa using same
  · exact keyed id other found

theorem WellKeyed.addBroker (keyed : WellKeyed brokers) (broker : Broker) : WellKeyed (addBroker brokers broker) := by
  unfold Client.addBroker
  split
  · exact keyed.insert broker
  · split
    · exact keyed.insert broker
    · exact keyed

theorem WellKeyed.erase (keyed : WellKeyed brokers) (id : Int32) : WellKeyed (brokers.erase id) := by
  intro other broker found
  rw [Std.ExtTreeMap.getElem?_erase] at found
  split at found
  · cases found
  · exact keyed other broker found

theorem WellKeyed.updateBroker (keyed : WellKeyed c.brokers) (brokers : List Broker) :
    WellKeyed (c.updateBroker brokers).brokers := by
  have added : WellKeyed (brokers.foldl Client.addBroker c.brokers) := by
    generalize c.brokers = known at keyed
    induction brokers generalizing known with
    | nil => exact keyed
    | cons broker brokers ih => exact ih _ (keyed.addBroker broker)
  intro id broker found
  simp only [Client.updateBroker, Std.ExtTreeMap.getElem?_filter'] at found
  exact added id broker (Option.filter_eq_some_iff.mp found).1

/-- The loops of an update change nothing but the metadata, its cache and the refresher. -/
theorem updateTopics_registries (now : Bytes → TimePoint) (topics : List TopicMetadata) (retry : Bool) (c : Client) :
    (topics.foldl (updateTopic now) (retry, c)).2.brokers = c.brokers ∧
      (topics.foldl (updateTopic now) (retry, c)).2.seedBrokers = c.seedBrokers := by
  induction topics generalizing retry c with
  | nil => exact ⟨rfl, rfl⟩
  | cons entry topics ih =>
    have stored (retry : Bool) (d : Client) : (storeTopic retry d entry).2.brokers = d.brokers ∧
        (storeTopic retry d entry).2.seedBrokers = d.seedBrokers := by
      obtain ⟨metadata, left_, -, -⟩ := storePartitions_spec entry.name entry.partitions retry d
      simp only [storeTopic, left_, and_self]
    have first : (updateTopic now (retry, c) entry).2.brokers = c.brokers ∧
        (updateTopic now (retry, c) entry).2.seedBrokers = c.seedBrokers := by
      simp only [updateTopic]
      split_ifs
      · exact stored _ _
      · exact ⟨rfl, rfl⟩
      · exact ⟨rfl, rfl⟩
      · exact stored _ _
      · exact ⟨rfl, rfl⟩
    obtain ⟨brokers, seeds⟩ := ih (updateTopic now (retry, c) entry).1 (updateTopic now (retry, c) entry).2
    exact ⟨brokers.trans first.1, seeds.trans first.2⟩

theorem WellKeyed.apply (keyed : WellKeyed c.brokers) (event : Event) : WellKeyed (c.apply event).brokers := by
  cases event with
  | updateMetadata data all now =>
    simp only [Client.apply, Client.updateMetadata]
    split
    · exact keyed
    · rw [(updateTopics_registries _ _ _ _).1]
      split <;> exact keyed.updateBroker data.brokers
  | close =>
    simp only [Client.apply, Client.close]
    split
    · exact keyed
    · exact wellKeyed_empty
  | registerBroker broker =>
    simp only [Client.apply, Client.registerBroker]
    split
    · exact keyed
    · exact keyed.addBroker broker
  | deregisterBroker broker =>
    simp only [Client.apply, Client.deregisterBroker]
    split
    · exact keyed.erase _
    · split
      · exact keyed
      · split <;> exact keyed
  | deregisterController => exact keyed.erase _
  | refreshBrokers seeds =>
    simp only [Client.apply, Client.refreshBrokers]
    split
    · exact keyed
    · exact wellKeyed_empty
  | addTopics topics now => exact keyed
  | resurrectDeadBrokers => exact keyed

theorem WellKeyed.reaches (keyed : WellKeyed c.brokers) (reached : Transition.Reaches Step c d) : WellKeyed d.brokers := by
  have keeps (c : Client) (event : Event) (d : Client) (keyed : WellKeyed c.brokers) (step : Step c event d) :
      WellKeyed d.brokers := by
    rw [step]
    exact keyed.apply event
  exact reached.invariant keeps keyed

/-- In every client that comes of a new one the brokers are found by their ids. -/
theorem wellKeyed_of_reaches {seeds : List Seed} (reached : Transition.Reaches Step { seedBrokers := seeds } c) :
    WellKeyed c.brokers := WellKeyed.reaches wellKeyed_empty reached

end Coev.Kafka.Client
