import Coev.Model.Kafka.OffsetMessages
import Coev.Proofs.Kafka.ExactValues

/-! # Requests to commit offsets: what is carried
The codes that are dropped do not matter where a request was encoded. It is read back but for numbers that the fixed
mode cannot read, and but for topics without partitions, which end the loop of the decoder.
-/

namespace Coev.Kafka

open Std (ExtTreeMap)
open ByteString DecodeInto PacketDecoder PacketEncoder

/-- What a version has of a block; the rest is as in a fresh one. -/
def OffsetCommitRequestBlock.atVersion (version : Int16) (block : OffsetCommitRequestBlock) : OffsetCommitRequestBlock where
  offset := block.offset
  timestamp := if version = 1 then block.timestamp else 0
  committedLeaderEpoch := if 6 ≤ version then block.committedLeaderEpoch else 0
  metadata := block.metadata

/-- Only the metadata of a block can be refused. -/
theorem OffsetCommitRequestBlock.ignored_encode (version : Int16) (block : OffsetCommitRequestBlock) :
    ignoreCode () (block.encode version) =
      putInt64 block.offset >>= fun _ => inVersions (version = 1) (putInt64 block.timestamp) >>=
      fun _ => inVersions (6 ≤ version) (putInt32 block.committedLeaderEpoch) >>= fun _ => ignoreCode ()
        (putString block.metadata) := by
  rw [encode, (noCode_putInt64 _).ignoreCode_bind]
  simp only [(noCode_putInt64 block.timestamp).inVersions.ignoreCode_bind, (noCode_putInt32 _).inVersions.ignoreCode_bind]

theorem OffsetCommitRequestBlock.carries (version : Int16) (block : OffsetCommitRequestBlock) :
    CarriesInto false false (ignoreCode () (block.encode version)) (ignoreCode () (decode version)) default
      (block.atVersion version) 1 := by
  rw [ignored_encode]
  apply CarriesInto.extended _ (extends_ignoreCode _ _)
  apply CarriesInto.conclude
  · apply CarriesInto.seq
    · exact (carries_putInt64 _).field _ _ _
    apply CarriesInto.seq
    · exact CarriesInto.inVersions fun _ => (carries_putInt64 _).field _ _ _
    apply CarriesInto.seq
    · exact CarriesInto.inVersions fun _ => (carries_putInt32 _).field _ _ _
    exact (carries_ignored_putString _).field _ _ _
  · dsimp only [atVersion]
    split_ifs <;> rfl
  · omega

namespace OffsetCommitRequest

/-- The fields in front of the topics that a version has, in a fresh request. -/
def headAtVersion (r : Body) : Body where
  version := r.version
  consumerGroup := r.consumerGroup
  consumerGroupGeneration := if 1 ≤ r.version then r.consumerGroupGeneration else 0
  consumerId := if 1 ≤ r.version then r.consumerId else []
  groupInstanceId := if 7 ≤ r.version then r.groupInstanceId else []
  retentionTime := if 2 ≤ r.version ∧ r.version ≤ 4 then r.retentionTime else 0

theorem carries_head (r : Body) : CarriesInto false false (encodeHead r) (decodeHead r.version) {} (headAtVersion r) 1 := by
  apply CarriesInto.conclude
  · apply CarriesInto.afterUpdate
    apply CarriesInto.seq
    · exact (carries_ignored_putString _).field _ _ _
    apply CarriesInto.seq
    · apply CarriesInto.inVersions
      intro _
      apply CarriesInto.seq
      · exact ((carries_putInt32 _).field _ _ _).extended (extends_ignoreCode _ _)
      · exact ((carries_ignored_putString _).field _ _ _).extended (extends_ignoreCode _ _)
    apply CarriesInto.seq
    · exact CarriesInto.inVersions fun _ => ((carries_putInt64 _).field _ _ _).extended (extends_ignoreCode _ _)
    exact CarriesInto.inVersions fun _ =>
      ((carries_ignored_putNullableString _).field _ _ _).extended (extends_ignoreCode _ _)
  · dsimp only [headAtVersion]
    split_ifs <;> rfl
  · omega

/-- What a version has of the partitions of a topic. -/
def partitionsAtVersion (version : Int16) (partitions : ExtTreeMap Int32 OffsetCommitRequestBlock) :
    ExtTreeMap Int32 OffsetCommitRequestBlock := partitions.map fun _ => OffsetCommitRequestBlock.atVersion version

/-- What a version has of a request; the rest is as in a fresh one. -/
def atVersion (r : Body) : Body := { headAtVersion r with blocks := r.blocks.map fun _ => partitionsAtVersion r.version }

theorem carries_partitions (version : Int16) (partitions : ExtTreeMap Int32 OffsetCommitRequestBlock) :
    CarriesInto false false (partitions.toList.forM (encodePartition version))
      (entries default (nextPartition version) partitions.size)
      ∅ (partitionsAtVersion version partitions) partitions.size := by
  rw [← ExtTreeMap.length_toList]
  apply CarriesInto.entries (.refl _)
  intro partition block _ m new
  exact CarriesInto.nextEntry (carries_putInt32 partition) (OffsetCommitRequestBlock.carries version block) new

/-- A topic is written, then the rest. -/
theorem encodeTopic_bind (version : Int16) (topic : Bytes) (partitions : ExtTreeMap Int32 OffsetCommitRequestBlock)
    (put : Encode Unit) :
    (encodeTopic version (topic, partitions) >>= fun _ => put) = ignoreCode () (putString topic) >>= fun _ =>
      putArrayLength (Int32.ofNat partitions.size) >>= fun _ => partitions.toList.forM
        (encodePartition version) >>= fun _ => put := by
  simp only [encodeTopic, (noCode_putArrayLength _).ignoreCode_eq, bind_assoc]

/-- What is read behind the number of partitions of a topic, with so many topics to go. -/
def decodePartitions (version : Int16) (n : ℕ) (topic : Bytes) (partitionCount : Int32) :
    DecodeInto (ExtTreeMap Bytes (ExtTreeMap Int32 OffsetCommitRequestBlock)) Unit :=
  if partitionCount = 0 then pure ()
  else entry ∅ topic (entries default (nextPartition version) partitionCount.toInt.toNat) >>= fun _ => decodeTopics version n

theorem decodeTopics_succ (version : Int16) (n : ℕ) : decodeTopics version (n + 1) =
    read getString >>= fun topic => read getCount >>= decodePartitions version n topic := rfl

/-- A topic with partitions whose number can be read is read back, and the loop goes on. -/
theorem carries_topic {version : Int16} {topic : Bytes} {partitions : ExtTreeMap Int32 OffsetCommitRequestBlock}
    {m m' : ExtTreeMap Bytes (ExtTreeMap Int32 OffsetCommitRequestBlock)} {put : Encode Unit} {n : ℕ}
    (some_ : partitions.size ≠ 0) (readable : CountReadable (bigEndian 4 partitions.size)) (new : m[topic]? = none)
    (rest : CarriesInto false false put (decodeTopics version n)
    (m.insert topic (partitionsAtVersion version partitions)) m' n) :
    CarriesInto false false (encodeTopic version (topic, partitions) >>= fun _ => put)
      (decodeTopics version (n + 1)) m m' (n + 1) := by
  rw [encodeTopic_bind, decodeTopics_succ]
  have loop := ((carries_partitions version partitions).entry new).seq rest
  have counted : CarriesInto false false (putArrayLength (Int32.ofNat partitions.size) >>= fun _ =>
      partitions.toList.forM (encodePartition version) >>= fun _ => put)
        (read getCount >>= decodePartitions version n topic) m m'
      (partitions.size + n) := by
    apply CarriesInto.countedBy (extends_ignoreCode _ _) (fun _ => readable) loop (Nat.le_add_right _ _)
    intro small
    rw [decodePartitions, if_neg (int32_ofNat_ne_zero small some_), int32_ofNat_loop small]
  exact ((carries_ignored_putString topic).seqInto counted).weaken (by omega)

/-- A topic has partitions, and their number can be read. -/
def PartitionsReadable (partitions : ExtTreeMap Int32 OffsetCommitRequestBlock) : Prop :=
  partitions.size ≠ 0 ∧ CountReadable (bigEndian 4 partitions.size)

/-- The numbers in a request can be read, and every topic has partitions. -/
abbrev Readable (r : Body) : Prop := EntriesReadable PartitionsReadable r.blocks

theorem carries_topics {version : Int16} {topics : List Topic}
    {m : ExtTreeMap Bytes (ExtTreeMap Int32 OffsetCommitRequestBlock)}
    (readable : ∀ topic ∈ topics, PartitionsReadable topic.2) (distinct : topics.Pairwise fun a b => a.1 ≠ b.1)
    (new : ∀ topic ∈ topics, m[topic.1]? = none) :
    CarriesInto false false (topics.forM (encodeTopic version)) (decodeTopics version topics.length) m
      (topics.foldl (fun m topic => m.insert topic.1 (partitionsAtVersion version topic.2)) m) topics.length := by
  induction topics generalizing m with
  | nil => exact CarriesInto.pure m
  | cons topic topics ih =>
    obtain ⟨readableHead, readableTail⟩ := List.forall_mem_cons.mp readable
    obtain ⟨others, distinct⟩ := List.pairwise_cons.mp distinct
    obtain ⟨newHead, newTail⟩ := List.forall_mem_cons.mp new
    apply carries_topic readableHead.1 readableHead.2 newHead
    apply ih readableTail distinct
    intro other member
    rw [ExtTreeMap.getElem?_insert, if_neg]
    · exact newTail other member
    · intro same
      exact others other member (Std.LawfulEqCmp.eq_of_compare same)

/-- What is written behind the head, in a valid version. -/
theorem encode_eq {r : Body} (valid : IsValidVersion r.version) (order : List Topic) : encode order r =
    encodeHead r >>= fun _ => putArrayLength (Int32.ofNat r.blocks.size) >>= fun _ => order.forM
      (encodeTopic r.version) := by
  rw [encode, if_neg (not_not.mpr valid), (noCode_putArrayLength _).ignoreCode_eq]

theorem carries {r : Body} {order : List Topic} (valid : IsValidVersion r.version) (perm : order.Perm r.blocks.toList)
    (readable : Readable r) : CarriesInto false false (encode order r) (decode r.version) {} (atVersion r) 1 := by
  have length : order.length = r.blocks.size := perm.length_eq.trans ExtTreeMap.length_toList
  have topics : CarriesInto false false (order.forM (encodeTopic r.version)) (decodeTopics r.version r.blocks.size) ∅
      (r.blocks.map fun _ => partitionsAtVersion r.version) r.blocks.size := by
    rw [← ExtTreeMap.foldl_insert_order perm (partitionsAtVersion r.version), ← length]
    apply carries_topics _ (ExtTreeMap.pairwise_of_perm_toList perm) fun _ _ => ExtTreeMap.getElem?_empty
    rintro ⟨topic, partitions⟩ member
    rw [perm.mem_iff, ExtTreeMap.mem_toList_iff_getElem?_eq_some] at member
    exact readable.each topic partitions member
  have tail :
      CarriesInto false false
        (putArrayLength (Int32.ofNat r.blocks.size) >>= fun _ => order.forM (encodeTopic r.version))
      (read getCount >>= decodeTail r.version) (headAtVersion r) (atVersion r) r.blocks.size := by
    by_cases none_ : r.blocks.size = 0
    · rw [none_] at length topics ⊢
      rw [List.eq_nil_of_length_eq_zero length]
      have same : headAtVersion r = atVersion r := by
        rw [← ExtTreeMap.eq_empty_iff_size_eq_zero] at none_
        rw [atVersion, none_]
        rfl
      rw [← same]
      apply CarriesInto.countedBy (extends_ignoreCode _ _) (fun _ => countReadable_zero) (CarriesInto.pure _) (Nat.le_refl 0)
      intro _
      rfl
    · have behind :
          CarriesInto false false (order.forM (encodeTopic r.version)) (update ({ · with blocks := ∅ }) >>= fun _ =>
          part Body.blocks (fun blocks r => { r with blocks }) (decodeTopics r.version r.blocks.size)) (headAtVersion r)
            (atVersion r)
          r.blocks.size := CarriesInto.afterUpdate (CarriesInto.part topics)
      apply CarriesInto.countedBy (extends_ignoreCode _ _) (fun _ => readable.count) behind (Nat.le_refl _)
      intro small
      rw [decodeTail, if_neg (int32_ofNat_ne_zero small none_), int32_ofNat_loop small]
  rw [encode_eq valid]
  exact ((carries_head r).seq tail).weaken (Nat.le_add_right 1 _)

theorem sized_topic (version : Int16) (topic : Topic) : Sized false (encodeTopic version topic) 1 := by
  have key := (@carries_ignored_putString false false topic.1).sized
  have partitions := (carries_partitions version topic.2).sized
  rw [encodeTopic, (noCode_putArrayLength _).ignoreCode_eq]
  exact (key.bind ((sized_putArrayLength _).bind partitions)).weaken (by omega)

/-- So many topics are no more than so many keys, and the loop may end before. -/
theorem grewBy_topics {version : Int16} {n : ℕ} {m m' : ExtTreeMap Bytes (ExtTreeMap Int32 OffsetCommitRequestBlock)}
    {pd pd' : PacketDecoder} (run : decodeTopics version n (m, pd) = .ok () (m', pd')) : m.GrewBy m' n := by
  induction n generalizing m pd with
  | zero =>
    cases run
    exact .same _ 0
  | succ n ih =>
    rw [decodeTopics_succ] at run
    obtain ⟨topic, ⟨m₁, pd₁⟩, name, rest⟩ := EStateM.bind_eq_ok_iff.mp run
    obtain ⟨count, ⟨m₂, pd₂⟩, number, partitions⟩ := EStateM.bind_eq_ok_iff.mp rest
    obtain ⟨-, rfl⟩ := read_eq_ok_iff.mp name
    obtain ⟨-, rfl⟩ := read_eq_ok_iff.mp number
    rw [decodePartitions] at partitions
    split at partitions
    · cases partitions
      exact .same _ _
    · obtain ⟨_, ⟨m₃, pd₃⟩, inserted, others⟩ := EStateM.bind_eq_ok_iff.mp partitions
      rw [Nat.add_comm]
      exact (grewBy_entry inserted).trans (ih others)

/-- A topic is read back, or it is missing for good. -/
theorem round_topics (version : Int16) : RoundOf false (encodeTopic version) (decodeTopics version) PartitionsReadable
    (partitionsAtVersion version) := by
  intro topic partitions m new
  have key := @carries_ignored_putString false false topic
  have written := carries_partitions version partitions
  by_cases good : PartitionsReadable partitions
  · left
    obtain ⟨some_, readable⟩ := id good
    refine ⟨good, fun put Q n rest => ?_⟩
    have behind := (written.entry new).leaves rest
    have counted : Leaves false (putArrayLength (Int32.ofNat partitions.size) >>= fun _ =>
        partitions.toList.forM (encodePartition version) >>= fun _ => put)
          (read getCount >>= decodePartitions version n topic) m Q
        (partitions.size + n) := by
      apply behind.countedBy (extends_ignoreCode _ _) (Nat.le_add_right _ _)
      intro small
      rw [countSeen_of_readable small readable, decodePartitions, if_neg (int32_ofNat_ne_zero small some_),
        int32_ofNat_loop small]
    rw [encodeTopic_bind, decodeTopics_succ]
    exact (key.leaves counted).weaken (fun _ _ holds => holds) (by omega)
  · right
    intro put n sized
    have behind : Leaves false (partitions.toList.forM (encodePartition version) >>= fun _ => put)
        (decodePartitions version n topic (countSeen partitions.size)) m
        (fun m' _ => Misses m m' topic (partitionsAtVersion version partitions) n) (partitions.size + n) := by
      apply (written.sized.bind sized).leaves
      intro small pd m' pd' run
      have few : partitions.size ≤ maxRequestSize := by omega
      rw [decodePartitions] at run
      split at run
      · cases run
        exact ⟨m, .same m n, Nat.le_succ _, fun grew => absurd grew (Nat.ne_of_lt (Nat.lt_succ_self _))⟩
      · next some_ =>
        rw [countSeen_eq_zero_iff few] at some_
        have unreadable : ¬ CountReadable (bigEndian 4 partitions.size) := fun readable => good ⟨some_, readable⟩
        rw [loop_of_unreadable few unreadable] at run
        obtain ⟨_, ⟨m₁, pd₁⟩, first, rest⟩ := EStateM.bind_eq_ok_iff.mp run
        rw [← entry_of_skip new first] at rest
        exact misses_of_fresh (map_ne_empty _ some_) (grewBy_topics rest)
    have counted : Leaves false (putArrayLength (Int32.ofNat partitions.size) >>= fun _ =>
        partitions.toList.forM (encodePartition version) >>= fun _ => put)
          (read getCount >>= decodePartitions version n topic) m _
        (partitions.size + n) := behind.countedBy (extends_ignoreCode _ _) (Nat.le_add_right _ _) fun _ => rfl
    rw [encodeTopic_bind, decodeTopics_succ]
    exact (key.leaves counted).weaken (fun _ _ holds => holds) (by omega)

/-- The topics come back only when each of them is read back. -/
theorem leaves_topics {r : Body} {order : List Topic} (valid : IsValidVersion r.version)
    (perm : order.Perm r.blocks.toList) : Leaves false (encode order r) (decode r.version) {}
      (fun o _ => o.blocks = (atVersion r).blocks → Readable r) 1 := by
  obtain ⟨rounds, same, leaves⟩ := (round_topics r.version).counted rfl (sized_topic r.version) perm
  have counted : Leaves false (putArrayLength (Int32.ofNat r.blocks.size) >>= fun _ => order.forM (encodeTopic r.version))
      (read getCount >>= decodeTail r.version) (headAtVersion r) (fun o _ => o.blocks = (atVersion r).blocks → Readable r)
      r.blocks.size := by
    by_cases none_ : r.blocks.size = 0
    · apply (((sized_putArrayLength _).bind leaves.sized).weaken (Nat.le_add_left _ _)).leaves
      intro _ _ _ _ _ _
      rw [← ExtTreeMap.eq_empty_iff_size_eq_zero] at none_
      rw [Readable, none_]
      exact entriesReadable_empty _
    · have behind : Leaves false (order.forM (encodeTopic r.version)) (update ({ · with blocks := ∅ }) >>= fun _ =>
          part Body.blocks (fun blocks r => { r with blocks }) (decodeTopics r.version rounds)) (headAtVersion r)
          (fun o _ => o.blocks = (atVersion r).blocks → Readable r) r.blocks.size := Leaves.afterUpdate (Leaves.part leaves)
      apply behind.countedBy (extends_ignoreCode _ _) (Nat.le_refl _)
      intro small
      have some_ : countSeen r.blocks.size ≠ 0 := by
        rwa [Ne, countSeen_eq_zero_iff small]
      rw [decodeTail, if_neg some_, same small]
  rw [encode_eq valid]
  exact ((carries_head r).leaves counted).weaken (fun _ _ holds => holds) (Nat.le_add_right 1 _)

/-- Decoding the encoding gives back what the version has of the request. -/
def RoundTrips (r : Body) (bytes : Bytes) : Prop := decodeVersion false (decode r.version) bytes {} = .ok () (atVersion r)

theorem roundTrips_iff {r : Body} {order : List Topic} {bytes : Bytes} (valid : IsValidVersion r.version)
    (perm : order.Perm r.blocks.toList) (encoded : encodeBody false (encode order r) = .ok bytes) :
    RoundTrips r bytes ↔ Readable r := by
  constructor
  · intro decoded
    exact (leaves_topics valid perm).of_decodeVersion Nat.one_pos encoded decoded rfl
  · intro readable
    exact (carries valid perm readable).decodeVersion_eq_ok Nat.one_pos encoded

end OffsetCommitRequest

end Coev.Kafka

/-! ## Fetching committed offsets: what comes back

In the fixed mode a request for all topics is refused, whatever length it has.
-/

namespace Coev.Kafka

open Std (ExtTreeMap)
open ByteString DecodeInto PacketDecoder PacketEncoder TopicPartitions

namespace OffsetFetchRequest

variable {r o : OffsetFetchRequest}

/-- In the fixed mode there is a topic, and the numbers of the topics and of their partitions can be read. -/
structure Readable (r : OffsetFetchRequest) : Prop where
  someTopic : isFlexibleVersion r.version = false → r.partitions ≠ ∅
  partitions : MapReadable (isFlexibleVersion r.version)
    (fun parts : List Int32 => isFlexibleVersion r.version = false → CountReadable (bigEndian 4 parts.length)) r.partitions

theorem exact_topic (version : Int16) (topic : Bytes) (parts : List Int32) (m : ExtTreeMap Bytes (List Int32)) :
    Exact false (isFlexibleVersion version) (encodeTopic version (topic, parts)) decodeTopic m (m.insert topic parts)
      (Misread topic parts) (isFlexibleVersion version = false → CountReadable (bigEndian 4 parts.length)) 1 := by
  have value : Exact false (isFlexibleVersion version)
      (do putInt32Array parts; inVersions (isFlexibleVersion version) putEmptyTaggedFieldArray)
      (do field getInt32Array fun parts _ => parts; read getEmptyTaggedFieldArray) [] parts (· ≠ parts)
      (isFlexibleVersion version = false → CountReadable (bigEndian 4 parts.length)) (1 + 0) := by
    apply Exact.seqSkip
    · apply (exact_putInt32Array (fun isStrict => absurd isStrict Bool.false_ne_true) parts).field
      · exact fun _ differs => differs
      · exact fun differs => differs rfl
    · exact carries_taggedFields Iff.rfl
  exact ((carries_ignored_putString topic).seqExact value.newEntry).weaken (Nat.le_add_left 1 1)

theorem grewBy_topic {m m' : ExtTreeMap Bytes (List Int32)} {pd pd' : PacketDecoder}
    (run : decodeTopic (m, pd) = .ok () (m', pd')) : m.GrewBy m' 1 := by
  obtain ⟨topic, ⟨m₁, pd₁⟩, name, rest⟩ := EStateM.bind_eq_ok_iff.mp run
  obtain ⟨-, rfl⟩ := read_eq_ok_iff.mp name
  obtain ⟨parts, -, rfl⟩ := aside_eq_ok_iff.mp rest
  exact .insert m topic parts

/-- Topics come back. -/
theorem exact_someTopics (start : o.partitions = ∅) (some_ : r.partitions ≠ ∅) :
    Exact false (isFlexibleVersion r.version) r.encodeTopics (decodeTopics r.version) o
      { o with partitions := r.partitions }
      (fun o => o.partitions ≠ r.partitions.map fun _ parts => parts) (MapReadable (isFlexibleVersion r.version)
        (fun parts : List Int32 => isFlexibleVersion r.version = false → CountReadable (bigEndian 4 parts.length))
          r.partitions) 1 := by
  have length : r.length = Int32.ofNat r.partitions.size := by
    rw [length, if_neg fun none_ => some_ (ExtTreeMap.isEmpty_iff.mp none_.1)]
  have size : r.partitions.size ≠ 0 := fun none_ => some_ (ExtTreeMap.eq_empty_iff_size_eq_zero.mpr none_)
  rw [encodeTopics, length]
  apply Exact.mapMemberOf partitions (fun partitions r => { r with partitions }) (.refl _) (fun _ => rfl)
    (.refl r.partitions.toList) (fun topic parts m _ => exact_topic r.version topic parts m) (fun _ _ _ _ => grewBy_topic)
    (fun _ => rfl) _ start
  · intro small pd
    have positive := int32_ofNat_ne_zero small size
    have proper : ¬ (Int32.ofNat r.partitions.size = 0 ∧ r.version < 2 ∨ Int32.ofNat r.partitions.size < 0) := by
      rintro (⟨zero, -⟩ | negative)
      · exact positive zero
      · exact int32_ofNat_not_neg small negative
    rw [if_neg proper, EStateM.bind_of_ok (update_of_same (by rw [← start]) pd), int32_ofNat_loop small]
  · intro count negative pd o' pd' run
    rw [if_pos (.inr negative)] at run
    cases run
  · rw [ExtTreeMap.map_unchanged]

/-- No topics come back in the flexible mode only. -/
theorem exact_noTopics (start : o.partitions = ∅) (none_ : r.partitions = ∅) :
    Exact false (isFlexibleVersion r.version) r.encodeTopics (decodeTopics r.version) o { o with partitions := r.partitions }
      (fun o => o.partitions ≠ r.partitions) (isFlexibleVersion r.version = true) 0 := by
  have encoded : r.encodeTopics = (putArrayLength (if 2 ≤ r.version then -1 else Int32.ofNat 0) >>= fun _ => pure ()) := by
    rw [encodeTopics, length, none_]
    by_cases null : 2 ≤ r.version
    · rw [if_pos ⟨ExtTreeMap.isEmpty_empty, null⟩, if_pos null]
      rfl
    · rw [if_neg fun both => null both.2, if_neg null, ExtTreeMap.size_empty]
      rfl
  have same : { o with partitions := r.partitions } = o := by rw [none_, ← start]
  have refused {count : Int32} (improper : count = 0 ∧ r.version < 2 ∨ count < 0)
      (first : Carries false false (putArrayLength (if 2 ≤ r.version then -1 else Int32.ofNat 0)) getArrayLength count 0) :
      Leaves false (putArrayLength (if 2 ≤ r.version then -1 else Int32.ofNat 0) >>= fun _ => pure ())
        (decodeTopics r.version) o
        (fun o _ => o.partitions ≠ r.partitions) 0 := by
    have sized : Sized false (pure ()) 0 := (@CarriesInto.pure _ false false o).sized
    refine (first.leaves (sized.leaves ?_)).weaken (fun _ _ holds => holds) (Nat.zero_le _)
    intro small pd o' pd' run
    rw [if_pos improper] at run
    cases run
  rw [encoded, same]
  constructor
  · intro flexible
    have recent : 6 ≤ r.version := of_decide_eq_true flexible
    have null : 2 ≤ r.version := Int16.le_trans (by decide) recent
    rw [flexible, if_pos null]
    have proper : ¬ ((0 : Int32) = 0 ∧ r.version < 2 ∨ (0 : Int32) < 0) := by
      rintro (⟨-, old⟩ | negative)
      · exact absurd null (Int16.not_le.mpr old)
      · exact absurd negative (by decide)
    apply CarriesInto.weaken
    · apply (@carries_putNullLength true).seqInto
      apply (CarriesInto.pure o).of_run
      intro pd
      rw [if_pos rfl, if_neg proper, EStateM.bind_of_ok (update_of_same (by rw [← start]) pd)]
      rfl
    · exact Nat.zero_le _
  · intro notFlexible
    rw [Bool.not_eq_true] at notFlexible
    rw [notFlexible]
    split_ifs at refused ⊢ with null
    · exact refused (.inr (by decide)) (carries_putNullLength.weaken (Nat.zero_le 1))
    · exact refused (.inl ⟨rfl, Int16.not_le.mp null⟩) carries_putNoElements
  · rw [none_]
    exact fun differs => differs start

theorem exact_topics (start : o.partitions = ∅) :
    Exact false (isFlexibleVersion r.version) r.encodeTopics (decodeTopics r.version) o { o with partitions := r.partitions }
      (fun o => o.partitions ≠ r.partitions) r.Readable 0 := by
  by_cases none_ : r.partitions = ∅
  · apply (exact_noTopics start none_).conclude rfl _ (Nat.le_refl 0)
    constructor
    · intro flexible
      refine ⟨fun isFixed => absurd (flexible.symm.trans isFixed) Bool.noConfusion, ?_⟩
      rw [flexible]
      exact mapReadable_of_flexible fun _ => Bool.noConfusion
    · intro readable
      rw [← Bool.not_eq_false]
      exact fun isFixed => readable.someTopic isFixed none_
  · have topics := exact_someTopics start none_
    rw [ExtTreeMap.map_unchanged] at topics
    apply topics.conclude rfl _ (Nat.zero_le 1)
    exact ⟨fun partitions => ⟨fun _ => none_, partitions⟩, fun readable => readable.partitions⟩

theorem carries_tail (r : OffsetFetchRequest) :
    CarriesInto false (isFlexibleVersion r.version) r.encodeTail (decodeTail r.version)
    { r with requireStable := false } r 0 := by
  rw [encodeTail]
  split
  · exact CarriesInto.of_none (writes_faultWith _)
  · next supported =>
    apply CarriesInto.conclude
    · apply CarriesInto.seq
      · exact CarriesInto.inVersions fun _ => ((carries_putBool r.requireStable).field _ _ _).ignored
      · exact (carries_taggedFields Iff.rfl).skip _
    · split_ifs with present
      · rfl
      · have unstable : r.requireStable = false := by
          rw [← Bool.not_eq_true]
          exact fun stable => supported ⟨stable, Int16.not_le.mp present⟩
        rw [← unstable]
    · exact Nat.le_refl 0

theorem exact {r : OffsetFetchRequest} (valid : IsValidVersion r.version) :
    Exact false (isFlexibleVersion r.version) r.encode (decode r.version) {} r (· ≠ r) r.Readable 1 := by
  have inside : ¬ (r.version < 0 ∨ 7 < r.version) :=
    not_or.mpr ⟨Int16.not_lt.mpr valid.1, Int16.not_lt.mpr valid.2⟩
  rw [encode, if_neg inside]
  apply Exact.finish
  · apply Exact.afterUpdate
    apply CarriesInto.seqExact
    · exact (carries_ignored_putString r.consumerGroup).field _ _ _
    apply Exact.seqCarries
    · exact exact_topics rfl
    · exact carries_tail r
    · apply Keeps.seq
      · exact Keeps.inVersions (Keeps.ignoredField fun _ _ => rfl)
      · exact Keeps.readOr _ _
    · exact fun differs => differs rfl
  · rfl
  · exact Iff.rfl
  · omega

end OffsetFetchRequest

namespace OffsetFetchResponseBlock

/-- What a version has of a block; without a leader epoch it is `-1`. -/
def atVersion (version : Int16) (block : OffsetFetchResponseBlock) : OffsetFetchResponseBlock :=
  { block with leaderEpoch := if 5 ≤ version then block.leaderEpoch else -1 }

theorem carries_leaderEpoch {flexible : Bool} (version : Int16) (block : OffsetFetchResponseBlock)
    (o : OffsetFetchResponseBlock) :
    CarriesInto false flexible (inVersions (5 ≤ version) (putInt32 block.leaderEpoch)) (decodeLeaderEpoch version) o
      { o with leaderEpoch := if 5 ≤ version then block.leaderEpoch else -1 } 0 := by
  unfold inVersions decodeLeaderEpoch
  split
  · exact ((carries_putInt32 block.leaderEpoch).field _ _ o).weaken (Nat.zero_le 1)
  · exact CarriesInto.updated _ o

theorem carries {flexible : Bool} (version : Int16) (block : OffsetFetchResponseBlock) :
    CarriesInto false flexible (block.encode version) (decode version) {} (block.atVersion version) 1 := by
  apply CarriesInto.conclude
  · apply CarriesInto.seq
    · exact (carries_putInt64 block.offset).field _ _ _
    apply CarriesInto.seq
    · exact carries_leaderEpoch version block _
    apply CarriesInto.seq
    · exact (carries_ignored_putString block.metadata).field _ _ _
    apply CarriesInto.seq
    · exact carries_errField block.err _ _
    · exact (@carries_putEmptyTaggedFieldArray false flexible).ignored.skip _
  · rfl
  · omega

end OffsetFetchResponseBlock

namespace OffsetFetchResponse

/-- What a version has of an answer; the rest is as in a fresh one. -/
def atVersion (r : OffsetFetchResponse) : OffsetFetchResponse :=
  { r with
    throttleTime := if 3 ≤ r.version then r.throttleTime else 0
    blocks := r.blocks.map fun _ partitions => partitions.map fun _ => OffsetFetchResponseBlock.atVersion r.version
    err := if 2 ≤ r.version then r.err else 0 }

/-- The time fits in 32 bits where there is one, and the numbers of the topics and of their partitions can be read. -/
structure Readable (r : OffsetFetchResponse) : Prop where
  throttleTime : 3 ≤ r.version → DurationFits r.throttleTime
  blocks : MapReadable (isFlexibleVersion r.version) (fun partitions : ExtTreeMap Int32 OffsetFetchResponseBlock =>
    isFlexibleVersion r.version = false → CountReadable (bigEndian 4 partitions.size)) r.blocks

theorem exact_topic {flexible : Bool} (version : Int16) (topic : Bytes)
    (partitions : ExtTreeMap Int32 OffsetFetchResponseBlock)
    {m : ExtTreeMap Bytes (ExtTreeMap Int32 OffsetFetchResponseBlock)} (new : m[topic]? = none) :
    Exact false flexible (encodeTopic version (topic, partitions)) (decodeTopic version) m
      (m.insert topic (partitions.map fun _ => OffsetFetchResponseBlock.atVersion version))
      (Misread topic (partitions.map fun _ => OffsetFetchResponseBlock.atVersion version))
      (flexible = false → CountReadable (bigEndian 4 partitions.size)) 1 :=
  exact_countedTopic carries_ignored_putString
    (fun partition v m _ => exact_newPartition partition (OffsetFetchResponseBlock.carries version v).exact m)
    (fun _ _ _ _ => grewBy_newPartition) (@carries_putEmptyTaggedFieldArray false flexible).ignored topic (.refl _) rfl new

theorem keeps_decodeTopics {τ : Type} {f : OffsetFetchResponse → τ} {version : Int16}
    (keeps : ∀ blocks r, f { r with blocks := blocks } = f r) : Keeps f (decodeTopics version) := by
  apply (Keeps.readOr _ _).bind
  intro count
  split_ifs
  · apply Keeps.seq
    · exact Keeps.update (keeps ∅)
    · exact Keeps.part keeps
  · exact Keeps.pure ()

/-- What stands behind the topics leaves them alone. -/
theorem keeps_blocks {bad : ExtTreeMap Bytes (ExtTreeMap Int32 OffsetFetchResponseBlock) → Prop} (version : Int16) :
    Keeps (fun o : OffsetFetchResponse => bad o.blocks) (do
      inVersions (2 ≤ version) (errField fun err r => { r with err })
      read getEmptyTaggedFieldArray) := by
  apply Keeps.seq
  · exact Keeps.inVersions (Keeps.errField fun _ _ => rfl)
  · exact Keeps.readOr _ _

/-- What follows the time leaves it alone. -/
theorem keeps_throttleTime {bad : Int64 → Prop} (version : Int16) :
    Keeps (fun o : OffsetFetchResponse => bad o.throttleTime) (do
      decodeTopics version
      inVersions (2 ≤ version) (errField fun err r => { r with err })
      read getEmptyTaggedFieldArray) := by
  apply Keeps.seq
  · exact keeps_decodeTopics fun _ _ => rfl
  apply Keeps.seq
  · exact Keeps.inVersions (Keeps.errField fun _ _ => rfl)
  · exact Keeps.readOr _ _

theorem exact_topics (r : OffsetFetchResponse) {o : OffsetFetchResponse} (start : o.blocks = ∅) :
    Exact false (isFlexibleVersion r.version) r.encodeTopics (decodeTopics r.version) o
      { o with blocks := r.atVersion.blocks }
      (fun o => o.blocks ≠ r.atVersion.blocks) (MapReadable (isFlexibleVersion r.version)
        (fun partitions : ExtTreeMap Int32 OffsetFetchResponseBlock =>
          isFlexibleVersion r.version = false → CountReadable (bigEndian 4 partitions.size)) r.blocks) 1 := by
  apply Exact.mapMemberOf blocks (fun blocks r => { r with blocks }) (.refl _) (fun _ => rfl) (.refl r.blocks.toList)
    (fun topic partitions _ new => exact_topic r.version topic partitions new) (fun _ _ _ _ => grewBy_topic)
      (fun _ => rfl) rfl start
  · intro small pd
    split_ifs with positive
    · rw [EStateM.bind_of_ok (update_of_same (by rw [← start]) pd), int32_ofNat_loop small]
    · have none_ : r.blocks.size = 0 := by
        by_contra some_
        exact positive (int32_ofNat_pos small some_)
      rw [none_]
      rfl
  · intro count negative pd o' pd' run
    rw [if_neg (Int32.not_lt.mpr (Int32.le_of_lt negative))] at run
    cases run
    exact start

theorem exact (r : OffsetFetchResponse) :
    Exact false (isFlexibleVersion r.version) r.encode (decode r.version) {} r.atVersion (· ≠ r.atVersion) r.Readable 1 := by
  apply Exact.finish
  · apply Exact.afterUpdate
    apply Exact.both
    · exact exact_durationIn throttleTime (3 ≤ r.version) (fun _ => rfl) rfl
    · apply Exact.seqCarries
      · apply exact_topics
        split <;> rfl
      · apply CarriesInto.seq
        · exact CarriesInto.inVersions fun _ => carries_errField r.err _ _
        · exact carries_putEmptyTaggedFieldArray.skip _
      · exact @keeps_blocks (· ≠ r.atVersion.blocks) r.version
      · dsimp only
        split_ifs <;> exact fun differs => differs rfl
    · exact @keeps_throttleTime (· ≠ if 3 ≤ r.version then r.throttleTime else 0) r.version
    · dsimp only
      split_ifs <;> exact fun differs => differs rfl
  · dsimp only [atVersion]
    split_ifs <;> rfl
  · exact ⟨fun both => ⟨both.1, both.2⟩, fun readable => ⟨readable.throttleTime, readable.blocks⟩⟩
  · omega

end OffsetFetchResponse

end Coev.Kafka

/-! ## Listing offsets: what comes back

Of the replicas only those from `-1` on are told apart. The response keeps the version that it has.
-/

namespace Coev.Kafka

open ByteString DecodeInto PacketDecoder PacketEncoder TopicPartitions

variable {version : Int16}

namespace OffsetRequestBlock

/-- What a version has of a block; the rest is as in a fresh one. -/
def atVersion (version : Int16) (block : OffsetRequestBlock) : OffsetRequestBlock :=
  { block with
    leaderEpoch := if 4 ≤ version then block.leaderEpoch else -1
    maxNumOffsets := if version = 0 then block.maxNumOffsets else 0 }

theorem carries {strict flexible : Bool} (version : Int16) (block : OffsetRequestBlock) :
    CarriesInto strict flexible (block.encode version) (decode version) {} (block.atVersion version) 1 := by
  apply CarriesInto.conclude
  · apply CarriesInto.afterUpdate
    apply CarriesInto.seq
    · exact CarriesInto.inVersions fun _ => (carries_putInt32 block.leaderEpoch).field _ _ _
    apply CarriesInto.seq
    · exact (carries_putInt64 block.timestamp).field _ _ _
    · exact CarriesInto.inVersions fun _ => (carries_putInt32 block.maxNumOffsets).field _ _ _
  · dsimp only [atVersion]
    split_ifs <;> rfl
  · omega

end OffsetRequestBlock

namespace OffsetRequest

/-- What a version has of a request; a replica below zero is none. -/
def atVersion (r : OffsetRequest) : OffsetRequest :=
  { r with
    level := if 2 ≤ r.version then r.level else .ReadUncommitted
    replicaIdField := r.replicaId
    isReplicaIdSet := 0 ≤ r.replicaId
    blocks := r.blocks.map fun _ partitions => partitions.map fun _ => OffsetRequestBlock.atVersion r.version }

/-- The replica is one from `-1` on, and the numbers of the topics and of their partitions can be read. -/
structure Readable (r : OffsetRequest) : Prop where
  replicaId : -1 ≤ r.replicaId
  blocks :
    MapReadable false
      (fun partitions : Std.ExtTreeMap Int32 OffsetRequestBlock => CountReadable (bigEndian 4 partitions.size))
    r.blocks

theorem encodeReplicaId_eq (r : OffsetRequest) : r.encodeReplicaId = putInt32 r.replicaId := by
  rw [encodeReplicaId, replicaId]
  split <;> rfl

theorem exact_replicaId (id : Int32) {o : OffsetRequest} (field : o.replicaIdField = -1) (unset : o.isReplicaIdSet = false) :
    Exact false false (putInt32 id) decodeReplicaId o { o with replicaIdField := id, isReplicaIdSet := 0 ≤ id }
      (fun o => o.replicaIdField ≠ id) (-1 ≤ id) 1 where
  carries proper := by
    apply ((carries_putInt32 id).field _ _ o).conclude _ (Nat.le_refl 1)
    split_ifs with isSet
    · rw [setReplicaId, decide_eq_true isSet]
    · have none_ : id = -1 := by
        have zero : (0 : Int32).toInt = 0 := rfl
        have minusOne : (-1 : Int32).toInt = -1 := rfl
        rw [Int32.le_iff_toInt_le, minusOne] at proper
        rw [Int32.le_iff_toInt_le, zero] at isSet
        apply Int32.toInt_inj.mp
        omega
      rw [decide_eq_false isSet, none_, ← field, ← unset]
  spoils improper := by
    have negative : ¬ 0 ≤ id := fun isSet => improper (Int32.le_trans (by decide) isSet)
    apply ((@carries_putInt32 false false id).field _ _ o).only.weaken _ (Nat.le_refl 1)
    rintro o' - rfl same
    rw [if_neg negative, field] at same
    exact improper (same ▸ Int32.le_refl _)
  right := fun differs => differs rfl

theorem exact_topic (version : Int16) (topic : Bytes) (partitions : Std.ExtTreeMap Int32 OffsetRequestBlock)
    {m : Std.ExtTreeMap Bytes (Std.ExtTreeMap Int32 OffsetRequestBlock)} (new : m[topic]? = none) :
    Exact false false (encodeTopic version (topic, partitions)) (decodeTopic version) m
      (m.insert topic (partitions.map fun _ => OffsetRequestBlock.atVersion version))
      (Misread topic (partitions.map fun _ => OffsetRequestBlock.atVersion version))
        (CountReadable (bigEndian 4 partitions.size)) 1 := by
  apply Exact.conclude
  · exact exact_countedTopic carries_putString
      (fun partition v _ => exact_partition partition (OffsetRequestBlock.carries version v).exact)
      (fun _ _ _ _ => grewBy_partition) (Carries.pure ()) topic (.refl _) rfl new
  · rfl
  · exact forall_prop_of_true rfl
  · exact Nat.le_refl 1

theorem exact_topics {r o : OffsetRequest} {order : List Topic} (perm : order.Perm r.blocks.toList)
    (start : o.blocks = ∅) :
    Exact false false (encodeTopics order r) (decodeTopics r.version) o { o with blocks := r.atVersion.blocks }
      (fun o => o.blocks ≠ r.atVersion.blocks) (MapReadable false
        (fun partitions : Std.ExtTreeMap Int32 OffsetRequestBlock => CountReadable (bigEndian 4 partitions.size))
        r.blocks) 1 := by
  apply Exact.mapMemberOf blocks (fun blocks r => { r with blocks }) (.refl _) (fun _ => rfl) perm
    (fun topic partitions _ new => exact_topic r.version topic partitions new) (fun _ _ _ _ => grewBy_topic)
      (fun _ => rfl) rfl start
  · intro small pd
    split_ifs with none_
    · have empty : r.blocks.size = 0 := by
        by_contra some_
        exact int32_ofNat_ne_zero small some_ none_
      rw [empty]
      rfl
    · rw [EStateM.bind_of_ok (update_of_same (by rw [← start]) pd), int32_ofNat_loop small]
  · intro count negative pd o' pd' run
    have some_ : count ≠ 0 := by
      rintro rfl
      exact absurd negative (by decide)
    rw [if_neg some_, EStateM.bind_of_ok (update_of_same (by rw [← start]) pd), rounds_of_neg negative] at run
    cases run
    exact start

theorem keeps_decodeTopics {τ : Type} {f : OffsetRequest → τ} (keeps : ∀ blocks r, f { r with blocks := blocks } = f r) :
    Keeps f (decodeTopics version) := by
  apply (Keeps.readOr _ _).bind
  intro count
  split_ifs
  · exact Keeps.pure ()
  · apply Keeps.seq
    · exact Keeps.update (keeps ∅)
    · exact Keeps.part keeps

/-- What follows the replica leaves it alone. -/
theorem keeps_replicaId {bad : Int32 → Prop} (version : Int16) :
    Keeps (fun o : OffsetRequest => bad o.replicaIdField) (do
      inVersions (2 ≤ version)
        (field getBool fun tmp r => { r with level := if tmp then .ReadCommitted else .ReadUncommitted })
      decodeTopics version) := by
  apply Keeps.seq
  · exact Keeps.inVersions (Keeps.fieldOr fun _ _ => rfl)
  · exact keeps_decodeTopics fun _ _ => rfl

theorem exact {r : OffsetRequest} {order : List Topic} (perm : order.Perm r.blocks.toList) :
    Exact false false (encode order r) (decode r.version) {} r.atVersion (· ≠ r.atVersion) r.Readable 1 := by
  rw [encode, encodeReplicaId_eq]
  apply Exact.finish
  · apply Exact.afterUpdate
    apply Exact.both
    · exact exact_replicaId r.replicaId rfl rfl
    · apply CarriesInto.seqExact
      · exact CarriesInto.inVersions fun _ => (carries_putBool (r.level = .ReadCommitted)).field _ _ _
      · apply exact_topics perm
        split <;> rfl
    · exact @keeps_replicaId (· ≠ r.replicaId) r.version
    · dsimp only
      split_ifs <;> exact fun differs => differs rfl
  · have level :
        (if decide (r.level = .ReadCommitted) then IsolationLevel.ReadCommitted else .ReadUncommitted) = r.level := by
      cases r.level <;> rfl
    dsimp only [atVersion]
    rw [level]
    split_ifs <;> rfl
  · exact ⟨fun both => ⟨both.1, both.2⟩, fun readable => ⟨readable.replicaId, readable.blocks⟩⟩
  · omega

end OffsetRequest

namespace OffsetResponseBlock

/-- What a version has of a block: the offsets in version 0, and one offset from then on. -/
def atVersion (version : Int16) (block : OffsetResponseBlock) : OffsetResponseBlock :=
  if version = 0 then { err := block.err, offsets := block.offsets }
  else { block with
    offsets := [block.offset]
    leaderEpoch := if 4 ≤ version then block.leaderEpoch else -1 }

/-- The number of the offsets can be read. -/
def Readable (version : Int16) (block : OffsetResponseBlock) : Prop :=
  version = 0 → CountReadable (bigEndian 4 block.offsets.length)

theorem exact_offset (block : OffsetResponseBlock) (valid : 0 ≤ version) :
    Exact false false (block.encodeOffset version) (decodeOffset version) { err := block.err } (block.atVersion version)
      (· ≠ block.atVersion version) (block.Readable version) 0 := by
  unfold encodeOffset decodeOffset atVersion
  by_cases old : version = 0
  · rw [if_pos old, if_pos old, if_pos old]
    have offsets := (exact_putInt64Array block.offsets).iff (imp_iff_right old).symm
    apply (offsets.field _ _).weaken (Nat.zero_le 1)
    · rintro offsets differs same
      exact differs (congrArg OffsetResponseBlock.offsets same)
    · exact fun differs => differs rfl
  · rw [if_neg old, if_neg old, if_neg old]
    have present : 1 ≤ version := by
      rw [Int16.le_iff_toInt_le] at valid ⊢
      have zero : (0 : Int16).toInt = 0 := rfl
      have one : (1 : Int16).toInt = 1 := rfl
      have some_ : version.toInt ≠ 0 := fun same => old (Int16.toInt_inj.mp same)
      omega
    apply Exact.finish
    · apply CarriesInto.exact
      apply CarriesInto.seq
      · rw [inVersions_of present, inVersions_of present]
        apply CarriesInto.seq
        · exact (carries_putInt64 block.timestamp).field _ _ _
        · exact ((carries_putInt64 block.offset).field _ _ _).thenUpdate _
      · exact CarriesInto.inVersions fun _ => (carries_putInt32 block.leaderEpoch).field _ _ _
    · split_ifs <;> rfl
    · exact (iff_true_intro fun version0 => absurd version0 old).symm
    · exact Nat.zero_le _

theorem exact {version : Int16} (block : OffsetResponseBlock) (valid : 0 ≤ version) :
    Exact false false (block.encode version) (decode version) {} (block.atVersion version) (· ≠ block.atVersion version)
      (block.Readable version) 1 := by
  have behind :=
    (@carries_errField _ false false block.err (fun err block => { block with err })
      ({} : OffsetResponseBlock)).seqExact
    (block.exact_offset valid)
  exact behind.weaken (Nat.le_refl 1)

end OffsetResponseBlock

namespace OffsetResponse

/-- What a version has of an answer; the rest is as in a fresh one. -/
def atVersion (r : OffsetResponse) : OffsetResponse :=
  { r with
    throttleTime := if 2 ≤ r.version then r.throttleTime else 0
    blocks := r.blocks.map fun _ partitions => partitions.map fun _ => OffsetResponseBlock.atVersion r.version }

/-- The time fits in 32 bits where there is one, and the numbers of the topics, of their partitions and of the offsets can be
read. -/
structure Readable (r : OffsetResponse) : Prop where
  throttleTime : 2 ≤ r.version → DurationFits r.throttleTime
  blocks : MapReadable false (MapReadable false fun block : OffsetResponseBlock => block.Readable r.version) r.blocks

theorem exact_topic {orderOf : OrderOf} (valid : 0 ≤ version) (topic : Bytes)
    {partitions : Std.ExtTreeMap Int32 OffsetResponseBlock} (perm : (orderOf topic partitions).Perm partitions.toList)
    {m : Std.ExtTreeMap Bytes (Std.ExtTreeMap Int32 OffsetResponseBlock)} (new : m[topic]? = none) :
    Exact false false (encodeTopic orderOf version (topic, partitions)) (decodeTopic version) m
      (m.insert topic (partitions.map fun _ => OffsetResponseBlock.atVersion version))
      (Misread topic (partitions.map fun _ => OffsetResponseBlock.atVersion version))
      (MapReadable false (fun block : OffsetResponseBlock => block.Readable version) partitions) 1 :=
  TopicPartitions.exact_topic carries_putString
    (fun partition block _ new => exact_partition partition (block.exact valid) new)
    (fun _ _ _ _ => grewBy_partition) (Carries.pure ()) topic perm rfl new

theorem exact {r : OffsetResponse} {order : List Topic} {orderOf : OrderOf} (valid : 0 ≤ r.version)
    (perm : order.Perm r.blocks.toList) (permOf : ∀ topic partitions, (orderOf topic partitions).Perm partitions.toList)
    (fresh : Int16) : Exact false false (encode order orderOf r) (decode r.version) { version := fresh }
      { r.atVersion with version := fresh } (· ≠ { r.atVersion with version := fresh }) r.Readable 1 := by
  apply Exact.finish
  · apply Exact.both
    · exact exact_durationIn throttleTime (2 ≤ r.version) (fun _ => rfl) rfl
    · apply Exact.tableMember perm (fun topic partitions _ new => exact_topic valid topic (permOf topic partitions) new)
        (fun _ _ _ _ => grewBy_topic) (fun _ => rfl) rfl
      split <;> rfl
    · exact keeps_tableMember fun _ _ => rfl
    · dsimp only
      split_ifs <;> exact fun differs => differs rfl
  · dsimp only [atVersion]
    split_ifs <;> rfl
  · exact ⟨fun both => ⟨both.1, both.2⟩, fun readable => ⟨readable.throttleTime, readable.blocks⟩⟩
  · omega

/-- Decoding leaves the version alone. -/
theorem keeps_version (version : Int16) : Keeps OffsetResponse.version (decode version) := by
  apply Keeps.seq
  · exact Keeps.inVersions (Keeps.fieldOr fun _ _ => rfl)
  · exact keeps_tableMember fun _ _ => rfl

end OffsetResponse

end Coev.Kafka

/-! ## Adding partitions to a transaction: what comes back
The request comes back where its numbers can be read, and the response where its time fits in 32 bits, too. Any part of
such an encoding is refused.
-/

namespace Coev.Kafka.Body

open ByteString DecodeInto PacketDecoder PacketEncoder

variable {strict : Bool}

theorem PartitionError.carries {flexible : Bool} (error : PartitionError) :
    CarriesInto strict flexible error.encode decode {} error 1 := by
  have fields : CarriesInto strict flexible error.encode decode {} error (1 + 1) := by
    apply CarriesInto.seq
    · exact (carries_putInt32 error.partition).field _ _ _
    · exact carries_errField error.err _ _
  exact fields.weaken (Nat.le_add_left 1 1)

namespace AddPartitionsToTxnRequest

/-- The numbers of the topics and of their partitions can be read. -/
abbrev Readable (r : AddPartitionsToTxnRequest) : Prop :=
  MapReadable false (fun partitions : List Int32 => CountReadable (bigEndian 4 partitions.length)) r.topicPartitions

theorem exact_topic (topic : Bytes) (partitions : List Int32) (m : Std.ExtTreeMap Bytes (List Int32)) :
    Exact strict false (encodeTopic (topic, partitions)) decodeTopic m (m.insert topic partitions) (Misread topic partitions)
      (CountReadable (bigEndian 4 partitions.length)) 1 := by
  have value : Exact strict false (putInt32Array partitions)
      (field getInt32Array fun partitions m => m.insert topic partitions) m (m.insert topic partitions)
        (Misread topic partitions)
      (CountReadable (bigEndian 4 partitions.length)) 1 := by
    apply ((exact_putInt32Array (fun _ => rfl) partitions).iff (forall_prop_of_true rfl)).field
    · intro other differs
      exact misread_insert differs
    · exact not_misread_insert
  exact ((carries_putString topic).seqExact value).weaken (Nat.le_add_left 1 1)

/-- One round makes one entry. -/
theorem grewBy_topic {m m' : Std.ExtTreeMap Bytes (List Int32)} {pd pd' : PacketDecoder}
    (run : decodeTopic (m, pd) = .ok () (m', pd')) : m.GrewBy m' 1 := by
  obtain ⟨topic, ⟨m₁, pd₁⟩, name, rest⟩ := EStateM.bind_eq_ok_iff.mp run
  obtain ⟨-, rfl⟩ := read_eq_ok_iff.mp name
  obtain ⟨partitions, ⟨m₂, pd₂⟩, value, stored⟩ := EStateM.bind_eq_ok_iff.mp rest
  obtain ⟨-, rfl⟩ := readOr_eq_ok_iff.mp value
  obtain ⟨rfl, -⟩ := update_eq_ok_iff.mp stored
  exact .insert m topic partitions

variable {r : AddPartitionsToTxnRequest} {order : List Topic}

theorem exact (perm : order.Perm r.topicPartitions.toList) :
    Exact strict false (encode order r) (decode r.version) { version := r.version } r (· ≠ r) r.Readable 1 := by
  apply Exact.finish
  · apply CarriesInto.seqExact
    · exact (carries_putString r.transactionalId).field _ _ _
    apply CarriesInto.seqExact
    · exact (carries_putInt64 r.producerId).field _ _ _
    apply CarriesInto.seqExact
    · exact (carries_putInt16 r.producerEpoch).field _ _ _
    exact Exact.mapMember perm (fun topic partitions m _ => exact_topic topic partitions m) (fun _ _ _ _ => grewBy_topic)
      (fun _ => rfl) rfl rfl
  · rw [Std.ExtTreeMap.map_unchanged]
  · exact Iff.rfl
  · omega

end AddPartitionsToTxnRequest

namespace AddPartitionsToTxnResponse

/-- The time fits in 32 bits, and the numbers of the topics and of their errors can be read. -/
structure Readable (r : AddPartitionsToTxnResponse) : Prop where
  throttleTime : DurationFits r.throttleTime
  errors : MapReadable false (fun errors : List PartitionError => CountReadable (bigEndian 4 errors.length)) r.errors

theorem exact_topic (topic : Bytes) (errors : List PartitionError) {m : Std.ExtTreeMap Bytes (List PartitionError)}
    (new : m[topic]? = none) : Exact strict false (encodeTopic (topic, errors)) decodeTopic m (m.insert topic errors)
      (Misread topic errors) (CountReadable (bigEndian 4 errors.length)) 1 := by
  apply Exact.conclude
  · apply (carries_putString topic).seqExact
    exact Exact.entryVector (fun error _ => PartitionError.carries error) (List.map_id' errors) new
  · rfl
  · exact forall_prop_of_true rfl
  · exact Nat.le_add_left 1 1

theorem exact (r : AddPartitionsToTxnResponse) : Exact strict false r.encode (decode r.version) {} r
    (· ≠ r) r.Readable 1 := by
  apply Exact.finish
  · apply Exact.afterUpdate
    apply Exact.both
    · exact @exact_durationField _ strict false _ _ _ throttleTime fun _ => rfl
    · exact Exact.mapMember (.refl r.errors.toList) (fun topic errors _ new => exact_topic topic errors new)
        (fun _ _ _ _ => grewBy_countedEntry) (fun _ => rfl) rfl rfl
    · exact keeps_mapMember fun _ _ => rfl
    · exact fun differs => differs rfl
  · rw [Std.ExtTreeMap.map_unchanged]
  · exact ⟨fun both => ⟨both.1, both.2⟩, fun readable => ⟨readable.throttleTime, readable.errors⟩⟩
  · omega

end AddPartitionsToTxnResponse

end Coev.Kafka.Body

/-! ## Committing offsets in a transaction: what comes back
The request comes back where its numbers can be read. The response comes back only without errors, for the errors of a
topic are read out of bounds. Both decoders drop codes, so they take a first part of an encoding for a body.
-/

namespace Coev.Kafka.Body

open ByteString DecodeInto PacketDecoder PacketEncoder

theorem PartitionOffsetMetadata.carries (block : PartitionOffsetMetadata) :
    CarriesInto false false block.encode decode {} block 1 := by
  have fields : CarriesInto false false block.encode decode {} block (1 + (1 + (1 + 1))) := by
    apply CarriesInto.seq
    · exact ((carries_putInt32 block.partition).field _ _ _).ignored
    apply CarriesInto.seq
    · exact ((carries_putInt64 block.offset).field _ _ _).ignored
    apply CarriesInto.seq
    · exact ((carries_ignored_putString block.metadata).field _ _ _).ignored
    · exact ((carries_putInt32 block.leaderEpoch).field _ _ _).ignored
  exact fields.weaken (Nat.le_add_left 1 3)

namespace TxnOffsetCommitRequest

/-- The numbers of the topics and of their partitions can be read. -/
abbrev Readable (r : TxnOffsetCommitRequest) : Prop :=
  MapReadable false (fun partitions : List PartitionOffsetMetadata => CountReadable (bigEndian 4 partitions.length)) r.topics

theorem exact_topic (topic : Bytes) (partitions : List PartitionOffsetMetadata)
    {m : Std.ExtTreeMap Bytes (List PartitionOffsetMetadata)} (new : m[topic]? = none) :
    Exact false false (encodeTopic (topic, partitions)) decodeTopic m (m.insert topic partitions) (Misread topic partitions)
      (CountReadable (bigEndian 4 partitions.length)) 1 := by
  apply Exact.conclude
  · apply (carries_ignored_putString topic).seqExact
    exact Exact.entryVector (fun block _ => PartitionOffsetMetadata.carries block) (List.map_id' partitions) new
  · rfl
  · exact forall_prop_of_true rfl
  · exact Nat.le_add_left 1 1

theorem exact (r : TxnOffsetCommitRequest) : Exact false false r.encode (decode r.version) {} r
    (· ≠ r) r.Readable 2 := by
  apply Exact.finish
  · apply Exact.afterUpdate
    apply CarriesInto.seqExact
    · exact ((carries_ignored_putString r.transactionalId).field _ _ _).ignored
    apply CarriesInto.seqExact
    · exact ((carries_ignored_putString r.groupId).field _ _ _).ignored
    apply CarriesInto.seqExact
    · exact ((carries_putInt64 r.producerId).field _ _ _).ignored
    apply CarriesInto.seqExact
    · exact ((carries_putInt16 r.producerEpoch).field _ _ _).ignored
    exact Exact.mapMemberBy (extends_ignoreCode _ _) (fun isStrict => absurd isStrict Bool.false_ne_true)
      (.refl r.topics.toList)
      (fun topic partitions _ new => exact_topic topic partitions new) (fun _ _ _ _ => grewBy_countedEntry)
        (fun _ => rfl) rfl rfl
  · rw [Std.ExtTreeMap.map_unchanged]
  · exact Iff.rfl
  · omega

/-- A byte alone is taken for a request without anything. -/
theorem decode_byte (version : Int16) (b : UInt8) : ∃ o, decodeVersion false (decode version) [b] {} = .ok () o :=
  ⟨{ version, producerId := -1, producerEpoch := -1 }, rfl⟩

theorem not_refusesPrefixes (r : TxnOffsetCommitRequest) {bytes : Bytes} (encoded : encodeBody false r.encode = .ok bytes) :
    ¬ RefusesPrefixes false (decode r.version) {} bytes := by
  have long := r.exact.sized.le_length encoded
  obtain ⟨a, b, rest, rfl⟩ : ∃ a b rest, bytes = a :: b :: rest := by
    rcases bytes with _ | ⟨a, _ | ⟨b, rest⟩⟩
    · exact absurd long (by decide)
    · exact absurd long (by simp)
    · exact ⟨a, b, rest, rfl⟩
  obtain ⟨o, decoded⟩ := decode_byte r.version a
  exact Kafka.not_refusesPrefixes (List.cons_ne_nil b rest) decoded (List.cons_ne_nil a [])

end TxnOffsetCommitRequest

namespace TxnOffsetCommitResponse

/-- The time fits in 32 bits, the number of the topics can be read, and no topic has errors. -/
structure Readable (r : TxnOffsetCommitResponse) : Prop where
  throttleTime : DurationFits r.throttleTime
  topics : MapReadable false (fun errors : List PartitionError => errors = []) r.topics

/-- Only no errors are decoded. -/
theorem decodeErrors_eq_ok {m : Int32} {errors errors' : List PartitionError} {pd pd' : PacketDecoder}
    (run : decodeErrors m (errors, pd) = .ok () (errors', pd')) : m = 0 := by
  rw [decodeErrors] at run
  split at run
  · cases run
  · split at run
    · next none_ => exact none_
    · cases run

theorem exact_errors (topic : Bytes) (errors : List PartitionError) {m : Std.ExtTreeMap Bytes (List PartitionError)}
    (new : m[topic]? = none) :
    Exact false false (putArrayLength (Int32.ofNat errors.length) >>= fun _ => errors.forM PartitionError.encode)
      (read OffsetCommitRequest.getCount >>= fun n => entry [] topic (decodeErrors n)) m (m.insert topic errors)
        (Misread topic errors) (errors = []) 0 := by
  have sized : Sized false (errors.forM PartitionError.encode) errors.length :=
    Sized.forM fun error _ => (@PartitionError.carries false false error).sized
  by_cases none_ : errors = []
  · subst none_
    apply Exact.conclude
    · have untouched := (@CarriesInto.pure _ false false ([] : List PartitionError)).exact.entry new
      apply untouched.countedBy (extends_ignoreCode _ _) (fun isStrict => absurd isStrict Bool.false_ne_true) (Nat.le_refl 0)
      · intro _
        rfl
      · exact fun _ _ some_ => absurd rfl some_
    · rfl
    · exact iff_of_true ⟨fun _ => countReadable_zero, trivial⟩ rfl
    · exact Nat.zero_le 1
  · refine ⟨fun isGood => absurd isGood none_, fun _ => ?_, not_misread_insert⟩
    have behind :
        Leaves false (errors.forM PartitionError.encode) (entry [] topic (decodeErrors (countSeen errors.length))) m
        (fun m' _ => Misread topic errors m') errors.length := by
      apply sized.leaves
      intro small pd m' pd' run
      obtain ⟨errors', inner, -⟩ := part_eq_ok_iff.mp run
      have zero := decodeErrors_eq_ok inner
      rw [countSeen_eq_zero_iff small] at zero
      exact absurd (List.eq_nil_of_length_eq_zero zero) none_
    have counted : Leaves false (putArrayLength (Int32.ofNat errors.length) >>= fun _ => errors.forM PartitionError.encode)
        (read OffsetCommitRequest.getCount >>= fun n => entry [] topic (decodeErrors n)) m
          (fun m' _ => Misread topic errors m')
        errors.length := behind.countedBy (extends_ignoreCode _ _) (Nat.le_refl _) fun _ => rfl
    exact counted.weaken (fun _ _ isBad => isBad) (Nat.zero_le _)

theorem exact_topic (topic : Bytes) (errors : List PartitionError) {m : Std.ExtTreeMap Bytes (List PartitionError)}
    (new : m[topic]? = none) : Exact false false (encodeTopic (topic, errors)) decodeTopic m (m.insert topic errors)
      (Misread topic errors) (errors = []) 1 := by
  apply Exact.conclude
  · apply (@carries_ignored_putString false false topic).ignored.seqExact
    exact exact_errors topic errors new
  · rfl
  · exact Iff.rfl
  · exact Nat.le_refl _

theorem exact (r : TxnOffsetCommitResponse) : Exact false false r.encode (decode r.version) {} r
    (· ≠ r) r.Readable 1 := by
  apply Exact.finish
  · apply Exact.afterUpdate
    apply Exact.both
    · exact @exact_durationField _ false false _ _ _ throttleTime fun _ => rfl
    · exact Exact.mapMemberBy (extends_ignoreCode _ _) (fun isStrict => absurd isStrict Bool.false_ne_true)
        (.refl r.topics.toList)
        (fun topic errors _ new => exact_topic topic errors new) (fun _ _ _ _ => grewBy_countedEntry) (fun _ => rfl) rfl rfl
    · exact keeps_mapMember fun _ _ => rfl
    · exact fun differs => differs rfl
  · rw [Std.ExtTreeMap.map_unchanged]
  · exact ⟨fun both => ⟨both.1, both.2⟩, fun readable => ⟨readable.throttleTime, readable.topics⟩⟩
  · omega

/-- Four bytes are taken for a response without topics. -/
theorem decode_time (version : Int16) {front : Bytes} (four : front.length = 4) :
    ∃ o, decodeVersion false (decode version) front {} = .ok () o := by
  obtain ⟨a, b, c, d, rfl⟩ := exists_quad four
  exact ⟨_, rfl⟩

theorem sized (r : TxnOffsetCommitResponse) : Sized false r.encode 5 := by
  have topics : Sized false (r.topics.toList.forM encodeTopic) r.topics.toList.length :=
    Sized.forM fun entry _ => (exact_topic (m := ∅) entry.1 entry.2 Std.ExtTreeMap.getElem?_empty).sized
  exact ((sized_putDurationMs r.throttleTime).bind ((sized_putArrayLength _).bind topics)).weaken (by omega)

theorem not_refusesPrefixes (r : TxnOffsetCommitResponse) {bytes : Bytes} (encoded : encodeBody false r.encode = .ok bytes) :
    ¬ RefusesPrefixes false (decode r.version) {} bytes := by
  have long := r.sized.le_length encoded
  have four : (bytes.take 4).length = 4 := by
    rw [List.length_take]
    omega
  have some_ : bytes.drop 4 ≠ [] := by
    rw [Ne, List.drop_eq_nil_iff]
    omega
  obtain ⟨o, decoded⟩ := decode_time r.version four
  have begun : bytes.take 4 ≠ [] := by
    intro none_
    rw [none_] at four
    cases four
  rw [← List.take_append_drop 4 bytes]
  exact Kafka.not_refusesPrefixes some_ decoded begun

end TxnOffsetCommitResponse

end Coev.Kafka.Body
