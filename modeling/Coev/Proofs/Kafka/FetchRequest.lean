import Coev.Model.Kafka.FetchMessages
import Coev.Proofs.Kafka.Leaves

/-! # Fetch requests: what is carried
What a version has of a request, and when its encoding is read back: not past a count that the fixed mode cannot read,
not where the decoder leaves early, and not where it reads into a vector that nothing gave a size.
-/

namespace Coev.Kafka

open Std (ExtTreeMap)
open ByteString DecodeInto PacketDecoder PacketEncoder

variable {strict flexible : Bool}

/-- What a version has of a block; the rest is as in a fresh one. -/
def FetchRequestBlock.atVersion (version : Int16) (block : FetchRequestBlock) : FetchRequestBlock where
  currentLeaderEpoch := if 9 ≤ version then block.currentLeaderEpoch else 0
  fetchOffset := block.fetchOffset
  logStartOffset := if 1 ≤ version then block.logStartOffset else 0
  maxBytes := block.maxBytes

theorem FetchRequestBlock.carries (version : Int16) (block : FetchRequestBlock) :
    CarriesInto strict flexible (block.encode version) (decode version) {} (block.atVersion version) 1 := by
  apply CarriesInto.conclude
  · apply CarriesInto.seq
    · exact CarriesInto.inVersions fun _ => (carries_putInt32 _).field _ _ _
    apply CarriesInto.seq
    · exact (carries_putInt64 _).field _ _ _
    apply CarriesInto.seq
    · exact CarriesInto.inVersions fun _ => (carries_putInt64 _).field _ _ _
    exact (carries_putInt32 _).field _ _ _
  · dsimp only [atVersion]
    split_ifs <;> rfl
  · omega

namespace FetchRequest

variable {r : FetchRequest}

/-- The fields in front of the topics that a version has, in a fresh request. -/
def headAtVersion (r : FetchRequest) : FetchRequest where
  version := r.version
  maxWaitTime := r.maxWaitTime
  minBytes := r.minBytes
  maxBytes := if 3 ≤ r.version then r.maxBytes else 0
  isolation := if 4 ≤ r.version then r.isolation else 0
  sessionId := if 7 ≤ r.version then r.sessionId else 0
  sessionEpoch := if 7 ≤ r.version then r.sessionEpoch else 0

theorem carries_head (r : FetchRequest) :
    CarriesInto strict flexible r.encodeHead (decodeHead r.version) {} r.headAtVersion 1 := by
  apply CarriesInto.conclude
  · apply CarriesInto.afterUpdate
    apply Carries.seqInto
    · exact carries_putInt32 (-1)
    apply CarriesInto.seq
    · exact (carries_putInt32 _).field _ _ _
    apply CarriesInto.seq
    · exact (carries_putInt32 _).field _ _ _
    apply CarriesInto.seq
    · exact CarriesInto.inVersions fun _ => (carries_putInt32 _).field _ _ _
    apply CarriesInto.seq
    · exact CarriesInto.inVersions fun _ => (carries_putInt8 _).field _ _ _
    exact CarriesInto.inVersions fun _ => ((carries_putInt32 _).field _ _ _).seq ((carries_putInt32 _).field _ _ _)
  · dsimp only [headAtVersion]
    split_ifs <;> rfl
  · omega

/-- What a version has of the partitions of a topic. -/
def partitionsAtVersion (version : Int16) (partitions : ExtTreeMap Int32 FetchRequestBlock) :
    ExtTreeMap Int32 FetchRequestBlock := partitions.map fun _ => FetchRequestBlock.atVersion version

/-- What a version has of a request; the rest is as in a fresh one. -/
def atVersion (r : FetchRequest) : FetchRequest :=
  { r.headAtVersion with
    blocks := r.blocks.map fun _ => partitionsAtVersion r.version
    forgotten := if 7 ≤ r.version then r.forgotten else ∅
    rackId := if 11 ≤ r.version then r.rackId else [] }

/-- The number of the topics and those of their partitions can be read. -/
abbrev TopicsReadable (topics : ExtTreeMap Bytes (ExtTreeMap Int32 FetchRequestBlock)) : Prop :=
  EntriesReadable (fun partitions => CountReadable (bigEndian 4 partitions.size)) topics

/-- The number of the forgotten topics can be read, and they have no partitions. -/
abbrev ForgottenReadable (forgotten : ExtTreeMap Bytes (List Int32)) : Prop :=
  EntriesReadable (fun partitions => partitions = []) forgotten

/-- The counts of a request can be read, and nothing stands where the decoder leaves early or reads out of bounds. -/
structure Readable (r : FetchRequest) : Prop where
  topics : TopicsReadable r.blocks
  someTopic : 7 ≤ r.version → r.blocks ≠ ∅
  forgotten : 7 ≤ r.version → ForgottenReadable r.forgotten

theorem carries_partitions (version : Int16) (partitions : ExtTreeMap Int32 FetchRequestBlock) :
    CarriesInto strict flexible (partitions.toList.forM (encodePartition version))
      (entries {} (nextPartition version) partitions.size) ∅
      (partitionsAtVersion version partitions) partitions.size := by
  rw [← ExtTreeMap.length_toList]
  apply CarriesInto.entries (.refl _)
  intro partition block _ m new
  exact CarriesInto.nextEntry (carries_putInt32 partition) (FetchRequestBlock.carries version block) new

theorem carries_topic {version : Int16} {topic : Bytes} {partitions : ExtTreeMap Int32 FetchRequestBlock}
    {m : ExtTreeMap Bytes (ExtTreeMap Int32 FetchRequestBlock)}
    (readable : CountReadable (bigEndian 4 partitions.size)) (new : m[topic]? = none) :
    CarriesInto strict false (encodeTopic version (topic, partitions)) (nextEntry ∅ (nextTopic version)) m
      (m.insert topic (partitionsAtVersion version partitions)) 1 := by
  apply CarriesInto.nextEntry_counted (carries_putString topic) (fun _ => readable)
    (carries_partitions version partitions) _ new
  intro small
  rw [int32_ofNat_loop small]

/-- What follows the number of the partitions of a forgotten topic. -/
def forgottenPartitions (topic : Bytes) (partitionCount : Int32) : DecodeInto (ExtTreeMap Bytes (List Int32)) Unit :=
  if partitionCount < 0 then failCode (-1) else entry [] topic (decodeForgottenPartitions 0 partitionCount.toInt.toNat)

theorem nextForgottenTopic_eq : nextEntry [] nextForgottenTopic =
      read getString >>= fun topic => read getArrayLength >>= fun partitionCount => forgottenPartitions topic
        partitionCount := by
  rw [nextEntry, nextForgottenTopic, read_bind, bind_assoc]
  congr 1
  funext topic
  rw [read_bind, bind_assoc]
  congr 1
  funext partitionCount
  rw [forgottenPartitions]
  split <;> rfl

theorem carries_forgottenTopic {topic : Bytes} {m : ExtTreeMap Bytes (List Int32)} (new : m[topic]? = none) :
    CarriesInto strict false (encodeForgottenTopic (topic, [])) (nextEntry [] nextForgottenTopic) m
      (m.insert topic []) 1 := by
  rw [nextForgottenTopic_eq]
  have counted : CarriesInto strict false (putArrayLength (Int32.ofNat 0) >>= fun _ => pure ())
      (read getArrayLength >>= forgottenPartitions topic) m (m.insert topic []) 0 := by
    apply CarriesInto.counted (fun _ => countReadable_zero) _ fun _ => rfl
    exact CarriesInto.entry (CarriesInto.pure []) new
  exact ((carries_putString topic).seqInto counted).weaken (Nat.le_refl _)

/-- The forgotten topics behind their number. -/
def decodeForgottenTopics (n : ℕ) : DecodeInto FetchRequest Unit := do
  update ({ · with forgotten := ∅ })
  part forgotten (fun forgotten r => { r with forgotten }) (entries [] nextForgottenTopic n)

theorem carries_forgotten {o : FetchRequest} (readable : ForgottenReadable r.forgotten) :
    CarriesInto strict false r.encodeForgotten decodeForgotten o { o with forgotten := r.forgotten } 0 := by
  have loop : CarriesInto strict false (r.forgotten.toList.forM encodeForgottenTopic)
      (entries [] nextForgottenTopic r.forgotten.size) ∅ (r.forgotten.map fun _ _ => []) r.forgotten.size := by
    rw [← ExtTreeMap.length_toList]
    apply CarriesInto.entries (.refl _)
    intro topic partitions found m new
    obtain rfl := readable.each topic partitions found
    exact carries_forgottenTopic new
  have same : (r.forgotten.map fun _ _ => []) = r.forgotten := by
    apply ExtTreeMap.ext_getElem?
    intro topic
    rw [ExtTreeMap.getElem?_map]
    cases found : r.forgotten[topic]? with
    | none => rfl
    | some partitions => rw [readable.each topic partitions found]; rfl
  rw [same] at loop
  have topics :
      CarriesInto strict false (r.forgotten.toList.forM encodeForgottenTopic) (decodeForgottenTopics r.forgotten.size) o
      { o with forgotten := r.forgotten } r.forgotten.size := CarriesInto.afterUpdate (CarriesInto.part loop)
  apply CarriesInto.counted (fun _ => readable.count) topics
  intro small
  rw [int32_ofNat_loop small]
  rfl

/-- What is written behind the number of topics. -/
def encodeTail (r : FetchRequest) : Encode Unit := do
  r.blocks.toList.forM (encodeTopic r.version)
  inVersions (7 ≤ r.version) r.encodeForgotten
  inVersions (11 ≤ r.version) (putString r.rackId)

/-- What is read behind a number of topics that is not zero. -/
def decodeTopics (version : Int16) (n : ℕ) : DecodeInto FetchRequest Unit := do
  update ({ · with blocks := ∅ })
  part blocks (fun blocks r => { r with blocks }) (entries ∅ (nextTopic version) n)
  inVersions (7 ≤ version) decodeForgotten
  inVersions (11 ≤ version) (field getString fun rackId r => { r with rackId })

theorem encode_eq (r : FetchRequest) :
    r.encode = r.encodeHead >>= fun _ => putArrayLength (Int32.ofNat r.blocks.size) >>= fun _ => r.encodeTail := by
  rw [encode, encodeBlocks, bind_assoc]
  rfl

theorem carries_topics {r : FetchRequest} {o : FetchRequest} (readable : TopicsReadable r.blocks) :
    CarriesInto strict false (r.blocks.toList.forM (encodeTopic r.version))
      (part blocks (fun blocks r => { r with blocks }) (entries ∅ (nextTopic r.version) r.blocks.size))
        { o with blocks := ∅ } { o with blocks := r.atVersion.blocks } r.blocks.size := by
  apply CarriesInto.part (t := r.atVersion.blocks)
  rw [← ExtTreeMap.length_toList]
  apply CarriesInto.entries (.refl _)
  intro topic partitions found m new
  exact carries_topic (readable.each topic partitions found) new

theorem carries (r : FetchRequest) (readable : r.Readable) :
    CarriesInto strict false r.encode (decode r.version) {} r.atVersion 1 := by
  rw [encode_eq]
  suffices tail : CarriesInto strict false (putArrayLength (Int32.ofNat r.blocks.size) >>= fun _ => r.encodeTail)
      (read getArrayLength >>= decodeTail r.version) r.headAtVersion r.atVersion 0 from (carries_head r).seq tail
  by_cases none_ : r.blocks = ∅
  · have old : ¬ 7 ≤ r.version := fun new => readable.someTopic new none_
    have older : ¬ 11 ≤ r.version := fun new => old (Int16.le_trans (by decide : (7 : Int16) ≤ 11) new)
    have ends : r.encodeTail = pure () := by
      simp only [encodeTail, none_, inVersions, if_neg old, if_neg older]
      rfl
    have size : r.blocks.size = 0 := by rw [none_]; rfl
    rw [ends, size]
    apply CarriesInto.counted (fun _ => countReadable_zero) _ fun _ => rfl
    apply (CarriesInto.pure _).conclude _ (Nat.le_refl 0)
    simp only [atVersion, none_, if_neg old, if_neg older]
    rfl
  · have positive : r.blocks.size ≠ 0 := by
      rwa [Ne, ← ExtTreeMap.eq_empty_iff_size_eq_zero]
    have topics : CarriesInto strict false r.encodeTail (decodeTopics r.version r.blocks.size) r.headAtVersion r.atVersion
        r.blocks.size := by
      apply CarriesInto.conclude
      · apply CarriesInto.afterUpdate
        apply CarriesInto.seq
        · exact carries_topics readable.topics
        apply CarriesInto.seq
        · exact CarriesInto.inVersions fun new => carries_forgotten (readable.forgotten new)
        exact CarriesInto.inVersions fun _ => (carries_putString _).field _ _ _
      · dsimp only [atVersion]
        split_ifs <;> rfl
      · omega
    apply CarriesInto.counted (fun _ => readable.topics.count) topics
    intro small
    rw [decodeTail, if_neg (int32_ofNat_ne_zero small positive), int32_ofNat_loop small]
    rfl

theorem sized_topic (version : Int16) (entry : Bytes × ExtTreeMap Int32 FetchRequestBlock) :
    Sized false (encodeTopic version entry) 1 := by
  have partitions := (@carries_partitions false false version entry.2).sized
  exact ((sized_putString entry.1).bind ((sized_putArrayLength _).bind partitions)).weaken (by omega)

/-- A topic is read back, or its partitions are missing for good. -/
theorem round_topics (version : Int16) : RoundOf false (encodeTopic version) (entries ∅ (nextTopic version))
    (fun partitions => CountReadable (bigEndian 4 partitions.size)) (partitionsAtVersion version) := by
  intro topic partitions m new
  by_cases readable : CountReadable (bigEndian 4 partitions.size)
  · left
    refine ⟨readable, fun put' Q n rest => ?_⟩
    exact ((@carries_topic false _ _ _ _ readable new).leaves rest).weaken (fun _ _ holds => holds) (by omega)
  · right
    intro put' n sized
    have writes : (encodeTopic version (topic, partitions) >>= fun _ => put') = putString topic >>= fun _ =>
        putArrayLength (Int32.ofNat partitions.size) >>= fun _ =>
          partitions.toList.forM (encodePartition version) >>= fun _ => put' := by
      simp only [encodeTopic, bind_assoc]
    have reads : entries ∅ (nextTopic version) (n + 1) = read getString >>= fun topic => read getArrayLength >>= fun count =>
        entry ∅ topic (entries {} (nextPartition version) count.toInt.toNat) >>= fun _ =>
          entries ∅ (nextTopic version) n := by
      have next : nextEntry ∅ (nextTopic version) = _ := nextEntry_counted_eq _ _ _
      rw [entries_succ, next]
      simp only [bind_assoc]
    have partitionsSized := (@carries_partitions false false version partitions).sized
    have behind : Leaves false (partitions.toList.forM (encodePartition version) >>= fun _ => put')
        (entry ∅ topic (entries {} (nextPartition version) (countSeen partitions.size).toInt.toNat) >>= fun _ =>
          entries ∅ (nextTopic version) n) m
        (fun m' _ => Misses m m' topic (partitionsAtVersion version partitions) n) (partitions.size + n) := by
      apply (partitionsSized.bind sized).leaves
      intro small pd m' pd' run
      rw [loop_of_unreadable (by omega) readable] at run
      obtain ⟨_, ⟨m₁, pd₁⟩, first, rest⟩ := EStateM.bind_eq_ok_iff.mp run
      rw [← entry_of_skip new first] at rest
      exact misses_of_fresh (map_ne_empty _ (not_countReadable_size readable)) (grewBy_entries rest)
    have counted : Leaves false (putArrayLength (Int32.ofNat partitions.size) >>= fun _ =>
        partitions.toList.forM (encodePartition version) >>= fun _ => put')
        (read getArrayLength >>= fun count =>
          entry ∅ topic (entries {} (nextPartition version) count.toInt.toNat) >>= fun _ =>
          entries ∅ (nextTopic version) n) m _ _ := behind.counted (Nat.le_add_right _ _) fun _ => rfl
    rw [writes, reads]
    exact ((@carries_putString false _ topic).leaves counted).weaken (fun _ _ holds => holds) (by omega)

theorem sized_forgottenTopic (entry : Bytes × List Int32) : Sized false (encodeForgottenTopic entry) 1 := by
  have partitions : Sized false (entry.2.forM putInt32) entry.2.length :=
    Sized.forM fun partition _ => sized_putInt32 partition
  exact ((sized_putString entry.1).bind ((sized_putArrayLength _).bind partitions)).weaken (by omega)

/-- Nothing gives the vector of the partitions its size. -/
theorem not_forgottenPartitions {topic : Bytes} {count : Int32} {m m' : ExtTreeMap Bytes (List Int32)}
    {pd pd' : PacketDecoder}
    (new : m[topic]? = none) (some_ : count ≠ 0) (run : forgottenPartitions topic count (m, pd) = .ok () (m', pd')) :
    False := by
  rw [forgottenPartitions] at run
  split at run
  · cases run
  · next nonneg =>
    obtain ⟨k, rounds⟩ : ∃ k, count.toInt.toNat = k + 1 := by
      have zero : (0 : Int32).toInt = 0 := rfl
      rw [Int32.lt_iff_toInt_lt, zero] at nonneg
      rw [Ne, ← Int32.toInt_inj, zero] at some_
      exact ⟨count.toInt.toNat - 1, by omega⟩
    rw [rounds] at run
    obtain ⟨v, read, -⟩ := part_eq_ok_iff.mp run
    rw [new] at read
    cases read

/-- A forgotten topic is read back only without partitions. -/
theorem round_forgotten :
    RoundOf false encodeForgottenTopic (entries [] nextForgottenTopic) (fun partitions => partitions = [])
    fun partitions => partitions := by
  intro topic partitions m new
  by_cases none_ : partitions = []
  · subst none_
    left
    refine ⟨rfl, fun put' Q n rest => ?_⟩
    exact ((@carries_forgottenTopic false _ _ new).leaves rest).weaken (fun _ _ holds => holds) (by omega)
  · right
    intro put' n sized
    have positive : partitions.length ≠ 0 := fun zero => none_ (List.eq_nil_of_length_eq_zero zero)
    have partitionsSized : Sized false (partitions.forM putInt32) partitions.length :=
      Sized.forM fun partition _ => sized_putInt32 partition
    have behind : Leaves false (partitions.forM putInt32 >>= fun _ => put')
        (forgottenPartitions topic (countSeen partitions.length) >>= fun _ => entries [] nextForgottenTopic n) m
        (fun m' _ => Misses m m' topic partitions n) (partitions.length + n) := by
      apply (partitionsSized.bind sized).leaves
      intro small pd m' pd' run
      obtain ⟨_, ⟨m₁, pd₁⟩, first, -⟩ := EStateM.bind_eq_ok_iff.mp run
      have some_ : countSeen partitions.length ≠ 0 := by
        rwa [Ne, countSeen_eq_zero_iff (by omega)]
      exact (not_forgottenPartitions new some_ first).elim
    have counted :
        Leaves false
          (putArrayLength (Int32.ofNat partitions.length) >>= fun _ => partitions.forM putInt32 >>= fun _ => put')
        (read getArrayLength >>= fun count => forgottenPartitions topic count >>= fun _ =>
          entries [] nextForgottenTopic n) m _ _ :=
      behind.counted (Nat.le_add_right _ _) fun _ => rfl
    have writes : (encodeForgottenTopic (topic, partitions) >>= fun _ => put') = putString topic >>= fun _ =>
        putArrayLength (Int32.ofNat partitions.length) >>= fun _ => partitions.forM putInt32 >>= fun _ => put' := by
      simp only [encodeForgottenTopic, bind_assoc]
    have reads : entries [] nextForgottenTopic (n + 1) = read getString >>= fun topic => read getArrayLength >>= fun count =>
        forgottenPartitions topic count >>= fun _ => entries [] nextForgottenTopic n := by
      rw [entries_succ, nextForgottenTopic_eq]
      simp only [bind_assoc]
    rw [writes, reads]
    exact ((@carries_putString false _ topic).leaves counted).weaken (fun _ _ holds => holds) (by omega)

theorem sized_forgotten (r : FetchRequest) : Sized false r.encodeForgotten 1 :=
  ((sized_putArrayLength _).bind (Sized.forM fun entry _ => sized_forgottenTopic entry)).weaken (Nat.le_add_right _ _)

theorem sized_rack (r : FetchRequest) : Sized false (inVersions (11 ≤ r.version) (putString r.rackId)) 0 :=
  (sized_putString r.rackId).inVersions

theorem sized_rest (r : FetchRequest) : Sized false (inVersions (7 ≤ r.version) r.encodeForgotten >>= fun _ =>
    inVersions (11 ≤ r.version) (putString r.rackId)) 0 := (sized_forgotten r).inVersions.bind (sized_rack r)

theorem sized_tail (r : FetchRequest) : Sized false r.encodeTail r.blocks.size := by
  have topics : Sized false (r.blocks.toList.forM (encodeTopic r.version)) _ :=
    Sized.forM fun entry _ => sized_topic r.version entry
  have rest := sized_rest r
  rw [ExtTreeMap.length_toList] at topics
  exact topics.bind rest

theorem sized_encode (r : FetchRequest) : Sized false r.encode 1 := by
  rw [encode_eq]
  exact ((@carries_head false _ r).sized.bind ((sized_putArrayLength _).bind (sized_tail r))).weaken (by omega)

/-- Behind no topics, what a newer version has is left unread. -/
theorem leaves_unread (new : 7 ≤ r.version) (none_ : r.blocks = ∅) :
    Leaves false r.encode (decode r.version) {} (fun _ unread => unread ≠ []) 1 := by
  have size : r.blocks.size = 0 := by rw [none_]; rfl
  have positive : Sized false r.encodeTail 1 := by
    have rack := sized_rack r
    rw [encodeTail, inVersions_of new]
    exact ((Sized.forM fun entry _ => sized_topic r.version entry).bind ((sized_forgotten r).bind rack)).weaken (by omega)
  rw [encode_eq, size]
  apply ((@carries_head false _ r).leaves (Leaves.counted (positive.leavesUnread Nat.one_pos _) (Nat.zero_le _) _)).weaken
    (fun _ _ holds => holds) (by omega)
  intro _
  rfl

/-- What follows the topics leaves them alone. -/
theorem keeps_blocks (version : Int16) : Keeps blocks (inVersions (7 ≤ version) decodeForgotten >>= fun _ =>
    inVersions (11 ≤ version) (field getString fun rackId r => { r with rackId })) := by
  apply Keeps.bind
  · apply Keeps.inVersions
    apply (Keeps.readOr _ _).bind
    intro n
    apply Keeps.bind
    · apply Keeps.update
      exact fun _ => rfl
    · intro _
      apply Keeps.part
      exact fun _ _ => rfl
  · intro _
    apply Keeps.inVersions
    apply Keeps.fieldOr
    exact fun _ _ => rfl

/-- The topics come back only when their number and those of their partitions can be read. -/
theorem leaves_topics (r : FetchRequest) : Leaves false r.encode (decode r.version) {}
    (fun o _ => o.blocks = r.atVersion.blocks → TopicsReadable r.blocks) 1 := by
  by_cases none_ : r.blocks.size = 0
  · apply (sized_encode r).leaves
    intro _ _ _ _ _ _
    rw [← ExtTreeMap.eq_empty_iff_size_eq_zero] at none_
    rw [none_]
    exact entriesReadable_empty _
  · obtain ⟨rounds, same, leaves⟩ := (round_topics r.version).counted rfl (sized_topic r.version) (.refl r.blocks.toList)
    have rest := sized_rest r
    have read : Leaves false (r.blocks.toList.forM (encodeTopic r.version))
        (part blocks (fun blocks r => { r with blocks }) (entries ∅ (nextTopic r.version) rounds))
          { r.headAtVersion with blocks := ∅ }
        (fun o _ => o.blocks = r.atVersion.blocks → TopicsReadable r.blocks) r.blocks.size := Leaves.part leaves
    have topics : Leaves false r.encodeTail (decodeTopics r.version rounds) r.headAtVersion
        (fun o _ => o.blocks = r.atVersion.blocks → TopicsReadable r.blocks) r.blocks.size :=
      Leaves.afterUpdate (Leaves.andThen (P := fun topics => topics = r.atVersion.blocks → TopicsReadable r.blocks) read rest
        (keeps_blocks r.version))
    rw [encode_eq]
    apply ((@carries_head false _ r).leaves (topics.counted (Nat.le_refl _) _)).weaken (fun _ _ holds => holds)
      (Nat.le_add_right 1 _)
    intro small
    have some_ : countSeen r.blocks.size ≠ 0 := by
      rwa [Ne, countSeen_eq_zero_iff small]
    rw [decodeTail, if_neg some_, same small]
    rfl

/-- The forgotten topics come back only when their number can be read and they have no partitions. -/
theorem leaves_forgotten (new : 7 ≤ r.version) (topics : TopicsReadable r.blocks) (some_ : r.blocks.size ≠ 0) :
    Leaves false r.encode (decode r.version) {}
      (fun o _ => o.forgotten = r.forgotten → ForgottenReadable r.forgotten) 1 := by
  obtain ⟨rounds, same, leaves⟩ := round_forgotten.counted rfl sized_forgottenTopic (.refl r.forgotten.toList)
  have rack := sized_rack r
  rw [ExtTreeMap.map_unchanged] at leaves
  have forgottenTopics (o : FetchRequest) :
      Leaves false (r.forgotten.toList.forM encodeForgottenTopic) (decodeForgottenTopics rounds) o
      (fun o _ => o.forgotten = r.forgotten → ForgottenReadable r.forgotten) r.forgotten.size :=
    Leaves.afterUpdate (Leaves.part leaves)
  have forgotten_ (o : FetchRequest) : Leaves false r.encodeForgotten decodeForgotten o
      (fun o _ => o.forgotten = r.forgotten → ForgottenReadable r.forgotten) r.forgotten.size := by
    apply (forgottenTopics o).counted (Nat.le_refl _)
    intro small
    rw [same small]
    rfl
  have keeps : Keeps forgotten (inVersions (11 ≤ r.version) (field getString fun rackId r => { r with rackId })) := by
    apply Keeps.inVersions
    apply Keeps.fieldOr
    exact fun _ _ => rfl
  have tail : Leaves false r.encodeTail (decodeTopics r.version r.blocks.size) r.headAtVersion
      (fun o _ => o.forgotten = r.forgotten → ForgottenReadable r.forgotten) r.blocks.size := by
    simp only [encodeTail, decodeTopics, inVersions_of new]
    apply Leaves.afterUpdate
    apply ((@carries_topics false _ _ topics).leaves (Leaves.andThen (P := fun topics => topics = r.forgotten →
      ForgottenReadable r.forgotten) (forgotten_ _) rack keeps)).weaken (fun _ _ holds => holds) (Nat.le_add_right _ _)
  rw [encode_eq]
  apply ((@carries_head false _ r).leaves (tail.counted (Nat.le_refl _) _)).weaken (fun _ _ holds => holds)
    (Nat.le_add_right 1 _)
  intro small
  rw [countSeen_of_readable small topics.count, decodeTail, if_neg (int32_ofNat_ne_zero small some_), int32_ofNat_loop small]
  rfl

/-- Decoding the encoding gives back what the version has of the request. -/
def RoundTrips (r : FetchRequest) (bytes : Bytes) : Prop :=
  decodeVersion false (decode r.version) bytes {} = .ok () r.atVersion

theorem roundTrips_iff {bytes : Bytes} (encoded : encodeBody false r.encode = .ok bytes) :
    r.RoundTrips bytes ↔ r.Readable := by
  constructor
  · intro decoded
    have topics := (leaves_topics r).of_decodeVersion Nat.one_pos encoded decoded rfl
    have someTopic : 7 ≤ r.version → r.blocks ≠ ∅ := by
      intro new none_
      exact (leaves_unread new none_).of_decodeVersion Nat.one_pos encoded decoded rfl
    refine ⟨topics, someTopic, fun new => ?_⟩
    have some_ : r.blocks.size ≠ 0 := by
      rw [Ne, ← ExtTreeMap.eq_empty_iff_size_eq_zero]
      exact someTopic new
    have forgotten_ := (leaves_forgotten new topics some_).of_decodeVersion Nat.one_pos encoded decoded
    have same : r.atVersion.forgotten = r.forgotten := if_pos new
    exact forgotten_ same
  · intro readable
    exact (@carries false r readable).decodeVersion_eq_ok Nat.one_pos encoded

end FetchRequest

end Coev.Kafka
