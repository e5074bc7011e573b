import Coev.Model.Kafka.AdminMessages
import Coev.Proofs.Kafka.ExactValues

/-! # Answers that describe groups: what comes back

A group comes back only without members, since the first of them that is read ends the decoding.
-/

namespace Coev.Kafka

open ByteString DecodeInto PacketDecoder PacketEncoder

variable {strict flexible : Bool}

theorem GroupMemberDescription.carries (version : Int16) (member : GroupMemberDescription) :
    CarriesInto strict flexible (member.encode version) (decode version) {}
      { member with version, groupInstanceId := if 4 ≤ version then member.groupInstanceId else [] } 1 := by
  apply CarriesInto.encodeFailWith
  apply CarriesInto.decodeFailWith
  apply CarriesInto.conclude
  · apply CarriesInto.afterUpdate
    apply CarriesInto.seq
    · exact (carries_putString member.memberId).field _ _ _
    apply CarriesInto.seq
    · exact CarriesInto.inVersions fun _ => (carries_putNullableString member.groupInstanceId).field _ _ _
    apply CarriesInto.seq
    · exact (carries_putString member.clientId).field _ _ _
    apply CarriesInto.seq
    · exact (carries_putString member.clientHost).field _ _ _
    apply CarriesInto.seq
    · exact (carries_putBytes member.memberMetadata).field _ _ _
    apply CarriesInto.seq
    · exact (carries_putBytes member.memberAssignment).field _ _ _
    · exact carries_putEmptyTaggedFieldArray.skip _
  · dsimp only
    split_ifs <;> rfl
  · omega

namespace GroupDescription

/-- What a version has of a group without members; the rest is as in a fresh one. -/
def atVersion (version : Int16) (group : GroupDescription) : GroupDescription :=
  { group with
    version
    authorizedOperations := if 3 ≤ version then group.authorizedOperations else 0 }

/-- Nothing comes of a member that was read. -/
theorem leaves_member (version : Int16) (member : GroupMemberDescription)
    (members : Std.ExtTreeMap Bytes GroupMemberDescription) :
    Leaves flexible (member.encode version) (decodeMember version) members (fun _ _ => False) 1 := by
  obtain ⟨output, writes, each⟩ := @GroupMemberDescription.carries false flexible version member
  refine ⟨output, writes, fun bytes isBytes => ⟨(each bytes isBytes).1, ?_⟩⟩
  intro small pd rest mode ahead members' pd' run
  rw [decodeMember, ((each bytes isBytes).2 small).reads pd rest mode ahead] at run
  cases run

/-- The first member ends the loop. -/
theorem leaves_members (version : Int16) (members : List (Bytes × GroupMemberDescription))
    (start : Std.ExtTreeMap Bytes GroupMemberDescription) (some_ : members ≠ []) :
    Leaves flexible (members.forM fun member => member.2.encode version) (rounds (decodeMember version) members.length) start
      (fun _ _ => False) members.length := by
  cases members with
  | nil => exact absurd rfl some_
  | cons member members =>
    have sized : Sized flexible (members.forM fun member => member.2.encode version) members.length :=
      Sized.forM fun member _ => (@GroupMemberDescription.carries false flexible version member.2).sized
    have first : Leaves flexible (member.2.encode version) (decodeMember version) start (fun _ _ => False) 1 :=
      leaves_member version member.2 start
    have keeps : Keeps (fun _ => ()) (rounds (decodeMember version) members.length) := fun _ _ _ _ _ _ => rfl
    have behind := Leaves.andThen (P := fun _ => False) first sized keeps
    exact behind.weaken (fun _ _ wrong => wrong) (Nat.le_of_eq (Nat.add_comm _ _))

theorem exact_someMembers (version : Int16) {group : GroupDescription} (o : GroupDescription) (some_ : group.members ≠ ∅) :
    Exact strict flexible (group.encodeMembers version) (decodeMembers version) o { o with members := group.members }
      (fun o => o.members ≠ group.members) (group.members = ∅) 1 := by
  have others : group.members.toList ≠ [] := fun none_ => some_ (Std.ExtTreeMap.toList_eq_nil_iff.mp none_)
  apply Exact.decodeFailWith
  rw [encodeMembers, ← Std.ExtTreeMap.length_toList]
  have loop : Exact strict flexible (group.members.toList.forM fun member => member.2.encode version)
      (update ({ · with members := ∅ }) >>= fun _ =>
        part members (fun members group => { group with members })
          (rounds (decodeMember version) group.members.toList.length)) o
      { o with members := group.members } (fun o => o.members ≠ group.members) False group.members.toList.length := by
    refine ⟨False.elim, fun _ => ?_, fun differs => differs rfl⟩
    apply Leaves.afterUpdate
    apply Leaves.part
    exact (leaves_members version _ _ others).weaken (fun _ _ wrong => wrong.elim) (Nat.le_refl _)
  apply (Exact.counted loop (Nat.le_refl _) _ _).conclude rfl _ (Nat.le_refl _)
  · intro small
    have positive := int32_ofNat_pos small (fun none_ => others (List.length_eq_zero_iff.mp none_))
    simp only [if_pos positive, int32_ofNat_loop small]
  · intro count negative _ pd o' pd' run
    have notPositive : ¬ 0 < count := Int32.not_lt.mpr (Int32.le_of_lt negative)
    simp only [if_neg notPositive] at run
    cases run
    exact some_.symm
  · exact iff_of_false And.right some_

theorem exact_members (version : Int16) (group : GroupDescription) {o : GroupDescription} (start : o.members = ∅) :
    Exact strict flexible (group.encodeMembers version) (decodeMembers version) o { o with members := group.members }
      (fun o => o.members ≠ group.members) (group.members = ∅) 1 := by
  by_cases none_ : group.members = ∅
  · have same : { o with members := ∅ } = o := by rw [← start]
    apply Exact.decodeFailWith
    rw [encodeMembers, ← Std.ExtTreeMap.length_toList, none_, Std.ExtTreeMap.toList_eq_nil_iff.mpr rfl]
    have nothing :
        Exact strict flexible (pure ()) (update ({ · with members := ∅ }) >>= fun _ => pure ()) o
          { o with members := ∅ }
        (fun o => o.members ≠ ∅) True 0 :=
      (CarriesInto.pure _).afterUpdate.exact.imp (fun _ wrong => wrong.elim) fun differs => differs rfl
    apply (Exact.counted nothing (Nat.le_refl 0) (fun _ => rfl) _).conclude rfl _ (Nat.le_refl _)
    · intro _ _ some_
      exact absurd rfl some_
    · exact iff_of_true ⟨fun _ => countReadable_zero, trivial⟩ rfl
  · exact exact_someMembers version o none_

theorem carries_head (version : Int16) (group : GroupDescription) :
    CarriesInto strict flexible group.encodeHead (decodeHead version) {}
      { version, code := group.code, groupId := group.groupId, state := group.state, protocolType := group.protocolType,
        protocol := group.protocol } 1 := by
  have head : group.encodeHead = (do
      putInt16 group.code
      putString group.groupId
      putString group.state
      putString group.protocolType) >>= fun _ => putString group.protocol := by
    simp only [encodeHead, bind_assoc]
  rw [head]
  apply CarriesInto.conclude
  · apply CarriesInto.seq
    · apply CarriesInto.decodeFailWith
      apply CarriesInto.afterUpdate
      apply CarriesInto.seq
      · exact (carries_putInt16 group.code).field _ _ _
      apply CarriesInto.seq
      · exact (carries_putString group.groupId).field _ _ _
      apply CarriesInto.seq
      · exact (carries_putString group.state).field _ _ _
      · exact (carries_putString group.protocolType).field _ _ _
    · apply CarriesInto.decodeFailWith
      exact (carries_putString group.protocol).field _ _ _
  · rfl
  · omega

theorem carries_tail (version : Int16) (group o : GroupDescription) :
    CarriesInto strict flexible (group.encodeTail version) (decodeTail version) o
      (if 3 ≤ version then { o with authorizedOperations := group.authorizedOperations } else o) 0 := by
  apply CarriesInto.decodeFailWith
  apply CarriesInto.conclude
  · apply CarriesInto.seq
    · exact CarriesInto.inVersions fun _ => (carries_putInt32 group.authorizedOperations).field _ _ _
    · exact carries_putEmptyTaggedFieldArray.skip _
  · rfl
  · exact Nat.zero_le _

theorem keeps_members {bad : Std.ExtTreeMap Bytes GroupMemberDescription → Prop} (version : Int16) :
    Keeps (fun o : GroupDescription => bad o.members) (decodeTail version) := by
  apply Keeps.failWith
  apply Keeps.seq
  · exact Keeps.inVersions (Keeps.fieldOr fun _ _ => rfl)
  · exact Keeps.readOr _ _

theorem exact (version : Int16) (group : GroupDescription) :
    Exact strict flexible (group.encode version) (decode version) {} (group.atVersion version) (· ≠ group.atVersion version)
      (group.members = ∅) 1 := by
  apply Exact.finish
  · apply Exact.encodeFailWith
    apply CarriesInto.seqExact
    · exact carries_head version group
    apply Exact.seqCarries
    · exact exact_members version group rfl
    · exact carries_tail version group _
    · exact @keeps_members (· ≠ group.members) version
    · split_ifs <;> exact fun differs => differs rfl
  · dsimp only [atVersion]
    split_ifs <;> rfl
  · exact Iff.rfl
  · omega

end GroupDescription

namespace DescribeGroupsResponse

/-- What a version has of an answer; the rest is as in a fresh one. -/
def atVersion (r : DescribeGroupsResponse) : DescribeGroupsResponse :=
  { r with
    throttleTime := if 1 ≤ r.version then r.throttleTime else 0
    groups := r.groups.map (GroupDescription.atVersion r.version) }

/-- The time fits in 32 bits, the number of the groups can be read, and none of them has a member. -/
structure Readable (r : DescribeGroupsResponse) : Prop where
  throttleTime : 1 ≤ r.version → DurationFits r.throttleTime
  groups : ListReadable (isFlexibleVersion r.version) (fun group : GroupDescription => group.members = ∅) r.groups

theorem exact_groups (r : DescribeGroupsResponse) {o : DescribeGroupsResponse} (start : o.groups = []) :
    Exact strict flexible r.encodeGroups (decodeGroups r.version) o { o with groups := r.atVersion.groups }
      (fun o => o.groups ≠ r.atVersion.groups)
      (ListReadable flexible (fun group : GroupDescription => group.members = ∅) r.groups) 1 := by
  apply Exact.vectorMemberOf groups (fun groups r => { r with groups }) (fun group _ => group.exact r.version)
  · exact fun _ => rfl
  · rfl
  · exact start
  · intro small pd
    rw [EStateM.bind_of_ok (update_of_same (by rw [← start]) pd)]
    split_ifs with positive
    · rw [resized_ofNat small]
    · have none_ : r.groups.length = 0 := by
        by_contra some_
        exact positive (int32_ofNat_pos small some_)
      have same : o = { o with groups := [] } := by rw [← start]
      rw [none_, DecodeInto.part, start]
      exact congrArg (fun o => EStateM.Result.ok () (o, pd)) same
  · intro count negative pd o' pd' run
    rw [EStateM.bind_of_ok (update_of_same (by rw [← start]) pd), if_neg (Int32.not_lt.mpr (Int32.le_of_lt negative))] at run
    cases run
    exact start

/-- What follows the time leaves it alone. -/
theorem keeps_throttleTime {bad : Int64 → Prop} (version : Int16) :
    Keeps (fun o : DescribeGroupsResponse => bad o.throttleTime) (do
      decodeGroups version
      read getEmptyTaggedFieldArray) := by
  apply Keeps.seq
  · apply Keeps.bind (Keeps.readOr _ _)
    intro count
    apply Keeps.seq
    · exact Keeps.update fun _ => rfl
    split
    · exact Keeps.part fun _ _ => rfl
    · exact Keeps.pure ()
  · exact Keeps.readOr _ _

theorem exact (r : DescribeGroupsResponse) :
    Exact strict (isFlexibleVersion r.version) r.encode (decode r.version) {} r.atVersion
    (· ≠ r.atVersion) r.Readable 1 := by
  apply Exact.finish
  · apply Exact.encodeFailWith
    apply Exact.decodeFailWith
    apply Exact.afterUpdate
    apply Exact.both
    · exact exact_durationIn throttleTime (1 ≤ r.version) (fun _ => rfl) rfl
    · apply Exact.seqSkip
      · apply exact_groups
        split <;> rfl
      · exact carries_putEmptyTaggedFieldArray
    · exact @keeps_throttleTime (· ≠ r.atVersion.throttleTime) r.version
    · dsimp only
      split_ifs <;> exact fun differs => differs rfl
  · dsimp only [atVersion]
    split_ifs <;> rfl
  · exact ⟨fun both => ⟨both.1, both.2⟩, fun readable => ⟨readable.throttleTime, readable.groups⟩⟩
  · omega

end DescribeGroupsResponse

end Coev.Kafka

/-! ## Answers that describe log directories: what comes back
In the fixed mode the number of the directories, of the topics in each and of the partitions in each of those must be
readable.
-/

namespace Coev.Kafka

open ByteString DecodeInto PacketDecoder PacketEncoder

variable {strict : Bool}
variable {version : Int16}

namespace DescribeLogDirsResponse

theorem isFlexibleVersion_iff : isFlexibleVersion version = true ↔ 2 ≤ version := by
  rw [isFlexibleVersion, decide_eq_true_iff]

end DescribeLogDirsResponse

open DescribeLogDirsResponse (isFlexibleVersion isFlexibleVersion_iff)

theorem DescribeLogDirsResponsePartition.carries (version : Int16) (partition : DescribeLogDirsResponsePartition) :
    CarriesInto strict (isFlexibleVersion version) (partition.encode version) decode {} partition 1 := by
  apply CarriesInto.decodeFailWith
  apply CarriesInto.conclude
  · apply CarriesInto.seq
    · exact (carries_putInt32 partition.partitionId).field _ _ _
    apply CarriesInto.seq
    · exact (carries_putInt64 partition.size).field _ _ _
    apply CarriesInto.seq
    · exact (carries_putInt64 partition.offsetLag).field _ _ _
    apply CarriesInto.seq
    · exact (carries_putBool partition.isTemporary).field _ _ _
    · exact (carries_taggedFields isFlexibleVersion_iff).skip _
  · rfl
  · omega

namespace DescribeLogDirsResponseTopic

/-- The number of the partitions can be read. -/
def Readable (flexible : Bool) (topic : DescribeLogDirsResponseTopic) : Prop :=
  flexible = false → CountReadable (bigEndian 4 topic.partitions.length)

theorem exact (version : Int16) (topic : DescribeLogDirsResponseTopic) :
    Exact strict (isFlexibleVersion version) (topic.encode version) decode {} topic (· ≠ topic)
      (topic.Readable (isFlexibleVersion version)) 1 := by
  apply Exact.finish
  · apply Exact.encodeFailWith
    apply Exact.decodeFailWith
    apply CarriesInto.seqExact
    · exact (carries_putString topic.topic).field _ _ _
    apply Exact.seqSkip
    · apply Exact.vectorMember (fun partition _ => (DescribeLogDirsResponsePartition.carries version partition).exact)
      · exact fun _ => rfl
      · rfl
      · rfl
    · exact carries_putEmptyTaggedFieldArray
  · rw [List.map_id']
  · exact and_iff_left fun _ _ => trivial
  · omega

end DescribeLogDirsResponseTopic

namespace DescribeLogDirsResponseDirMetadata

/-- What a version has of a directory; the rest is as in a fresh one. -/
def atVersion (version : Int16) (dir : DescribeLogDirsResponseDirMetadata) : DescribeLogDirsResponseDirMetadata :=
  { dir with
    totalBytes := if 4 ≤ version then dir.totalBytes else 0
    usableBytes := if 4 ≤ version then dir.usableBytes else 0 }

/-- The number of the topics can be read, and so can that of the partitions of each. -/
def Readable (flexible : Bool) (dir : DescribeLogDirsResponseDirMetadata) : Prop :=
  ListReadable flexible (fun topic => topic.Readable flexible) dir.topics

/-- The tail of a directory leaves its topics alone. -/
theorem keeps_decodeTail {τ : Type} {f : DescribeLogDirsResponseDirMetadata → τ}
    (keeps : ∀ dir : DescribeLogDirsResponseDirMetadata, ∀ bytes : Int64 × Int64,
      f { dir with totalBytes := bytes.1, usableBytes := bytes.2 } = f dir) : Keeps f (decodeTail version) := by
  apply Keeps.seq
  · apply Keeps.inVersions
    apply Keeps.seq
    · exact Keeps.fieldOr (fun totalBytes dir => keeps dir (totalBytes, dir.usableBytes))
    · exact Keeps.fieldOr fun usableBytes dir => keeps dir (dir.totalBytes, usableBytes)
  · exact Keeps.readOr _ _

theorem exact (version : Int16) (dir : DescribeLogDirsResponseDirMetadata) :
    Exact strict (isFlexibleVersion version) (dir.encode version) (decode version) {} (dir.atVersion version)
      (· ≠ dir.atVersion version) (dir.Readable (isFlexibleVersion version)) 1 := by
  apply Exact.finish
  · apply Exact.encodeFailWith
    apply Exact.decodeFailWith
    apply CarriesInto.seqExact
    · exact carries_errField dir.code _ _
    apply CarriesInto.seqExact
    · exact (carries_putString dir.path).field _ _ _
    apply Exact.seqCarries
    · apply Exact.vectorMember (fun topic _ => topic.exact version)
      · exact fun _ => rfl
      · rfl
      · rfl
    · apply CarriesInto.seq
      · apply CarriesInto.inVersions
        intro _
        apply CarriesInto.seq
        · exact (carries_putInt64 dir.totalBytes).field _ _ _
        · exact (carries_putInt64 dir.usableBytes).field _ _ _
      · exact carries_putEmptyTaggedFieldArray.skip _
    · exact keeps_decodeTail fun _ _ => rfl
    · dsimp only
      split_ifs <;> exact fun differs => differs rfl
  · rw [List.map_id']
    dsimp only [atVersion]
    split_ifs <;> rfl
  · exact Iff.rfl
  · omega

/-- What is decoded has nothing that its version has not. -/
theorem maintains_decode (version : Int16) :
    Maintains (fun dir : DescribeLogDirsResponseDirMetadata => dir.atVersion version = dir) (decode version) := by
  by_cases present : 4 ≤ version
  · apply Maintains.of_all
    intro dir
    rw [atVersion, if_pos present, if_pos present]
  have keeps :
      Keeps (fun dir : DescribeLogDirsResponseDirMetadata => (dir.totalBytes, dir.usableBytes)) (decode version) := by
    apply Keeps.failWith
    apply Keeps.seq
    · exact Keeps.errField fun _ _ => rfl
    apply Keeps.seq
    · exact Keeps.fieldOr fun _ _ => rfl
    apply Keeps.seq
    · exact keeps_vectorMember fun _ _ => rfl
    rw [decodeTail, inVersions, if_neg present]
    exact (Keeps.pure ()).seq (Keeps.readOr _ _)
  have zero (dir : DescribeLogDirsResponseDirMetadata) :
      dir.atVersion version = dir ↔ (dir.totalBytes, dir.usableBytes) = (0, 0) := by
    rw [atVersion, if_neg present, if_neg present, mk.injEq, Prod.mk.injEq]
    grind
  simp only [zero]
  exact keeps.maintains (· = (0, 0))

end DescribeLogDirsResponseDirMetadata

namespace DescribeLogDirsResponse

/-- What a version has of an answer; the rest is as in a fresh one. -/
def atVersion (r : DescribeLogDirsResponse) : DescribeLogDirsResponse :=
  { r with
    code := if 3 ≤ r.version then r.code else 0
    logDirs := r.logDirs.map fun dir => dir.atVersion r.version }

/-- The time fits in 32 bits, and the numbers of the directories, of their topics and of the partitions of those can be
read. -/
structure Readable (r : DescribeLogDirsResponse) : Prop where
  throttleTime : DurationFits r.throttleTime
  logDirs : ListReadable (isFlexibleVersion r.version)
    (fun dir : DescribeLogDirsResponseDirMetadata => dir.Readable (isFlexibleVersion r.version)) r.logDirs

/-- What follows the time leaves it alone. -/
theorem keeps_throttleTime {bad : Int64 → Prop} (version : Int16) :
    Keeps (fun o : DescribeLogDirsResponse => bad o.throttleTime) (do
      inVersions (3 ≤ version) (errField fun code r => { r with code })
      decodeLogDirs version
      read getEmptyTaggedFieldArray) := by
  apply Keeps.seq
  · exact Keeps.inVersions (Keeps.errField fun _ _ => rfl)
  apply Keeps.seq
  · exact keeps_vectorMember fun _ _ => rfl
  exact Keeps.readOr _ _

theorem exact (r : DescribeLogDirsResponse) :
    Exact strict (isFlexibleVersion r.version) r.encode (decode r.version) {} r.atVersion
      (· ≠ r.atVersion) r.Readable 1 := by
  apply Exact.finish
  · apply Exact.encodeFailWith
    apply Exact.decodeFailWith
    apply Exact.afterUpdate
    apply Exact.both
    · exact @exact_durationField _ strict (isFlexibleVersion r.version) _ _ _ throttleTime fun _ => rfl
    · apply CarriesInto.seqExact
      · exact CarriesInto.inVersions fun _ => carries_errField r.code _ _
      apply Exact.seqSkip
      · apply Exact.vectorMember (fun dir _ => dir.exact r.version)
        · exact fun _ => rfl
        · rfl
        · split <;> rfl
      · exact carries_putEmptyTaggedFieldArray
    · exact @keeps_throttleTime (· ≠ r.throttleTime) r.version
    · dsimp only
      split_ifs <;> exact fun differs => differs rfl
  · dsimp only [atVersion]
    split_ifs <;> rfl
  · exact ⟨fun both => ⟨both.1, both.2⟩, fun readable => ⟨readable.throttleTime, readable.logDirs⟩⟩
  · omega

theorem code_of_decode (absent : ¬ 3 ≤ version) : Keeps code (decode version) := by
  apply Keeps.failWith
  apply Keeps.seq
  · exact Keeps.update fun _ => rfl
  apply Keeps.seq
  · exact Keeps.fieldOr fun _ _ => rfl
  apply Keeps.seq
  · rw [inVersions, if_neg absent]
    exact Keeps.pure ()
  apply Keeps.seq
  · exact keeps_vectorMember fun _ _ => rfl
  exact Keeps.readOr _ _

theorem maintains_decode (version : Int16) :
    Maintains (fun r : DescribeLogDirsResponse => ∀ dir ∈ r.logDirs, dir.atVersion version = dir) (decode version) := by
  have others {x : DecodeInto DescribeLogDirsResponse Unit} (keeps : Keeps logDirs x) :
      Maintains (fun r : DescribeLogDirsResponse => ∀ dir ∈ r.logDirs, dir.atVersion version = dir) x :=
    keeps.maintains fun dirs => ∀ dir ∈ dirs, dir.atVersion version = dir
  apply Maintains.failWith
  apply Maintains.seq
  · exact others (Keeps.update fun _ => rfl)
  apply Maintains.seq
  · exact others (Keeps.fieldOr fun _ _ => rfl)
  apply Maintains.seq
  · exact others (Keeps.inVersions (Keeps.errField fun _ _ => rfl))
  apply Maintains.seq
  · apply (DescribeLogDirsResponseDirMetadata.maintains_decode version).vectorMember
    · simp only [DescribeLogDirsResponseDirMetadata.atVersion, ite_self]
    · exact fun _ _ => rfl
  · exact others (Keeps.readOr _ _)

/-- What is decoded has nothing that its version has not. -/
theorem atVersion_of_decode {r : DescribeLogDirsResponse} {pd pd' : PacketDecoder}
    (run : decode r.version ({}, pd) = .ok () (r, pd')) : r.atVersion = r := by
  have dirs := maintains_decode r.version _ _ _ _ _ (fun dir member => absurd member List.not_mem_nil) run
  have same : r.logDirs.map (fun dir => dir.atVersion r.version) = r.logDirs :=
    (List.map_congr_left dirs).trans (List.map_id' _)
  by_cases present : 3 ≤ r.version
  · rw [atVersion, if_pos present, same]
  · have zero : r.code = 0 := code_of_decode present _ _ _ _ _ run
    rw [atVersion, if_neg present, same, ← zero]

end DescribeLogDirsResponse

end Coev.Kafka

/-! ## Answers to deletions of access rules: what comes back

A pattern of `-1` is sent as another one, and the answer keeps the version that it has.
-/

namespace Coev.Kafka

open ByteString DecodeInto PacketDecoder PacketEncoder

variable {strict flexible : Bool}

namespace Resource

/-- What a version has of a resource; the rest is as in a fresh one. -/
def atVersion (version : Int16) (resource : Resource) : Resource :=
  { resource with
    resourcePatternType := if version = 1 then resource.resourcePatternType else AclResourcePatternTypeLiteral }

/-- The pattern is sent as it is. -/
def Readable (version : Int16) (resource : Resource) : Prop := version = 1 → resource.resourcePatternType ≠ -1

theorem exact_pattern (version : Int16) (resource : Resource) {o : Resource}
    (start : o.resourcePatternType = AclResourcePatternTypeLiteral) :
    Exact strict flexible (inVersions (version = 1) (putInt8 resource.sentPatternType))
      (inVersions (version = 1) (field getInt8 fun resourcePatternType resource => { resource with resourcePatternType })) o
      { o with resourcePatternType := (resource.atVersion version).resourcePatternType }
      (fun o => o.resourcePatternType ≠ (resource.atVersion version).resourcePatternType) (resource.Readable version) 0 where
  carries readable := by
    by_cases present : version = 1
    · have pattern : (resource.atVersion version).resourcePatternType = resource.sentPatternType := by
        rw [sentPatternType, if_neg (readable present)]
        exact if_pos present
      rw [inVersions_of present, inVersions_of present, pattern]
      exact ((carries_putInt8 _).field _ _ o).weaken (Nat.zero_le 1)
    · have pattern : (resource.atVersion version).resourcePatternType = o.resourcePatternType :=
        (if_neg present).trans start.symm
      rw [inVersions, if_neg present, inVersions, if_neg present, pattern]
      exact CarriesInto.pure o
  spoils notReadable := by
    obtain ⟨present, unknown⟩ := Classical.not_imp.mp notReadable
    have pattern : (resource.atVersion version).resourcePatternType = -1 :=
      (if_pos present).trans (Classical.not_not.mp unknown)
    have sent : resource.sentPatternType = AclResourcePatternTypeUnknown := if_pos (Classical.not_not.mp unknown)
    rw [inVersions_of present, inVersions_of present, pattern, sent]
    apply ((@carries_putInt8 strict flexible _).field _ _ o).only.weaken _ (Nat.zero_le 1)
    rintro o' - rfl
    exact (show AclResourcePatternTypeUnknown ≠ -1 by decide)
  right := fun differs => differs rfl

theorem exact (version : Int16) (resource : Resource) :
    Exact strict flexible (resource.encode version) (decode version) {} (resource.atVersion version)
      (· ≠ resource.atVersion version) (resource.Readable version) 1 := by
  apply Exact.finish
  · apply Exact.encodeFailWith
    apply Exact.decodeFailWith
    apply CarriesInto.seqExact
    · exact (carries_putInt8 resource.resourceType).field _ _ _
    apply CarriesInto.seqExact
    · exact (carries_putString resource.resourceName).field _ _ _
    · exact exact_pattern version resource rfl
  · rfl
  · exact Iff.rfl
  · omega

end Resource

theorem Acl.carries (acl : Acl) : CarriesInto strict flexible acl.encode decode {} acl 1 := by
  apply CarriesInto.encodeFailWith
  apply CarriesInto.decodeFailWith
  apply CarriesInto.conclude
  · apply CarriesInto.seq
    · exact (carries_putString acl.principal).field _ _ _
    apply CarriesInto.seq
    · exact (carries_putString acl.host).field _ _ _
    apply CarriesInto.seq
    · exact (carries_putInt8 acl.operation).field _ _ _
    · exact (carries_putInt8 acl.permissionType).field _ _ _
  · rfl
  · omega

namespace MatchingAcl

/-- What a version has of a rule; the rest is as in a fresh one. -/
def atVersion (version : Int16) (matching : MatchingAcl) : MatchingAcl :=
  { matching with resource := matching.resource.atVersion version }

theorem exact (version : Int16) (matching : MatchingAcl) :
    Exact strict flexible (matching.encode version) (decode version) {} (matching.atVersion version)
      (· ≠ matching.atVersion version) (matching.resource.Readable version) 1 := by
  apply Exact.finish
  · apply Exact.encodeFailWith
    apply Exact.decodeFailWith
    apply CarriesInto.seqExact
    · exact carries_errField matching.err _ _
    apply CarriesInto.seqExact
    · exact (carries_putNullableString matching.errMsg).field _ _ _
    apply Exact.seqCarries
    · apply Exact.part
      · exact matching.resource.exact version
      · exact fun _ => rfl
    · apply CarriesInto.part
      exact matching.acl.carries
    · exact Keeps.part fun _ _ => rfl
    · exact fun differs => differs rfl
  · rfl
  · exact Iff.rfl
  · omega

end MatchingAcl

namespace FilterResponse

/-- What a version has of the answer for a filter; the rest is as in a fresh one. -/
def atVersion (version : Int16) (response : FilterResponse) : FilterResponse :=
  { response with matchingAcls := response.matchingAcls.map (MatchingAcl.atVersion version) }

/-- The number of the rules can be read, and each is sent as it is. -/
def Readable (flexible : Bool) (version : Int16) (response : FilterResponse) : Prop :=
  ListReadable flexible (fun matching : MatchingAcl => matching.resource.Readable version) response.matchingAcls

theorem exact (version : Int16) (response : FilterResponse) :
    Exact strict flexible (response.encode version) (decode version) {} (response.atVersion version)
      (· ≠ response.atVersion version) (response.Readable flexible version) 1 := by
  apply Exact.finish
  · apply Exact.encodeFailWith
    apply Exact.decodeFailWith
    apply CarriesInto.seqExact
    · exact carries_errField response.err _ _
    apply CarriesInto.seqExact
    · exact (carries_putNullableString response.errMsg).field _ _ _
    · apply Exact.vectorMember (fun matching _ => matching.exact version)
      · exact fun _ => rfl
      · rfl
      · rfl
  · rfl
  · exact Iff.rfl
  · omega

end FilterResponse

namespace DeleteAclsResponse

/-- What a version has of an answer; the rest is as in a fresh one. -/
def atVersion (r : DeleteAclsResponse) : DeleteAclsResponse :=
  { r with filterResponses := r.filterResponses.map (FilterResponse.atVersion r.version) }

/-- The time fits in 32 bits, the numbers of the filters and of their rules can be read, and patterns are sent as they
are. -/
structure Readable (r : DeleteAclsResponse) : Prop where
  throttleTime : DurationFits r.throttleTime
  filterResponses : ListReadable false (FilterResponse.Readable false r.version) r.filterResponses

theorem exact (r : DeleteAclsResponse) (fresh : Int16) :
    Exact strict false r.encode (decode r.version) { version := fresh } { r.atVersion with version := fresh }
      (· ≠ { r.atVersion with version := fresh }) r.Readable 1 := by
  apply Exact.finish
  · apply Exact.encodeFailWith
    apply Exact.decodeFailWith
    apply Exact.both
    · exact @exact_durationField _ strict false _ _ _ throttleTime fun _ => rfl
    · apply Exact.vectorMember (fun response _ => response.exact r.version)
      · exact fun _ => rfl
      · rfl
      · rfl
    · exact keeps_vectorMember fun _ _ => rfl
    · exact fun differs => differs rfl
  · rfl
  · exact ⟨fun both => ⟨both.1, both.2⟩, fun readable => ⟨readable.throttleTime, readable.filterResponses⟩⟩
  · omega

/-- Decoding leaves the version alone. -/
theorem keeps_version (version : Int16) : Keeps DeleteAclsResponse.version (decode version) := by
  apply Keeps.failWith
  apply Keeps.seq
  · exact Keeps.fieldOr fun _ _ => rfl
  · exact keeps_vectorMember fun _ _ => rfl

end DeleteAclsResponse

end Coev.Kafka

/-! ## Answers to an election of leaders: what comes back -/

namespace Coev.Kafka

open ByteString DecodeInto PacketDecoder PacketEncoder TopicPartitions

variable {strict flexible : Bool}

theorem PartitionResult.carries (result : PartitionResult) :
    CarriesInto strict flexible result.encode decode {} result 1 := by
  apply CarriesInto.encodeFailWith
  apply CarriesInto.decodeFailWith
  have fields :
      CarriesInto strict flexible (do putKError result.code; putNullableString result.message; putEmptyTaggedFieldArray)
      (do
        errField fun code result => { result with code }
        field getNullableString fun message result => { result with message }
        read getEmptyTaggedFieldArray) {} result (1 + (0 + 0)) := by
    apply CarriesInto.seq
    · exact carries_errField result.code _ _
    apply CarriesInto.seq
    · exact (carries_putNullableString result.message).field _ _ _
    · exact carries_putEmptyTaggedFieldArray.skip _
  exact fields

namespace ElectLeadersResponse

/-- What a version has of an answer; the rest is as in a fresh one. -/
def atVersion (r : ElectLeadersResponse) : ElectLeadersResponse := { r with code := if 0 < r.version then r.code else 0 }

/-- The time fits in 32 bits, and the numbers of the topics and of their partitions can be read. -/
structure Readable (r : ElectLeadersResponse) : Prop where
  throttleTime : DurationFits r.throttleTime
  replicaElectionResults : MapReadable (isFlexibleVersion r.version)
    (fun partitions : Std.ExtTreeMap Int32 PartitionResult =>
      isFlexibleVersion r.version = false → CountReadable (bigEndian 4 partitions.size)) r.replicaElectionResults

theorem exact_topic (topic : Bytes) (partitions : Std.ExtTreeMap Int32 PartitionResult)
    {m : Std.ExtTreeMap Bytes (Std.ExtTreeMap Int32 PartitionResult)} (new : m[topic]? = none) :
    Exact strict flexible (encodeTopic (topic, partitions)) decodeTopic m (m.insert topic partitions)
      (Misread topic partitions) (flexible = false → CountReadable (bigEndian 4 partitions.size)) 1 :=
  exact_countedTopic carries_putString (fun partition v _ => exact_partition partition (PartitionResult.carries v).exact)
    (fun _ _ _ _ => grewBy_partition) carries_putEmptyTaggedFieldArray topic (.refl _) (Std.ExtTreeMap.map_unchanged _) new

/-- What follows the time leaves it alone. -/
theorem keeps_throttleTime {bad : Int64 → Prop} (version : Int16) :
    Keeps (fun o : ElectLeadersResponse => bad o.throttleTime) (do
      inVersions (0 < version) (errField fun code r => { r with code })
      decodeTopics
      read getEmptyTaggedFieldArray) := by
  apply Keeps.seq
  · exact Keeps.inVersions (Keeps.errField fun _ _ => rfl)
  apply Keeps.seq
  · exact keeps_tableMember fun _ _ => rfl
  exact Keeps.readOr _ _

theorem exact {r : ElectLeadersResponse} {order : List Topic} (perm : order.Perm r.replicaElectionResults.toList) :
    Exact strict (isFlexibleVersion r.version) (encode order r) (decode r.version) {} r.atVersion
      (· ≠ r.atVersion) r.Readable 1 := by
  apply Exact.finish
  · apply Exact.encodeFailWith
    apply Exact.decodeFailWith
    apply Exact.afterUpdate
    apply Exact.both
    · exact @exact_durationField _ strict (isFlexibleVersion r.version) _ _ _ throttleTime fun _ => rfl
    · apply CarriesInto.seqExact
      · exact CarriesInto.inVersions fun _ => carries_errField r.code _ _
      apply Exact.seqSkip
      · apply Exact.tableMember perm (fun topic partitions _ new => exact_topic topic partitions new)
          (fun _ _ _ _ => grewBy_topic)
        · exact fun _ => rfl
        · rfl
        · split <;> rfl
      · exact carries_putEmptyTaggedFieldArray
    · exact @keeps_throttleTime (· ≠ r.throttleTime) r.version
    · dsimp only
      split_ifs <;> exact fun differs => differs rfl
  · rw [Std.ExtTreeMap.map_unchanged]
    dsimp only [atVersion]
    split_ifs <;> rfl
  · exact ⟨fun both => ⟨both.1, both.2⟩, fun readable => ⟨readable.throttleTime, readable.replicaElectionResults⟩⟩
  · omega

/-- What is decoded has nothing that its version has not. -/
theorem atVersion_of_decode {r : ElectLeadersResponse} {pd pd' : PacketDecoder}
    (run : decode r.version ({}, pd) = .ok () (r, pd')) : r.atVersion = r := by
  by_cases present : 0 < r.version
  · rw [atVersion, if_pos present]
  have keeps : Keeps code (decode r.version) := by
    apply Keeps.failWith
    apply Keeps.seq
    · exact Keeps.update fun _ => rfl
    apply Keeps.seq
    · exact Keeps.fieldOr fun _ _ => rfl
    apply Keeps.seq
    · rw [inVersions, if_neg present]
      exact Keeps.pure ()
    apply Keeps.seq
    · exact keeps_tableMember fun _ _ => rfl
    exact Keeps.readOr _ _
  have zero : r.code = 0 := keeps _ _ _ _ _ run
  rw [atVersion, if_neg present, ← zero]

end ElectLeadersResponse

end Coev.Kafka

/-! ## Answers about reassignments of partitions: what comes back

Both answers are flexible in every version, so all that can go wrong is a time that does not fit in 32 bits.
-/

namespace Coev.Kafka

open Std (ExtTreeMap)
open ByteString DecodeInto PacketDecoder PacketEncoder TopicPartitions

theorem AlterPartitionReassignmentsErrorBlock.carries {strict flexible : Bool}
    (block : AlterPartitionReassignmentsErrorBlock) : CarriesInto strict flexible block.encode decode {} block 1 := by
  apply CarriesInto.encodeFailWith
  rw [← bind_assoc]
  have fields :
      CarriesInto strict flexible (putKError block.code >>= fun _ => putNullableString block.message) decodeFields
        {} block
      (1 + 0) := by
    apply CarriesInto.decodeFailWith
    apply CarriesInto.seq
    · exact carries_errField block.code _ _
    · exact (carries_putNullableString block.message).field _ _ _
  exact fields.seq (carries_putEmptyTaggedFieldArray.skip _)

namespace AlterPartitionReassignmentsResponse

/-- The time fits in 32 bits. -/
def Readable (r : AlterPartitionReassignmentsResponse) : Prop := DurationFits r.throttleTime

theorem exact_topic (topic : Bytes) (partitions : ExtTreeMap Int32 AlterPartitionReassignmentsErrorBlock)
    {m : ExtTreeMap Bytes (ExtTreeMap Int32 AlterPartitionReassignmentsErrorBlock)} (new : m[topic]? = none) :
    Exact false true (encodeTopic (topic, partitions)) decodeTopic m (m.insert topic partitions)
      (Misread topic partitions) True 1 := by
  apply Exact.conclude
  · exact exact_countedTopic carries_putString
      (fun partition v _ => exact_partition partition (AlterPartitionReassignmentsErrorBlock.carries v).exact)
      (fun _ _ _ _ => grewBy_partition) carries_putEmptyTaggedFieldArray topic (.refl _) (ExtTreeMap.map_unchanged _) new
  · rfl
  · exact iff_true_intro Bool.noConfusion
  · exact Nat.le_refl 1

/-- So many topics are read. -/
theorem decodeTopics_ofNat {n : ℕ} (small : n ≤ maxRequestSize) (o : AlterPartitionReassignmentsResponse)
    (pd : PacketDecoder) : decodeTopics (Int32.ofNat n) (o, pd) =
      part errors (fun errors r => { r with errors }) (rounds decodeTopic n) (o, pd) := by
  by_cases none_ : n = 0
  · subst none_
    rfl
  · rw [decodeTopics, if_pos (int32_ofNat_pos small none_), int32_ofNat_loop small]

/-- What follows the time leaves it alone. -/
theorem keeps_throttleTime {bad : Int64 → Prop} :
    Keeps (fun o : AlterPartitionReassignmentsResponse => bad o.throttleTime) (do
    errField fun code r => { r with code }
    field getNullableString fun message r => { r with message }
    let numTopics ← read getArrayLength
    decodeTopics numTopics) := by
  apply Keeps.seq
  · exact Keeps.errField fun _ _ => rfl
  apply Keeps.seq
  · exact Keeps.fieldOr fun _ _ => rfl
  apply (Keeps.readOr _ _).bind
  intro numTopics
  rw [decodeTopics]
  split
  · exact Keeps.part fun _ _ => rfl
  · exact Keeps.pure ()

theorem exact (r : AlterPartitionReassignmentsResponse) :
    Exact false true r.encode (decode r.version) {} r (· ≠ r) r.Readable 1 := by
  apply Exact.finish
  · apply Exact.encodeFailWith
    apply Exact.seqSkip
    · apply Exact.decodeFailWith
      apply Exact.afterUpdate
      apply Exact.both
      · exact @exact_durationField _ false true _ _ _ throttleTime fun _ => rfl
      · apply CarriesInto.seqExact
        · exact carries_errField r.code _ _
        apply CarriesInto.seqExact
        · exact (carries_putNullableString r.message).field _ _ _
        apply Exact.mapMemberOf errors (fun errors r => { r with errors }) (.refl _) (fun _ => rfl) (.refl r.errors.toList)
          (fun topic partitions _ new => exact_topic topic partitions new) (fun _ _ _ _ => grewBy_topic)
            (fun _ => rfl) rfl rfl
        · exact fun small pd => decodeTopics_ofNat small _ pd
        · intro count negative pd o' pd' run
          rw [decodeTopics, if_neg (Int32.not_lt.mpr (Int32.le_of_lt negative))] at run
          cases run
          rfl
      · exact @keeps_throttleTime (· ≠ r.throttleTime)
      · exact fun differs => differs rfl
    · exact carries_putEmptyTaggedFieldArray
  · rw [ExtTreeMap.map_unchanged]
  · exact and_iff_left (mapReadable_of_flexible fun _ => trivial)
  · omega

end AlterPartitionReassignmentsResponse

theorem PartitionReplicaReassignmentsStatus.carries (status : PartitionReplicaReassignmentsStatus) :
    CarriesInto false true status.encode decode {} status 0 := by
  have replicas (xs : List Int32) : Carries false true (putInt32Array xs) getInt32Array xs 1 :=
    (exact_putInt32Array (fun isStrict => absurd isStrict Bool.false_ne_true) xs).carries Bool.noConfusion
  have fields : CarriesInto false true status.encode decode {} status (1 + (1 + (1 + 0))) := by
    apply CarriesInto.seq
    · exact (replicas status.replicas).field _ _ _
    apply CarriesInto.seq
    · exact (replicas status.addingReplicas).field _ _ _
    apply CarriesInto.seq
    · exact (replicas status.removingReplicas).field _ _ _
    · exact carries_putEmptyTaggedFieldArray.skip _
  exact fields.weaken (Nat.zero_le _)

namespace ListPartitionReassignmentsResponse

/-- The time fits in 32 bits. -/
def Readable (r : ListPartitionReassignmentsResponse) : Prop := DurationFits r.throttleTime

theorem exact_topic (topic : Bytes) (partitions : ExtTreeMap Int32 PartitionReplicaReassignmentsStatus)
    {m : ExtTreeMap Bytes (ExtTreeMap Int32 PartitionReplicaReassignmentsStatus)} (new : m[topic]? = none) :
    Exact false true (encodeTopic (topic, partitions)) decodeTopic m (m.insert topic partitions)
      (Misread topic partitions) True 1 := by
  apply Exact.conclude
  · exact exact_countedTopic carries_putString
      (fun partition v _ => exact_partition partition (PartitionReplicaReassignmentsStatus.carries v).exact)
      (fun _ _ _ _ => grewBy_partition) carries_putEmptyTaggedFieldArray topic (.refl _) (ExtTreeMap.map_unchanged _) new
  · rfl
  · exact iff_true_intro Bool.noConfusion
  · exact Nat.le_refl 1

/-- What follows the time leaves it alone. -/
theorem keeps_throttleTime {bad : Int64 → Prop} :
    Keeps (fun o : ListPartitionReassignmentsResponse => bad o.throttleTime) (do
    errField fun err r => { r with err }
    field getNullableString fun message r => { r with message }
    decodeTopics
    read getEmptyTaggedFieldArray) := by
  apply Keeps.seq
  · exact Keeps.errField fun _ _ => rfl
  apply Keeps.seq
  · exact Keeps.fieldOr fun _ _ => rfl
  apply Keeps.seq
  · exact keeps_mapMember fun _ _ => rfl
  exact Keeps.readOr _ _

theorem exact (r : ListPartitionReassignmentsResponse) :
    Exact false true r.encode (decode r.version) {} r (· ≠ r) r.Readable 1 := by
  apply Exact.finish
  · apply Exact.afterUpdate
    apply Exact.both
    · exact @exact_durationField _ false true _ _ _ throttleTime fun _ => rfl
    · apply CarriesInto.seqExact
      · exact carries_errField r.err _ _
      apply CarriesInto.seqExact
      · exact (carries_putNullableString r.message).field _ _ _
      apply Exact.seqSkip
      · exact Exact.mapMember (.refl r.topicStatus.toList) (fun topic partitions _ new => exact_topic topic partitions new)
          (fun _ _ _ _ => grewBy_topic) (fun _ => rfl) rfl rfl
      · exact carries_putEmptyTaggedFieldArray
    · exact @keeps_throttleTime (· ≠ r.throttleTime)
    · exact fun differs => differs rfl
  · rw [ExtTreeMap.map_unchanged]
  · exact and_iff_left (mapReadable_of_flexible fun _ => trivial)
  · omega

end ListPartitionReassignmentsResponse

end Coev.Kafka
