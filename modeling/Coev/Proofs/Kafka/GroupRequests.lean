import Coev.Model.Kafka.GroupRequests
import Coev.Proofs.Kafka.ExactValues

/-! # Requests to join a group: what is carried

A request is read back but for a number of protocols that the fixed mode cannot read, and but for tagged fields behind no
protocols.
-/

namespace Coev.Kafka

open ByteString DecodeInto PacketDecoder PacketEncoder

variable {strict flexible : Bool}

theorem GroupProtocol.carries (protocol : GroupProtocol) : Carries strict flexible protocol.encode decode protocol 1 := by
  have fields : Carries strict flexible protocol.encode decode protocol (1 + (0 + 0)) := by
    apply (carries_putString protocol.name).seq
    apply (carries_putBytes protocol.metadata).seq
    exact carries_putEmptyTaggedFieldArray.returns fun _ => protocol
  exact fields

namespace JoinGroupRequest

variable {r : JoinGroupRequest}

/-- The fields in front of the protocols that a version has, in a fresh request. -/
def headAtVersion (r : JoinGroupRequest) : JoinGroupRequest where
  version := r.version
  groupId := r.groupId
  sessionTimeout := r.sessionTimeout
  rebalanceTimeout := if 1 ≤ r.version then r.rebalanceTimeout else 0
  memberId := r.memberId
  groupInstanceId := if 5 ≤ r.version then r.groupInstanceId else []
  protocolType := r.protocolType

/-- What a version has of a request; the rest is as in a fresh one. The array of the protocols is read into both members. -/
def atVersion (r : JoinGroupRequest) : JoinGroupRequest :=
  { r.headAtVersion with
    groupProtocols := r.protocols.foldl (fun m protocol => m.insert protocol.name protocol.metadata) ∅
    orderedGroupProtocols := r.protocols }

/-- The number of protocols can be read, and tagged fields do not stand behind none. -/
structure Readable (r : JoinGroupRequest) : Prop where
  count : isFlexibleVersion r.version = false → CountReadable (bigEndian 4 r.protocols.length)
  someProtocol : isFlexibleVersion r.version = true → r.protocols ≠ []

theorem carries_head (r : JoinGroupRequest) :
    CarriesInto strict flexible r.encodeHead (decodeHead r.version) {} r.headAtVersion 1 := by
  apply CarriesInto.conclude
  · apply CarriesInto.afterUpdate
    apply CarriesInto.seq
    · exact (carries_putString _).field _ _ _
    apply CarriesInto.seq
    · exact (carries_putInt32 _).field _ _ _
    apply CarriesInto.seq
    · exact CarriesInto.inVersions fun _ => (carries_putInt32 _).field _ _ _
    apply CarriesInto.seq
    · exact (carries_putString _).field _ _ _
    apply CarriesInto.seq
    · exact CarriesInto.inVersions fun _ => (carries_putNullableString _).field _ _ _
    exact (carries_putString _).field _ _ _
  · dsimp only [headAtVersion]
    split_ifs <;> rfl
  · omega

/-- What is written behind the number of protocols. -/
def encodeTail (r : JoinGroupRequest) : Encode Unit := do
  r.protocols.forM GroupProtocol.encode
  putEmptyTaggedFieldArray

/-- A request with protocols in both members is not encoded. -/
theorem one_member {bytes : Bytes} (encoded : encodeBody (isFlexibleVersion r.version) r.encode = .ok bytes)
    (some_ : r.groupProtocols ≠ ∅) : r.orderedGroupProtocols = [] := by
  by_contra both
  obtain ⟨head, writes, -⟩ := @carries_head false (isFlexibleVersion r.version) r
  have fails : Writes (isFlexibleVersion r.version) (encodeProtocols r) () none := by
    rw [encodeProtocols, if_pos some_, if_pos both]
    exact .inl ⟨_, prep_failCode _⟩
  obtain ⟨none_, -⟩ := (encodeBody_eq_ok_iff (writes.bind (fails.bind writes_putEmptyTaggedFieldArray))).mp encoded
  cases head <;> cases none_

theorem encode_eq (one : r.groupProtocols ≠ ∅ → r.orderedGroupProtocols = []) :
    r.encode = r.encodeHead >>= fun _ => putArrayLength (Int32.ofNat r.protocols.length) >>= fun _ => r.encodeTail := by
  have protocols : r.encodeProtocols = putArrayLength (Int32.ofNat r.protocols.length) >>= fun _ =>
      r.protocols.forM GroupProtocol.encode := by
    rw [encodeProtocols, JoinGroupRequest.protocols]
    split
    · next some_ =>
      rw [if_neg (not_not.mpr (one some_)), List.length_map, Std.ExtTreeMap.length_toList]
      simp only [List.forM_eq_forM, List.forM_map]
    · rfl
  rw [encode, protocols, bind_assoc]
  rfl

theorem foldl_addProtocol (protocols : List GroupProtocol) (r : JoinGroupRequest) :
    protocols.foldl (fun r protocol => addProtocol protocol r) r =
      { r with
        groupProtocols := protocols.foldl (fun m protocol => m.insert protocol.name protocol.metadata) r.groupProtocols
        orderedGroupProtocols := r.orderedGroupProtocols ++ protocols } := by
  induction protocols generalizing r with
  | nil => rw [List.append_nil]; rfl
  | cons protocol protocols ih =>
    rw [List.foldl_cons, ih]
    simp only [addProtocol, List.append_assoc, List.singleton_append, List.foldl_cons]

/-- What is read behind a number of protocols that is not zero. -/
def decodeSome (n : ℕ) : DecodeInto JoinGroupRequest Unit := do
  update ({ · with groupProtocols := ∅, orderedGroupProtocols := [] })
  decodeProtocols n
  read getEmptyTaggedFieldArray

theorem carries_some (r : JoinGroupRequest) : CarriesInto strict flexible r.encodeTail
      (decodeSome r.protocols.length) r.headAtVersion r.atVersion r.protocols.length := by
  apply CarriesInto.afterUpdate
  have protocols : CarriesInto strict flexible (r.protocols.forM GroupProtocol.encode) (decodeProtocols r.protocols.length)
      r.headAtVersion r.atVersion r.protocols.length := by
    apply CarriesInto.conclude (CarriesInto.rounds _) _ (Nat.le_refl _)
    · exact fun r protocol => addProtocol protocol r
    · intro front protocol _ _
      exact (GroupProtocol.carries protocol).field _ _ _
    · exact foldl_addProtocol _ _
  exact protocols.seq (carries_putEmptyTaggedFieldArray.skip _)

theorem carries {r : JoinGroupRequest} (one : r.groupProtocols ≠ ∅ → r.orderedGroupProtocols = []) (readable : r.Readable) :
    CarriesInto strict (isFlexibleVersion r.version) r.encode (decode r.version) {} r.atVersion 1 := by
  rw [encode_eq one]
  suffices tail :
      CarriesInto strict (isFlexibleVersion r.version)
        (putArrayLength (Int32.ofNat r.protocols.length) >>= fun _ => r.encodeTail)
      (read getArrayLength >>= decodeTail) r.headAtVersion r.atVersion 0 from (carries_head r).seq tail
  by_cases none_ : r.protocols = []
  · have isFixed : isFlexibleVersion r.version = false :=
      Bool.eq_false_of_not_eq_true fun isFlexible => readable.someProtocol isFlexible none_
    have same : r.headAtVersion = r.atVersion := by
      rw [atVersion, none_]
      rfl
    have untagged : CarriesInto strict false r.encodeTail (pure ()) r.headAtVersion r.atVersion 0 := by
      rw [encodeTail, none_, ← same]
      exact carries_noTaggedFields r.headAtVersion
    have length : r.protocols.length = 0 := by rw [none_]; rfl
    rw [isFixed, length]
    apply CarriesInto.counted (fun _ => countReadable_zero) untagged
    intro _
    rfl
  · have positive : r.protocols.length ≠ 0 := fun zero => none_ (List.eq_nil_of_length_eq_zero zero)
    apply CarriesInto.counted readable.count (carries_some r)
    intro small
    rw [decodeTail, if_neg (int32_ofNat_ne_zero small positive), int32_ofNat_loop small]
    rfl

theorem sized_tail (r : JoinGroupRequest) : Sized flexible r.encodeTail r.protocols.length := by
  have protocols : Sized flexible (r.protocols.forM GroupProtocol.encode) r.protocols.length :=
    Sized.forM fun protocol _ => (@GroupProtocol.carries false flexible protocol).sized
  exact protocols.bind (@carries_putEmptyTaggedFieldArray false flexible).sized

/-- The protocols come back only when their number can be read. -/
theorem leaves_protocols (one : r.groupProtocols ≠ ∅ → r.orderedGroupProtocols = [])
    (unreadable : ¬ CountReadable (bigEndian 4 r.protocols.length)) :
    Leaves false r.encode (decode r.version) {} (fun o _ => o.orderedGroupProtocols = []) 1 := by
  have behind : Leaves false r.encodeTail (decodeTail (countSeen r.protocols.length)) r.headAtVersion
      (fun o _ => o.orderedGroupProtocols = []) r.protocols.length := by
    apply (sized_tail r).leaves
    intro small pd o pd' run
    have some_ : countSeen r.protocols.length ≠ 0 := by
      rw [Ne, countSeen_eq_zero_iff small]
      exact not_countReadable_size unreadable
    rw [decodeTail, if_neg some_, loop_of_unreadable small unreadable] at run
    obtain ⟨_, ⟨o₁, pd₁⟩, first, rest⟩ := EStateM.bind_eq_ok_iff.mp run
    obtain ⟨_, ⟨o₂, pd₂⟩, skipped, last⟩ := EStateM.bind_eq_ok_iff.mp rest
    obtain ⟨rfl, -⟩ := update_eq_ok_iff.mp first
    obtain ⟨-, rfl⟩ := read_eq_ok_iff.mp last
    cases skipped
    rfl
  have counted : Leaves false (putArrayLength (Int32.ofNat r.protocols.length) >>= fun _ => r.encodeTail)
      (read getArrayLength >>= decodeTail) r.headAtVersion (fun o _ => o.orderedGroupProtocols = []) r.protocols.length :=
    behind.counted (Nat.le_refl _) fun _ => rfl
  rw [encode_eq one]
  exact ((@carries_head false _ r).leaves counted).weaken (fun _ _ holds => holds) (Nat.le_add_right 1 _)

/-- Behind no protocols, the tagged fields are left unread. -/
theorem leaves_unread (one : r.groupProtocols ≠ ∅ → r.orderedGroupProtocols = []) (none_ : r.protocols = []) :
    Leaves true r.encode (decode r.version) {} (fun _ unread => unread ≠ []) 1 := by
  have behind : Leaves true r.encodeTail (pure ()) r.headAtVersion (fun _ unread => unread ≠ []) 1 := by
    rw [encodeTail, none_]
    exact sized_putEmptyTaggedFieldArray.leavesUnread Nat.one_pos _
  have length : r.protocols.length = 0 := by rw [none_]; rfl
  have counted : Leaves true (putArrayLength (Int32.ofNat 0) >>= fun _ => r.encodeTail) (read getArrayLength >>= decodeTail)
      r.headAtVersion (fun _ unread => unread ≠ []) (0 + 1) := (@carries_putNoElements false true).leaves behind
  rw [encode_eq one, length]
  exact ((@carries_head false _ r).leaves counted).weaken (fun _ _ holds => holds) (Nat.le_add_right 1 _)

/-- Decoding the encoding gives back what the version has of the request. -/
def RoundTrips (r : JoinGroupRequest) (bytes : Bytes) : Prop :=
  decodeVersion (isFlexibleVersion r.version) (decode r.version) bytes {} = .ok () r.atVersion

theorem roundTrips_iff {bytes : Bytes} (encoded : encodeBody (isFlexibleVersion r.version) r.encode = .ok bytes) :
    r.RoundTrips bytes ↔ r.Readable := by
  have one := one_member encoded
  constructor
  · intro decoded
    constructor
    · intro isFixed
      by_contra unreadable
      rw [RoundTrips, isFixed] at decoded
      rw [isFixed] at encoded
      have none_ : r.atVersion.orderedGroupProtocols = [] :=
        (leaves_protocols one unreadable).of_decodeVersion Nat.one_pos encoded decoded
      exact not_countReadable_size unreadable (congrArg List.length none_)
    · intro isFlexible none_
      rw [RoundTrips, isFlexible] at decoded
      rw [isFlexible] at encoded
      exact (leaves_unread one none_).of_decodeVersion Nat.one_pos encoded decoded rfl
  · intro readable
    exact (@carries false r one readable).decodeVersion_eq_ok Nat.one_pos encoded

end JoinGroupRequest

end Coev.Kafka

/-! ## Requests to synchronise a group: what is carried

A request is read back but for a number of assignments that the fixed mode cannot read.
-/

namespace Coev.Kafka

open ByteString DecodeInto PacketDecoder PacketEncoder

variable {strict flexible : Bool}

theorem SyncGroupRequestAssignment.carries (assignment : SyncGroupRequestAssignment) :
    CarriesInto strict flexible assignment.encode decode {} assignment 1 := by
  apply CarriesInto.conclude
  · apply CarriesInto.seq
    · exact (carries_putString _).field _ _ _
    apply CarriesInto.seq
    · exact (carries_putBytes _).field _ _ _
    exact carries_putEmptyTaggedFieldArray.skip _
  · rfl
  · omega

namespace SyncGroupRequest

/-- The fields in front of the assignments that a version has, in a fresh request. -/
def headAtVersion (r : SyncGroupRequest) : SyncGroupRequest where
  version := r.version
  groupId := r.groupId
  generationId := r.generationId
  memberId := r.memberId
  groupInstanceId := if 3 ≤ r.version then r.groupInstanceId else []

/-- What a version has of a request; the rest is as in a fresh one. -/
def atVersion (r : SyncGroupRequest) : SyncGroupRequest := { r.headAtVersion with groupAssignments := r.groupAssignments }

/-- The number of assignments can be read. -/
def Readable (r : SyncGroupRequest) : Prop :=
  isFlexibleVersion r.version = false → CountReadable (bigEndian 4 r.groupAssignments.length)

theorem carries_head (r : SyncGroupRequest) :
    CarriesInto strict flexible r.encodeHead (decodeHead r.version) {} r.headAtVersion 1 := by
  apply CarriesInto.conclude
  · apply CarriesInto.afterUpdate
    apply CarriesInto.seq
    · exact (carries_putString _).field _ _ _
    apply CarriesInto.seq
    · exact (carries_putInt32 _).field _ _ _
    apply CarriesInto.seq
    · exact (carries_putString _).field _ _ _
    exact CarriesInto.inVersions fun _ => (carries_putNullableString _).field _ _ _
  · dsimp only [headAtVersion]
    split_ifs <;> rfl
  · omega

/-- The assignments behind their number, in a vector without elements. -/
def decodeAssignments (n : ℕ) : DecodeInto (List SyncGroupRequestAssignment) Unit :=
  inVersions (n ≠ 0) (elements {} n SyncGroupRequestAssignment.decode)

theorem carries_assignments (assignments : List SyncGroupRequestAssignment) :
    CarriesInto strict flexible (assignments.forM SyncGroupRequestAssignment.encode)
      (decodeAssignments assignments.length) [] assignments assignments.length := by
  cases assignments with
  | nil => exact CarriesInto.pure []
  | cons a assignments =>
    have elements : CarriesInto strict flexible ((a :: assignments).forM SyncGroupRequestAssignment.encode) _ []
        ((a :: assignments).map id) _ := CarriesInto.elements fun a _ => SyncGroupRequestAssignment.carries a
    rw [List.map_id] at elements
    exact elements

/-- What is written behind the number of assignments. -/
def encodeTail (r : SyncGroupRequest) : Encode Unit := do
  r.groupAssignments.forM SyncGroupRequestAssignment.encode
  putEmptyTaggedFieldArray

theorem decodeTail_eq {n : ℕ} (small : n ≤ maxRequestSize) :
    decodeTail (Int32.ofNat n) = update ({ · with groupAssignments := [] }) >>= fun _ =>
    part groupAssignments (fun groupAssignments r => { r with groupAssignments }) (decodeAssignments n) >>= fun _ =>
      read getEmptyTaggedFieldArray := by
  have positive : (0 < Int32.ofNat n) = (n ≠ 0) := by
    have zero : (0 : Int32).toInt = 0 := rfl
    have loop := int32_ofNat_loop small
    rw [Int32.lt_iff_toInt_lt, zero]
    exact propext (by omega)
  simp only [decodeTail, decodeAssignments, int32_ofNat_loop small, positive]

theorem carries (r : SyncGroupRequest) (readable : r.Readable) :
    CarriesInto strict (isFlexibleVersion r.version) r.encode (decode r.version) {} r.atVersion 1 := by
  have tail (o : SyncGroupRequest) : CarriesInto strict (isFlexibleVersion r.version) r.encodeTail
      (update ({ · with groupAssignments := [] }) >>= fun _ =>
        part groupAssignments (fun groupAssignments r => { r with groupAssignments })
          (decodeAssignments r.groupAssignments.length) >>=
          fun _ => read getEmptyTaggedFieldArray) o
            { o with groupAssignments := r.groupAssignments } r.groupAssignments.length := by
    apply CarriesInto.afterUpdate
    exact (CarriesInto.part (carries_assignments r.groupAssignments)).seq (carries_putEmptyTaggedFieldArray.skip _)
  have counted :
      CarriesInto strict (isFlexibleVersion r.version)
        (putArrayLength (Int32.ofNat r.groupAssignments.length) >>= fun _ =>
      r.encodeTail) (read getArrayLength >>= decodeTail) r.headAtVersion r.atVersion 0 :=
    CarriesInto.counted readable (tail r.headAtVersion) decodeTail_eq
  exact (carries_head r).seq counted

/-- The assignments come back only when their number can be read. -/
theorem leaves_assignments {r : SyncGroupRequest} (unreadable : ¬ CountReadable (bigEndian 4 r.groupAssignments.length)) :
    Leaves false r.encode (decode r.version) {} (fun o _ => o.groupAssignments = []) 1 := by
  have sized : Sized false r.encodeTail r.groupAssignments.length := by
    have assignments := (@carries_assignments false false r.groupAssignments).sized
    exact assignments.bind (@carries_putEmptyTaggedFieldArray false false).sized
  have behind : Leaves false r.encodeTail (decodeTail (countSeen r.groupAssignments.length)) r.headAtVersion
      (fun o _ => o.groupAssignments = []) r.groupAssignments.length := by
    apply sized.leaves
    intro small pd o pd' run
    have negative : ¬ 0 < countSeen r.groupAssignments.length := by
      have seen := countSeen_of_unreadable small unreadable
      rw [Int32.lt_iff_toInt_lt] at seen ⊢
      omega
    obtain ⟨_, ⟨o₁, pd₁⟩, first, rest⟩ := EStateM.bind_eq_ok_iff.mp run
    obtain ⟨_, ⟨o₂, pd₂⟩, skipped, last⟩ := EStateM.bind_eq_ok_iff.mp rest
    obtain ⟨rfl, -⟩ := update_eq_ok_iff.mp first
    obtain ⟨-, rfl⟩ := read_eq_ok_iff.mp last
    rw [inVersions, if_neg negative] at skipped
    cases skipped
    rfl
  have counted : Leaves false (putArrayLength (Int32.ofNat r.groupAssignments.length) >>= fun _ => r.encodeTail)
      (read getArrayLength >>= decodeTail) r.headAtVersion (fun o _ => o.groupAssignments = []) r.groupAssignments.length :=
    behind.counted (Nat.le_refl _) fun _ => rfl
  exact ((@carries_head false _ r).leaves counted).weaken (fun _ _ holds => holds) (Nat.le_add_right 1 _)

/-- Decoding the encoding gives back what the version has of the request. -/
def RoundTrips (r : SyncGroupRequest) (bytes : Bytes) : Prop :=
  decodeVersion (isFlexibleVersion r.version) (decode r.version) bytes {} = .ok () r.atVersion

theorem roundTrips_iff {r : SyncGroupRequest} {bytes : Bytes}
    (encoded : encodeBody (isFlexibleVersion r.version) r.encode = .ok bytes) : r.RoundTrips bytes ↔ r.Readable := by
  constructor
  · intro decoded isFixed
    by_contra unreadable
    rw [RoundTrips, isFixed] at decoded
    rw [isFixed] at encoded
    have none_ : r.atVersion.groupAssignments = [] :=
      (leaves_assignments unreadable).of_decodeVersion Nat.one_pos encoded decoded
    exact unreadable (none_.symm ▸ countReadable_zero)
  · intro readable
    exact (@carries false r readable).decodeVersion_eq_ok Nat.one_pos encoded

end SyncGroupRequest

end Coev.Kafka

/-! ## Leaving a group: what comes back -/

namespace Coev.Kafka

open ByteString DecodeInto PacketDecoder PacketEncoder

variable {strict flexible : Bool}

theorem MemberIdentity.carries (member : MemberIdentity) : CarriesInto strict flexible member.encode decode {} member 1 := by
  have fields : CarriesInto strict flexible member.encode decode {} member (1 + (0 + 0)) := by
    apply (carries_putString member.memberId).seqInto
    apply (carries_putNullableString member.groupInstanceId).seqInto
    exact CarriesInto.afterUpdate (carries_putEmptyTaggedFieldArray.skip _)
  exact fields

namespace LeaveGroupRequest

/-- What a version has of a request: one member, or many. -/
def atVersion (r : LeaveGroupRequest) : LeaveGroupRequest :=
  { r with
    memberId := if r.version < 3 then r.memberId else []
    members := if 3 ≤ r.version then r.members else [] }

/-- The number of the members can be read. -/
def Readable (r : LeaveGroupRequest) : Prop :=
  3 ≤ r.version → isFlexibleVersion r.version = false → CountReadable (bigEndian 4 r.members.length)

theorem exact_someMembers {r o : LeaveGroupRequest} (start : o.members = []) :
    Exact strict flexible r.encodeMembers decodeMembers o { o with members := r.members } (fun o => o.members ≠ r.members)
      (flexible = false → CountReadable (bigEndian 4 r.members.length)) 1 := by
  rw [← List.map_id' r.members]
  apply Exact.conclude
  · rw [encodeMembers]
    apply Exact.vectorMember (fun member _ => member.carries.exact)
    · exact fun _ => rfl
    · rfl
    · exact start
  · rfl
  · rw [List.map_id']
    exact and_iff_left fun _ _ => trivial
  · exact Nat.le_refl 1

/-- The members of the versions that have them. -/
theorem exact_members {r o : LeaveGroupRequest} (start : o.members = []) :
    Exact strict flexible (inVersions (3 ≤ r.version) r.encodeMembers) (inVersions (3 ≤ r.version) decodeMembers) o
      { o with members := r.atVersion.members } (fun o => o.members ≠ r.atVersion.members)
      (3 ≤ r.version → flexible = false → CountReadable (bigEndian 4 r.members.length)) 0 := by
  by_cases present : 3 ≤ r.version
  · have members : r.atVersion.members = r.members := if_pos present
    rw [inVersions_of present, inVersions_of present, members]
    exact (exact_someMembers start).conclude rfl (imp_iff_right present).symm (Nat.zero_le 1)
  · have members : r.atVersion.members = [] := if_neg present
    have same : { o with members := [] } = o := by rw [← start]
    rw [inVersions, if_neg present, inVersions, if_neg present, members, same]
    apply ((CarriesInto.pure o).exact.imp (fun _ => False.elim) _).conclude rfl _ (Nat.le_refl 0)
    · exact fun differs => differs start
    · exact iff_of_true trivial fun present' => absurd present' present

theorem exact (r : LeaveGroupRequest) : Exact strict (isFlexibleVersion r.version) r.encode (decode r.version) {} r.atVersion
    (· ≠ r.atVersion) r.Readable 1 := by
  apply Exact.finish
  · apply Exact.afterUpdate
    apply CarriesInto.seqExact
    · exact (carries_putString r.groupId).field _ _ _
    apply CarriesInto.seqExact
    · exact CarriesInto.inVersions fun _ => (carries_putString r.memberId).field _ _ _
    apply Exact.seqSkip
    · apply exact_members
      split <;> rfl
    · exact carries_putEmptyTaggedFieldArray
  · dsimp only [atVersion]
    split_ifs <;> rfl
  · exact Iff.rfl
  · omega

end LeaveGroupRequest

end Coev.Kafka
