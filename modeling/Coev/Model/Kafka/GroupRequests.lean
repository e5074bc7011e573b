import Coev.Model.Kafka.ProtocolBody

/-! # Requests to join a group -/

namespace Coev.Kafka

open PacketDecoder PacketEncoder DecodeInto

structure GroupProtocol where
  name : Bytes := []
  metadata : Bytes := []
deriving DecidableEq, Repr

namespace GroupProtocol

def encode (protocol : GroupProtocol) : Encode Unit := do
  putString protocol.name
  putBytes protocol.metadata
  putEmptyTaggedFieldArray

/-- `GroupProtocol::decode` of a fresh object. -/
def decode : Decode GroupProtocol := do
  let name ← getString
  let metadata ← getBytes
  getEmptyTaggedFieldArray
  return { name, metadata }

end GroupProtocol

/-- `JoinGroupRequest`. The two members for the protocols stand for one array of the request. -/
structure JoinGroupRequest where
  version : Int16 := 0
  groupId : Bytes := []
  sessionTimeout : Int32 := 0
  rebalanceTimeout : Int32 := 0
  memberId : Bytes := []
  groupInstanceId : Bytes := []
  protocolType : Bytes := []
  groupProtocols : Std.ExtTreeMap Bytes Bytes := ∅
  orderedGroupProtocols : List GroupProtocol := []

namespace JoinGroupRequest

def IsValidVersion (version : Int16) : Prop := 0 ≤ version ∧ version ≤ 6
deriving Decidable

def isFlexibleVersion (version : Int16) : Bool := 6 ≤ version

def encodeHead (r : JoinGroupRequest) : Encode Unit := do
  putString r.groupId
  putInt32 r.sessionTimeout
  inVersions (1 ≤ r.version) (putInt32 r.rebalanceTimeout)
  putString r.memberId
  inVersions (5 ≤ r.version) (putNullableString r.groupInstanceId)
  putString r.protocolType

def encodeProtocols (r : JoinGroupRequest) : Encode Unit :=
  if r.groupProtocols ≠ ∅ then
    if r.orderedGroupProtocols ≠ [] then failCode (-1)
    else do
      putArrayLength (Int32.ofNat r.groupProtocols.size)
      r.groupProtocols.toList.forM fun entry => GroupProtocol.encode ⟨entry.1, entry.2⟩
  else do
    putArrayLength (Int32.ofNat r.orderedGroupProtocols.length)
    r.orderedGroupProtocols.forM GroupProtocol.encode

/-- The protocols of a request, which stand in one of two members. -/
def protocols (r : JoinGroupRequest) : List GroupProtocol :=
  if r.groupProtocols ≠ ∅ then r.groupProtocols.toList.map fun entry => ⟨entry.1, entry.2⟩ else r.orderedGroupProtocols

def encode (r : JoinGroupRequest) : Encode Unit := do
  r.encodeHead
  r.encodeProtocols
  putEmptyTaggedFieldArray

def decodeHead (version : Int16) : DecodeInto JoinGroupRequest Unit := do
  update ({ · with version })
  field getString fun groupId r => { r with groupId }
  intField getInt32 fun sessionTimeout r => { r with sessionTimeout }
  inVersions (1 ≤ version) (intField getInt32 fun rebalanceTimeout r => { r with rebalanceTimeout })
  field getString fun memberId r => { r with memberId }
  inVersions (5 ≤ version) (field getNullableString fun groupInstanceId r => { r with groupInstanceId })
  field getString fun protocolType r => { r with protocolType }

/-- A protocol that was read goes into both members. -/
def addProtocol (protocol : GroupProtocol) (r : JoinGroupRequest) : JoinGroupRequest :=
  { r with
    groupProtocols := r.groupProtocols.insert protocol.name protocol.metadata
    orderedGroupProtocols := r.orderedGroupProtocols ++ [protocol] }

def decodeProtocols (n : ℕ) : DecodeInto JoinGroupRequest Unit := rounds (field GroupProtocol.decode addProtocol) n

/-- What is read behind the number of protocols; a request without protocols ends there. -/
def decodeTail (n : Int32) : DecodeInto JoinGroupRequest Unit :=
  if n = 0 then return ()
  else do
    update ({ · with groupProtocols := ∅, orderedGroupProtocols := [] })
    decodeProtocols n.toInt.toNat
    read getEmptyTaggedFieldArray

def decode (version : Int16) : DecodeInto JoinGroupRequest Unit := do
  decodeHead version
  let n ← read getArrayLength
  decodeTail n

end JoinGroupRequest

end Coev.Kafka

/-! # Leaving a group -/

namespace Coev.Kafka

open PacketDecoder PacketEncoder DecodeInto

structure MemberIdentity where
  memberId : Bytes := []
  groupInstanceId : Bytes := []
deriving DecidableEq, Repr

namespace MemberIdentity

def encode (member : MemberIdentity) : Encode Unit := do
  putString member.memberId
  putNullableString member.groupInstanceId
  putEmptyTaggedFieldArray

/-- Both names are stored once both were read. -/
def decode : DecodeInto MemberIdentity Unit := do
  let memberId ← read getString
  let groupInstanceId ← read getNullableString
  update fun _ => { memberId, groupInstanceId }
  read getEmptyTaggedFieldArray

end MemberIdentity

structure LeaveGroupRequest where
  version : Int16 := 0
  groupId : Bytes := []
  memberId : Bytes := []
  members : List MemberIdentity := []
deriving DecidableEq, Repr

namespace LeaveGroupRequest

def IsValidVersion (version : Int16) : Prop := 0 ≤ version ∧ version ≤ 4
deriving Decidable

def isFlexibleVersion (version : Int16) : Bool := 4 ≤ version

def encodeMembers (r : LeaveGroupRequest) : Encode Unit := do
  putArrayLength (Int32.ofNat r.members.length)
  r.members.forM MemberIdentity.encode

def encode (r : LeaveGroupRequest) : Encode Unit := do
  putString r.groupId
  inVersions (r.version < 3) (putString r.memberId)
  inVersions (3 ≤ r.version) r.encodeMembers
  putEmptyTaggedFieldArray

def decodeMembers : DecodeInto LeaveGroupRequest Unit := do
  let memberCount ← read getArrayLength
  part members (fun members r => { r with members }) (resized {} memberCount MemberIdentity.decode)

def decode (version : Int16) : DecodeInto LeaveGroupRequest Unit := do
  update ({ · with version })
  field getString fun groupId r => { r with groupId }
  inVersions (version < 3) (field getString fun memberId r => { r with memberId })
  inVersions (3 ≤ version) decodeMembers
  read getEmptyTaggedFieldArray

end LeaveGroupRequest

end Coev.Kafka

/-! # Requests to synchronise a group -/

namespace Coev.Kafka

open PacketDecoder PacketEncoder DecodeInto

structure SyncGroupRequestAssignment where
  memberId : Bytes := []
  assignment : Bytes := []
deriving DecidableEq, Repr

namespace SyncGroupRequestAssignment

def encode (assignment : SyncGroupRequestAssignment) : Encode Unit := do
  putString assignment.memberId
  putBytes assignment.assignment
  putEmptyTaggedFieldArray

def decode : DecodeInto SyncGroupRequestAssignment Unit := do
  field getString fun memberId assignment => { assignment with memberId }
  field getBytes fun bytes assignment => { assignment with assignment := bytes }
  read getEmptyTaggedFieldArray

end SyncGroupRequestAssignment

structure SyncGroupRequest where
  version : Int16 := 0
  groupId : Bytes := []
  generationId : Int32 := 0
  memberId : Bytes := []
  groupInstanceId : Bytes := []
  groupAssignments : List SyncGroupRequestAssignment := []
deriving DecidableEq, Repr

namespace SyncGroupRequest

def IsValidVersion (version : Int16) : Prop := 0 ≤ version ∧ version ≤ 5
deriving Decidable

def isFlexibleVersion (version : Int16) : Bool := 4 ≤ version

def encodeHead (r : SyncGroupRequest) : Encode Unit := do
  putString r.groupId
  putInt32 r.generationId
  putString r.memberId
  inVersions (3 ≤ r.version) (putNullableString r.groupInstanceId)

def encode (r : SyncGroupRequest) : Encode Unit := do
  r.encodeHead
  putArrayLength (Int32.ofNat r.groupAssignments.length)
  r.groupAssignments.forM SyncGroupRequestAssignment.encode
  putEmptyTaggedFieldArray

def decodeHead (version : Int16) : DecodeInto SyncGroupRequest Unit := do
  update ({ · with version })
  field getString fun groupId r => { r with groupId }
  intField getInt32 fun generationId r => { r with generationId }
  field getString fun memberId r => { r with memberId }
  inVersions (3 ≤ version) (field getNullableString fun groupInstanceId r => { r with groupInstanceId })

/-- What is read behind the number of assignments. -/
def decodeTail (numAssignments : Int32) : DecodeInto SyncGroupRequest Unit := do
  update ({ · with groupAssignments := [] })
  part groupAssignments (fun groupAssignments r => { r with groupAssignments })
    (inVersions (0 < numAssignments) (elements {} numAssignments.toInt.toNat SyncGroupRequestAssignment.decode))
  read getEmptyTaggedFieldArray

def decode (version : Int16) : DecodeInto SyncGroupRequest Unit := do
  decodeHead version
  let numAssignments ← read getArrayLength
  decodeTail numAssignments

end SyncGroupRequest

end Coev.Kafka
