import Coev.Model.Kafka.ProtocolBody

/-! # Answers to an election of leaders

The topics stand in a hash table, so the order in which they are encoded is a parameter.
-/

namespace Coev.Kafka

open PacketDecoder PacketEncoder DecodeInto

structure PartitionResult where
  code : Int16 := 0
  message : Bytes := []
deriving DecidableEq, Repr

namespace PartitionResult

def encode (result : PartitionResult) : Encode Unit := failWith ErrEncodeError do
  putKError result.code
  putNullableString result.message
  putEmptyTaggedFieldArray

/-- A failure to decode is reported as one to encode. -/
def decode : DecodeInto PartitionResult Unit := failWith ErrEncodeError do
  errField fun code result => { result with code }
  field getNullableString fun message result => { result with message }
  read getEmptyTaggedFieldArray

end PartitionResult

structure ElectLeadersResponse where
  version : Int16 := 0
  throttleTime : Int64 := 0
  code : Int16 := 0
  replicaElectionResults : Std.ExtTreeMap Bytes (Std.ExtTreeMap Int32 PartitionResult) := ∅

namespace ElectLeadersResponse

def IsValidVersion (version : Int16) : Prop := 0 ≤ version ∧ version ≤ 2
deriving Decidable

def isFlexibleVersion (version : Int16) : Bool := 2 ≤ version

abbrev Topic := Bytes × Std.ExtTreeMap Int32 PartitionResult

def encodeTopic : Topic → Encode Unit :=
  TopicPartitions.encodeTopic putString PartitionResult.encode putEmptyTaggedFieldArray TopicPartitions.inOrder

def encodeTopics (order : List Topic) (r : ElectLeadersResponse) : Encode Unit := do
  putArrayLength (Int32.ofNat r.replicaElectionResults.size)
  order.forM encodeTopic

/-- `encode`, with the topics in the order in which the table has them. -/
def encode (order : List Topic) (r : ElectLeadersResponse) : Encode Unit := failWith ErrEncodeError do
  putDurationMs r.throttleTime
  inVersions (0 < r.version) (putKError r.code)
  encodeTopics order r
  putEmptyTaggedFieldArray

def decodeTopic : DecodeInto (Std.ExtTreeMap Bytes (Std.ExtTreeMap Int32 PartitionResult)) Unit :=
  TopicPartitions.decodeTopic (TopicPartitions.decodePartition {} PartitionResult.decode) getEmptyTaggedFieldArray

def decodeTopics : DecodeInto ElectLeadersResponse Unit := do
  let numTopics ← read getArrayLength
  update ({ · with replicaElectionResults := ∅ })
  reserve numTopics
  part replicaElectionResults (fun replicaElectionResults r => { r with replicaElectionResults })
    (rounds decodeTopic numTopics.toInt.toNat)

def decode (version : Int16) : DecodeInto ElectLeadersResponse Unit := failWith ErrDecodeError do
  update ({ · with version })
  durationField fun throttleTime r => { r with throttleTime }
  inVersions (0 < version) (errField fun code r => { r with code })
  decodeTopics
  read getEmptyTaggedFieldArray

end ElectLeadersResponse

end Coev.Kafka

/-! ## Answers that describe groups
The test for the success of a member is the wrong way round: a member that was decoded ends the decoding of its group,
and one that could not be decoded is stored as far as it goes.
-/

namespace Coev.Kafka

open PacketDecoder PacketEncoder DecodeInto

structure GroupMemberDescription where
  version : Int16 := 0
  memberId : Bytes := []
  groupInstanceId : Bytes := []
  clientId : Bytes := []
  clientHost : Bytes := []
  memberMetadata : Bytes := []
  memberAssignment : Bytes := []
deriving DecidableEq, Repr

namespace GroupMemberDescription

def encode (version : Int16) (member : GroupMemberDescription) : Encode Unit := failWith ErrEncodeError do
  putString member.memberId
  inVersions (4 ≤ version) (putNullableString member.groupInstanceId)
  putString member.clientId
  putString member.clientHost
  putBytes member.memberMetadata
  putBytes member.memberAssignment
  putEmptyTaggedFieldArray

def decode (version : Int16) : DecodeInto GroupMemberDescription Unit := failWith ErrDecodeError do
  update ({ · with version })
  field getString fun memberId member => { member with memberId }
  inVersions (4 ≤ version) (field getNullableString fun groupInstanceId member => { member with groupInstanceId })
  field getString fun clientId member => { member with clientId }
  field getString fun clientHost member => { member with clientHost }
  field getBytes fun memberMetadata member => { member with memberMetadata }
  field getBytes fun memberAssignment member => { member with memberAssignment }
  read getEmptyTaggedFieldArray

end GroupMemberDescription

structure GroupDescription where
  version : Int16 := 0
  code : Int16 := 0
  groupId : Bytes := []
  state : Bytes := []
  protocolType : Bytes := []
  protocol : Bytes := []
  members : Std.ExtTreeMap Bytes GroupMemberDescription := ∅
  authorizedOperations : Int32 := 0

namespace GroupDescription

def encodeHead (group : GroupDescription) : Encode Unit := do
  putInt16 group.code
  putString group.groupId
  putString group.state
  putString group.protocolType
  putString group.protocol

def encodeMembers (version : Int16) (group : GroupDescription) : Encode Unit := do
  putArrayLength (Int32.ofNat group.members.size)
  group.members.toList.forM fun member => member.2.encode version

def encodeTail (version : Int16) (group : GroupDescription) : Encode Unit := do
  inVersions (3 ≤ version) (putInt32 group.authorizedOperations)
  putEmptyTaggedFieldArray

def encode (version : Int16) (group : GroupDescription) : Encode Unit := failWith ErrEncodeError do
  group.encodeHead
  group.encodeMembers version
  group.encodeTail version

/-- The protocol has another code than the rest. -/
def decodeHead (version : Int16) : DecodeInto GroupDescription Unit := do
  failWith ErrDecodeError do
    update ({ · with version })
    field getInt16 fun code group => { group with code }
    field getString fun groupId group => { group with groupId }
    field getString fun state group => { group with state }
    field getString fun protocolType group => { group with protocolType }
  failWith ErrEncodeError (field getString fun protocol group => { group with protocol })

/-- `!block->decode(..)`: no error is taken for one, and what failed is stored. -/
def decodeMember (version : Int16) : DecodeInto (Std.ExtTreeMap Bytes GroupMemberDescription) Unit := fun (members, pd) =>
  match GroupMemberDescription.decode version ({}, pd) with
  | .ok () (_, pd) => .error (.code ErrDecodeError) (members, pd)
  | .error (.code _) (block, pd) => .ok () (members.insert block.memberId block, pd)
  | .error (.fault f) (_, pd) => .error (.fault f) (members, pd)

def decodeMembers (version : Int16) : DecodeInto GroupDescription Unit := failWith ErrDecodeError do
  let numMembers ← read getArrayLength
  update ({ · with members := ∅ })
  if 0 < numMembers then
    part members (fun members group => { group with members }) (rounds (decodeMember version) numMembers.toInt.toNat)
  else return ()

def decodeTail (version : Int16) : DecodeInto GroupDescription Unit := failWith ErrDecodeError do
  inVersions (3 ≤ version) (intField getInt32 fun authorizedOperations group => { group with authorizedOperations })
  read getEmptyTaggedFieldArray

def decode (version : Int16) : DecodeInto GroupDescription Unit := do
  decodeHead version
  decodeMembers version
  decodeTail version

end GroupDescription

structure DescribeGroupsResponse where
  version : Int16 := 0
  throttleTime : Int64 := 0
  groups : List GroupDescription := []

namespace DescribeGroupsResponse

def IsValidVersion (version : Int16) : Prop := 0 ≤ version ∧ version ≤ 5
deriving Decidable

def isFlexibleVersion (version : Int16) : Bool := 5 ≤ version

def encodeGroups (r : DescribeGroupsResponse) : Encode Unit := do
  putArrayLength (Int32.ofNat r.groups.length)
  r.groups.forM (GroupDescription.encode r.version)

def encode (r : DescribeGroupsResponse) : Encode Unit := failWith ErrEncodeError do
  inVersions (1 ≤ r.version) (putDurationMs r.throttleTime)
  r.encodeGroups
  putEmptyTaggedFieldArray

def decodeGroups (version : Int16) : DecodeInto DescribeGroupsResponse Unit := do
  let numGroups ← read getArrayLength
  update ({ · with groups := [] })
  if 0 < numGroups then
    part groups (fun groups r => { r with groups }) (resized {} numGroups (GroupDescription.decode version))
  else return ()

/-- Decoding has the code of encoding. -/
def decode (version : Int16) : DecodeInto DescribeGroupsResponse Unit := failWith ErrEncodeError do
  update ({ · with version })
  inVersions (1 ≤ version) (durationField fun throttleTime r => { r with throttleTime })
  decodeGroups version
  read getEmptyTaggedFieldArray

end DescribeGroupsResponse

end Coev.Kafka

/-! ## Answers that describe log directories

Three vectors stand in one another, and each is resized to the count that was read.
-/

namespace Coev.Kafka

open PacketDecoder PacketEncoder DecodeInto

structure DescribeLogDirsResponsePartition where
  size : Int64 := 0
  offsetLag : Int64 := 0
  partitionId : Int32 := 0
  isTemporary : Bool := false
deriving DecidableEq, Repr

namespace DescribeLogDirsResponsePartition

def encode (version : Int16) (partition : DescribeLogDirsResponsePartition) : Encode Unit := do
  putInt32 partition.partitionId
  putInt64 partition.size
  putInt64 partition.offsetLag
  putBool partition.isTemporary
  inVersions (2 ≤ version) putEmptyTaggedFieldArray

/-- Decoding looks for tagged fields in every version. -/
def decode : DecodeInto DescribeLogDirsResponsePartition Unit := failWith ErrDecodeError do
  intField getInt32 fun partitionId partition => { partition with partitionId }
  intField getInt64 fun size partition => { partition with size }
  intField getInt64 fun offsetLag partition => { partition with offsetLag }
  field getBool fun isTemporary partition => { partition with isTemporary }
  read getEmptyTaggedFieldArray

end DescribeLogDirsResponsePartition

structure DescribeLogDirsResponseTopic where
  topic : Bytes := []
  partitions : List DescribeLogDirsResponsePartition := []
deriving DecidableEq, Repr

namespace DescribeLogDirsResponseTopic

def encodePartitions (version : Int16) (topic : DescribeLogDirsResponseTopic) : Encode Unit := do
  putArrayLength (Int32.ofNat topic.partitions.length)
  topic.partitions.forM (DescribeLogDirsResponsePartition.encode version)

def encode (version : Int16) (topic : DescribeLogDirsResponseTopic) : Encode Unit := failWith ErrEncodeError do
  putString topic.topic
  topic.encodePartitions version
  putEmptyTaggedFieldArray

def decodePartitions : DecodeInto DescribeLogDirsResponseTopic Unit := do
  let n ← read getArrayLength
  part partitions (fun partitions topic => { topic with partitions }) (resized {} n DescribeLogDirsResponsePartition.decode)

def decode : DecodeInto DescribeLogDirsResponseTopic Unit := failWith ErrDecodeError do
  field getString fun name topic => { topic with topic := name }
  decodePartitions
  read getEmptyTaggedFieldArray

end DescribeLogDirsResponseTopic

structure DescribeLogDirsResponseDirMetadata where
  code : Int16 := 0
  path : Bytes := []
  topics : List DescribeLogDirsResponseTopic := []
  totalBytes : Int64 := 0
  usableBytes : Int64 := 0
deriving DecidableEq, Repr

namespace DescribeLogDirsResponseDirMetadata

def encodeTopics (version : Int16) (dir : DescribeLogDirsResponseDirMetadata) : Encode Unit := do
  putArrayLength (Int32.ofNat dir.topics.length)
  dir.topics.forM (DescribeLogDirsResponseTopic.encode version)

def encodeTail (version : Int16) (dir : DescribeLogDirsResponseDirMetadata) : Encode Unit := do
  inVersions (4 ≤ version) do
    putInt64 dir.totalBytes
    putInt64 dir.usableBytes
  putEmptyTaggedFieldArray

def encode (version : Int16) (dir : DescribeLogDirsResponseDirMetadata) : Encode Unit := failWith ErrEncodeError do
  putKError dir.code
  putString dir.path
  dir.encodeTopics version
  dir.encodeTail version

def decodeTopics : DecodeInto DescribeLogDirsResponseDirMetadata Unit := do
  let n ← read getArrayLength
  part topics (fun topics dir => { dir with topics }) (resized {} n DescribeLogDirsResponseTopic.decode)

def decodeTail (version : Int16) : DecodeInto DescribeLogDirsResponseDirMetadata Unit := do
  inVersions (4 ≤ version) do
    intField getInt64 fun totalBytes dir => { dir with totalBytes }
    intField getInt64 fun usableBytes dir => { dir with usableBytes }
  read getEmptyTaggedFieldArray

def decode (version : Int16) : DecodeInto DescribeLogDirsResponseDirMetadata Unit := failWith ErrDecodeError do
  errField fun code dir => { dir with code }
  field getString fun path dir => { dir with path }
  decodeTopics
  decodeTail version

end DescribeLogDirsResponseDirMetadata

structure DescribeLogDirsResponse where
  throttleTime : Int64 := 0
  version : Int16 := 0
  logDirs : List DescribeLogDirsResponseDirMetadata := []
  code : Int16 := 0
deriving DecidableEq, Repr

namespace DescribeLogDirsResponse

def IsValidVersion (version : Int16) : Prop := 0 ≤ version ∧ version ≤ 4
deriving Decidable

def isFlexibleVersion (version : Int16) : Bool := 2 ≤ version

def encodeLogDirs (r : DescribeLogDirsResponse) : Encode Unit := do
  putArrayLength (Int32.ofNat r.logDirs.length)
  r.logDirs.forM (DescribeLogDirsResponseDirMetadata.encode r.version)

def encode (r : DescribeLogDirsResponse) : Encode Unit := failWith ErrEncodeError do
  putDurationMs r.throttleTime
  inVersions (3 ≤ r.version) (putKError r.code)
  r.encodeLogDirs
  putEmptyTaggedFieldArray

def decodeLogDirs (version : Int16) : DecodeInto DescribeLogDirsResponse Unit := do
  let n ← read getArrayLength
  part logDirs (fun logDirs r => { r with logDirs }) (resized {} n (DescribeLogDirsResponseDirMetadata.decode version))

def decode (version : Int16) : DecodeInto DescribeLogDirsResponse Unit := failWith ErrDecodeError do
  update ({ · with version })
  durationField fun throttleTime r => { r with throttleTime }
  inVersions (3 ≤ version) (errField fun code r => { r with code })
  decodeLogDirs version
  read getEmptyTaggedFieldArray

end DescribeLogDirsResponse

end Coev.Kafka

/-! ## Answers to deletions of access rules

Types and operations are the numbers they are sent as.
-/

namespace Coev.Kafka

open PacketDecoder PacketEncoder DecodeInto

def AclResourcePatternTypeUnknown : Int8 := 0
def AclResourcePatternTypeLiteral : Int8 := 3

structure Resource where
  resourceType : Int8 := 0
  resourceName : Bytes := []
  resourcePatternType : Int8 := AclResourcePatternTypeLiteral
deriving DecidableEq, Repr

namespace Resource

/-- The pattern that is sent. -/
def sentPatternType (resource : Resource) : Int8 :=
  if resource.resourcePatternType = -1 then AclResourcePatternTypeUnknown else resource.resourcePatternType

def encode (version : Int16) (resource : Resource) : Encode Unit := failWith (-1) do
  putInt8 resource.resourceType
  putString resource.resourceName
  inVersions (version = 1) (putInt8 resource.sentPatternType)

def decode (version : Int16) : DecodeInto Resource Unit := failWith (-1) do
  field getInt8 fun resourceType resource => { resource with resourceType }
  field getString fun resourceName resource => { resource with resourceName }
  inVersions (version = 1) (field getInt8 fun resourcePatternType resource => { resource with resourcePatternType })

end Resource

structure Acl where
  principal : Bytes := []
  host : Bytes := []
  operation : Int8 := 0
  permissionType : Int8 := 0
deriving DecidableEq, Repr

namespace Acl

def encode (acl : Acl) : Encode Unit := failWith (-1) do
  putString acl.principal
  putString acl.host
  putInt8 acl.operation
  putInt8 acl.permissionType

def decode : DecodeInto Acl Unit := failWith (-1) do
  field getString fun principal acl => { acl with principal }
  field getString fun host acl => { acl with host }
  field getInt8 fun operation acl => { acl with operation }
  field getInt8 fun permissionType acl => { acl with permissionType }

end Acl

structure MatchingAcl where
  err : Int16 := 0
  errMsg : Bytes := []
  resource : Resource := {}
  acl : Acl := {}
deriving DecidableEq, Repr

namespace MatchingAcl

def encode (version : Int16) (matching : MatchingAcl) : Encode Unit := failWith (-1) do
  putKError matching.err
  putNullableString matching.errMsg
  matching.resource.encode version
  matching.acl.encode

def decode (version : Int16) : DecodeInto MatchingAcl Unit := failWith (-1) do
  errField fun err matching => { matching with err }
  field getNullableString fun errMsg matching => { matching with errMsg }
  part resource (fun resource matching => { matching with resource }) (Resource.decode version)
  part acl (fun acl matching => { matching with acl }) Acl.decode

end MatchingAcl

structure FilterResponse where
  err : Int16 := 0
  errMsg : Bytes := []
  matchingAcls : List MatchingAcl := []
deriving DecidableEq, Repr

namespace FilterResponse

def encodeMatchingAcls (version : Int16) (response : FilterResponse) : Encode Unit := do
  putArrayLength (Int32.ofNat response.matchingAcls.length)
  response.matchingAcls.forM (MatchingAcl.encode version)

def encode (version : Int16) (response : FilterResponse) : Encode Unit := failWith (-1) do
  putKError response.err
  putNullableString response.errMsg
  response.encodeMatchingAcls version

def decodeMatchingAcls (version : Int16) : DecodeInto FilterResponse Unit := do
  let n ← read getArrayLength
  part matchingAcls (fun matchingAcls response => { response with matchingAcls }) (resized {} n (MatchingAcl.decode version))

def decode (version : Int16) : DecodeInto FilterResponse Unit := failWith (-1) do
  errField fun err response => { response with err }
  field getNullableString fun errMsg response => { response with errMsg }
  decodeMatchingAcls version

end FilterResponse

/-- `DeleteAclsResponse`. Nothing initialises its version. -/
structure DeleteAclsResponse where
  version : Int16
  throttleTime : Int64 := 0
  filterResponses : List FilterResponse := []
deriving DecidableEq, Repr

namespace DeleteAclsResponse

def IsValidVersion (version : Int16) : Prop := 0 ≤ version ∧ version ≤ 1
deriving Decidable

def encodeFilterResponses (r : DeleteAclsResponse) : Encode Unit := do
  putArrayLength (Int32.ofNat r.filterResponses.length)
  r.filterResponses.forM (FilterResponse.encode r.version)

def encode (r : DeleteAclsResponse) : Encode Unit := failWith (-1) do
  putDurationMs r.throttleTime
  r.encodeFilterResponses

def decodeFilterResponses (version : Int16) : DecodeInto DeleteAclsResponse Unit := do
  let n ← read getArrayLength
  part filterResponses (fun filterResponses r => { r with filterResponses }) (resized {} n (FilterResponse.decode version))

/-- The version is not stored. -/
def decode (version : Int16) : DecodeInto DeleteAclsResponse Unit := failWith (-1) do
  durationField fun throttleTime r => { r with throttleTime }
  decodeFilterResponses version

end DeleteAclsResponse

end Coev.Kafka

/-! ## Answers to creations of topics
The error of a topic's configuration stands in a tagged field. Its decoder runs on the reader itself, behind the bytes
of the field.
-/

namespace Coev.Kafka

open PacketDecoder PacketEncoder

namespace DecodeInto

variable {σ : Type}

/-- Between `__push_flexible` and `__pop_flexible`. -/
def inFlexible (decoder : DecodeInto σ Unit) : DecodeInto σ Unit := fun (o, pd) =>
  match decoder (o, { pd with flexible := pd.flexible + 1 }) with
  | .ok () (o, pd) => .ok () (o, { pd with flexible := pd.flexible - 1 })
  | .error e (o, pd) => .error e (o, { pd with flexible := pd.flexible - 1 })

/-- The decoder of a tagged field, if there is one. -/
def decoderOf (decoders : List (UInt64 × DecodeInto σ Unit)) (id : UInt64) : DecodeInto σ Unit :=
  match decoders.lookup id with
  | none => return ()
  | some decoder => inFlexible decoder

/-- A tagged field, and what stands behind it when it has a decoder. -/
def taggedField (decoders : List (UInt64 × DecodeInto σ Unit)) : DecodeInto σ Unit := do
  let id ← read getUVariant
  let length ← read getUVariant
  let _ ← read (getRawBytes length.toInt64.toInt32)
  decoderOf decoders id

def getTaggedFieldArray (decoders : List (UInt64 × DecodeInto σ Unit)) : DecodeInto σ Unit := fun (o, pd) =>
  if pd.flexible = 0 then .error (.code ErrTaggedFieldsInNonFlexibleContext) (o, pd)
  else if decoders.isEmpty then read getEmptyTaggedFieldArray (o, pd)
  else (read getUVariant >>= fun count => rounds (taggedField decoders) count.toNat) (o, pd)

end DecodeInto

open DecodeInto

structure TopicError where
  err : Int16 := 0
  errMsg : Bytes := []
deriving DecidableEq, Repr

namespace TopicError

def encode (version : Int16) (topicError : TopicError) : Encode Unit := failWith ErrEncodeError do
  putInt16 topicError.err
  inVersions (1 ≤ version) (putNullableString topicError.errMsg)

def decode (version : Int16) : DecodeInto TopicError Unit := failWith ErrDecodeError do
  field getInt16 fun err topicError => { topicError with err }
  inVersions (1 ≤ version) (field getNullableString fun errMsg topicError => { topicError with errMsg })

end TopicError

/-- `CreatableTopicConfigs`. A source is the number it is sent as. -/
structure CreatableTopicConfigs where
  value : Bytes := []
  readOnly : Bool := false
  configSource : Int8 := 0
  isSensitive : Bool := false
deriving DecidableEq, Repr

namespace CreatableTopicConfigs

def encode (config : CreatableTopicConfigs) : Encode Unit := failWith ErrEncodeError do
  putNullableString config.value
  putBool config.readOnly
  putInt8 config.configSource
  putBool config.isSensitive
  putEmptyTaggedFieldArray

def decode : DecodeInto CreatableTopicConfigs Unit := do
  failWith ErrDecodeError do
    field getNullableString fun value config => { config with value }
    field getBool fun readOnly config => { config with readOnly }
    field getInt8 fun configSource config => { config with configSource }
    field getBool fun isSensitive config => { config with isSensitive }
  read getEmptyTaggedFieldArray

end CreatableTopicConfigs

structure CreatableTopicResult where
  topicConfigErrorCode : Int16 := 0
  numPartitions : Int32 := 0
  replicationFactor : Int16 := 0
  configs : Std.ExtTreeMap Bytes CreatableTopicConfigs := ∅

namespace CreatableTopicResult

def encodeConfig (config : Bytes × CreatableTopicConfigs) : Encode Unit := do
  putString config.1
  config.2.encode

def encodeConfigs (result : CreatableTopicResult) : Encode Unit := do
  putArrayLength (Int32.ofNat result.configs.size)
  result.configs.toList.forM encodeConfig

/-- No error needs no field. -/
def encodeTags (code : Int16) : Encode Unit :=
  if code = 0 then putEmptyTaggedFieldArray
  else do
    putUVarint 1
    putUVarint 0
    putUVarint 2
    putInt16 code

def encode (result : CreatableTopicResult) : Encode Unit := failWith ErrEncodeError do
  putInt32 result.numPartitions
  putInt16 result.replicationFactor
  result.encodeConfigs
  encodeTags result.topicConfigErrorCode

def decodeConfig : DecodeInto (Std.ExtTreeMap Bytes CreatableTopicConfigs) Unit := do
  let name ← read getString
  aside {} CreatableTopicConfigs.decode fun config configs => configs.insert name config

def decodeConfigs : DecodeInto CreatableTopicResult Unit := do
  let n ← read getArrayLength
  update ({ · with configs := ∅ })
  part configs (fun configs result => { result with configs }) (rounds decodeConfig n.toInt.toNat)

/-- `handler[0]`, on the result and `hasTag0`. -/
def tag0 : DecodeInto (CreatableTopicResult × Bool) Unit :=
  field getInt16 fun err tagged => ({ tagged.1 with topicConfigErrorCode := err }, true)

/-- Without the field there was no error. -/
def decodeTags : DecodeInto CreatableTopicResult Unit := fun (result, pd) =>
  match getTaggedFieldArray [(0, tag0)] ((result, false), pd) with
  | .ok () ((result, true), pd) => .ok () (result, pd)
  | .ok () ((result, false), pd) => .ok () ({ result with topicConfigErrorCode := 0 }, pd)
  | .error e ((result, _), pd) => .error e (result, pd)

def decode : DecodeInto CreatableTopicResult Unit := failWith ErrDecodeError do
  field getInt32 fun numPartitions result => { result with numPartitions }
  field getInt16 fun replicationFactor result => { result with replicationFactor }
  decodeConfigs
  decodeTags

end CreatableTopicResult

structure CreateTopicsResponse where
  version : Int16 := 0
  throttleTime : Int64 := 0
  topicErrors : Std.ExtTreeMap Bytes TopicError := ∅
  topicResults : Std.ExtTreeMap Bytes CreatableTopicResult := ∅

namespace CreateTopicsResponse

def IsValidVersion (version : Int16) : Prop := 0 ≤ version ∧ version ≤ 6
deriving Decidable

def isFlexibleVersion (version : Int16) : Bool := 5 ≤ version

/-- A topic without a result ends the encoding. -/
def encodeResult (result : Option CreatableTopicResult) : Encode Unit :=
  match result with
  | none => failCode ErrEncodeError
  | some result => result.encode

def encodeTopic (r : CreateTopicsResponse) (topic : Bytes × TopicError) : Encode Unit := do
  putString topic.1
  topic.2.encode r.version
  inVersions (5 ≤ r.version) (encodeResult r.topicResults[topic.1]?)

def encodeTopics (r : CreateTopicsResponse) : Encode Unit := do
  putArrayLength (Int32.ofNat r.topicErrors.size)
  r.topicErrors.toList.forM r.encodeTopic

def encode (r : CreateTopicsResponse) : Encode Unit := failWith ErrEncodeError do
  inVersions (2 ≤ r.version) (putDurationMs r.throttleTime)
  r.encodeTopics
  putEmptyTaggedFieldArray

def decodeTopic (version : Int16) : DecodeInto CreateTopicsResponse Unit := do
  let topic ← read getString
  aside {} (TopicError.decode version) fun topicErr r => { r with topicErrors := r.topicErrors.insert topic topicErr }
  inVersions (5 ≤ version)
    (aside {} CreatableTopicResult.decode fun result r => { r with topicResults := r.topicResults.insert topic result })

/-- The results are cleared only in the versions that have them. -/
def clear (version : Int16) (r : CreateTopicsResponse) : CreateTopicsResponse :=
  { r with topicErrors := ∅, topicResults := if 5 ≤ version then ∅ else r.topicResults }

def decodeTopics (version : Int16) : DecodeInto CreateTopicsResponse Unit := do
  let n ← read getArrayLength
  update (clear version)
  rounds (decodeTopic version) n.toInt.toNat

def decode (version : Int16) : DecodeInto CreateTopicsResponse Unit := do
  failWith ErrDecodeError do
    update ({ · with version })
    inVersions (2 ≤ version) (durationField fun throttleTime r => { r with throttleTime })
    decodeTopics version
  read getEmptyTaggedFieldArray

end CreateTopicsResponse

end Coev.Kafka

/-! ## Requests to create topics -/

namespace Coev.Kafka

open PacketDecoder DecodeInto

structure TopicDetail where
  numPartitions : Int32 := 0
  replicationFactor : Int16 := 0
  replicaAssignment : Std.ExtTreeMap Int32 (List Int32) := ∅
  configEntries : Std.ExtTreeMap Bytes Bytes := ∅

namespace TopicDetail

def decodeAssignment : DecodeInto TopicDetail Unit := do
  let partition ← read getInt32
  let replicas ← read getInt32Array
  update fun detail => { detail with replicaAssignment := detail.replicaAssignment.insert partition replicas }
  read getEmptyTaggedFieldArray

/-- The map is cleared only for assignments to come. -/
def decodeAssignments : DecodeInto TopicDetail Unit := do
  let n ← read getArrayLength
  update fun detail => if 0 < n then { detail with replicaAssignment := ∅ } else detail
  rounds decodeAssignment n.toInt.toNat

def decodeEntry : DecodeInto TopicDetail Unit := do
  let key ← read getString
  let value ← read getNullableString
  update fun detail => { detail with configEntries := detail.configEntries.insert key value }
  read getEmptyTaggedFieldArray

/-- The map is cleared only for entries to come. -/
def decodeEntries : DecodeInto TopicDetail Unit := do
  let n ← read getArrayLength
  update fun detail => if 0 < n then { detail with configEntries := ∅ } else detail
  rounds decodeEntry n.toInt.toNat

def decodeFields : DecodeInto TopicDetail Unit := failWith ErrDecodeError do
  intField getInt32 fun numPartitions detail => { detail with numPartitions }
  intField getInt16 fun replicationFactor detail => { detail with replicationFactor }
  decodeAssignments
  decodeEntries

def decode : DecodeInto TopicDetail Unit := do
  decodeFields
  read getEmptyTaggedFieldArray

end TopicDetail

structure CreateTopicsRequest where
  version : Int16 := 0
  topicDetails : Std.ExtTreeMap Bytes TopicDetail := ∅
  timeout : Int64 := 0
  validateOnly : Bool := false

namespace CreateTopicsRequest

def isFlexibleVersion (version : Int16) : Bool := 5 ≤ version

def decodeTopic : DecodeInto (Std.ExtTreeMap Bytes TopicDetail) Unit := do
  let topic ← read getString
  entry {} topic TopicDetail.decode

def decodeTopics : DecodeInto CreateTopicsRequest Unit := do
  let n ← read getArrayLength
  update ({ · with topicDetails := ∅ })
  part topicDetails (fun topicDetails r => { r with topicDetails }) (rounds decodeTopic n.toInt.toNat)

/-- The version is stored behind the flag. -/
def decodeValidateOnly (version : Int16) : DecodeInto CreateTopicsRequest Unit := do
  fieldOr ({ · with validateOnly := false }) getBool fun validateOnly r => { r with validateOnly }
  update ({ · with version })

def decode (version : Int16) : DecodeInto CreateTopicsRequest Unit := do
  failWith ErrDecodeError do
    decodeTopics
    durationField fun timeout r => { r with timeout }
    inVersions (1 ≤ version) (decodeValidateOnly version)
  read getEmptyTaggedFieldArray

end CreateTopicsRequest

end Coev.Kafka

/-! ## Answers that list groups -/

namespace Coev.Kafka.Body

open PacketDecoder DecodeInto

structure GroupData where
  groupState : Bytes := []
  groupType : Bytes := []

structure ListGroupsResponse where
  version : Int16 := 0
  throttleTime : Int64 := 0
  err : Int16 := 0
  groups : Std.ExtTreeMap Bytes Bytes := ∅
  groupsData : Std.ExtTreeMap Bytes GroupData := ∅

namespace ListGroupsResponse

def isFlexibleVersion (version : Int16) : Bool := 3 ≤ version

def decodeData (version : Int16) : DecodeInto GroupData Unit := do
  field getString fun groupState data => { data with groupState }
  inVersions (5 ≤ version) (field getString fun groupType data => { data with groupType })

def decodeGroup (version : Int16) : DecodeInto ListGroupsResponse Unit := do
  let groupId ← read getString
  let protocolType ← read getString
  update fun r => { r with groups := r.groups.insert groupId protocolType }
  inVersions (4 ≤ version)
    (aside {} (decodeData version) fun data r => { r with groupsData := r.groupsData.insert groupId data })
  read getEmptyTaggedFieldArray

/-- Both maps are cleared only for groups to come, and the second one in the versions that have it. -/
def clear (version : Int16) (n : Int32) (r : ListGroupsResponse) : ListGroupsResponse :=
  if 0 < n then { r with groups := ∅, groupsData := if 4 ≤ version then ∅ else r.groupsData } else r

def decodeGroups (version : Int16) : DecodeInto ListGroupsResponse Unit := do
  let n ← read getArrayLength
  update (clear version n)
  rounds (decodeGroup version) n.toInt.toNat
  read getEmptyTaggedFieldArray

def decode (version : Int16) : DecodeInto ListGroupsResponse Unit := do
  update ({ · with version })
  inVersions (1 ≤ version) (durationField fun throttleTime r => { r with throttleTime })
  errField fun err r => { r with err }
  decodeGroups version

end ListGroupsResponse

end Coev.Kafka.Body

/-! ## Answers about reassignments of partitions

The answer to a request to alter them, and the one that lists them.
-/

namespace Coev.Kafka

open Std (ExtTreeMap)
open PacketDecoder PacketEncoder DecodeInto

structure AlterPartitionReassignmentsErrorBlock where
  code : Int16 := 0
  message : Bytes := []
deriving DecidableEq, Repr

namespace AlterPartitionReassignmentsErrorBlock

def encode (block : AlterPartitionReassignmentsErrorBlock) : Encode Unit := failWith ErrEncodeError do
  putKError block.code
  putNullableString block.message
  putEmptyTaggedFieldArray

/-- A failure to read the fields is reported as one to encode. -/
def decodeFields : DecodeInto AlterPartitionReassignmentsErrorBlock Unit := failWith ErrEncodeError do
  errField fun code block => { block with code }
  field getNullableString fun message block => { block with message }

def decode : DecodeInto AlterPartitionReassignmentsErrorBlock Unit := do
  decodeFields
  read getEmptyTaggedFieldArray

end AlterPartitionReassignmentsErrorBlock

structure AlterPartitionReassignmentsResponse where
  version : Int16 := 0
  throttleTime : Int64 := 0
  code : Int16 := 0
  message : Bytes := []
  errors : ExtTreeMap Bytes (ExtTreeMap Int32 AlterPartitionReassignmentsErrorBlock) := ∅

namespace AlterPartitionReassignmentsResponse

def IsValidVersion (version : Int16) : Prop := version = 0
deriving Decidable

def isFlexibleVersion (version : Int16) : Bool := 0 ≤ version

def encodeTopic : Bytes × ExtTreeMap Int32 AlterPartitionReassignmentsErrorBlock → Encode Unit :=
  TopicPartitions.encodeTopic putString AlterPartitionReassignmentsErrorBlock.encode putEmptyTaggedFieldArray
    TopicPartitions.inOrder

def encodeFields (r : AlterPartitionReassignmentsResponse) : Encode Unit := do
  putDurationMs r.throttleTime
  putKError r.code
  putNullableString r.message
  putArrayLength (Int32.ofNat r.errors.size)
  r.errors.toList.forM encodeTopic

def encode (r : AlterPartitionReassignmentsResponse) : Encode Unit := failWith ErrEncodeError do
  r.encodeFields
  putEmptyTaggedFieldArray

def decodeTopic : DecodeInto (ExtTreeMap Bytes (ExtTreeMap Int32 AlterPartitionReassignmentsErrorBlock)) Unit :=
  TopicPartitions.decodeTopic (TopicPartitions.decodePartition {} AlterPartitionReassignmentsErrorBlock.decode)
    getEmptyTaggedFieldArray

/-- The map is not cleared. -/
def decodeTopics (numTopics : Int32) : DecodeInto AlterPartitionReassignmentsResponse Unit :=
  if 0 < numTopics then part errors (fun errors r => { r with errors }) (rounds decodeTopic numTopics.toInt.toNat)
  else return ()

def decodeFields (version : Int16) : DecodeInto AlterPartitionReassignmentsResponse Unit := failWith ErrDecodeError do
  update ({ · with version })
  durationField fun throttleTime r => { r with throttleTime }
  errField fun code r => { r with code }
  field getNullableString fun message r => { r with message }
  let numTopics ← read getArrayLength
  decodeTopics numTopics

def decode (version : Int16) : DecodeInto AlterPartitionReassignmentsResponse Unit := do
  decodeFields version
  read getEmptyTaggedFieldArray

end AlterPartitionReassignmentsResponse

structure PartitionReplicaReassignmentsStatus where
  replicas : List Int32 := []
  addingReplicas : List Int32 := []
  removingReplicas : List Int32 := []
deriving DecidableEq, Repr

namespace PartitionReplicaReassignmentsStatus

def encode (status : PartitionReplicaReassignmentsStatus) : Encode Unit := do
  putInt32Array status.replicas
  putInt32Array status.addingReplicas
  putInt32Array status.removingReplicas
  putEmptyTaggedFieldArray

def decode : DecodeInto PartitionReplicaReassignmentsStatus Unit := do
  field getInt32Array fun replicas status => { status with replicas }
  field getInt32Array fun addingReplicas status => { status with addingReplicas }
  field getInt32Array fun removingReplicas status => { status with removingReplicas }
  read getEmptyTaggedFieldArray

end PartitionReplicaReassignmentsStatus

structure ListPartitionReassignmentsResponse where
  version : Int16 := 0
  throttleTime : Int64 := 0
  err : Int16 := 0
  message : Bytes := []
  topicStatus : ExtTreeMap Bytes (ExtTreeMap Int32 PartitionReplicaReassignmentsStatus) := ∅

namespace ListPartitionReassignmentsResponse

def IsValidVersion (version : Int16) : Prop := 0 ≤ version ∧ version ≤ 1
deriving Decidable

def isFlexibleVersion (_version : Int16) : Bool := true

def encodeTopic : Bytes × ExtTreeMap Int32 PartitionReplicaReassignmentsStatus → Encode Unit :=
  TopicPartitions.encodeTopic putString PartitionReplicaReassignmentsStatus.encode putEmptyTaggedFieldArray
    TopicPartitions.inOrder

def encodeTopics (r : ListPartitionReassignmentsResponse) : Encode Unit := do
  putArrayLength (Int32.ofNat r.topicStatus.size)
  r.topicStatus.toList.forM encodeTopic

def encode (r : ListPartitionReassignmentsResponse) : Encode Unit := do
  putDurationMs r.throttleTime
  putKError r.err
  putNullableString r.message
  r.encodeTopics
  putEmptyTaggedFieldArray

def decodeTopic : DecodeInto (ExtTreeMap Bytes (ExtTreeMap Int32 PartitionReplicaReassignmentsStatus)) Unit :=
  TopicPartitions.decodeTopic (TopicPartitions.decodePartition {} PartitionReplicaReassignmentsStatus.decode)
    getEmptyTaggedFieldArray

def decodeTopics : DecodeInto ListPartitionReassignmentsResponse Unit := do
  let numTopics ← read getArrayLength
  update ({ · with topicStatus := ∅ })
  part topicStatus (fun topicStatus r => { r with topicStatus }) (rounds decodeTopic numTopics.toInt.toNat)

def decode (version : Int16) : DecodeInto ListPartitionReassignmentsResponse Unit := do
  update ({ · with version })
  durationField fun throttleTime r => { r with throttleTime }
  errField fun err r => { r with err }
  field getNullableString fun message r => { r with message }
  decodeTopics
  read getEmptyTaggedFieldArray

end ListPartitionReassignmentsResponse

end Coev.Kafka
