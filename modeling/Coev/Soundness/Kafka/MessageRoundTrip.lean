import Coev.Proofs.Kafka.AdminMessages
import Coev.Proofs.Kafka.CreateTopicsResponse
import Coev.Proofs.Kafka.FetchRequest
import Coev.Proofs.Kafka.GroupRequests
import Coev.Proofs.Kafka.OffsetMessages

/-! # Messages about offsets through the wire
When the body of an encoded message is decoded to what its version has of it, for the requests and responses that fetch
committed offsets and list those of partitions.
-/

namespace Coev.Kafka

open Std (ExtTreeMap)
open PacketDecoder PacketEncoder

/-- A message of one of the four kinds. Hash tables have their entries in some order, and the object that a list of
offsets is decoded into has some version. -/
inductive OffsetMessage where
  | fetchRequest (r : OffsetFetchRequest)
  | fetchResponse (r : OffsetFetchResponse)
  | listRequest (r : OffsetRequest) (order : List OffsetRequest.Topic) (perm : order.Perm r.blocks.toList)
  | listResponse (r : OffsetResponse) (order : List OffsetResponse.Topic) (perm : order.Perm r.blocks.toList)
      (orderOf : OffsetResponse.OrderOf) (permOf : ∀ topic partitions, (orderOf topic partitions).Perm partitions.toList)
      (fresh : Int16)

namespace OffsetMessage

/-- The version of the message is one that its type accepts. -/
def IsValidVersion : OffsetMessage → Prop
  | fetchRequest r => OffsetFetchRequest.IsValidVersion r.version
  | fetchResponse r => OffsetFetchResponse.IsValidVersion r.version
  | listRequest r _ _ => OffsetRequest.IsValidVersion r.version
  | listResponse r _ _ _ _ _ => OffsetResponse.IsValidVersion r.version

/-- The bytes of the body, or why there are none. -/
def encoded : OffsetMessage → Except Failure Bytes
  | fetchRequest r => encodeBody (OffsetFetchRequest.isFlexibleVersion r.version) r.encode
  | fetchResponse r => encodeBody (OffsetFetchResponse.isFlexibleVersion r.version) r.encode
  | listRequest r order _ => encodeBody false (OffsetRequest.encode order r)
  | listResponse r order _ orderOf _ _ => encodeBody false (OffsetResponse.encode order orderOf r)

/-- Decoding the bytes gives back what the version has of the message. -/
def RoundTrips (bytes : Bytes) : OffsetMessage → Prop
  | fetchRequest r =>
    decodeVersion (OffsetFetchRequest.isFlexibleVersion r.version) (OffsetFetchRequest.decode r.version) bytes {} = .ok () r
  | fetchResponse r =>
    decodeVersion (OffsetFetchResponse.isFlexibleVersion r.version) (OffsetFetchResponse.decode r.version) bytes {} =
      .ok () r.atVersion
  | listRequest r _ _ => decodeVersion false (OffsetRequest.decode r.version) bytes {} = .ok () r.atVersion
  | listResponse r _ _ _ _ fresh =>
    decodeVersion false (OffsetResponse.decode r.version) bytes { version := fresh } = .ok () r.atVersion

/-- The numbers in the message can be read, its time fits, a request of the fixed mode fetches the offsets of some
topic, replicas are those from `-1` on, and a list of offsets is decoded into an object that has its version. -/
def Readable : OffsetMessage → Prop
  | fetchRequest r => r.Readable
  | fetchResponse r => r.Readable
  | listRequest r _ _ => r.Readable
  | listResponse r _ _ _ _ fresh => r.Readable ∧ fresh = r.version

end OffsetMessage

/-- A message is read back exactly where it is readable. -/
theorem offset_messages_round_trip_iff (message : OffsetMessage) (bytes : Bytes) (valid : message.IsValidVersion)
    (encoded : message.encoded = .ok bytes) : message.RoundTrips bytes ↔ message.Readable := by
  cases message with
  | fetchRequest r => exact (OffsetFetchRequest.exact valid).decodeVersion_iff Nat.one_pos encoded
  | fetchResponse r => exact r.exact.decodeVersion_iff Nat.one_pos encoded
  | listRequest r order perm => exact (OffsetRequest.exact perm).decodeVersion_iff Nat.one_pos encoded
  | listResponse r order perm orderOf permOf fresh =>
    have exact_ := OffsetResponse.exact valid.1 perm permOf fresh
    have version {pd pd' : PacketDecoder}
        (run : OffsetResponse.decode r.version ({ version := fresh }, pd) = .ok () (r.atVersion, pd')) :
        fresh = r.version := (OffsetResponse.keeps_version r.version _ _ _ _ _ run).symm
    refine (exact_.decodeVersion_iff_and Nat.one_pos encoded fun pd pd' run => ?_).trans (and_congr_right fun _ => ?_)
    · rw [version run]
      rfl
    · constructor
      · exact fun same => congrArg OffsetResponse.version same
      · rintro rfl
        rfl

/-- The answer for one topic with one partition. -/
def fetchedOffset : OffsetFetchResponse where
  version := 5
  throttleTime := 5
  blocks := (∅ : ExtTreeMap Bytes (ExtTreeMap Int32 OffsetFetchResponseBlock)).insert [116]
    ((∅ : ExtTreeMap Int32 OffsetFetchResponseBlock).insert 2 { offset := 7, leaderEpoch := 3, metadata := [109] })

private theorem fetchedOffset_readable : fetchedOffset.Readable where
  throttleTime := fun _ => by decide
  blocks := by
    constructor
    · intro _
      decide
    · intro topic partitions found
      rw [fetchedOffset, ExtTreeMap.getElem?_insert] at found
      split at found
      · cases found
        decide
      · cases found

/-- The offset of the partition comes back from its bytes. -/
theorem fetchedOffset_round_trip : (OffsetMessage.fetchResponse fetchedOffset).RoundTrips
    [0, 0, 0, 5, 0, 0, 0, 1, 0, 1, 116, 0, 0, 0, 1, 0, 0, 0, 2, 0, 0, 0, 0, 0, 0, 0, 7, 0, 0, 0, 3, 0, 1, 109, 0, 0, 0,
      0] := by
  have valid : OffsetFetchResponse.IsValidVersion fetchedOffset.version := by decide
  exact (offset_messages_round_trip_iff (.fetchResponse fetchedOffset) _ valid (by decide +kernel)).mpr
    fetchedOffset_readable

/-- A request for the offsets of all topics is encoded, and its encoding is refused. -/
theorem fetch_all_offsets_refused : OffsetFetchRequest.IsValidVersion 2 ∧
    encodeBody false (OffsetFetchRequest.encode { version := 2, consumerGroup := [103] }) =
      .ok [0, 1, 103, 255, 255, 255, 255] ∧
    (decodeVersion false (OffsetFetchRequest.decode 2) [0, 1, 103, 255, 255, 255, 255] {}).returned = none := by
  refine ⟨?_, ?_, ?_⟩ <;> decide +kernel

/-! ## Messages about groups, topics and access rules through the wire
When the body of an encoded message is decoded to what its version has of it, for the requests and responses of their
administration.
-/

/-- A message of one of the four kinds. The object that an answer about access rules is decoded into has some version. -/
inductive AdministrationMessage where
  | describeGroups (r : DescribeGroupsResponse)
  | createTopics (r : CreateTopicsResponse)
  | leaveGroup (r : LeaveGroupRequest)
  | deleteAcls (r : DeleteAclsResponse) (fresh : Int16)

namespace AdministrationMessage

/-- The version of the message is one that its type accepts. -/
def IsValidVersion : AdministrationMessage → Prop
  | describeGroups r => DescribeGroupsResponse.IsValidVersion r.version
  | createTopics r => CreateTopicsResponse.IsValidVersion r.version
  | leaveGroup r => LeaveGroupRequest.IsValidVersion r.version
  | deleteAcls r _ => DeleteAclsResponse.IsValidVersion r.version

/-- The bytes of the body, or why there are none. -/
def encoded : AdministrationMessage → Except Failure Bytes
  | describeGroups r => encodeBody (DescribeGroupsResponse.isFlexibleVersion r.version) r.encode
  | createTopics r => encodeBody (CreateTopicsResponse.isFlexibleVersion r.version) r.encode
  | leaveGroup r => encodeBody (LeaveGroupRequest.isFlexibleVersion r.version) r.encode
  | deleteAcls r _ => encodeBody false r.encode

/-- Decoding the bytes gives back what the version has of the message. -/
def RoundTrips (bytes : Bytes) : AdministrationMessage → Prop
  | describeGroups r =>
    decodeVersion (DescribeGroupsResponse.isFlexibleVersion r.version) (DescribeGroupsResponse.decode r.version) bytes {} =
      .ok () r.atVersion
  | createTopics r =>
    decodeVersion (CreateTopicsResponse.isFlexibleVersion r.version) (CreateTopicsResponse.decode r.version) bytes {} =
      .ok () r.atVersion
  | leaveGroup r =>
    decodeVersion (LeaveGroupRequest.isFlexibleVersion r.version) (LeaveGroupRequest.decode r.version) bytes {} =
      .ok () r.atVersion
  | deleteAcls r fresh =>
      decodeVersion false (DeleteAclsResponse.decode r.version) bytes { version := fresh } = .ok () r.atVersion

/-- The numbers in the message can be read and its time fits. No group has members, no result has an error of its own
and each belongs to an error, patterns are sent as they are, and an answer about access rules is decoded into an object
that has its version. -/
def Readable : AdministrationMessage → Prop
  | describeGroups r => r.Readable
  | createTopics r => r.Readable
  | leaveGroup r => r.Readable
  | deleteAcls r fresh => r.Readable ∧ fresh = r.version

end AdministrationMessage

/-- A message is read back exactly where it is readable. -/
theorem administration_messages_round_trip_iff (message : AdministrationMessage) (bytes : Bytes)
    (valid : message.IsValidVersion)
    (encoded : message.encoded = .ok bytes) : message.RoundTrips bytes ↔ message.Readable := by
  cases message with
  | describeGroups r => exact (@DescribeGroupsResponse.exact false r).decodeVersion_iff Nat.one_pos encoded
  | createTopics r => exact r.round_trip_iff encoded
  | leaveGroup r => exact (@LeaveGroupRequest.exact false r).decodeVersion_iff Nat.one_pos encoded
  | deleteAcls r fresh =>
    have exact_ := @DeleteAclsResponse.exact false r fresh
    have version {pd pd' : PacketDecoder}
        (run : DeleteAclsResponse.decode r.version ({ version := fresh }, pd) = .ok () (r.atVersion, pd')) :
        fresh = r.version := (DeleteAclsResponse.keeps_version r.version _ _ _ _ _ run).symm
    refine (exact_.decodeVersion_iff_and Nat.one_pos encoded fun pd pd' run => ?_).trans (and_congr_right fun _ => ?_)
    · rw [version run]
      rfl
    · constructor
      · exact fun same => congrArg DeleteAclsResponse.version same
      · rintro rfl
        rfl

/-- A topic that was created with one configuration. -/
def createdTopic : CreateTopicsResponse where
  version := 5
  throttleTime := 5
  topicErrors := (∅ : ExtTreeMap Bytes TopicError).insert [116] {}
  topicResults := (∅ : ExtTreeMap Bytes CreatableTopicResult).insert [116]
    { numPartitions := 3, replicationFactor := 1
      configs := (∅ : ExtTreeMap Bytes CreatableTopicConfigs).insert [99] { value := [118], configSource := 5 } }

private theorem createdTopic_readable : createdTopic.Readable where
  throttleTime _ := by decide
  topicErrors isFixed := absurd isFixed (by decide)
  topicResults _ topic := by
    rw [createdTopic, ExtTreeMap.getElem?_insert, ExtTreeMap.getElem?_insert]
    split <;> rfl
  topicConfigErrorCode _ topic result found := by
    rw [createdTopic, ExtTreeMap.getElem?_insert] at found
    split at found
    · cases found
      rfl
    · cases found

/-- The topic comes back from its bytes with its configuration. -/
theorem createdTopic_round_trip : (AdministrationMessage.createTopics createdTopic).RoundTrips
    [0, 0, 0, 5, 2, 2, 116, 0, 0, 0, 0, 0, 0, 3, 0, 1, 2, 2, 99, 2, 118, 0, 5, 0, 0, 0, 0] := by
  have valid : CreateTopicsResponse.IsValidVersion createdTopic.version := by decide
  exact (administration_messages_round_trip_iff (.createTopics createdTopic) _ valid (by decide +kernel)).mpr
    createdTopic_readable

/-- A group with one member. -/
def describedGroup : DescribeGroupsResponse where
  groups := [{ groupId := [103]
               members := (∅ : ExtTreeMap Bytes GroupMemberDescription).insert [109] { memberId := [109] } }]

/-- The group is encoded, and its encoding is refused. -/
theorem describedGroup_refused : DescribeGroupsResponse.IsValidVersion describedGroup.version ∧
    encodeBody false describedGroup.encode =
      .ok ([0, 0, 0, 1, 0, 0, 0, 1, 103, 0, 0, 0, 0, 0, 0, 0, 0, 0, 1, 0, 1, 109] ++
      [0, 0, 0, 0, 255, 255, 255, 255, 255, 255, 255, 255]) ∧ (decodeVersion false (DescribeGroupsResponse.decode 0)
    ([0, 0, 0, 1, 0, 0, 0, 1, 103, 0, 0, 0, 0, 0, 0, 0, 0, 0, 1, 0, 1, 109] ++
      [0, 0, 0, 0, 255, 255, 255, 255, 255, 255, 255, 255]) {}).returned = none := by
  refine ⟨?_, ?_, ?_⟩ <;> decide +kernel

end Coev.Kafka

/-! ## Messages of a transaction through the wire
When the body of an encoded message is decoded to the message, and when every part of it is refused, for the requests
and responses that add partitions to a transaction and commit offsets in it.
-/

namespace Coev.Kafka.Body

open PacketDecoder PacketEncoder

/-- A message of one of the four kinds. The topics of a request to add partitions stand in a hash table, which has them
in some order. -/
inductive TransactionMessage where
  | addPartitionsRequest (r : AddPartitionsToTxnRequest) (order : List AddPartitionsToTxnRequest.Topic)
      (perm : order.Perm r.topicPartitions.toList)
  | addPartitionsResponse (r : AddPartitionsToTxnResponse)
  | offsetCommitRequest (r : TxnOffsetCommitRequest)
  | offsetCommitResponse (r : TxnOffsetCommitResponse)

namespace TransactionMessage

/-- The version of the message is one that its type accepts. -/
def IsValidVersion : TransactionMessage → Prop
  | addPartitionsRequest r _ _ => AddPartitionsToTxnRequest.IsValidVersion r.version
  | addPartitionsResponse r => AddPartitionsToTxnResponse.IsValidVersion r.version
  | offsetCommitRequest r => TxnOffsetCommitRequest.IsValidVersion r.version
  | offsetCommitResponse r => TxnOffsetCommitResponse.IsValidVersion r.version

/-- The bytes of the body, or why there are none. -/
def encoded : TransactionMessage → Except Failure Bytes
  | addPartitionsRequest r order _ => encodeBody false (AddPartitionsToTxnRequest.encode order r)
  | addPartitionsResponse r => encodeBody false r.encode
  | offsetCommitRequest r => encodeBody false r.encode
  | offsetCommitResponse r => encodeBody false r.encode

/-- Decoding the bytes gives back the message. A request to add partitions is made with the version. -/
def RoundTrips (bytes : Bytes) : TransactionMessage → Prop
  | addPartitionsRequest r _ _ =>
    decodeVersion false (AddPartitionsToTxnRequest.decode r.version) bytes { version := r.version } = .ok () r
  | addPartitionsResponse r => decodeVersion false (AddPartitionsToTxnResponse.decode r.version) bytes {} = .ok () r
  | offsetCommitRequest r => decodeVersion false (TxnOffsetCommitRequest.decode r.version) bytes {} = .ok () r
  | offsetCommitResponse r => decodeVersion false (TxnOffsetCommitResponse.decode r.version) bytes {} = .ok () r

/-- Decoding any proper prefix of the bytes returns an error. -/
def RefusesPrefixes (bytes : Bytes) : TransactionMessage → Prop
  | addPartitionsRequest r _ _ =>
    Kafka.RefusesPrefixes false (AddPartitionsToTxnRequest.decode r.version) { version := r.version } bytes
  | addPartitionsResponse r => Kafka.RefusesPrefixes false (AddPartitionsToTxnResponse.decode r.version) {} bytes
  | offsetCommitRequest r => Kafka.RefusesPrefixes false (TxnOffsetCommitRequest.decode r.version) {} bytes
  | offsetCommitResponse r => Kafka.RefusesPrefixes false (TxnOffsetCommitResponse.decode r.version) {} bytes

/-- The times in the message fit, its numbers can be read, and no errors stand in a response to a commit. -/
def Readable : TransactionMessage → Prop
  | addPartitionsRequest r _ _ => r.Readable
  | addPartitionsResponse r => r.Readable
  | offsetCommitRequest r => r.Readable
  | offsetCommitResponse r => r.Readable

/-- The message is about adding partitions. -/
def AddsPartitions : TransactionMessage → Prop
  | addPartitionsRequest _ _ _ | addPartitionsResponse _ => True
  | offsetCommitRequest _ | offsetCommitResponse _ => False

theorem roundTrips_iff {message : TransactionMessage} {bytes : Bytes} (encoded : message.encoded = .ok bytes) :
    message.RoundTrips bytes ↔ message.Readable := by
  cases message with
  | addPartitionsRequest r order perm =>
    exact (@AddPartitionsToTxnRequest.exact false r order perm).decodeVersion_iff Nat.one_pos encoded
  | addPartitionsResponse r => exact (@AddPartitionsToTxnResponse.exact false r).decodeVersion_iff Nat.one_pos encoded
  | offsetCommitRequest r => exact r.exact.decodeVersion_iff Nat.two_pos encoded
  | offsetCommitResponse r => exact r.exact.decodeVersion_iff Nat.one_pos encoded

private theorem refusesPrefixes_iff {message : TransactionMessage} {bytes : Bytes} (encoded : message.encoded = .ok bytes)
    (readable : message.Readable) : message.RefusesPrefixes bytes ↔ message.AddsPartitions := by
  cases message with
  | addPartitionsRequest r order perm =>
    exact iff_of_true (((AddPartitionsToTxnRequest.exact perm).carries readable).refusesPrefixes encoded) trivial
  | addPartitionsResponse r => exact iff_of_true ((r.exact.carries readable).refusesPrefixes encoded) trivial
  | offsetCommitRequest r => exact iff_of_false (r.not_refusesPrefixes encoded) id
  | offsetCommitResponse r => exact iff_of_false (r.not_refusesPrefixes encoded) id

end TransactionMessage

/-- A message is read back exactly where it is readable, and moreover no part of it passes for a message exactly where
it is about adding partitions. -/
theorem transaction_messages_round_trip_iff (message : TransactionMessage) (bytes : Bytes) (_valid : message.IsValidVersion)
    (encoded : message.encoded = .ok bytes) : (message.RoundTrips bytes ↔ message.Readable) ∧
      (message.RoundTrips bytes ∧ message.RefusesPrefixes bytes ↔ message.Readable ∧ message.AddsPartitions) := by
  have roundTrips := TransactionMessage.roundTrips_iff encoded
  refine ⟨roundTrips, ?_⟩
  rw [roundTrips]
  exact and_congr_right (TransactionMessage.refusesPrefixes_iff encoded)

/-- The answer for one topic with one partition that was refused. -/
def refusedPartition : AddPartitionsToTxnResponse where
  version := 1
  errors := (∅ : Std.ExtTreeMap Bytes (List PartitionError)).insert [116] [{ partition := 2, err := 48 }]

private theorem refusedPartition_readable : refusedPartition.Readable where
  throttleTime := by decide
  errors := by
    constructor
    · intro _
      decide
    · intro topic errors found
      rw [refusedPartition, Std.ExtTreeMap.getElem?_insert] at found
      split at found
      · cases found
        decide
      · cases found

/-- The error of the partition comes back from its bytes, and no part of them passes for an answer. -/
theorem refusedPartition_round_trip : (TransactionMessage.addPartitionsResponse refusedPartition).RoundTrips
        [0, 0, 0, 0, 0, 0, 0, 1, 0, 1, 116, 0, 0, 0, 1, 0, 0, 0, 2, 0, 48] ∧
      (TransactionMessage.addPartitionsResponse refusedPartition).RefusesPrefixes
        [0, 0, 0, 0, 0, 0, 0, 1, 0, 1, 116, 0, 0, 0, 1, 0, 0, 0, 2, 0, 48] := by
  have valid : AddPartitionsToTxnResponse.IsValidVersion refusedPartition.version := by decide
  exact (transaction_messages_round_trip_iff (.addPartitionsResponse refusedPartition) _ valid (by decide +kernel)).2.mpr
    ⟨refusedPartition_readable, trivial⟩

/-- An answer to a commit of offsets, with one partition that was refused. -/
def refusedOffset : TxnOffsetCommitResponse where
  version := 2
  topics := (∅ : Std.ExtTreeMap Bytes (List PartitionError)).insert [116] [{ partition := 2, err := 48 }]

/-- Its encoding is not decoded, since the error is read out of bounds, and the first four bytes of it pass for an
answer without errors. -/
theorem refusedOffset_lost : encodeBody false refusedOffset.encode =
      .ok [0, 0, 0, 0, 0, 0, 0, 1, 0, 1, 116, 0, 0, 0, 1, 0, 0, 0, 2, 0, 48] ∧
    (decodeVersion false (TxnOffsetCommitResponse.decode 2)
    [0, 0, 0, 0, 0, 0, 0, 1, 0, 1, 116, 0, 0, 0, 1, 0, 0, 0, 2, 0, 48] {}).returned = none ∧
    (decodeVersion false (TxnOffsetCommitResponse.decode 2) [0, 0, 0, 0] {}).returned = some () := by
  refine ⟨?_, ?_, ?_⟩ <;> decide +kernel

end Coev.Kafka.Body

/-! ## Answers about reassignments and log directories through the wire

When the body of an encoded answer is decoded to the answer, for reassignments of partitions, elections of leaders and log
directories.
-/

namespace Coev.Kafka

open PacketDecoder PacketEncoder

/-- An answer of one of the four kinds. The topics of an election stand in a hash table, which has them in some order. -/
inductive ReassignmentMessage where
  | alterReassignments (r : AlterPartitionReassignmentsResponse)
  | listReassignments (r : ListPartitionReassignmentsResponse)
  | electLeaders (r : ElectLeadersResponse) (order : List ElectLeadersResponse.Topic)
      (perm : order.Perm r.replicaElectionResults.toList)
  | describeLogDirs (r : DescribeLogDirsResponse)

namespace ReassignmentMessage

/-- The version of the answer is one that its type accepts. -/
def IsValidVersion : ReassignmentMessage → Prop
  | alterReassignments r => AlterPartitionReassignmentsResponse.IsValidVersion r.version
  | listReassignments r => ListPartitionReassignmentsResponse.IsValidVersion r.version
  | electLeaders r _ _ => ElectLeadersResponse.IsValidVersion r.version
  | describeLogDirs r => DescribeLogDirsResponse.IsValidVersion r.version

/-- The bytes of the body, or why there are none. -/
def encoded : ReassignmentMessage → Except Failure Bytes
  | alterReassignments r => encodeBody (AlterPartitionReassignmentsResponse.isFlexibleVersion r.version) r.encode
  | listReassignments r => encodeBody (ListPartitionReassignmentsResponse.isFlexibleVersion r.version) r.encode
  | electLeaders r order _ =>
      encodeBody (ElectLeadersResponse.isFlexibleVersion r.version) (ElectLeadersResponse.encode order r)
  | describeLogDirs r => encodeBody (DescribeLogDirsResponse.isFlexibleVersion r.version) r.encode

/-- Decoding the bytes gives back the answer. -/
def RoundTrips (bytes : Bytes) : ReassignmentMessage → Prop
  | alterReassignments r =>
    decodeVersion (AlterPartitionReassignmentsResponse.isFlexibleVersion r.version)
      (AlterPartitionReassignmentsResponse.decode r.version) bytes {} = .ok () r
  | listReassignments r =>
    decodeVersion (ListPartitionReassignmentsResponse.isFlexibleVersion r.version)
      (ListPartitionReassignmentsResponse.decode r.version) bytes {} = .ok () r
  | electLeaders r _ _ =>
    decodeVersion (ElectLeadersResponse.isFlexibleVersion r.version) (ElectLeadersResponse.decode r.version) bytes {} =
      .ok () r
  | describeLogDirs r =>
    decodeVersion (DescribeLogDirsResponse.isFlexibleVersion r.version) (DescribeLogDirsResponse.decode r.version) bytes
      {} = .ok () r

/-- The time in the answer fits in 32 bits, its numbers can be read, and it has nothing that its version has not. -/
def Readable : ReassignmentMessage → Prop
  | alterReassignments r => r.Readable
  | listReassignments r => r.Readable
  | electLeaders r _ _ => r.Readable ∧ r.atVersion = r
  | describeLogDirs r => r.Readable ∧ r.atVersion = r

end ReassignmentMessage

/-- An answer is read back exactly where its time fits, its numbers can be read, and it has nothing that its version has
not. -/
theorem reassignment_messages_round_trip_iff (message : ReassignmentMessage) (bytes : Bytes) (valid : message.IsValidVersion)
    (encoded : message.encoded = .ok bytes) : message.RoundTrips bytes ↔ message.Readable := by
  cases message with
  | alterReassignments r =>
    have flexible : AlterPartitionReassignmentsResponse.isFlexibleVersion r.version = true := by
      rw [show r.version = 0 from valid]
      rfl
    rw [ReassignmentMessage.encoded, flexible] at encoded
    rw [ReassignmentMessage.RoundTrips, flexible]
    exact r.exact.decodeVersion_iff Nat.one_pos encoded
  | listReassignments r => exact r.exact.decodeVersion_iff Nat.one_pos encoded
  | electLeaders r order perm =>
    exact (@ElectLeadersResponse.exact false r order perm).decodeVersion_iff_and Nat.one_pos encoded fun _ _ run =>
      ElectLeadersResponse.atVersion_of_decode run
  | describeLogDirs r =>
    exact (@DescribeLogDirsResponse.exact false r).decodeVersion_iff_and Nat.one_pos encoded fun _ _ run =>
      DescribeLogDirsResponse.atVersion_of_decode run

/-- An answer about one directory with one replica. -/
def oneLogDir : DescribeLogDirsResponse where
  version := 4
  throttleTime := 5
  logDirs :=
    [{  path := [100]
        topics := [{ topic := [116], partitions := [{ partitionId := 2, size := 7 }] }]
        totalBytes := 9 }]

private theorem oneLogDir_readable : oneLogDir.Readable where
  throttleTime := by decide
  logDirs := by
    constructor
    · decide
    rintro dir member
    obtain rfl := List.mem_singleton.mp member
    refine ⟨by decide, fun topic inside => ?_⟩
    obtain rfl := List.mem_singleton.mp inside
    exact fun isFixed => Bool.noConfusion isFixed

/-- The directory comes back from its bytes. -/
theorem oneLogDir_round_trip : (ReassignmentMessage.describeLogDirs oneLogDir).RoundTrips
    [0, 0, 0, 5, 0, 0, 2, 0, 0, 2, 100, 2, 2, 116, 2, 0, 0, 0, 2, 0, 0, 0, 0, 0, 0, 0, 7, 0, 0, 0, 0, 0, 0, 0, 0, 0, 0,
      0, 0, 0, 0, 0, 0, 0, 0, 9, 0, 0, 0, 0, 0, 0, 0, 0, 0, 0] := by
  have valid : DescribeLogDirsResponse.IsValidVersion oneLogDir.version := by decide
  exact (reassignment_messages_round_trip_iff (.describeLogDirs oneLogDir) _ valid (by decide +kernel)).mpr
    ⟨oneLogDir_readable, rfl⟩

/-- An answer about so many directories without topics. -/
def emptyLogDirs (n : ℕ) : DescribeLogDirsResponse where
  logDirs := List.replicate n {}

private theorem writes_emptyLogDir :
    Writes false (DescribeLogDirsResponseDirMetadata.encode 0 {}) () (some (List.replicate 8 0)) := by
  apply writes_failWith
  apply Writes.of_eq
  · apply Writes.bind
    · exact writes_putKError 0
    apply Writes.bind
    · exact writes_putString []
    apply Writes.bind
    · exact (writes_putArrayLength 0).bind (Writes.pure ())
    · exact (Writes.pure ()).bind writes_putEmptyTaggedFieldArray
  · decide

private theorem writes_emptyLogDirs (n : ℕ) :
    Writes false ((emptyLogDirs n).logDirs.forM (DescribeLogDirsResponseDirMetadata.encode 0)) ()
    (some (List.replicate n (List.replicate 8 0)).flatten) := by
  rw [← @writesAll_replicate _ (fun _ => some (List.replicate 8 0)) ({} : DescribeLogDirsResponseDirMetadata) _ rfl]
  apply Writes.forM
  intro dir member
  rw [List.eq_of_mem_replicate member]
  exact writes_emptyLogDir

private theorem writes_manyLogDirs : Writes false (emptyLogDirs 128).encode ()
    (some (List.replicate 7 0 ++ [128] ++ (List.replicate 128 (List.replicate 8 0)).flatten)) := by
  have dirs := writes_emptyLogDirs 128
  generalize (List.replicate 128 (List.replicate 8 0)).flatten = bytes at dirs ⊢
  apply writes_failWith
  apply Writes.of_eq
  · apply Writes.bind
    · exact writes_putDurationMs 0
    apply Writes.bind
    · exact Writes.pure ()
    apply Writes.bind
    · exact (writes_putArrayLength 128).bind dirs
    · exact writes_putEmptyTaggedFieldArray
  · rw [List.append_assoc]
    exact congrArg some (congrArg _ (congrArg _ (List.append_nil _)))

/-- It is encoded, and it does not come back from its encoding. -/
theorem manyLogDirs_lost : ReassignmentMessage.IsValidVersion (.describeLogDirs (emptyLogDirs 128)) ∧
    ∃ bytes, ReassignmentMessage.encoded (.describeLogDirs (emptyLogDirs 128)) = .ok bytes ∧
      ¬ ReassignmentMessage.RoundTrips bytes (.describeLogDirs (emptyLogDirs 128)) := by
  have encoded := (encodeBody_eq_ok_iff writes_manyLogDirs).mpr ⟨rfl, by decide +kernel⟩
  have valid : DescribeLogDirsResponse.IsValidVersion 0 := by decide
  refine ⟨valid, _, encoded, fun decoded => ?_⟩
  have same : (emptyLogDirs 128).atVersion = emptyLogDirs 128 := by
    rw [emptyLogDirs, DescribeLogDirsResponse.atVersion, List.map_replicate]
    rfl
  have readable :=
    ((@DescribeLogDirsResponse.exact false (emptyLogDirs 128)).decodeVersion_iff Nat.one_pos encoded).mp
      (same ▸ decoded)
  have count := readable.logDirs.1 rfl
  rw [emptyLogDirs, List.length_replicate] at count
  exact absurd count (by decide)

/-! ## Requests through the wire

When the body of an encoded request is decoded to what its version has of it, for four kinds of requests.
-/

/-- A request of one of the four kinds. The topics of a commit stand in a hash table, which has them in some order. -/
inductive GroupOrFetchRequest where
  | fetch (r : FetchRequest)
  | joinGroup (r : JoinGroupRequest)
  | offsetCommit (r : OffsetCommitRequest.Body) (order : List OffsetCommitRequest.Topic) (perm : order.Perm r.blocks.toList)
  | syncGroup (r : SyncGroupRequest)

namespace GroupOrFetchRequest

/-- The version of the request is one that its type accepts. -/
def IsValidVersion : GroupOrFetchRequest → Prop
  | fetch r => FetchRequest.IsValidVersion r.version
  | joinGroup r => JoinGroupRequest.IsValidVersion r.version
  | offsetCommit r _ _ => OffsetCommitRequest.IsValidVersion r.version
  | syncGroup r => SyncGroupRequest.IsValidVersion r.version

/-- The bytes of the body, or why there are none. -/
def encoded : GroupOrFetchRequest → Except Failure Bytes
  | fetch r => encodeBody false r.encode
  | joinGroup r => encodeBody (JoinGroupRequest.isFlexibleVersion r.version) r.encode
  | offsetCommit r order _ => encodeBody false (OffsetCommitRequest.encode order r)
  | syncGroup r => encodeBody (SyncGroupRequest.isFlexibleVersion r.version) r.encode

/-- Decoding the bytes gives back what the version has of the request. -/
def RoundTrips (bytes : Bytes) : GroupOrFetchRequest → Prop
  | fetch r => r.RoundTrips bytes
  | joinGroup r => r.RoundTrips bytes
  | offsetCommit r _ _ => OffsetCommitRequest.RoundTrips r bytes
  | syncGroup r => r.RoundTrips bytes

/-- The numbers in the request can be read, and its decoder neither leaves early nor reads out of bounds. -/
def Readable : GroupOrFetchRequest → Prop
  | fetch r => r.Readable
  | joinGroup r => r.Readable
  | offsetCommit r _ _ => OffsetCommitRequest.Readable r
  | syncGroup r => r.Readable

end GroupOrFetchRequest

/-- A request is read back exactly where its numbers can be read and its decoder neither leaves early nor reads out of
bounds. -/
theorem requests_round_trip_iff (request : GroupOrFetchRequest) (bytes : Bytes) (valid : request.IsValidVersion)
    (encoded : request.encoded = .ok bytes) : request.RoundTrips bytes ↔ request.Readable := by
  cases request with
  | fetch r => exact FetchRequest.roundTrips_iff encoded
  | joinGroup r => exact JoinGroupRequest.roundTrips_iff encoded
  | offsetCommit r order perm => exact OffsetCommitRequest.roundTrips_iff valid perm encoded
  | syncGroup r => exact SyncGroupRequest.roundTrips_iff encoded

/-- A request to fetch a partition. -/
def fetchOfPartition : FetchRequest where
  version := 11
  blocks := (∅ : Std.ExtTreeMap Bytes (Std.ExtTreeMap Int32 FetchRequestBlock)).insert [116]
    ((∅ : Std.ExtTreeMap Int32 FetchRequestBlock).insert 2 { fetchOffset := 5 })
  rackId := [114]

private theorem fetchOfPartition_readable : fetchOfPartition.Readable where
  topics := by
    constructor
    · decide
    · intro topic partitions found
      rw [fetchOfPartition, Std.ExtTreeMap.getElem?_insert] at found
      split at found
      · cases found
        decide
      · cases found
  someTopic := fun _ => by decide
  forgotten := fun _ => entriesReadable_empty _

/-- A request that fetches a partition comes back from its bytes. -/
theorem fetch_round_trip : GroupOrFetchRequest.RoundTrips
    [255, 255, 255, 255, 0, 0, 0, 0, 0, 0, 0, 0, 0, 0, 0, 0, 0, 0, 0, 0, 0, 0, 0, 0, 0, 0, 0, 0, 1, 0, 1, 116, 0, 0, 0,
      1, 0, 0, 0, 2, 0, 0, 0, 0, 0, 0, 0, 0, 0, 0, 0, 5, 0, 0, 0, 0, 0, 0, 0, 0, 0, 0, 0, 0, 0, 0, 0, 0, 0, 1, 114]
        (.fetch fetchOfPartition) := by
  have valid : FetchRequest.IsValidVersion fetchOfPartition.version := by decide
  exact (requests_round_trip_iff (.fetch fetchOfPartition) _ valid (by decide +kernel)).mpr fetchOfPartition_readable

/-- A session that fetches no topic for now is encoded, and its encoding is refused. -/
theorem fetch_without_topics : encodeBody false (FetchRequest.encode { version := 7 }) =
      .ok [255, 255, 255, 255, 0, 0, 0, 0, 0, 0, 0, 0, 0, 0, 0, 0, 0, 0, 0, 0, 0, 0, 0, 0, 0, 0, 0, 0, 0, 0, 0, 0, 0] ∧
    (decodeVersion false (FetchRequest.decode 7)
    [255, 255, 255, 255, 0, 0, 0, 0, 0, 0, 0, 0, 0, 0, 0, 0, 0, 0, 0, 0, 0, 0, 0, 0, 0,
      0, 0, 0, 0, 0, 0, 0, 0] {}).returned = none := by
  constructor <;> decide +kernel

end Coev.Kafka
