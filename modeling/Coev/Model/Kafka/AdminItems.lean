import Coev.Model.Kafka.ClusterAdmin
import Coev.Model.Kafka.AdminMessages

/-! # The operations of `ClusterAdmin` on several items

The cluster is the codes of looking a broker up and of sending it a request, and the responses. Subtasks are
taken in the order in which they end.
-/

namespace Coev.Kafka

open Std (ExtTreeMap)

def ErrDeleteRecords : KError := 1019

/-- What sending a request comes to: the code that is returned, and the response if there is one. -/
structure AdminReply (α : Type) where
  err : KError := 0
  response : Option α

namespace AdminReply

/-- The checks before a response is looked at. -/
def read {α : Type} (reply : AdminReply α) (answered : α → KError) : KError :=
  if reply.err ≠ 0 then reply.err
  else
    match reply.response with
    | none => ErrIncompleteResponse
    | some response => answered response

end AdminReply

namespace AdminItems

/-! ## Records -/

/-- `DeleteRecordsRequest` for one topic. -/
structure DeleteRecordsRequest where
  version : Int16
  topic : Bytes
  partitionOffsets : List (Int32 × Int64)
deriving DecidableEq, Repr

/-- The partitions of a topic of `DeleteRecordsResponse`, with their codes. -/
abbrev DeleteRecordsResponseTopic := ExtTreeMap Int32 KError

/-- What `DeleteRecords` meets; brokers are told apart by a number. -/
structure RecordsCluster where
  leader : Bytes → Int32 → KError × ℕ
  deleteRecords : ℕ → DeleteRecordsRequest → AdminReply (ExtTreeMap Bytes DeleteRecordsResponseTopic)

/-- The entries of a broker in `partitionPerBroker`. -/
def ledBy (cluster : RecordsCluster) (topic : Bytes) (partitionOffsets : List (Int32 × Int64)) (broker : ℕ) :
    List (Int32 × Int64) :=
  partitionOffsets.filter fun entry => cluster.leader topic entry.1 = (0, broker)

def deleteRecordsRequest (conf : AdminConfig) (cluster : RecordsCluster) (topic : Bytes)
    (partitionOffsets : List (Int32 × Int64)) (broker : ℕ) : DeleteRecordsRequest :=
  { version := if conf.version.isAtLeast V2_0_0_0 then 1 else 0
    topic
    partitionOffsets := ledBy cluster topic partitionOffsets broker }

/-- The errors that one broker's reply adds. -/
def deleteRecordsErrs (topic : Bytes) (reply : AdminReply (ExtTreeMap Bytes DeleteRecordsResponseTopic)) : List KError :=
  if reply.err ≠ 0 then [reply.err]
  else
    match reply.response.bind (·[topic]?) with
    | none => [ErrIncompleteResponse]
    | some partitions => (partitions.toList.map Prod.snd).filter (· ≠ ErrNoError)

/-- `DeleteRecords`: the errors of the lookups, then those of each broker that leads a partition. -/
def deleteRecords (conf : AdminConfig) (cluster : RecordsCluster) (topic : Bytes)
    (partitionOffsets : List (Int32 × Int64)) : KError :=
  if topic.isEmpty then ErrInvalidTopic
  else
    let leaders := partitionOffsets.map fun entry => cluster.leader topic entry.1
    let lookups := (leaders.map Prod.fst).filter (· ≠ 0)
    let brokers := ((leaders.filter fun leader => leader.1 = 0).map Prod.snd).dedup
    let errs := lookups ++ brokers.flatMap fun broker =>
      deleteRecordsErrs topic
        (cluster.deleteRecords broker (deleteRecordsRequest conf cluster topic partitionOffsets broker))
    if !errs.isEmpty then ErrDeleteRecords else 0

/-! ## Access rules -/

structure ResourceAcls where
  resource : Resource
  acls : List Acl
deriving DecidableEq, Repr

structure CreateAclsRequest where
  version : Int16
  aclCreations : List (Resource × Acl)
deriving DecidableEq, Repr

structure AclCreationResponse where
  err : KError := 0
  errMsg : Bytes := []
deriving DecidableEq, Repr

structure AclFilter where
  resourceType : Int8
  resourceName : Bytes
  resourcePatternTypeFilter : Int8
  principal : Bytes
  host : Bytes
  operation : Int8
  permissionType : Int8
deriving DecidableEq, Repr

structure DeleteAclsRequest where
  version : Int16
  filters : List AclFilter
deriving DecidableEq, Repr

/-- What the operations on access rules meet: the code of `GetController`, and the replies of the controller. -/
structure AclCluster where
  controller : KError
  createAcls : CreateAclsRequest → AdminReply (List AclCreationResponse)
  deleteAcls : DeleteAclsRequest → AdminReply DeleteAclsResponse

def aclVersion (conf : AdminConfig) : Int16 := if conf.version.isAtLeast V2_0_0_0 then 1 else 0

def aclCreations (resourceAcls : List ResourceAcls) : List (Resource × Acl) :=
  resourceAcls.flatMap fun r => r.acls.map fun acl => (r.resource, acl)

def createAclsReply (conf : AdminConfig) (cluster : AclCluster) (resourceAcls : List ResourceAcls) :
    AdminReply (List AclCreationResponse) :=
  cluster.createAcls ⟨aclVersion conf, aclCreations resourceAcls⟩

def createACLs (conf : AdminConfig) (cluster : AclCluster) (resourceAcls : List ResourceAcls) : KError :=
  if cluster.controller ≠ 0 then cluster.controller
  else (createAclsReply conf cluster resourceAcls).read fun _ => 0

def deleteAclsReply (conf : AdminConfig) (cluster : AclCluster) (filter : AclFilter) : AdminReply DeleteAclsResponse :=
  cluster.deleteAcls ⟨aclVersion conf, [filter]⟩

/-- `DeleteACL`, which does not read `validate_only`: its code, and what it leaves in `out`. -/
def deleteACL (conf : AdminConfig) (cluster : AclCluster) (filter : AclFilter) (_validateOnly : Bool)
    (out : List MatchingAcl) : KError × List MatchingAcl :=
  if cluster.controller ≠ 0 then (cluster.controller, out)
  else if (deleteAclsReply conf cluster filter).err ≠ 0 then ((deleteAclsReply conf cluster filter).err, out)
  else
    match (deleteAclsReply conf cluster filter).response with
    | none => (ErrIncompleteResponse, out)
    | some response => (0, response.filterResponses.flatMap FilterResponse.matchingAcls)

/-! ## Groups -/

structure DeleteOffsetsResponse where
  code : KError := 0
  errors : ExtTreeMap Bytes (ExtTreeMap Int32 KError) := ∅

/-- What one attempt of `DeleteConsumerGroupOffset` meets: the code of `GetCoordinator`, and the reply. -/
structure OffsetAttempt where
  coordinator : KError := 0
  reply : AdminReply DeleteOffsetsResponse

/-- The end of `_DeleteConsumerGroupOffset`. -/
def deletedOffset (topic : Bytes) (partition : Int32) (response : DeleteOffsetsResponse) : KError :=
  if response.code ≠ ErrNoError then response.code
  else
    match response.errors[topic]?.bind (·[partition]?) with
    | none => 0
    | some err => if err ≠ ErrNoError then err else 0

/-- `_DeleteConsumerGroupOffset`; the refreshes it calls are not awaited. -/
def deleteOffsetAttempt (topic : Bytes) (partition : Int32) (met : OffsetAttempt) : KError :=
  if met.coordinator ≠ 0 then met.coordinator else met.reply.read (deletedOffset topic partition)

/-- The loop of `RetryOnError` with the attempts that are left, from the `k`-th on. -/
def retryOnError (retryable : KError → Bool) (attempt : ℕ → KError) : ℕ → ℕ → KError → KError
  | 0, _, err => err
  | left + 1, k, _ =>
    if attempt k = 0 || !retryable (attempt k) then attempt k else retryOnError retryable attempt left (k + 1) (attempt k)

/-- The attempts that `RetryOnError` makes at most. -/
def adminAttempts (conf : AdminConfig) : ℕ := (conf.retryMax + 1).toInt.toNat

def deleteConsumerGroupOffset (conf : AdminConfig) (topic : Bytes) (partition : Int32) (met : ℕ → OffsetAttempt) : KError :=
  retryOnError isRetriableGroupCoordinatorError (fun k => deleteOffsetAttempt topic partition (met k))
    (adminAttempts conf) 0 0

structure ListGroupsResponse where
  err : KError := 0
  groups : ExtTreeMap Bytes Bytes

/-- `_ListConsumerGroups`: what one subtask adds to the errors and to the groups. -/
def listGroups (sofar : List KError × ExtTreeMap Bytes Bytes) (reply : AdminReply ListGroupsResponse) :
    List KError × ExtTreeMap Bytes Bytes :=
  if reply.err ≠ 0 then (sofar.1 ++ [reply.err], sofar.2)
  else
    match reply.response with
    | none => (sofar.1 ++ [ErrIncompleteResponse], sofar.2)
    | some response => (sofar.1, response.groups.toList.foldl (fun out group => out.insertIfNew group.1 group.2) sofar.2)

/-- `ListConsumerGroups`, with the replies of the brokers as their subtasks end. -/
def listConsumerGroups (replies : List (AdminReply ListGroupsResponse)) (out : ExtTreeMap Bytes Bytes) :
    KError × ExtTreeMap Bytes Bytes :=
  (0, (replies.foldl listGroups ([], out)).2)

end AdminItems

end Coev.Kafka
