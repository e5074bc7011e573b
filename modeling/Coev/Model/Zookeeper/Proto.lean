import Coev.Model.Zookeeper.Archive
import Coev.ToMathlib.EStateM

/-! # The records of ZooKeeper

Each record lists its fields as the method of `oarchive` writes them, and as that of `iarchive` reads them.
-/

namespace Coev.Zookeeper.Proto

def Id : RecordType where
  oarchive := .record [("scheme", .string), ("id", .string)]
  iarchive := .record [("scheme", .string), ("id", .string)]

def ACL : RecordType where
  oarchive := .record [("perms", .int), ("id", Id.oarchive)]
  iarchive := .record [("perms", .int), ("id", Id.iarchive)]

def Stat : RecordType where
  oarchive := .record [("czxid", .long), ("mzxid", .long), ("ctime", .long), ("mtime", .long), ("version", .int),
    ("cversion", .int), ("aversion", .int), ("ephemeralOwner", .long), ("dataLength", .int), ("numChildren", .int),
    ("pzxid", .long)]
  iarchive := .record [("czxid", .long), ("mzxid", .long), ("ctime", .long), ("mtime", .long), ("version", .int),
    ("cversion", .int), ("aversion", .int), ("ephemeralOwner", .long), ("dataLength", .int), ("numChildren", .int),
    ("pzxid", .long)]

def StatPersisted : RecordType where
  oarchive := .record [("czxid", .long), ("mzxid", .long), ("ctime", .long), ("mtime", .long), ("version", .int),
    ("cversion", .int), ("aversion", .int), ("ephemeralOwner", .long), ("pzxid", .long)]
  iarchive := .record [("czxid", .long), ("mzxid", .long), ("ctime", .long), ("mtime", .long), ("version", .int),
    ("cversion", .int), ("aversion", .int), ("ephemeralOwner", .long), ("pzxid", .long)]

def ClientInfo : RecordType where
  oarchive := .record [("authScheme", .string), ("user", .string)]
  iarchive := .record [("authScheme", .string), ("user", .string)]

def ConnectRequest : RecordType where
  oarchive := .record [("protocolVersion", .int), ("lastZxidSeen", .long), ("timeout", .int), ("sessionId", .long),
    ("passwd", .buffer), ("readOnly", .bool)]
  iarchive := .record [("protocolVersion", .int), ("lastZxidSeen", .long), ("timeout", .int), ("sessionId", .long),
    ("passwd", .buffer), ("readOnly", .bool)]

def ConnectResponse : RecordType where
  oarchive := .record [("protocolVersion", .int), ("timeout", .int), ("sessionId", .long), ("passwd", .buffer),
    ("readOnly", .bool)]
  iarchive := .record [("protocolVersion", .int), ("timeout", .int), ("sessionId", .long), ("passwd", .buffer),
    ("readOnly", .bool)]

def StringVec : RecordType where
  oarchive := .vec .string
  iarchive := .vec .string

def SetWatches : RecordType where
  oarchive := .record [("relativeZxid", .long), ("dataWatches", StringVec.oarchive),
    ("existWatches", StringVec.oarchive), ("childWatches", StringVec.oarchive)]
  iarchive := .record [("relativeZxid", .long), ("dataWatches", StringVec.iarchive),
    ("existWatches", StringVec.iarchive), ("childWatches", StringVec.iarchive)]

def SetWatches2 : RecordType where
  oarchive := .record [("relativeZxid", .long), ("dataWatches", StringVec.oarchive),
    ("existWatches", StringVec.oarchive), ("childWatches", StringVec.oarchive),
    ("persistentWatches", StringVec.oarchive), ("persistentRecursiveWatches", StringVec.oarchive)]
  iarchive := .record [("relativeZxid", .long), ("dataWatches", StringVec.iarchive),
    ("existWatches", StringVec.iarchive), ("childWatches", StringVec.iarchive),
    ("persistentWatches", StringVec.iarchive), ("persistentRecursiveWatches", StringVec.iarchive)]

def RequestHeader : RecordType where
  oarchive := .record [("xid", .int), ("type", .int)]
  iarchive := .record [("xid", .int), ("type", .int)]

def MultiHeader : RecordType where
  oarchive := .record [("type", .int), ("done", .bool), ("err", .int)]
  iarchive := .record [("type", .int), ("done", .bool), ("err", .int)]

def AuthPacket : RecordType where
  oarchive := .record [("type", .int), ("scheme", .string), ("auth", .buffer)]
  iarchive := .record [("type", .int), ("scheme", .string), ("auth", .buffer)]

def ReplyHeader : RecordType where
  oarchive := .record [("xid", .int), ("zxid", .long), ("err", .int)]
  iarchive := .record [("xid", .int), ("zxid", .long), ("err", .int)]

def GetDataRequest : RecordType where
  oarchive := .record [("path", .string), ("watch", .bool)]
  iarchive := .record [("path", .string), ("watch", .bool)]

def SetDataRequest : RecordType where
  oarchive := .record [("path", .string), ("data", .buffer), ("version", .int)]
  iarchive := .record [("path", .string), ("data", .buffer), ("version", .int)]

def ReconfigRequest : RecordType where
  oarchive := .record [("joiningServers", .string), ("leavingServers", .string), ("newMembers", .string),
    ("curConfigId", .long)]
  iarchive := .record [("joiningServers", .string), ("leavingServers", .string), ("newMembers", .string),
    ("curConfigId", .long)]

def SetDataResponse : RecordType where
  oarchive := .record [("stat", Stat.oarchive)]
  iarchive := .record [("stat", Stat.iarchive)]

def GetSASLRequest : RecordType where
  oarchive := .record [("token", .buffer)]
  iarchive := .record [("token", .buffer)]

def SetSASLRequest : RecordType where
  oarchive := .record [("token", .buffer)]
  iarchive := .record [("token", .buffer)]

def SetSASLResponse : RecordType where
  oarchive := .record [("token", .buffer)]
  iarchive := .record [("token", .buffer)]

def ACLVec : RecordType where
  oarchive := .aclVec ACL.oarchive
  iarchive := .aclVec ACL.iarchive

def CreateRequest : RecordType where
  oarchive := .record [("path", .string), ("data", .buffer), ("acl", ACLVec.oarchive), ("flags", .int)]
  iarchive := .record [("path", .string), ("data", .buffer), ("acl", ACLVec.iarchive), ("flags", .int)]

def CreateTTLRequest : RecordType where
  oarchive := .record [("path", .string), ("data", .buffer), ("acl", ACLVec.oarchive), ("flags", .int), ("ttl", .long)]
  iarchive := .record [("path", .string), ("data", .buffer), ("acl", ACLVec.iarchive), ("flags", .int), ("ttl", .long)]

def DeleteRequest : RecordType where
  oarchive := .record [("path", .string), ("version", .int)]
  iarchive := .record [("path", .string), ("version", .int)]

def GetChildrenRequest : RecordType where
  oarchive := .record [("path", .string), ("watch", .bool)]
  iarchive := .record [("path", .string), ("watch", .bool)]

def GetAllChildrenNumberRequest : RecordType where
  oarchive := .record [("path", .string)]
  iarchive := .record [("path", .string)]

def GetChildren2Request : RecordType where
  oarchive := .record [("path", .string), ("watch", .bool)]
  iarchive := .record [("path", .string), ("watch", .bool)]

def CheckVersionRequest : RecordType where
  oarchive := .record [("path", .string), ("version", .int)]
  iarchive := .record [("path", .string), ("version", .int)]

def GetMaxChildrenRequest : RecordType where
  oarchive := .record [("path", .string)]
  iarchive := .record [("path", .string)]

def GetMaxChildrenResponse : RecordType where
  oarchive := .record [("max", .int)]
  iarchive := .record [("max", .int)]

def SetMaxChildrenRequest : RecordType where
  oarchive := .record [("path", .string), ("max", .int)]
  iarchive := .record [("path", .string), ("max", .int)]

def SyncRequest : RecordType where
  oarchive := .record [("path", .string)]
  iarchive := .record [("path", .string)]

def SyncResponse : RecordType where
  oarchive := .record [("path", .string)]
  iarchive := .record [("path", .string)]

def GetACLRequest : RecordType where
  oarchive := .record [("path", .string)]
  iarchive := .record [("path", .string)]

def SetACLRequest : RecordType where
  oarchive := .record [("path", .string), ("acl", ACLVec.oarchive), ("version", .int)]
  iarchive := .record [("path", .string), ("acl", ACLVec.iarchive), ("version", .int)]

def SetACLResponse : RecordType where
  oarchive := .record [("stat", Stat.oarchive)]
  iarchive := .record [("stat", Stat.iarchive)]

def AddWatchRequest : RecordType where
  oarchive := .record [("path", .string), ("mode", .int)]
  iarchive := .record [("path", .string), ("mode", .int)]

def WatcherEvent : RecordType where
  oarchive := .record [("type", .int), ("state", .int), ("path", .string)]
  iarchive := .record [("type", .int), ("state", .int), ("path", .string)]

def ErrorResponse : RecordType where
  oarchive := .record [("err", .int)]
  iarchive := .record [("err", .int)]

def CreateResponse : RecordType where
  oarchive := .record [("path", .string)]
  iarchive := .record [("path", .string)]

def Create2Response : RecordType where
  oarchive := .record [("path", .string), ("stat", Stat.oarchive)]
  iarchive := .record [("path", .string), ("stat", Stat.iarchive)]

def ExistsRequest : RecordType where
  oarchive := .record [("path", .string), ("watch", .bool)]
  iarchive := .record [("path", .string), ("watch", .bool)]

def ExistsResponse : RecordType where
  oarchive := .record [("stat", Stat.oarchive)]
  iarchive := .record [("stat", Stat.iarchive)]

def GetDataResponse : RecordType where
  oarchive := .record [("data", .buffer), ("stat", Stat.oarchive)]
  iarchive := .record [("data", .buffer), ("stat", Stat.iarchive)]

def GetChildrenResponse : RecordType where
  oarchive := .record [("children", StringVec.oarchive)]
  iarchive := .record [("children", StringVec.iarchive)]

def GetAllChildrenNumberResponse : RecordType where
  oarchive := .record [("totalNumber", .int)]
  iarchive := .record [("totalNumber", .int)]

def GetChildren2Response : RecordType where
  oarchive := .record [("children", StringVec.oarchive), ("stat", Stat.oarchive)]
  iarchive := .record [("children", StringVec.iarchive), ("stat", Stat.iarchive)]

def GetACLResponse : RecordType where
  oarchive := .record [("acl", ACLVec.oarchive), ("stat", Stat.oarchive)]
  iarchive := .record [("acl", ACLVec.iarchive), ("stat", Stat.iarchive)]

def CheckWatchesRequest : RecordType where
  oarchive := .record [("path", .string), ("type", .int)]
  iarchive := .record [("path", .string), ("type", .int)]

def RemoveWatchesRequest : RecordType where
  oarchive := .record [("path", .string), ("type", .int)]
  iarchive := .record [("path", .string), ("type", .int)]

def GetEphemeralsRequest : RecordType where
  oarchive := .record [("prefixPath", .string)]
  iarchive := .record [("prefixPath", .string)]

def GetEphemeralsResponse : RecordType where
  oarchive := .record [("ephemerals", StringVec.oarchive)]
  iarchive := .record [("ephemerals", StringVec.iarchive)]

def ClientInfoVec : RecordType where
  oarchive := .vec ClientInfo.oarchive
  iarchive := .vec ClientInfo.iarchive

def WhoAmIResponse : RecordType where
  oarchive := .record [("clientInfo", ClientInfoVec.oarchive)]
  iarchive := .record [("clientInfo", ClientInfoVec.iarchive)]

def LearnerInfo : RecordType where
  oarchive := .record [("serverid", .long), ("protocolVersion", .int), ("configVersion", .long)]
  iarchive := .record [("serverid", .long), ("protocolVersion", .int), ("configVersion", .long)]

def IdVec : RecordType where
  oarchive := .vec Id.oarchive
  iarchive := .vec Id.iarchive

def QuorumPacket : RecordType where
  oarchive := .record [("type", .int), ("zxid", .long), ("data", .buffer), ("authinfo", IdVec.oarchive)]
  iarchive := .record [("type", .int), ("zxid", .long), ("data", .buffer), ("authinfo", IdVec.iarchive)]

def QuorumAuthPacket : RecordType where
  oarchive := .record [("magic", .long), ("status", .int), ("token", .buffer)]
  iarchive := .record [("magic", .long), ("status", .int), ("token", .buffer)]

def FileHeader : RecordType where
  oarchive := .record [("magic", .int), ("version", .int), ("dbid", .long)]
  iarchive := .record [("magic", .int), ("version", .int), ("dbid", .long)]

def TxnDigest : RecordType where
  oarchive := .record [("version", .int), ("treeDigest", .long)]
  iarchive := .record [("version", .int), ("treeDigest", .long)]

def TxnHeader : RecordType where
  oarchive := .record [("clientId", .long), ("cxid", .int), ("zxid", .long), ("time", .long), ("type", .int)]
  iarchive := .record [("clientId", .long), ("cxid", .int), ("zxid", .long), ("time", .long), ("type", .int)]

def CreateTxnV0 : RecordType where
  oarchive := .record [("path", .string), ("data", .buffer), ("acl", ACLVec.oarchive), ("ephemeral", .bool)]
  iarchive := .record [("path", .string), ("data", .buffer), ("acl", ACLVec.iarchive), ("ephemeral", .bool)]

def CreateTxn : RecordType where
  oarchive := .record [("path", .string), ("data", .buffer), ("acl", ACLVec.oarchive), ("ephemeral", .bool),
    ("parentCVersion", .int)]
  iarchive := .record [("path", .string), ("data", .buffer), ("acl", ACLVec.iarchive), ("ephemeral", .bool),
    ("parentCVersion", .int)]

def CreateTTLTxn : RecordType where
  oarchive := .record [("path", .string), ("data", .buffer), ("acl", ACLVec.oarchive), ("parentCVersion", .int),
    ("ttl", .long)]
  iarchive := .record [("path", .string), ("data", .buffer), ("acl", ACLVec.iarchive), ("parentCVersion", .int),
    ("ttl", .long)]

def CreateContainerTxn : RecordType where
  oarchive := .record [("path", .string), ("data", .buffer), ("acl", ACLVec.oarchive), ("parentCVersion", .int)]
  iarchive := .record [("path", .string), ("data", .buffer), ("acl", ACLVec.iarchive), ("parentCVersion", .int)]

def DeleteTxn : RecordType where
  oarchive := .record [("path", .string)]
  iarchive := .record [("path", .string)]

def SetDataTxn : RecordType where
  oarchive := .record [("path", .string), ("data", .buffer), ("version", .int)]
  iarchive := .record [("path", .string), ("data", .buffer), ("version", .int)]

def CheckVersionTxn : RecordType where
  oarchive := .record [("path", .string), ("version", .int)]
  iarchive := .record [("path", .string), ("version", .int)]

def SetACLTxn : RecordType where
  oarchive := .record [("path", .string), ("acl", ACLVec.oarchive), ("version", .int)]
  iarchive := .record [("path", .string), ("acl", ACLVec.iarchive), ("version", .int)]

def SetMaxChildrenTxn : RecordType where
  oarchive := .record [("path", .string), ("max", .int)]
  iarchive := .record [("path", .string), ("max", .int)]

def CreateSessionTxn : RecordType where
  oarchive := .record [("timeOut", .int)]
  iarchive := .record [("timeOut", .int)]

def CloseSessionTxn : RecordType where
  oarchive := .record [("paths2Delete", StringVec.oarchive)]
  iarchive := .record [("paths2Delete", StringVec.iarchive)]

def ErrorTxn : RecordType where
  oarchive := .record [("err", .int)]
  iarchive := .record [("err", .int)]

def Txn : RecordType where
  oarchive := .record [("type", .int), ("data", .buffer)]
  iarchive := .record [("type", .int), ("data", .buffer)]

def TxnVec : RecordType where
  oarchive := .vec Txn.oarchive
  iarchive := .vec Txn.iarchive

def MultiTxn : RecordType where
  oarchive := .record [("txns", TxnVec.oarchive)]
  iarchive := .record [("txns", TxnVec.iarchive)]

/-- All record types. -/
def records : List RecordType :=
  [Id, ACL, Stat, StatPersisted, ClientInfo, ConnectRequest, ConnectResponse, StringVec, SetWatches, SetWatches2,
    RequestHeader, MultiHeader, AuthPacket, ReplyHeader, GetDataRequest, SetDataRequest, ReconfigRequest,
    SetDataResponse, GetSASLRequest, SetSASLRequest, SetSASLResponse, ACLVec, CreateRequest, CreateTTLRequest,
    DeleteRequest, GetChildrenRequest, GetAllChildrenNumberRequest, GetChildren2Request, CheckVersionRequest,
    GetMaxChildrenRequest, GetMaxChildrenResponse, SetMaxChildrenRequest, SyncRequest, SyncResponse, GetACLRequest,
    SetACLRequest, SetACLResponse, AddWatchRequest, WatcherEvent, ErrorResponse, CreateResponse, Create2Response,
    ExistsRequest, ExistsResponse, GetDataResponse, GetChildrenResponse, GetAllChildrenNumberResponse,
    GetChildren2Response, GetACLResponse, CheckWatchesRequest, RemoveWatchesRequest, GetEphemeralsRequest,
    GetEphemeralsResponse, ClientInfoVec, WhoAmIResponse, LearnerInfo, IdVec, QuorumPacket, QuorumAuthPacket,
    FileHeader, TxnDigest, TxnHeader, CreateTxnV0, CreateTxn, CreateTTLTxn, CreateContainerTxn, DeleteTxn,
    SetDataTxn, CheckVersionTxn, SetACLTxn, SetMaxChildrenTxn, CreateSessionTxn, CloseSessionTxn, ErrorTxn, Txn,
    TxnVec, MultiTxn]

end Coev.Zookeeper.Proto

/-! # Decoding, with the sizes that vectors are given

`iarchive` keeps what is left of its view when it fails, and a vector is resized as soon as its count was asked for.
-/

namespace Coev.Zookeeper

/-- A call of `resize`: the count, unless it was never set, the least size of an element, and how many bytes were left. -/
structure Resize where
  count : Option ℕ
  least : ℕ
  left : ℕ
deriving DecidableEq, Repr

/-- The view of an `iarchive`, and what was resized so far. -/
structure Decoder where
  view : Bytes
  resizes : List Resize := []
deriving DecidableEq, Repr

abbrev Decode := EStateM Failure Decoder

namespace Decode

variable {α : Type}

/-- A method that takes from the view at once or not at all. -/
def take (read : Deserialize α) : Decode α := fun s =>
  match read s.view with
  | .ok (v, rest) => .ok v { s with view := rest }
  | .error failure => .error failure s

def string : Decode Bytes := do
  let len ← take deserializeInt
  if len < 0 then throw (.code (-EINVAL))
  take (takeString len)

/-- `resize`, with a count that an `int32_t` holds. -/
def resize (count : Int32) (least : ℕ) : Decode Unit := fun s =>
  if count < 0 then .error .lengthError s
  else .ok () { s with resizes := s.resizes ++ [⟨some count.toInt.toNat, least, s.view.length⟩] }

/-- `resize` with a count that was not read: 0, or what is there where the variable has no initial value. -/
def resizeUnread (initialised : Bool) (least : ℕ) : Decode Unit :=
  modify fun s => { s with resizes := s.resizes ++ [⟨if initialised then some 0 else none, least, s.view.length⟩] }

def times (element : Decode α) : ℕ → Decode (List α)
  | 0 => return []
  | n + 1 => do
    let v ← element
    let vs ← times element n
    return v :: vs

/-- The count, `resize` with it whether it was read or not, and the elements while there is no error. -/
def vec (initialised : Bool) (least : ℕ) (element : Decode α) : Decode (List α) := fun s =>
  match take deserializeInt s with
  | .ok count s => (do resize count least; times element count.toInt.toNat) s
  | .error failure s => (do resizeUnread initialised least; throw failure) s

end Decode

namespace Kind

/-- The least number of bytes that a value takes. -/
def least : Kind → ℕ
  | .int => 4
  | .long => 8
  | .bool => 1
  | .string => 4
  | .vec _ => 4
  | .aclVec _ => 4
  | .done => 0
  | .field _ kind rest => kind.least + rest.least

/-- `IdVec` alone declares its count without a value. -/
def initialised (element : Kind) : Bool := element != Proto.Id.iarchive

def decode : (kind : Kind) → Decode kind.Value
  | .int => Decode.take deserializeInt
  | .long => Decode.take deserializeLong
  | .bool => Decode.take deserializeBool
  | .string => Decode.string
  | .vec kind => Decode.vec kind.initialised kind.least kind.decode
  | .aclVec kind => Decode.vec kind.initialised kind.least kind.decode
  | .done => return ()
  | .field _ kind rest => do
    let v ← kind.decode
    let w ← rest.decode
    return (v, w)

end Kind

end Coev.Zookeeper
