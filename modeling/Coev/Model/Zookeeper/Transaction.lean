import Coev.Model.Zookeeper.Proto
import Coev.ToMathlib.Regex

/-! # Paths and transactions of a ZooKeeper client

A path is checked behind the root directory of the client. A transaction writes the headers and the requests of its
operations into one request and hands that to the connection.
-/

namespace Coev.Zookeeper

/-! ## Paths -/

def slash : UInt8 := 47

def dot : UInt8 := 46

def ZOO_PERSISTENT_SEQUENTIAL : Int32 := 2
def ZOO_EPHEMERAL_SEQUENTIAL : Int32 := 3
def ZOO_CONTAINER : Int32 := 4
def ZOO_PERSISTENT_WITH_TTL : Int32 := 5
def ZOO_PERSISTENT_SEQUENTIAL_WITH_TTL : Int32 := 6

/-- `ZOOKEEPER_IS_SEQUENCE`. -/
def isSequence (mode : Int32) : Bool :=
  mode == ZOO_PERSISTENT_SEQUENTIAL || mode == ZOO_EPHEMERAL_SEQUENTIAL || mode == ZOO_PERSISTENT_SEQUENTIAL_WITH_TTL

/-- `ZOOKEEPER_IS_TTL`. -/
def isTtl (mode : Int32) : Bool := mode == ZOO_PERSISTENT_WITH_TTL || mode == ZOO_PERSISTENT_SEQUENTIAL_WITH_TTL

open Regex in
/-- `(?!.*…)`, whose dots stop at the ends of lines. -/
def nowhere (text : Bytes) : Regex UInt8 :=
  notAhead (seq (many (one fun c => c != 10 && c != 13)) (literal text))

/-- `[^\x00-\x1f]`, for bytes that a `char` may show as negative numbers. -/
def printable (c : UInt8) : Bool := 32 ≤ c

open Regex in
def pathRegex : Regex UInt8 :=
  seq start (seq (literal [slash]) (seq (nowhere [slash, slash]) (seq (nowhere [slash, dot, slash])
    (seq (nowhere [slash, dot, dot, slash]) (seq (some printable) finish)))))

open Regex in
/-- `(^|/)…($|/)`. -/
def whole (text : Bytes) : Regex UInt8 :=
  seq (either start (literal [slash])) (seq (literal text) (either finish (literal [slash])))

def dotRegex : Regex UInt8 := .either (whole [dot]) (whole [dot, dot])

def isValidPath (path : Bytes) (mode : Int32) : Bool :=
  if path.head? ≠ some slash then false
  else if path.length = 1 then true
  else if path.getLast? = some slash ∧ !isSequence mode then false
  else pathRegex.fullMatch path && !dotRegex.search path

/-- `path_string`, behind `m_chroot`. -/
def pathString (chroot path : Bytes) : Bytes :=
  if chroot = [] then path else if path.length = 1 then chroot else chroot ++ path

def INVALID : Int32 := -1

/-- `path_init`: what it leaves in `path_out`, and what it returns. -/
def pathInit (chroot path : Bytes) : Bytes × Int32 :=
  (pathString chroot path, if isValidPath (pathString chroot path) 0 then 0 else INVALID)

/-! ## Transactions -/

def ZOO_CREATE_OP : Int32 := 1
def ZOO_DELETE_OP : Int32 := 2
def ZOO_SETDATA_OP : Int32 := 5
def ZOO_CHECK_OP : Int32 := 13
def ZOO_MULTI_OP : Int32 := 14
def ZOO_CREATE2_OP : Int32 := 15
def ZOO_CREATE_CONTAINER_OP : Int32 := 19
def ZOO_CREATE_TTL_OP : Int32 := 21

/-- `ZooOp`, with the members of its union side by side. The path is what its `const char *` shows as a string, and the
data are `datalen` bytes, which is an `int`. -/
structure ZooOp where
  type : Int32
  path : Bytes
  data : Bytes := []
  acl : List Proto.ACL.Value := []
  flags : Int32 := 0
  version : Int32 := 0
  datalen : data.length < 2 ^ 31 := by decide

def getCreateOpType (mode default : Int32) : Int32 :=
  if mode = ZOO_CONTAINER then ZOO_CREATE_CONTAINER_OP else if isTtl mode then ZOO_CREATE_TTL_OP else default

namespace ZooOp

/-- `zoo_create_op_init`. -/
def create (path : Bytes) (value : { value : Bytes // value.length < 2 ^ 31 }) (acl : List Proto.ACL.Value)
    (mode : Int32) : ZooOp where
  type := getCreateOpType mode ZOO_CREATE_OP
  path
  data := value
  acl
  flags := mode
  datalen := value.2

/-- `zoo_create2_op_init`. -/
def create2 (path : Bytes) (value : { value : Bytes // value.length < 2 ^ 31 }) (acl : List Proto.ACL.Value)
    (mode : Int32) : ZooOp where
  type := getCreateOpType mode ZOO_CREATE2_OP
  path
  data := value
  acl
  flags := mode
  datalen := value.2

/-- `zoo_delete_op_init`. -/
def delete (path : Bytes) (version : Int32) : ZooOp := { type := ZOO_DELETE_OP, path, version }

/-- `zoo_set_op_init`. -/
def set (path : Bytes) (buffer : { value : Bytes // value.length < 2 ^ 31 }) (version : Int32) : ZooOp where
  type := ZOO_SETDATA_OP
  path
  data := buffer
  version
  datalen := buffer.2

/-- `zoo_check_op_init`. -/
def check (path : Bytes) (version : Int32) : ZooOp := { type := ZOO_CHECK_OP, path, version }

end ZooOp

/-- A string made of a `const char *`, which ends at its first null byte. -/
def cString (bytes : Bytes) : Bytes := bytes.takeWhile (· ≠ 0)

/-- The buffer of an `oarchive`, and the code of the last step. -/
structure Writing where
  buff : Bytes := []
  r : Int32 := 0
deriving DecidableEq, Repr

namespace Writing

/-- `r = r < 0 ? r : oa.…`, for the methods of `oarchive`, which append and return 0. -/
def put (record : Bytes) (s : Writing) : Writing := if s.r < 0 then s else ⟨s.buff ++ record, 0⟩

/-- `r = path_init(…)` and then the request with that path. -/
def putRequest (chroot path : Bytes) (request : Bytes → Bytes) (s : Writing) : Writing :=
  put (request (pathInit chroot path).1) { s with r := (pathInit chroot path).2 }

end Writing

/-- The header of an operation. -/
def multiHeader (type done err : Int32) : Bytes := Proto.MultiHeader.serialize (type, done, err, ())

/-- One round of the loop of `multi`. -/
def multiOp (chroot : Bytes) (s : Writing) (op : ZooOp) : Writing :=
  let s := s.put (multiHeader op.type 0 (-1))
  if op.type = ZOO_CREATE_CONTAINER_OP ∨ op.type = ZOO_CREATE_OP then
    s.putRequest chroot op.path fun path => Proto.CreateRequest.serialize (path, cString op.data, op.acl, op.flags, ())
  else if op.type = ZOO_DELETE_OP then
    s.putRequest chroot op.path fun path => Proto.DeleteRequest.serialize (path, op.version, ())
  else if op.type = ZOO_SETDATA_OP then
    s.putRequest chroot op.path fun path => Proto.SetDataRequest.serialize (path, cString op.data, op.version, ())
  else if op.type = ZOO_CHECK_OP then
    s.putRequest chroot op.path fun path => Proto.CheckVersionRequest.serialize (path, (0 : Int32), ())
  else s

/-- `send`, on a connection that answers each buffer with a code: the buffers that it hands over, and its own code. -/
def send (connection : Bytes → Int32) (request : Bytes) : List Bytes × Int32 :=
  if request = [] then ([], 0)
  else
    let hlen := serializeInt (Int32.ofNat request.length)
    if connection hlen = INVALID then ([hlen], INVALID) else ([hlen, request], connection request)

/-- `multi`: the buffers that it hands over, and its code. -/
def multi (connection : Bytes → Int32) (xid : Int32) (chroot : Bytes) (ops : List ZooOp) : List Bytes × Int32 :=
  let s := Writing.put (Proto.RequestHeader.serialize (xid, ZOO_MULTI_OP, ())) {}
  let s := ops.foldl (multiOp chroot) s
  let s := s.put (multiHeader (-1) 1 (-1))
  let (sent, r) := send connection s.buff
  (sent, if r = INVALID then INVALID else 0)

end Coev.Zookeeper
