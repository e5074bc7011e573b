import Coev.Model.Core.Async
import Coev.Model.Zookeeper.Proto
import Coev.ToMathlib.Chunks

/-! # Reading frames

A frame is a payload behind its length. `ZooCli::recv` reads the length with one call of the transport and the payload with
as many as it takes; its readers take what it returns for the length.
-/

namespace Coev.Zookeeper

/-- What the peer sends for a payload. -/
def frame (payload : Bytes) : Bytes := serializeInt (Int32.ofNat payload.length) ++ payload

/-- The connection: how much of the stream was received, and what is left of it. -/
structure Connection where
  pos : ℕ := 0
  stream : Bytes
deriving DecidableEq, Repr

namespace Connection

variable (cut : ℕ → Bool)

/-- `base::recv` of at most `n` bytes; without a byte it returns `INVALID`. -/
def recv (n : ℕ) (c : Connection) : Option (Bytes × Connection) :=
  let chunk := Chunks.next cut c.pos n c.stream
  if chunk = [] then none else some (chunk, ⟨c.pos + chunk.length, c.stream.drop chunk.length⟩)

end Connection

/-- What `ZooCli::recv` comes to: `INVALID`, its result with the response, or the exception of `resize`. -/
inductive Received where
  | invalid
  | response (r : ℕ) (response : Bytes)
  | lengthError
deriving DecidableEq, Repr

/-- The outcome of `ZooCli::recv`, the size that the buffer was to get, and the connection. -/
structure Reading where
  received : Received
  resized : Option Int32 := none
  connection : Connection
deriving DecidableEq, Repr

namespace ZooCli

variable (cut : ℕ → Bool)

/-- The loop of `recv`: `left` bytes are missing, and the last call of the transport returned `r`. As each call returns a
byte at least, there are not more of them than bytes that are missing. -/
def recvPayload (hlen : Int32) : ℕ → ℕ → ℕ → Bytes → Connection → Reading
  | _, 0, r, response, c => ⟨.response r response, some hlen, c⟩
  | 0, _ + 1, _, _, c => ⟨.invalid, some hlen, c⟩
  | fuel + 1, left + 1, _, response, c =>
    match c.recv cut (left + 1) with
    | none => ⟨.invalid, some hlen, c⟩
    | some (chunk, c) => recvPayload hlen fuel (left + 1 - chunk.length) chunk.length (response ++ chunk) c

def recv (c : Connection) : Reading :=
  match c.recv cut 4 with
  | none => ⟨.invalid, none, c⟩
  | some (len, c) =>
    if len.length < 4 then ⟨.invalid, none, c⟩
    else
      let hlen := Int32.ofNat (ntohl (load len))
      if hlen < 0 then ⟨.lengthError, some hlen, c⟩
      else recvPayload cut hlen hlen.toInt.toNat hlen.toInt.toNat 4 [] c

/-- What `recv` returns when it is called again and again. -/
def recvs : ℕ → Connection → List Received
  | 0, _ => []
  | n + 1, c =>
    let reading := recv cut c
    match reading.received with
    | .response r response => .response r response :: recvs n reading.connection
    | failed => [failed]

/-- How a reader takes a response: what its archive views, or the assertion that fails. -/
inductive Viewed where
  | assertion
  /-- The archive would view more than there is. -/
  | overread
  | view (view : Bytes)
deriving DecidableEq, Repr

/-- The archive of `process`, whose assertion compares the result with the size. -/
def processView (r : ℕ) (response : Bytes) : Viewed := if r = response.length then .view response else .assertion

/-- The fields that `prime_response` reads; it does not look at their codes. -/
def primeFields : Decode Unit := do
  let quietly {α : Type} (read : Decode α) : Decode Unit := fun s =>
    match read s with
    | .ok _ s => .ok () s
    | .error _ s => .ok () s
  quietly (Decode.take deserializeInt)
  quietly (Decode.take deserializeInt)
  quietly (Decode.take deserializeLong)
  quietly Decode.string
  quietly (Decode.take deserializeBool)

/-- What `prime_response` leaves of a view. -/
def primeLeft (view : Bytes) : Bytes :=
  match primeFields { view } with
  | .ok _ s => s.view
  | .error _ s => s.view

/-- The archive of `prime_response`, with the assertion behind it. -/
def primeView (r : ℕ) (msg : Bytes) : Viewed :=
  if msg.length < r then .overread
  else if primeLeft (msg.take r) ≠ [] then .assertion
  else .view (msg.take r)

end ZooCli

end Coev.Zookeeper

/-! # The calls of a ZooKeeper client

A call writes its request and then waits in `completion` until the reader has put a reply into the list; it takes the reply
in front. Requests and replies are whole frames, and a call goes from its last write into its wait without a break. A call is
named by its place among all calls.
-/

namespace Coev.Zookeeper

def WATCHER_EVENT_XID : Int32 := -1
def PING_XID : Int32 := -2
def SET_WATCHES_XID : Int32 := -8

/-- The calls that write a request. -/
inductive Operation where
  | exists_
  | get
  | getConfig
  | reconfig
  | set
  | getChildren
  | getChildren2
  | async_
  | getAcl
  | setAcl
  | multi
  | delete_
  | create2Ttl
  | setWatches
  | close
deriving DecidableEq, Repr

/-- `get_xid`, which leaves in its counter what it returns; it starts from the time. -/
def getXid (counter time : Int32) : Int32 := (if counter = -1 then time else counter) + 1

/-- Whether the call goes on to `completion`. -/
def Operation.completes : Operation → Bool
  | .multi => false
  | _ => true

/-- A request in flight: the call that wrote it, or nobody for a ping. -/
structure Request where
  call : Option ℕ
  xid : Int32
deriving DecidableEq, Repr

/-- What the reader reads: a reply to a request, or a notification. -/
structure Reply where
  request : Option ℕ
  xid : Int32
  err : Int32
  body : List UInt8
deriving DecidableEq, Repr

/-- A call that is over, with the reply that it took. -/
structure Completed where
  call : ℕ
  reply : Option Reply
  code : Int64
deriving DecidableEq, Repr

/-- `ZooCli`, the calls that were made of it with their xids, and the requests that the server has yet to answer.
`completed`, `received` and `dropped` record which calls ended, which replies went into the list and which did not. -/
structure ZooCli where
  xid : Int32 := -1
  calls : List Int32 := []
  pending : List Request := []
  completionList : List Reply := []
  completion : Async := {}
  watcher : Async := {}
  completed : List Completed := []
  received : List Reply := []
  dropped : List Reply := []
deriving DecidableEq, Repr

namespace ZooCli

/-- A call up to its wait. -/
def request (s : ZooCli) (op : Operation) (time : Int32) (tid : ℕ) (reserved : Int64) : ZooCli :=
  let c := s.calls.length
  let counter := if op = .setWatches then s.xid else getXid s.xid time
  let xid := if op = .setWatches then SET_WATCHES_XID else counter
  let s : ZooCli := { s with xid := counter, calls := s.calls ++ [xid], pending := s.pending ++ [⟨some c, xid⟩] }
  if op.completes then { s with completion := s.completion.coAwait c tid reserved }
  else { s with completed := s.completed ++ [⟨c, none, 0⟩] }

def sendPing (s : ZooCli) : ZooCli := { s with pending := s.pending ++ [⟨none, PING_XID⟩] }

/-- One round of `process`. -/
def process (s : ZooCli) (response : Reply) : ZooCli :=
  if response.xid = PING_XID then { s with dropped := s.dropped ++ [response] }
  else if response.xid = SET_WATCHES_XID then { s with dropped := s.dropped ++ [response] }
  else if response.xid = WATCHER_EVENT_XID then
    { s with dropped := s.dropped ++ [response], watcher := s.watcher.resumeNextLoop }
  else
    { s with
      completionList := s.completionList ++ [response]
      received := s.received ++ [response]
      completion := s.completion.resumeNextLoop }

/-- What `completion` returns. -/
def completionCode : Option Reply → Int64
  | none => invalid
  | some r => if r.err ≠ 0 then invalid else 0

/-- `completion` of a call, behind its wait. -/
def complete (s : ZooCli) (c : ℕ) : ZooCli :=
  { s with
    completionList := s.completionList.tail
    completed := s.completed ++ [⟨c, s.completionList.head?, completionCode s.completionList.head?⟩] }

/-- The event loop resumes the call in front. -/
def localResume (s : ZooCli) : ZooCli :=
  match s.completion.loop with
  | [] => s
  | k :: _ =>
    let s := { s with completion := s.completion.localResume }
    match s.completion.progress k with
    | some (.returned _) => s.complete (s.completion.caller k)
    | _ => s

/-- What is done next. The server answers the requests in their order. -/
inductive Call where
  | request (op : Operation) (time : Int32) (tid : ℕ) (reserved : Int64)
  | ping
  | reply (err : Int32) (body : List UInt8)
  | notify (err : Int32) (body : List UInt8)
  | waitWatches (caller tid : ℕ) (reserved : Int64)
  | resumeCall
  | resumeWatcher
  /-- `get_xid` for a call that is refused before it writes, or for another client. -/
  | skipXid (time : Int32)
deriving DecidableEq, Repr

/-- One call. -/
def call (s : ZooCli) : Call → Option ZooCli
  | .request op time tid reserved => some (s.request op time tid reserved)
  | .ping => some s.sendPing
  | .reply err body =>
    match s.pending with
    | [] => none
    | q :: pending => some ({ s with pending }.process ⟨q.call, q.xid, err, body⟩)
  | .notify err body => some (s.process ⟨none, WATCHER_EVENT_XID, err, body⟩)
  | .waitWatches caller tid reserved => some { s with watcher := s.watcher.coAwait caller tid reserved }
  | .resumeCall => some s.localResume
  | .resumeWatcher => some { s with watcher := s.watcher.localResume }
  | .skipXid time => some { s with xid := getXid s.xid time }

/-- The calls, in any order. -/
def Step (s : ZooCli) (c : Call) (s' : ZooCli) : Prop := s.call c = some s'

end ZooCli

end Coev.Zookeeper
