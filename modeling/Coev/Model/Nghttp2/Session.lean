import Coev.Model.Core.Async
import Mathlib.Data.Int.Notation
import Std.Data.ExtTreeMap

/-! # The client side of an HTTP/2 session

A query submits its request, sends it, and waits in `m_end_trigger` until its stream has ended. What arrives is
read by another coroutine, which hands it to `nghttp2`; `nghttp2` calls back. What `nghttp2` knows of a stream
is part of the state, to say which callbacks it makes. The destructor is left out.
-/

namespace Coev.Nghttp2

abbrev Bytes := List UInt8

/-- `g_status`. -/
def statusName : Bytes := [58, 115, 116, 97, 116, 117, 115]

/-- `strncmp(name, g_status, namelen) == 0`; a comparison ends behind the zero byte of `g_status`. -/
def startsStatus (name : Bytes) : Bool := name.isPrefixOf statusName || (statusName ++ [0]).isPrefixOf name

/-- A field that `nghttp2` lets through: the status, or one that is no pseudo-header. -/
def ValidName (name : Bytes) : Prop := name = statusName ∨ name ≠ [] ∧ name.head? ≠ some 58

structure Response where
  headers : Std.ExtTreeMap Bytes Bytes := ∅
  status : Bytes := []
  body : Bytes := []

namespace Response

/-- `add_header`; `emplace` keeps the value that is there. -/
def addHeader (r : Response) (name value : Bytes) : Response :=
  if startsStatus name then { r with status := value } else { r with headers := r.headers.insertIfNew name value }

def append (r : Response) (body : Bytes) : Response := { r with body := r.body ++ body }

end Response

/-- What `nghttp2` knows of a stream: the header fields and the data received, whether `END_STREAM` was received
while the stream was open, and whether it was closed before that. -/
structure Stream where
  begun : Bool := false
  headers : List (Bytes × Bytes) := []
  body : Bytes := []
  ended : Bool := false
  aborted : Bool := false

namespace Stream

def isOpen (st : Stream) : Bool := !st.ended && !st.aborted

/-- The last status. -/
def status (st : Stream) : Bytes := ((st.headers.filter fun field => field.1 = statusName).getLast?.map Prod.snd).getD []

/-- The first field of a name. -/
def header (st : Stream) (key : Bytes) : Option Bytes :=
  (st.headers.find? fun field => field.1 = key && field.1 ≠ statusName).map Prod.snd

def close (st : Stream) : Stream := { st with aborted := !st.ended }

end Stream

/-- Where a query is: in `__send`, in `m_end_trigger`, in the list of the next loop, or over. -/
inductive Query where
  | sending
  | waiting
  | woken
  /-- `__send` failed, and the query with it. -/
  | refused
  | returned (code : Int64) (res : Response)

structure Session where
  /-- `__is_processing()`. -/
  processing : Bool := true
  responses : Std.ExtTreeMap Int32 Response := ∅
  queries : Int32 → Option Query := fun _ => none
  streams : Int32 → Option Stream := fun _ => none

namespace Session

variable (s : Session) (id : Int32)

/-- A change of what `get_response` returns. -/
def changeResponse (f : Response → Response) : Session :=
  { s with responses := s.responses.insert id (f (s.responses[id]?.getD {})) }

def removeResponse : Session := { s with responses := s.responses.erase id }

def setQuery (q : Query) : Session := { s with queries := Function.update s.queries id (some q) }

def changeStream (f : Stream → Stream) : Session :=
  { s with streams := Function.update s.streams id ((s.streams id).map f) }

/-- `__processing` of a client. -/
def wake : Session :=
  if id = 0 then s
  else
    match s.queries id with
    | some .waiting => s.setQuery id .woken
    | _ => s

/-- `__wait_for_stream_end` behind its wait. -/
def finish : Session :=
  match s.responses[id]? with
  | some res => (s.removeResponse id).setQuery id (.returned 0 res)
  | none => s.setQuery id (.returned invalid {})

/-- What happens to a session. The callbacks have the names of the frames and of what they carry. -/
inductive Event where
  | submit (id : Int32)
  | sent (id : Int32)
  | sendFails (id : Int32)
  | beginHeaders (id : Int32)
  | header (id : Int32) (name value : Bytes)
  /-- A header field of a `PUSH_PROMISE` on the stream. -/
  | promise (id : Int32) (name value : Bytes)
  | data (id : Int32) (body : Bytes)
  /-- A `HEADERS` or `DATA` frame with `END_STREAM`. -/
  | endStream (id : Int32)
  | rstStream (id : Int32)
  /-- A `GOAWAY` frame; the streams that it leaves out are closed next. -/
  | goaway
  | streamClose (id : Int32)
  /-- The coroutine that reads is over: the connection was closed, or is broken. -/
  | terminate
  | resume (id : Int32)

/-- The code that runs on an event, and the record of `nghttp2`. -/
def apply (s : Session) : Event → Session
  | .submit id => { s.setQuery id .sending with streams := Function.update s.streams id (some {}) }
  | .sent id => s.setQuery id .waiting
  | .sendFails id => s.setQuery id .refused
  | .beginHeaders id => (s.changeResponse id fun res => res).changeStream id fun st => { st with begun := true }
  | .header id name value =>
    (s.changeResponse id fun res => res.addHeader name value).changeStream id fun st =>
      { st with headers := st.headers ++ [(name, value)] }
  | .promise id name value => s.changeResponse id fun res => res.addHeader name value
  | .data id body =>
    (s.changeResponse id fun res => res.append body).changeStream id fun st => { st with body := st.body ++ body }
  | .endStream id => (s.wake id).changeStream id fun st => { st with ended := true }
  | .rstStream id => ((s.removeResponse id).wake id).changeStream id .close
  | .goaway => (s.removeResponse 0).wake 0
  | .streamClose id => s.changeStream id .close
  | .terminate => { s with processing := false }
  | .resume id => s.finish id

/-- The stream is known to `nghttp2` and open, and the session reads. -/
def Receives : Prop := s.processing ∧ ∃ st, s.streams id = some st ∧ st.isOpen

/-- When an event can be: what the coroutines do next, and which callbacks `nghttp2` makes. -/
def Possible (s : Session) : Event → Prop
  | .submit id => s.processing ∧ id ≠ 0 ∧ s.streams id = none
  | .sent id | .sendFails id => ∃ st, s.streams id = some st ∧ s.queries id = some .sending
  | .beginHeaders id => s.Receives id
  | .header id name _ => s.Receives id ∧ ValidName name ∧ ∀ st ∈ s.streams id, st.begun
  | .promise id name _ => s.Receives id ∧ ValidName name
  | .data id _ | .endStream id => s.Receives id ∧ ∀ st ∈ s.streams id, st.begun
  | .rstStream id | .streamClose id => s.processing ∧ (s.streams id).isSome
  | .goaway | .terminate => s.processing
  | .resume id => s.queries id = some .woken

def Step (s : Session) (e : Event) (t : Session) : Prop := s.Possible e ∧ t = s.apply e

end Session

end Coev.Nghttp2

/-! # Sending the frames of an HTTP/2 session
`nghttp2` calls back with what is left of the frame in front, drops what the answer counts, and goes on until nothing is
left or an answer is negative. A coroutine that sends stays in `nghttp2_session_send` as long as it does, and meanwhile
nothing else runs. What `nghttp2` hands out behind a callback that failed is not documented, so a run ends there.
-/

namespace Coev.Nghttp2

def INVALID : ℤ := -1

def NGHTTP2_ERR_CALLBACK_FAILURE : ℤ := -902

def INT_MAX : ℕ := 2147483647

/-- What a call of `::send` or `SSL_write` answers; only the latter waits for input. -/
inductive Outcome where
  | sent (count : ℕ)
  | wantWrite
  | wantRead
  | failed
deriving DecidableEq, Repr

/-- Who calls `__send`: the coroutine `__processing_write`, or a query, a reply or the settings. -/
inductive Sender where
  | writer
  | caller (id : ℕ)
deriving DecidableEq, Repr

/-- Where a sender is suspended: by `__w_waiter` in `__send` or behind it in `__processing_write`, or by `m_write_waiter`. -/
inductive Place where
  | toSend
  | toWrite
  | forFrames
deriving DecidableEq, Repr

structure Sending where
  /-- `__is_ssl`. -/
  isSsl : Bool
  /-- `__is_processing`. -/
  processing : Bool := true
  m_want_read : Bool := false
  m_want_write : Bool := false
  /-- What `nghttp2` has to send: what is left of the frame in front, and the frames behind it. -/
  pending : List Bytes := []
  /-- A callback has failed. -/
  broken : Bool := false
  /-- The sender that is in `__ssl_write`, and its `send_offset`. -/
  calling : Option (Sender × ℕ) := none
  waiting : List (Sender × Place) := []
  /-- `isInprocess`: what `errno` says, which `__w_waiter` asks before it waits. -/
  inProcess : Bool := true
  /-- What `__send` returned to its callers. -/
  returned : List (ℕ × ℤ) := []
  /-- What the socket took. -/
  written : Bytes := []
  /-- The frames that were ever submitted. -/
  submitted : List Bytes := []
deriving DecidableEq, Repr

namespace Sending

/-- `nghttp2_session_want_write`. -/
def wantWrite (s : Sending) : Bool := !s.pending.isEmpty

/-- `__send` returns 0, when nothing is left to send, or an error. The loop of `__processing_write` waits for the
socket, or at once for frames, or it closes the session and ends. -/
def finish (s : Sending) (r : ℤ) : Sender → Sending
  | .caller id => { s with calling := none, returned := s.returned ++ [(id, r)] }
  | .writer =>
    if r = 0 then
      { s with calling := none, waiting := s.waiting ++ [(.writer, if s.inProcess then .toWrite else .forFrames)] }
    else { s with calling := none, processing := false }

/-- `__send_callback` for the frame in front, up to the first call of the socket. -/
def callback (s : Sending) (frame : Bytes) (who : Sender) : Sending :=
  if INT_MAX < frame.length ∨ s.processing = false ∨ frame = [] then
    { s with broken := true }.finish NGHTTP2_ERR_CALLBACK_FAILURE who
  else { s with calling := some (who, 0) }

/-- The loop of `__send`. -/
def sendLoop (s : Sending) (who : Sender) : Sending :=
  match s.pending with
  | [] => s.finish 0 who
  | frame :: _ => s.callback frame who

/-- `nghttp2_session_send` behind a callback: it calls back again, or `__send` goes on with its answer 0. -/
def sessionSend (s : Sending) (who : Sender) : Sending :=
  match s.pending with
  | frame :: _ => s.callback frame who
  | [] =>
    -- the reader that `m_want_read` resumes here acts by events of its own
    if s.m_want_write && s.inProcess then { s with calling := none, waiting := s.waiting ++ [(who, .toSend)] }
    else s.sendLoop who

/-- `__send`. -/
def send (s : Sending) (who : Sender) : Sending :=
  if s.processing then s.sendLoop who else s.finish INVALID who

/-- The loop of `__processing_write`. -/
def processingWrite (s : Sending) : Sending :=
  if s.processing = false then s
  else if s.wantWrite then s.send .writer
  else { s with waiting := s.waiting ++ [(.writer, .forFrames)] }

/-- The flags that `__ssl_write` clears before it calls `SSL_write`. -/
def cleared (s : Sending) : Sending := if s.isSsl then { s with m_want_read := false, m_want_write := false } else s

/-- `__ssl_write` behind a call of the socket. -/
def socket (s : Sending) (outcome : Outcome) (who : Sender) (send_offset : ℕ) (frame : Bytes) (rest : List Bytes) :
    Option Sending :=
  match outcome with
  | .sent count =>
    if count = 0 ∨ frame.length - send_offset < count then none
    else
      let s := { s.cleared with written := s.written ++ (frame.drop send_offset).take count }
      if send_offset + count < frame.length then some { s with calling := some (who, send_offset + count) }
      else some ({ s with pending := rest }.sessionSend who)
  | .wantWrite => some ({ s.cleared with m_want_write := true, pending := frame.drop send_offset :: rest }.sessionSend who)
  | .wantRead =>
    if s.isSsl then some ({ s.cleared with m_want_read := true, pending := frame.drop send_offset :: rest }.sessionSend who)
    else none
  | .failed =>
    some ({ s.cleared with broken := true, pending := frame.drop send_offset :: rest }.finish
      NGHTTP2_ERR_CALLBACK_FAILURE who)

inductive Event where
  /-- `nghttp2` has one more frame to send. -/
  | submit (frame : Bytes)
  /-- `connect` starts `__processing_write`. -/
  | start
  /-- A query, a reply or the settings call `__send`. -/
  | send (id : ℕ)
  /-- The socket answers, and `errno` is as it leaves it. -/
  | socket (outcome : Outcome) (inProcess : Bool)
  /-- Other code of the thread leaves another `errno`. -/
  | errno (inProcess : Bool)
  /-- The event loop resumes a sender: the socket takes more, there are frames, or the session was closed. -/
  | resume (who : Sender) (place : Place) (valid : Bool)
  | close
deriving DecidableEq, Repr

/-- A sender goes on behind its wait. -/
def resumed (s : Sending) (valid : Bool) : Sender × Place → Sending
  | (who, .toSend) => if valid then s.sendLoop who else s.finish INVALID who
  | (_, .toWrite) | (_, .forFrames) => if valid then s.processingWrite else s

/-- While a sender calls the socket, only the socket answers. -/
def react (s : Sending) (e : Event) : Option Sending :=
  match s.calling, e with
  | some (who, send_offset), .socket outcome inProcess =>
    match s.pending with
    | [] => none
    | frame :: rest => { s with inProcess }.socket outcome who send_offset frame rest
  | none, .errno inProcess => some { s with inProcess }
  | none, .submit frame =>
    if frame = [] then none
    else some { s with pending := s.pending ++ [frame], submitted := s.submitted ++ [frame] }
  | none, .start => some s.processingWrite
  | none, .send id => some (s.send (.caller id))
  | none, .resume who place valid =>
    if (who, place) ∈ s.waiting then
      some ({ s with waiting := s.waiting.erase (who, place) }.resumed valid (who, place))
    else none
  | none, .close => some { s with processing := false }
  | _, _ => none

/-- What may happen until a callback fails. -/
def step (s : Sending) (e : Event) : Option Sending := if s.broken then none else s.react e

end Sending

end Coev.Nghttp2
