import Coev.Model.Core.Task
import Mathlib.Data.Int.Notation
import Std.Data.ExtTreeMap

/-! # Requests of an HTTP session

`http_parser` calls back with fragments of the url, the header fields and the body as they stand in the chunk it is
fed with. Each call of `get_request` has a `co_task` with coroutines that wait for the url, the headers, the body, the
status, the end of the message and the end of its time; it waits for the task until the id of one of the last two comes
back. It starts one more loop that receives into a buffer of its own. What `http_parser` is in the middle of, and the
fragments it has handed out so far, are part of the state, to say which callbacks it makes and what a request is.
-/

namespace Coev.Http

abbrev Bytes := List UInt8

def INVALID : ℤ := -1

structure Request where
  url : Bytes := []
  body : Bytes := []
  status : Bytes := []
  headers : Std.ExtTreeMap Bytes Bytes := ∅

/-- A `string_view` into the buffer of a loop; the empty one is that of `clear`. -/
structure View where
  loop : ℕ := 0
  offset : ℕ := 0
  length : ℕ := 0
deriving DecidableEq, Repr

inductive Callback where
  | on_message_begin
  | on_url (at_ : View)
  | on_status (at_ : View)
  | on_header_field (at_ : View)
  | on_header_value (at_ : View)
  | on_headers_complete
  | on_body (at_ : View)
  | on_message_complete
deriving DecidableEq, Repr

/-- What `http_parser` called back for last; the trailer is what it calls header fields behind the body. -/
inductive Phase where
  | idle
  | begun
  | url
  | field
  | value
  | content
  | body
  | trailerField
  | trailerValue
deriving DecidableEq, Repr

/-- The callbacks that a parser of requests makes next, each element in one fragment or more. -/
def Phase.next : Phase → Callback → Option Phase
  | .idle, .on_message_begin => some .begun
  | .begun, .on_url _ | .url, .on_url _ => some .url
  | .url, .on_header_field _ | .field, .on_header_field _ | .value, .on_header_field _ => some .field
  | .field, .on_header_value _ | .value, .on_header_value _ => some .value
  | .url, .on_headers_complete | .value, .on_headers_complete => some .content
  | .content, .on_body _ | .body, .on_body _ => some .body
  | .content, .on_header_field _ | .body, .on_header_field _ | .trailerField, .on_header_field _
  | .trailerValue, .on_header_field _ => some .trailerField
  | .trailerField, .on_header_value _ | .trailerValue, .on_header_value _ => some .trailerValue
  | .content, .on_message_complete | .body, .on_message_complete | .trailerValue, .on_message_complete => some .idle
  | _, _ => none

/-- The fragments of a message so far, put together. -/
structure Message where
  url : Bytes := []
  /-- A name that has no value yet. -/
  name : Option Bytes := none
  fields : List (Bytes × Bytes) := []
  body : Bytes := []
deriving DecidableEq, Repr

/-- One more fragment of the last value. -/
def extendLast (fields : List (Bytes × Bytes)) (fragment : Bytes) : List (Bytes × Bytes) :=
  fields.modify (fields.length - 1) fun field => (field.1, field.2 ++ fragment)

/-- The coroutines that `get_request` adds to its task, in this order. -/
inductive Part where
  | finished
  | sleep_for
  | get_url
  | get_headers
  | get_body
  | get_status
deriving DecidableEq, Repr

/-- What the task names a coroutine by. -/
def Part.promise : Part → ℕ
  | .finished => 0
  | .sleep_for => 1
  | .get_url => 2
  | .get_headers => 3
  | .get_body => 4
  | .get_status => 5

/-- A call of `get_request`: the request of its caller, its task with the two ids that it knows, how many of its waits
it has gone on from, what it returned, and the message whose end it was told. `reserved` is what the event of each wait
finds in its memory. -/
structure Call where
  request : Request
  reserved : ℕ → Int64
  _task : Task
  _finished : Int32
  _timeout : Int32
  rounds : ℕ := 0
  returned : Option ℤ := none
  message : Option Message := none

namespace Call

/-- `co_await _task.wait()`, up to where it suspends or returns. -/
def wait (call : Call) : Call :=
  { call with _task := call._task.wait .one 0 0 (call.reserved call._task.waits.length) }

/-- `get_request`, up to its first wait. -/
def get_request (request : Request) (reserved : ℕ → Int64) : Option Call := do
  let (_task, _finished) ← ({} : Task).load Part.finished.promise
  let (_task, _timeout) ← _task.load Part.sleep_for.promise
  let (_task, _) ← _task.load Part.get_url.promise
  let (_task, _) ← _task.load Part.get_headers.promise
  let (_task, _) ← _task.load Part.get_body.promise
  let (_task, _) ← _task.load Part.get_status.promise
  return { request, reserved, _task, _finished, _timeout : Call }.wait

/-- One round of the loop, where the wait of this round has returned. -/
def goOn (call : Call) : Call :=
  match call.returned, call._task.returned[call.rounds]? with
  | none, some r =>
    if r.value = call._timeout.toInt64 then { call with returned := some INVALID }
    else if r.value = call._finished.toInt64 then { call with returned := some 0 }
    else { call with rounds := call.rounds + 1 }.wait
  | _, _ => call

/-- A coroutine of the call ends, and the loop goes on where that ends its wait. -/
def unload (call : Call) (part : Part) : Call := { call with _task := call._task.unload part.promise }.goOn

/-- The coroutine has not ended. -/
def holds (call : Call) (part : Part) : Bool := (call._task.promises.map Prod.fst).contains part.promise

end Call

/-- A coroutine `parse`, its buffer, and whether it still receives. -/
structure Loop where
  buffer : Bytes := []
  running : Bool := true
deriving DecidableEq, Repr

structure Session where
  m_key : View := {}
  m_value : View := {}
  m_url_waiter : List ℕ := []
  m_body_waiter : List ℕ := []
  m_header_waiter : List ℕ := []
  m_status_waiter : List ℕ := []
  m_finish_waiter : List ℕ := []
  /-- The calls whose `finished` the next loop resumes. -/
  nextLoop : List ℕ := []
  calls : List Call := []
  loops : List Loop := []
  phase : Phase := .idle
  message : Message := {}

namespace Session

/-- The bytes that a view shows at present. -/
def read (s : Session) (view : View) : Bytes :=
  (((s.loops[view.loop]?.map Loop.buffer).getD []).drop view.offset).take view.length

def clear (s : Session) : Session := { s with m_key := {}, m_value := {} }

def modifyRequest (s : Session) (id : ℕ) (f : Request → Request) : Session :=
  { s with calls := s.calls.modify id fun call => { call with request := f call.request } }

/-- A call goes on; where it returns, its coroutines are destroyed with its task. -/
def proceed (s : Session) (id : ℕ) (f : Call → Call) : Session :=
  let s := { s with calls := s.calls.modify id f }
  if s.calls[id]?.any fun call => call.returned.isSome then
    { s with
      m_url_waiter := s.m_url_waiter.erase id
      m_body_waiter := s.m_body_waiter.erase id
      m_header_waiter := s.m_header_waiter.erase id
      m_status_waiter := s.m_status_waiter.erase id
      m_finish_waiter := s.m_finish_waiter.erase id
      nextLoop := s.nextLoop.erase id
      calls := s.calls.modify id fun call => { call with _task := call._task.destroyAll } }
  else s

/-- A coroutine of a call ends. -/
def unload (s : Session) (id : ℕ) (part : Part) : Session := s.proceed id fun call => call.unload part

/-- `get_url` goes on. -/
def resumeUrl (s : Session) : Session :=
  match s.m_url_waiter with
  | [] => s
  | id :: rest =>
    ({ s with m_url_waiter := rest }.modifyRequest id fun request => { request with url := s.read s.m_value }).unload id
      .get_url

/-- `get_headers` goes on, and waits for the next field. -/
def resumeHeaders (s : Session) : Session :=
  match s.m_header_waiter with
  | [] => s
  | id :: rest =>
    if s.m_key.length = 0 ∧ s.m_value.length = 0 then { s with m_header_waiter := rest }.unload id .get_headers
    else { s with m_header_waiter := rest ++ [id] }.modifyRequest id fun request =>
      { request with headers := request.headers.insertIfNew (s.read s.m_key) (s.read s.m_value) }

/-- `get_body` goes on. -/
def resumeBody (s : Session) : Session :=
  match s.m_body_waiter with
  | [] => s
  | id :: rest =>
    ({ s with m_body_waiter := rest }.modifyRequest id fun request => { request with body := s.read s.m_value }).unload
      id .get_body

/-- `get_status` goes on. -/
def resumeStatus (s : Session) : Session :=
  match s.m_status_waiter with
  | [] => s
  | id :: rest =>
    ({ s with m_status_waiter := rest }.modifyRequest id fun request =>
      { request with status := s.read s.m_value }).unload id .get_status

/-- `m_finish_waiter.resume_next_loop()`; the call is told the end of this message. -/
def finishNextLoop (s : Session) : Session :=
  match s.m_finish_waiter with
  | [] => s
  | id :: rest =>
    { s with
      m_finish_waiter := rest
      nextLoop := s.nextLoop ++ [id]
      calls := s.calls.modify id fun call => { call with message := some s.message } }

def callback (s : Session) : Callback → Session
  | .on_message_begin => s.clear
  | .on_url at_ => { s with m_value := at_ }.resumeUrl
  | .on_status at_ => { s with m_value := at_ }.resumeStatus
  | .on_header_field at_ => { s.clear with m_key := at_ }
  | .on_header_value at_ => { s with m_value := at_ }.resumeHeaders
  | .on_headers_complete => s.clear.resumeHeaders
  | .on_body at_ => { s with m_value := at_ }.resumeBody
  | .on_message_complete => s.finishNextLoop.clear

/-- What a callback adds to the message. -/
def handOut (s : Session) : Callback → Message
  | .on_message_begin => {}
  | .on_url at_ => { s.message with url := s.message.url ++ s.read at_ }
  | .on_header_field at_ =>
    if s.phase = .url ∨ s.phase = .field ∨ s.phase = .value then
      { s.message with name := some (s.message.name.getD [] ++ s.read at_) }
    else s.message
  | .on_header_value at_ =>
    if s.phase = .field then
      { s.message with name := none, fields := s.message.fields ++ [(s.message.name.getD [], s.read at_)] }
    else if s.phase = .value then { s.message with fields := extendLast s.message.fields (s.read at_) }
    else s.message
  | .on_body at_ => { s.message with body := s.message.body ++ s.read at_ }
  | .on_status _ | .on_headers_complete | .on_message_complete => s.message

/-- A fragment lies in the chunk, and only that of a value may be empty. -/
def fits (loop size : ℕ) : Callback → Bool
  | .on_url at_ | .on_header_field at_ | .on_body at_ | .on_status at_ =>
    at_.loop = loop && 0 < at_.length && at_.offset + at_.length ≤ size
  | .on_header_value at_ => at_.loop = loop && at_.offset + at_.length ≤ size
  | .on_message_begin | .on_headers_complete | .on_message_complete => true

/-- `http_parser` calls back. -/
def take (s : Session) (c : Callback) : Option Session :=
  (s.phase.next c).map fun phase => { s.callback c with phase, message := s.handOut c }

/-- The callbacks of one `http_parser_execute`. -/
def parse (s : Session) : List Callback → Option Session
  | [] => some s
  | c :: callbacks => (s.take c).bind fun s => s.parse callbacks

/-- A loop has received a chunk; what is behind it in the buffer is left as it was. -/
def received (s : Session) (loop : ℕ) (chunk : Bytes) : Session :=
  { s with loops := s.loops.modify loop fun l => { l with buffer := chunk ++ l.buffer.drop chunk.length } }

inductive Event where
  /-- `get_request` starts its coroutines and one more loop. -/
  | get_request (request : Request) (reserved : ℕ → Int64)
  /-- A loop receives a chunk and feeds the parser with it. -/
  | receive (loop : ℕ) (chunk : Bytes) (callbacks : List Callback)
  /-- A loop receives no more. -/
  | stop (loop : ℕ)
  /-- The loop of the thread resumes `finished`. -/
  | next (id : ℕ)
  /-- The time of a call is over, and `sleep_for` ends. -/
  | timeout (id : ℕ)
  /-- The loop of `get_request` goes round once more, behind a wait that did not suspend. -/
  | again (id : ℕ)

/-- What may happen. -/
def step (s : Session) : Event → Option Session
  | .get_request request reserved =>
    (Call.get_request request reserved).map fun call =>
      let id := s.calls.length
      { s with
        m_url_waiter := s.m_url_waiter ++ [id]
        m_body_waiter := s.m_body_waiter ++ [id]
        m_header_waiter := s.m_header_waiter ++ [id]
        m_status_waiter := s.m_status_waiter ++ [id]
        m_finish_waiter := s.m_finish_waiter ++ [id]
        calls := s.calls ++ [call]
        loops := s.loops ++ [{}] }
  | .receive loop chunk callbacks =>
    if (s.loops[loop]?.any Loop.running) && chunk.length ≤ 0x1000 && callbacks.all (fits loop chunk.length) then
      (s.received loop chunk).parse callbacks
    else none
  | .stop loop => some { s with loops := s.loops.modify loop fun l => { l with running := false } }
  | .next id => if id ∈ s.nextLoop then some ({ s with nextLoop := s.nextLoop.erase id }.unload id .finished) else none
  | .timeout id => if s.calls[id]?.any (·.holds .sleep_for) then some (s.unload id .sleep_for) else none
  | .again id => some (s.proceed id Call.goOn)

end Session

end Coev.Http
