import Mathlib.Data.List.Basic

/-! # Events that a coroutine waits on

A coroutine awaits a `co_event` by `await_ready`, `await_suspend` and `await_resume`; whoever wakes it calls `resume`.
The two sides meet in a status word, so either may come first.
-/

namespace Coev

def invalid : Int64 := -1

/-- `details::status`. -/
inductive Status where
  | init
  | suspend
  | running
  | resumed
  | finished
deriving DecidableEq, Repr

/-- `co_event`, but for its links in a queue. The constructor leaves `reserved` as it finds it. -/
structure CoEvent where
  tid : ℕ
  status : Status := .init
  reserved : Int64
deriving DecidableEq, Repr

namespace CoEvent

/-- `__set_reserved`. -/
def setReserved (e : CoEvent) (x : Int64) : CoEvent := { e with reserved := x }

/-- `__get_reserved`. -/
def getReserved (e : CoEvent) : Int64 := e.reserved

def awaitReady (e : CoEvent) : Bool := e.status ≠ .init

/-- `await_suspend`, and whether it runs the coroutine on; `none` where it asserts. -/
def awaitSuspend (e : CoEvent) : Option (CoEvent × Bool) :=
  match e.status with
  | .init => some ({ e with status := .suspend }, false)
  | .resumed => some ({ e with status := .finished }, true)
  | _ => none

def awaitResume (e : CoEvent) : Int64 := e.getReserved

/-- `resume`, and whether it runs the coroutine on; `none` where it asserts. -/
def resume (e : CoEvent) (x : Int64) : Option (CoEvent × Bool) :=
  let e := e.setReserved x
  match e.status with
  | .init => some ({ e with status := .resumed }, false)
  | .suspend => some ({ e with status := .finished }, true)
  | _ => none

end CoEvent

/-- How far a coroutine has come with its `co_await`. -/
inductive Progress where
  | constructed
  | unready
  | suspended
  | returned (value : Int64)
deriving DecidableEq, Repr

/-- An event and the coroutine that awaits it. -/
structure Waiter where
  caller : ℕ
  event : CoEvent
  progress : Progress := .constructed
deriving DecidableEq, Repr

namespace Waiter

/-- The coroutine runs on, or stays where it is. -/
def run (w : Waiter) (e : CoEvent) (runs : Bool) : Waiter :=
  { w with event := e, progress := if runs then .returned e.awaitResume else w.progress }

def awaitReady (w : Waiter) : Waiter :=
  if w.event.awaitReady then w.run w.event true else { w with progress := .unready }

def awaitSuspend (w : Waiter) : Option Waiter :=
  w.event.awaitSuspend.map fun (e, runs) => { w with progress := .suspended }.run e runs

def setReserved (w : Waiter) (x : Int64) : Waiter := { w with event := w.event.setReserved x }

def resume (w : Waiter) (x : Int64) : Option Waiter :=
  (w.event.resume x).map fun (e, runs) => w.run e runs

end Waiter

/-! ## Waiting and waking on one thread

`co_async` is a queue of events. A call wakes the event in front, at once or by the queue of the thread's event loop.
A waiter is named by its place among all waiters, in the order in which they came.
-/

/-- A `co_async`, the waiters that ever came to it, and its events in the queue of the event loop (`local_async`).
`woken` records who was woken by which value, and `failed` an assertion that did not hold. -/
structure Async where
  waiters : List Waiter := []
  queue : List ℕ := []
  loop : List ℕ := []
  woken : List (ℕ × Int64) := []
  failed : Bool := false
deriving DecidableEq, Repr

namespace Async

/-- The coroutine of a waiter, and the thread that it waits on. -/
def caller (s : Async) (k : ℕ) : ℕ := (s.waiters[k]?.map Waiter.caller).getD 0

def tid (s : Async) (k : ℕ) : ℕ := (s.waiters[k]?.map fun w => w.event.tid).getD 0

/-- The progress of a waiter. -/
def progress (s : Async) (k : ℕ) : Option Progress := s.waiters[k]?.map Waiter.progress

/-- Change a waiter; a change that is not possible fails. -/
def change (s : Async) (k : ℕ) (f : Waiter → Option Waiter) : Async :=
  match s.waiters[k]?.bind f with
  | some w => { s with waiters := s.waiters.set k w }
  | none => { s with failed := true }

/-- `suspend`: the event is constructed in the queue. -/
def suspend (s : Async) (caller tid : ℕ) (reserved : Int64) : Async :=
  { s with
    waiters := s.waiters ++ [{ caller, event := { tid, reserved } }]
    queue := s.queue ++ [s.waiters.length] }

def awaitReady (s : Async) (k : ℕ) : Async := s.change k fun w => some w.awaitReady

def awaitSuspend (s : Async) (k : ℕ) : Async := s.change k Waiter.awaitSuspend

/-- `co_event::resume` of one waiter. -/
def resumeEvent (s : Async) (k : ℕ) (x : Int64) : Async := s.change k fun w => w.resume x

def setReserved (s : Async) (k : ℕ) (x : Int64) : Async := s.change k fun w => some (w.setReserved x)

/-- `pop_front`, for a wake-up with a value. -/
def popFront (s : Async) (v : Int64) : Option (ℕ × Async) :=
  match s.queue with
  | [] => none
  | k :: queue => some (k, { s with queue, woken := s.woken ++ [(k, v)] })

/-- `resume`, and so each round of `resume_all`. -/
def resume (s : Async) (v : Int64) : Async :=
  match s.popFront v with
  | none => s
  | some (k, s) => (s.setReserved k v).resumeEvent k 0

def resumeNextLoop (s : Async) : Async :=
  match s.popFront 0 with
  | none => s
  | some (k, s) => { s with loop := s.loop ++ [k] }

/-- One round of `resume_all(0)` on the queue of the event loop, as `local_resume` runs it. -/
def localResume (s : Async) : Async :=
  match s.loop with
  | [] => s
  | k :: loop => ({ s with loop }.setReserved k 0).resumeEvent k 0

/-- `co_await suspend()`, when nobody acts on the event in between. -/
def coAwait (s : Async) (caller tid : ℕ) (reserved : Int64) : Async :=
  ((s.suspend caller tid reserved).awaitReady s.waiters.length).awaitSuspend s.waiters.length

/-- `co_event::~co_event`, when the coroutine of a waiter is destroyed: the event leaves the queue that it is in. -/
def unlink (s : Async) (k : ℕ) : Async := { s with queue := s.queue.erase k, loop := s.loop.erase k }

/-- What a coroutine may do next, or have done to it. -/
inductive Call where
  | suspend (caller tid : ℕ) (reserved : Int64)
  | awaitReady (k : ℕ)
  | awaitSuspend (k : ℕ)
  | resume (v : Int64)
  | resumeNextLoop
  | localResume
deriving DecidableEq, Repr

/-- One call; a coroutine awaits its own event only, and in order. -/
def call (s : Async) : Call → Option Async
  | .suspend caller tid reserved => some (s.suspend caller tid reserved)
  | .awaitReady k => if s.progress k = some .constructed then some (s.awaitReady k) else none
  | .awaitSuspend k => if s.progress k = some .unready then some (s.awaitSuspend k) else none
  | .resume v => some (s.resume v)
  | .resumeNextLoop => some s.resumeNextLoop
  | .localResume => some s.localResume

/-- The calls, one after another in any order. -/
def Step (s : Async) (c : Call) (s' : Async) : Prop := s.call c = some s'

end Async

/-! ## Channels on one thread

`set` puts an item in and has the consumer in front resumed by the event loop; the consumer takes its item when it is
resumed. Other channels share the queue of the event loop: it is restricted to the consumers of this one.
-/

/-- `co_channel`. `put` and `taken` record the items that went in and out, `underflow` a pop from an empty queue. -/
structure Channel (α : Type*) where
  data : List α := []
  waiter : Async := {}
  put : List α := []
  taken : List (ℕ × α) := []
  underflow : Bool := false
deriving DecidableEq, Repr

namespace Channel

variable {α : Type*}

/-- `__pop_front`, for a consumer. -/
def popFront (c : Channel α) (who : ℕ) : Channel α :=
  match c.data with
  | [] => { c with underflow := true }
  | d :: data => { c with data, taken := c.taken ++ [(who, d)] }

def set (c : Channel α) (d : α) : Channel α :=
  { c with data := c.data ++ [d], put := c.put ++ [d], waiter := c.waiter.resumeNextLoop }

/-- `get`, up to where it suspends. -/
def get (c : Channel α) (who tid : ℕ) (reserved : Int64) : Channel α :=
  if c.data.isEmpty then { c with waiter := c.waiter.coAwait who tid reserved } else c.popFront who

/-- `get`, after it was suspended. -/
def resumeGet (c : Channel α) (who : ℕ) (r : Int64) : Channel α := if r = invalid then c else c.popFront who

def tryGet (c : Channel α) (who : ℕ) : Channel α := if c.data.isEmpty then c else c.popFront who

/-- The event loop resumes the consumer in front. -/
def localResume (c : Channel α) : Channel α :=
  match c.waiter.loop with
  | [] => c
  | k :: _ =>
    let c := { c with waiter := c.waiter.localResume }
    match c.waiter.progress k with
    | some (.returned r) => c.resumeGet (c.waiter.caller k) r
    | _ => c

/-- What is done on a channel, by any producer or consumer or by the event loop. -/
inductive Call (α : Type*) where
  | set (d : α)
  | get (who tid : ℕ) (reserved : Int64)
  | tryGet (who : ℕ)
  | localResume
  | cancel (k : ℕ)
deriving DecidableEq, Repr

/-- One call; a consumer is cancelled while it is suspended. -/
def call (c : Channel α) : Call α → Option (Channel α)
  | .set d => some (c.set d)
  | .get who tid reserved => some (c.get who tid reserved)
  | .tryGet who => some (c.tryGet who)
  | .localResume => some c.localResume
  | .cancel k =>
    if k ∈ c.waiter.queue ∨ k ∈ c.waiter.loop then some { c with waiter := c.waiter.unlink k } else none

/-- The calls, one after another in any order. -/
def Step (c : Channel α) (a : Call α) (c' : Channel α) : Prop := c.call a = some c'

end Channel

end Coev
