import Mathlib.Data.List.Basic
import Mathlib.Data.Int.Notation

/-! # A descriptor and the coroutines that wait for it
`io_context`: a call that the system would block waits for a watcher of the event loop. A call is named by its place
among all calls, and it goes on in a step of its own once its event was resumed, whatever else is done in between. What
a system call on an open descriptor ends with is free. `connect` is called first and once, and the others after it has
connected, as a client of `client_pool` does.
-/

namespace Coev

/-- What is called. -/
inductive IoCall where
  | connect
  | send
  | sendto
  | recv
  | recvfrom
deriving DecidableEq, Repr

/-- It waits in `m_w_waiter`, and stops the watcher for writing on its way out. -/
def IoCall.writes : IoCall → Bool
  | .send | .sendto => true
  | .connect | .recv | .recvfrom => false

/-- Where a call is. -/
inductive IoPlace where
  /-- At the head of its loop. -/
  | running
  | waiting
  /-- Its event was resumed, and it is given a value. -/
  | woken (r : ℤ)
  | returned (r : ℤ)
  | destroyed
deriving DecidableEq, Repr

/-- A call that has neither returned nor been destroyed. -/
def IoPlace.underWay : IoPlace → Bool
  | .running | .waiting | .woken _ => true
  | .returned _ | .destroyed => false

/-- How a system call ends: with an error that `isInprocess` knows, or with what it returns. -/
inductive SystemResult where
  | inprocess
  | value (r : ℤ)
deriving DecidableEq, Repr

/-- The members of an `io_context`, and the calls that were made. `m_read` and `m_write` say whether the watchers are
active, and `connected` that `__initial` has run. `transferred` records the bytes that a system call took or gave for a
call. -/
structure IoContext where
  m_fd : ℤ
  connected : Bool := false
  m_read : Bool := false
  m_write : Bool := false
  m_r_waiter : List ℕ := []
  m_w_waiter : List ℕ := []
  calls : List (IoCall × IoPlace) := []
  transferred : List (ℕ × ℤ) := []
deriving DecidableEq, Repr

namespace IoContext

def invalid : ℤ := -1

/-- `__initial`, for a descriptor whose watchers are not active. -/
def initial (s : IoContext) : IoContext :=
  if s.m_fd ≠ invalid then { s with connected := true, m_read := true } else s

/-- `io_context()`, with what `__init_connect` makes of the socket. -/
def fresh (fd : ℤ) : IoContext := { m_fd := fd }

/-- `io_context(fd)`. -/
def accepted (fd : ℤ) : IoContext := initial { m_fd := fd }

def goTo (s : IoContext) (k : ℕ) (place : IoPlace) : IoContext :=
  { s with calls := s.calls.modify k fun call => (call.1, place) }

/-- `m_w_waiter` or `m_r_waiter`. -/
def waiter (s : IoContext) (writes : Bool) : List ℕ := if writes then s.m_w_waiter else s.m_r_waiter

def setWaiter (s : IoContext) (writes : Bool) (queue : List ℕ) : IoContext :=
  if writes then { s with m_w_waiter := queue } else { s with m_r_waiter := queue }

/-- `co_await suspend()` on the queue of the call. -/
def wait (s : IoContext) (k : ℕ) (call : IoCall) : IoContext :=
  (s.setWaiter call.writes (s.waiter call.writes ++ [k])).goTo k .waiting

/-- `resume` on a queue. Whatever value is passed, `co_event::resume` stores 0 over it. -/
def resume (s : IoContext) (writes : Bool) : IoContext :=
  match s.waiter writes with
  | [] => s
  | k :: rest => (s.setWaiter writes rest).goTo k (.woken 0)

/-- `__ev_stop_write`. -/
def stopWrite (s : IoContext) : IoContext := if s.m_w_waiter = [] then { s with m_write := false } else s

/-- `__close`: the watchers are stopped, and then everybody is resumed, with `INVALID` in vain. -/
def close (s : IoContext) : IoContext :=
  if s.m_fd ≠ invalid then
    (s.m_r_waiter ++ s.m_w_waiter).foldl (fun s k => s.goTo k (.woken 0))
      { s with m_fd := invalid, m_read := false, m_write := false, m_r_waiter := [], m_w_waiter := [] }
  else s

/-- How a system call ends: with `EBADF` when the descriptor was closed. -/
def system (s : IoContext) (sys : SystemResult) : SystemResult := if s.m_fd = invalid then .value invalid else sys

/-- A system call is done, and the call returns: end of file is an error. -/
def transfer (s : IoContext) (k : ℕ) (r : ℤ) : IoContext :=
  { s.goTo k (.returned (if r = 0 then invalid else r)) with
    transferred := if 0 < r then s.transferred ++ [(k, r)] else s.transferred }

/-- A call at the head of its loop. A `connect` that is done at once is taken for one that failed. -/
def enter (s : IoContext) (k : ℕ) (call : IoCall) (sys : SystemResult) : IoContext :=
  if s.m_fd = invalid then s.goTo k (.returned invalid)
  else
    match call, sys with
    | .connect, .inprocess => { s with m_read := true }.wait k .connect
    | .connect, .value _ => s.close.goTo k (.returned invalid)
    | .send, .inprocess | .sendto, .inprocess => { s with m_write := true }.wait k call
    | .send, .value r | .sendto, .value r => s.transfer k r
    | .recv, _ | .recvfrom, _ => s.wait k call

/-- A call that was resumed. `connect` asks for the error of the socket, `send` begins again, `sendto` returns, and the
others read. -/
def proceed (s : IoContext) (k : ℕ) (call : IoCall) (r : ℤ) (sys : SystemResult) : IoContext :=
  match call with
  | .connect =>
    if r = invalid ∨ s.system sys ≠ .value 0 then s.close.goTo k (.returned invalid)
    else s.initial.goTo k (.returned s.m_fd)
  | .send => (s.goTo k (if r = invalid then .returned invalid else .running)).stopWrite
  | .sendto => (s.goTo k (.returned r)).stopWrite
  | .recv | .recvfrom =>
    if r = invalid then s.goTo k (.returned (if call = .recv then 0 else r))
    else
      match s.system sys with
      | .inprocess => s.goTo k .running
      | .value r => s.transfer k r

/-- A call may be made: `connect` before all others, the others once it has connected, and any on a descriptor that is
closed. -/
def Ready (s : IoContext) (call : IoCall) : Prop :=
  (if call = .connect then s.connected = false ∧ s.calls = [] else s.connected = true) ∨ s.m_fd = invalid
deriving Decidable

/-- The coroutine of a call that waits is destroyed: its event leaves the queue, and its block is left. -/
def destroy (s : IoContext) (k : ℕ) (call : IoCall) : IoContext :=
  let s := { s with m_r_waiter := s.m_r_waiter.erase k, m_w_waiter := s.m_w_waiter.erase k }.goTo k .destroyed
  if call.writes then s.stopWrite else s

/-- What happens next. -/
inductive Event where
  | call (call : IoCall)
  | run (k : ℕ) (sys : SystemResult)
  /-- `cb_read`, or `cb_connect` before the descriptor is connected. -/
  | readable
  | writable
  | close
  | destroy (k : ℕ)
deriving DecidableEq, Repr

/-- A watcher calls back while it is active. -/
def step (s : IoContext) : Event → Option IoContext
  | .call call => if s.Ready call then some { s with calls := s.calls ++ [(call, .running)] } else none
  | .run k sys =>
    match s.calls[k]? with
    | some (call, .running) => some (s.enter k call sys)
    | some (call, .woken r) => some (s.proceed k call r sys)
    | _ => none
  | .readable =>
    if s.m_read = false then none
    else if s.connected then some (s.resume false)
    else some ({ s with m_read := false, m_write := false }.resume false)
  | .writable => if s.m_write then some (s.resume true) else none
  | .close => some s.close
  | .destroy k =>
    match s.calls[k]? with
    | some (call, .waiting) => some (s.destroy k call)
    | _ => none

def Step (s : IoContext) (e : Event) (s' : IoContext) : Prop := s.step e = some s'

end IoContext

end Coev
