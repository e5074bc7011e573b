import Coev.Model.Core.Async

/-! # Waiting and waking across threads

A `guard::co_async` belongs to an object whose data its mutex protects. A coroutine waits as long as the data say
so. Whoever changes the data takes the waiter in front off the queue, acts for it in the same critical section, and
only then wakes it: on the spot, or through the `co_deliver` of its thread. Critical sections are the steps here.
-/

namespace Coev

/-- What an object gives to `guard::co_async::suspend`; the getter knows whom it acts for. -/
structure Monitor (σ : Type*) where
  suspends : σ → Bool
  getter : ℕ → σ → σ

/-- The calls that wake a waiter: `resume(_set)`, `deliver(_set)` and `deliver(value)`. -/
inductive Wake where
  | resume
  | deliver
  | deliverValue (v : Int64)
deriving DecidableEq, Repr

/-- The value that the call passes to the waiter. -/
def Wake.value : Wake → Int64
  | .deliverValue v => v
  | _ => 0

/-- A waiter that a thread took off the queue by `__ev` and has yet to wake. -/
structure Hand where
  tid : ℕ
  waiter : ℕ
  wake : Wake
deriving DecidableEq, Repr

/-- An object, its `guard::co_async`, and the events in the `co_deliver` of each thread that has one. `arrived` records
who called `suspend`, in the order of the critical sections. -/
structure Guard (σ : Type*) where
  shared : σ
  async : Async := {}
  hands : List Hand := []
  delivers : ℕ → Option (List ℕ)
  arrived : List ℕ := []

namespace Guard

variable {σ : Type*} (m : Monitor σ)

/-- The critical section of `suspend`. -/
def enter (s : Guard σ) (caller tid : ℕ) (reserved : Int64) : Guard σ :=
  let s := { s with arrived := s.arrived ++ [caller] }
  if m.suspends s.shared then { s with async := s.async.suspend caller tid reserved }
  else { s with shared := m.getter caller s.shared }

/-- `__ev`. -/
def ev (s : Guard σ) (tid : ℕ) (set : σ → σ) (wake : Wake) : Guard σ :=
  let s := { s with shared := set s.shared }
  match s.async.popFront wake.value with
  | none => s
  | some (k, async) =>
    { s with shared := m.getter (async.caller k) s.shared, async, hands := s.hands ++ [⟨tid, k, wake⟩] }

/-- `co_deliver::resume`: the event is lost where its thread has no `co_deliver`. -/
def deliverResume (s : Guard σ) (k : ℕ) : Guard σ :=
  let tid := s.async.tid k
  match s.delivers tid with
  | none => s
  | some events => { s with delivers := Function.update s.delivers tid (some (events ++ [k])) }

/-- The end of `deliver`, for the thread that calls it. -/
def deliver (s : Guard σ) (tid k : ℕ) : Guard σ :=
  if s.async.tid k = tid then { s with async := s.async.resumeEvent k 0 } else s.deliverResume k

/-- A thread wakes the waiter it took. -/
def pass (s : Guard σ) (h : Hand) : Guard σ :=
  let s := { s with hands := s.hands.erase h }
  match h.wake with
  | .resume => { s with async := s.async.resumeEvent h.waiter 0 }
  | .deliver => s.deliver h.tid h.waiter
  | .deliverValue v => { s with async := s.async.setReserved h.waiter v }.deliver h.tid h.waiter

/-- One round of `__resume_ev` on the event loop of a thread. -/
def resumeEv (s : Guard σ) (tid : ℕ) : Guard σ :=
  match s.delivers tid with
  | some (k :: events) =>
    { s with
      delivers := Function.update s.delivers tid (some events)
      async := (s.async.setReserved k 0).resumeEvent k 0 }
  | _ => s

/-- One round of the destructor, where the thread is destroying. -/
def destroy (s : Guard σ) : Guard σ :=
  match s.async.popFront invalid with
  | none => s
  | some (k, async) => { s with async := async.resumeEvent k invalid }

/-- What `suspend` returns to a waiter once its `co_await` is over. -/
def suspendResult (w : Waiter) : Int64 :=
  let r := w.event.awaitResume
  if r = invalid then r else w.event.getReserved

/-- What a thread may do next. `critical` is a critical section, or an atomic update, that wakes nobody. -/
inductive Call (σ : Type*) where
  | enter (caller tid : ℕ) (reserved : Int64)
  | awaitReady (k : ℕ)
  | awaitSuspend (k : ℕ)
  | critical (set : σ → σ)
  | ev (tid : ℕ) (set : σ → σ) (wake : Wake)
  | pass (h : Hand)
  | resumeEv (tid : ℕ)
  | register (tid : ℕ)
  | stop (tid : ℕ)
  | destroy

/-- One call. -/
def call (s : Guard σ) : Call σ → Option (Guard σ)
  | .enter caller tid reserved => some (s.enter m caller tid reserved)
  | .awaitReady k =>
    if s.async.progress k = some .constructed then some { s with async := s.async.awaitReady k } else none
  | .awaitSuspend k =>
    if s.async.progress k = some .unready then some { s with async := s.async.awaitSuspend k } else none
  | .critical set => some { s with shared := set s.shared }
  | .ev tid set wake => some (s.ev m tid set wake)
  | .pass h => if h ∈ s.hands then some (s.pass h) else none
  | .resumeEv tid => some (s.resumeEv tid)
  | .register tid =>
    if s.delivers tid = none then some { s with delivers := Function.update s.delivers tid (some []) } else none
  | .stop tid => some { s with delivers := Function.update s.delivers tid none }
  | .destroy => some s.destroy

/-- The calls of any number of threads, in any order. -/
def Step (s : Guard σ) (c : Call σ) (s' : Guard σ) : Prop := s.call m c = some s'

end Guard

/-! ## Channels, mutexes and wait groups across threads

Each is a `guard::co_async` over its own data. The data carry what the results are about as well: what was put in and
whom it went to, who holds the lock, whom the getter acted for.
-/

open Guard

/-- The thread goes on with a coroutine or a wake-up of its own. -/
inductive Guard.Continues {σ : Type*} : Guard.Call σ → Prop
  | awaitReady (k : ℕ) : Continues (.awaitReady k)
  | awaitSuspend (k : ℕ) : Continues (.awaitSuspend k)
  | pass (h : Hand) : Continues (.pass h)
  | resumeEv (tid : ℕ) : Continues (.resumeEv tid)

/-- The data of `guard::co_channel`; `handed` names the caller of `get`, and nobody for `try_get`. -/
structure GuardChannel (α : Type*) where
  data : List α := []
  put : List α := []
  handed : List (Option ℕ × α) := []
  underflow : Bool := false
deriving DecidableEq, Repr

namespace GuardChannel

variable {α : Type*}

/-- `__pop_front`. -/
def popFront (c : GuardChannel α) (who : Option ℕ) : GuardChannel α :=
  match c.data with
  | [] => { c with underflow := true }
  | d :: data => { c with data, handed := c.handed ++ [(who, d)] }

/-- What `set` does in its critical section. -/
def push (d : α) (c : GuardChannel α) : GuardChannel α := { c with data := c.data ++ [d], put := c.put ++ [d] }

def tryGet (c : GuardChannel α) : GuardChannel α := if c.data.isEmpty then c else c.popFront none

/-- What `get` gives to `suspend`. -/
def monitor : Monitor (GuardChannel α) where
  suspends c := c.data.isEmpty
  getter who c := c.popFront (some who)

/-- What is done on a channel. -/
inductive Call (α : Type*) where
  | get (caller tid : ℕ) (reserved : Int64)
  | set (tid : ℕ) (d : α)
  | tryGet
  | proceed (call : Guard.Call (GuardChannel α)) (continues : Continues call)

def Call.guarded : Call α → Guard.Call (GuardChannel α)
  | .get caller tid reserved => .enter caller tid reserved
  | .set tid d => .ev tid (push d) .deliver
  | .tryGet => .critical GuardChannel.tryGet
  | .proceed call _ => call

def Step (s : Guard (GuardChannel α)) (c : Call α) (s' : Guard (GuardChannel α)) : Prop := s.Step monitor c.guarded s'

end GuardChannel

/-- The data of `guard::co_mutex`; `holders` took the lock and did not release it, `granted` are the callers of `lock`
that took it. -/
structure GuardMutex where
  flag : Bool := false
  holders : List ℕ := []
  granted : List ℕ := []
deriving DecidableEq, Repr

namespace GuardMutex

/-- What `lock` gives to `suspend`. -/
def monitor : Monitor GuardMutex where
  suspends m := m.flag
  getter who m := { flag := true, holders := m.holders ++ [who], granted := m.granted ++ [who] }

/-- What `unlock` does in its critical section. -/
def release (who : ℕ) (m : GuardMutex) : GuardMutex := { m with flag := false, holders := m.holders.erase who }

def tryLock (who : ℕ) (m : GuardMutex) : GuardMutex :=
  if m.flag then m else { m with flag := true, holders := m.holders ++ [who] }

/-- What is done on a mutex. -/
inductive Call where
  | lock (caller tid : ℕ) (reserved : Int64)
  | tryLock (who : ℕ)
  | unlock (tid who : ℕ) (deliver : Bool)
  | proceed (call : Guard.Call GuardMutex) (continues : Continues call)

def Call.guarded : Call → Guard.Call GuardMutex
  | .lock caller tid reserved => .enter caller tid reserved
  | .tryLock who => .critical (GuardMutex.tryLock who)
  | .unlock tid who deliver => .ev tid (release who) (if deliver then .deliver else .resume)
  | .proceed call _ => call

def Step (s : Guard GuardMutex) (c : Call) (s' : Guard GuardMutex) : Prop := s.Step monitor c.guarded s'

end GuardMutex

/-- The data of `co_waitgroup`, and how many calls of `done` are in their loop. -/
structure WaitGroup where
  count : Int32 := 0
  delivering : ℕ := 0
deriving DecidableEq, Repr

namespace WaitGroup

/-- What `wait` gives to `suspend`. -/
def monitor : Monitor WaitGroup where
  suspends w := 0 < w.count
  getter _ w := w

def add (n : Int32) (w : WaitGroup) : WaitGroup := { w with count := w.count + n }

/-- `done` up to its loop. -/
def decrement (w : WaitGroup) : WaitGroup :=
  let w := { w with count := w.count - 1 }
  if 0 < w.count then w else { w with delivering := w.delivering + 1 }

/-- A `deliver(0)` that found nobody ends the loop of `done`. -/
def finish (w : WaitGroup) : WaitGroup := { w with delivering := w.delivering - 1 }

/-- What is done on a wait group; each round of the loop of `done` is a step. -/
inductive Call where
  | wait (caller tid : ℕ) (reserved : Int64)
  | add (n : Int32)
  | done
  | round (tid : ℕ)
  | proceed (call : Guard.Call WaitGroup) (continues : Continues call)

def Call.guarded (s : Guard WaitGroup) : Call → Guard.Call WaitGroup
  | .wait caller tid reserved => .enter caller tid reserved
  | .add n => .critical (WaitGroup.add n)
  | .done => .critical decrement
  | .round tid => .ev tid (if s.async.queue = [] then finish else id) (.deliverValue 0)
  | .proceed call _ => call

/-- A round is made by a call of `done` that is in its loop. -/
def Step (s : Guard WaitGroup) (c : Call) (s' : Guard WaitGroup) : Prop :=
  s.Step monitor (c.guarded s) s' ∧ ∀ tid, c = .round tid → 0 < s.shared.delivering

end WaitGroup

end Coev
