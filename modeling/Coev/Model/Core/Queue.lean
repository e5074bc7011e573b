import Coev.Model.Core.Async
import Coev.ToMathlib.Links

/-! # Intrusive queues

A `queue` is a node with links to itself. It stands alone, or it has other queues linked behind it, or it is linked behind
another one: events are linked into the queue of a `co_async`, and free blocks into that of a `memory_pool`.
-/

namespace Coev

namespace Queue

variable {α : Type*} [DecidableEq α]

/-- `__list_add`; `none` where it asserts. -/
def listAdd (s : Links α) (new prev next : α) : Option (Links α) :=
  if s.next prev = new ∨ s.prev next = new then none
  else
    let s := { s with prev := Function.update s.prev next new }
    let s := { s with next := Function.update s.next prev new }
    let s := { s with next := Function.update s.next new next }
    some { s with prev := Function.update s.prev new prev }

/-- `__list_del`. -/
def listDel (s : Links α) (prev next : α) : Links α := s.link prev next

/-- `__list_clear`. -/
def listClear (s : Links α) (q : α) : Links α := s.link q q

def empty (s : Links α) (q : α) : Bool := s.prev q = q && s.next q = q

/-- `__list_move`; `none` where it asserts. -/
def listMove (s : Links α) (q prev next : α) : Option (Links α) :=
  if !empty s q then none
  else
    let s := { s with prev := Function.update s.prev next q }
    let s := { s with next := Function.update s.next prev q }
    let s := { s with next := Function.update s.next q next }
    some { s with prev := Function.update s.prev q prev }

def pushFront (s : Links α) (q new : α) : Option (Links α) := listAdd s new q (s.next q)

def pushBack (s : Links α) (q new : α) : Option (Links α) := listAdd s new (s.prev q) q

def erase (s : Links α) (old : α) : Links α := listClear (listDel s (s.prev old) (s.next old)) old

def popFront (s : Links α) (q : α) : Option α × Links α :=
  if !empty s q then (some (s.next q), erase s (s.next q)) else (none, s)

def popBack (s : Links α) (q : α) : Option α × Links α :=
  if !empty s q then (some (s.prev q), erase s (s.prev q)) else (none, s)

def moveTo (s : Links α) (q new : α) : Option (Bool × Links α) :=
  if empty s q then some (false, s)
  else if !empty s new then some (false, s)
  else (listMove s new (s.prev q) (s.next q)).map fun s => (true, listClear s q)

/-- What is done with queues. -/
inductive Call (α : Type*) where
  | pushFront (q new : α)
  | pushBack (q new : α)
  | erase (old : α)
  | popFront (q : α)
  | popBack (q : α)
  | moveTo (q new : α)
deriving DecidableEq, Repr

/-- What a call returns. -/
inductive Answer (α : Type*) where
  | done
  | node (found : Option α)
  | moved (ok : Bool)
deriving DecidableEq, Repr

/-- One call; `none` where it asserts. -/
def call (s : Links α) : Call α → Option (Answer α × Links α)
  | .pushFront q new => (pushFront s q new).map (.done, ·)
  | .pushBack q new => (pushBack s q new).map (.done, ·)
  | .erase old => some (.node (some old), erase s old)
  | .popFront q => some ((popFront s q).map .node id)
  | .popBack q => some ((popBack s q).map .node id)
  | .moveTo q new => (moveTo s q new).map (Prod.map .moved id)

end Queue

/-! ## Events in queues -/

/-- The queues of a thread: that of a `co_async`, that of the event loop, and the events. -/
inductive Node where
  | queue
  | loop
  | event (k : ℕ)
deriving DecidableEq, Repr

namespace Async

open Queue

/-- What is done with a `co_async` of a thread: calls, and the end of a coroutine that awaits an event. -/
inductive Act where
  | call (c : Call)
  | destroy (k : ℕ)
deriving DecidableEq, Repr

def act (s : Async) : Act → Option Async
  | .call c => s.call c
  | .destroy k => some (s.unlink k)

/-- What it does to the links; `none` where it asserts. The event that is next is the `n`-th. -/
def linkAct (m : Links Node) (n : ℕ) : Act → Option (Links Node)
  | .call (.suspend ..) => pushBack m .queue (.event n)
  | .call (.awaitReady _) | .call (.awaitSuspend _) => some m
  | .call (.resume _) => some (Queue.popFront m .queue).2
  | .call .resumeNextLoop =>
    match Queue.popFront m .queue with
    | (some e, m) => pushBack m .loop e
    | (none, m) => some m
  | .call .localResume => some (Queue.popFront m .loop).2
  | .destroy k => some (if Queue.empty m (.event k) then m else erase m (.event k))

/-- A `co_async` and the links of its thread. -/
def LinkedStep (s : Async × Links Node) (a : Act) (s' : Async × Links Node) : Prop :=
  s.1.act a = some s'.1 ∧ linkAct s.2 s.1.waiters.length a = some s'.2

end Async

end Coev
