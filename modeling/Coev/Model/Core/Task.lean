import Coev.Model.Core.Async

/-! # Groups of coroutines

A `co_task` owns the coroutines that were added to it, under an id each. A coroutine that ends is taken out and wakes one
waiter; one that is destroyed is taken out by another path.
-/

namespace Coev

def taskIdMax : ℕ := 1000000000000000000

/-- How a coroutine waits for a group: by `wait`, by `wait_for_any`, or by `wait_all` and `wait_for_all`, which are the
same loop. -/
inductive WaitKind where
  | one
  | any
  | all
deriving DecidableEq, Repr

/-- A wait under way: its kind, and how many coroutines had ended when it began. -/
structure Wait where
  kind : WaitKind
  since : ℕ
deriving DecidableEq, Repr

/-- A wait that returned: its value, and how many coroutines were left. -/
structure Return where
  kind : WaitKind
  value : Int64
  left : ℕ
deriving DecidableEq, Repr

/-- `co_task`; a coroutine is named by its promise. `waits` belong to the waiters, `completed` are the ids of the
coroutines that ended and `returned` the waits that did. -/
structure Task where
  promises : List (ℕ × ℕ) := []
  ids : List ℕ := []
  id : ℕ := 0
  waiter : Async := {}
  waits : List Wait := []
  completed : List ℕ := []
  returned : List Return := []
deriving DecidableEq, Repr

namespace Task

/-- `__increase`: the next id that is not in use, if so many steps lead to one. -/
def increase (ids : List ℕ) : ℕ → ℕ → Option ℕ
  | 0, _ => none
  | steps + 1, id =>
    let id := if taskIdMax < id + 1 then 0 else id + 1
    if id ∈ ids then increase ids steps id else some id

/-- `load`, up to where it resumes the coroutine, and the id that it returns as an `int`. An id is free within as many
steps as there are ids in use, and one more. -/
def load (t : Task) (p : ℕ) : Option (Task × Int32) :=
  (increase t.ids (t.ids.length + 1) t.id).map fun id =>
    ({ t with id, ids := id :: t.ids, promises := t.promises ++ [(p, id)] }, Int32.ofNat id)

/-- `destroy` of the whole group. -/
def destroyAll (t : Task) : Task := { t with promises := [] }

/-- `destroy` of one coroutine. -/
def destroy (t : Task) (id : ℕ) : Task := { t with promises := t.promises.eraseP fun entry => entry.2 = id }

def finish (t : Task) (kind : WaitKind) (value : Int64) : Task :=
  { t with returned := t.returned ++ [⟨kind, value, t.promises.length⟩] }

def suspend (t : Task) (kind : WaitKind) (caller tid : ℕ) (reserved : Int64) : Task :=
  { t with waiter := t.waiter.coAwait caller tid reserved, waits := t.waits ++ [⟨kind, t.completed.length⟩] }

/-- A wait, up to where it suspends or returns. -/
def wait (t : Task) (kind : WaitKind) (caller tid : ℕ) (reserved : Int64) : Task :=
  if t.promises.length > 0 then t.suspend kind caller tid reserved else t.finish kind 0

/-- A wait goes on with what its `co_await` returned; `wait_for_any` returns it as an `int`. -/
def resumeWait (t : Task) (kind : WaitKind) (w : Waiter) (r : Int64) : Task :=
  match kind with
  | .one => t.finish .one r
  | .any => (t.destroyAll).finish .any r.toInt32.toInt64
  | .all => t.wait .all w.caller w.event.tid w.event.reserved

/-- `m_waiter.resume`. -/
def resume (t : Task) (v : Int64) : Task :=
  match t.waiter.queue with
  | [] => t
  | k :: _ =>
    let t := { t with waiter := t.waiter.resume v }
    match t.waiter.waiters[k]?, t.waits[k]? with
    | some w, some wait =>
      match w.progress with
      | .returned r => t.resumeWait wait.kind w r
      | _ => t
    | _, _ => t

/-- `unload`, when a coroutine ends. -/
def unload (t : Task) (p : ℕ) : Task :=
  match t.promises.find? fun entry => entry.1 = p with
  | none => t
  | some (_, id) =>
    { t with
      promises := t.promises.eraseP fun entry => entry.1 = p
      ids := t.ids.erase id
      completed := t.completed ++ [id] }.resume (Int64.ofNat id)

/-- What is done with a group: a coroutine is added and starts to run, one ends, one or all are destroyed, or a
coroutine begins to wait. -/
inductive Call where
  | load (p : ℕ)
  | complete (p : ℕ)
  | destroy (id : ℕ)
  | destroyAll
  | wait (kind : WaitKind) (caller tid : ℕ) (reserved : Int64)
deriving DecidableEq, Repr

/-- One call; a coroutine is added once, and ends only in the group. -/
def call (t : Task) : Call → Option Task
  | .load p => if p ∈ t.promises.map Prod.fst then none else (t.load p).map Prod.fst
  | .complete p => if p ∈ t.promises.map Prod.fst then some (t.unload p) else none
  | .destroy id => some (t.destroy id)
  | .destroyAll => some t.destroyAll
  | .wait kind caller tid reserved => some (t.wait kind caller tid reserved)

/-- The calls, one after another in any order. -/
def Step (t : Task) (c : Call) (t' : Task) : Prop := t.call c = some t'

end Task

end Coev
