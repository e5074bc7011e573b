import Mathlib.Data.Int.Notation
import Mathlib.Data.Nat.Notation

/-! # Queries on one Redis connection
`connect` and every query wait in one queue. `hiredis` keeps the commands in the order of their submission and calls
back once for each: with its reply, or with none when the connection is lost. A callback resumes whoever is in front of
the queue, and what that coroutine does runs before the callback returns.
-/

namespace Coev.Redis

def INVALID : ℤ := -1

/-- Who waits in `m_waiter`. -/
inductive Waiter where
  | connect
  | query (id : ℕ)
deriving DecidableEq, Repr

/-- `m_context`: null, or a connection that `cb_connect` or that `cb_read` watches. -/
inductive Context where
  | null
  | connecting
  | processing
deriving DecidableEq, Repr

/-- A query that is over: what it returned, and whose reply `m_reply` was then. -/
structure Completed where
  query : ℕ
  returned : ℤ
  reply : Option ℕ
deriving DecidableEq, Repr

structure RedisCli where
  m_context : Context := .null
  m_waiter : List Waiter := []
  /-- The command whose reply `m_reply` points to. -/
  m_reply : Option ℕ := none
  /-- The commands that `hiredis` has not called back for. -/
  pending : List ℕ := []
  completed : List Completed := []
  /-- The queries that were ever made. -/
  submitted : List ℕ := []
  /-- A null context was used, or an assertion failed. -/
  crashed : Bool := false
deriving DecidableEq, Repr

namespace RedisCli

/-- A coroutine goes on behind `m_waiter.suspend()`. -/
def continue_ (s : RedisCli) : Waiter → RedisCli
  | .connect =>
    -- `__process_insert` asserts that there is a connection
    if s.m_context = .null then { s with crashed := true } else { s with m_context := .processing }
  | .query id =>
    { s with completed := s.completed ++ [⟨id, if s.m_context ≠ .null then 0 else INVALID, s.m_reply⟩] }

/-- `m_waiter.resume()`. -/
def resume (s : RedisCli) : RedisCli :=
  match s.m_waiter with
  | [] => s
  | waiter :: rest => { s with m_waiter := rest }.continue_ waiter

/-- `__oncallback`. -/
def oncallback (s : RedisCli) : Option ℕ → RedisCli
  | none => s
  | some reply =>
    if s.m_reply ≠ none then { s with crashed := true }
    else { { s with m_reply := some reply }.resume with m_reply := none }

/-- `__process_remove`. -/
def processRemove (s : RedisCli) : RedisCli := { s with m_context := .null }

/-- `__disconnected`. -/
def disconnected (s : RedisCli) (ok : Bool) : RedisCli := if ok then s else s.processRemove.resume

/-- `connect` up to its wait. -/
def connect (s : RedisCli) : RedisCli :=
  if s.m_context ≠ .null then { s with crashed := true }
  else { s with m_context := .connecting, m_waiter := s.m_waiter ++ [.connect] }

/-- `query` up to its wait. -/
def query (s : RedisCli) (id : ℕ) : RedisCli :=
  if s.m_context = .null then { s with submitted := s.submitted ++ [id], crashed := true }
  else { s with submitted := s.submitted ++ [id], pending := s.pending ++ [id], m_waiter := s.m_waiter ++ [.query id] }

/-- The connection is lost: `hiredis` calls back for every pending command without a reply, cleans up (`__clearup`), and
tells. -/
def lose (s : RedisCli) (ok : Bool) : RedisCli :=
  (s.pending.foldl (fun (s : RedisCli) _ => s.oncallback none) { s with pending := [] }).processRemove.disconnected ok

inductive Event where
  | connect
  /-- The loop calls `cb_connect`. -/
  | cb_connect
  /-- The first read or write shows that there is no connection: `__connected` is told, and `hiredis` gives it up. -/
  | connectFailed
  | query (id : ℕ)
  /-- A reply is read, that to the command in front. -/
  | reply
  /-- The connection is lost, by an error or by a call that asked for it. -/
  | disconnect (ok : Bool)
deriving DecidableEq, Repr

def step (s : RedisCli) (e : Event) : Option RedisCli :=
  if s.crashed then none
  else match e with
    | .connect => some s.connect
    | .cb_connect => if s.m_context = .connecting then some s.resume else none
    | .connectFailed => if s.m_context = .processing then some (s.processRemove.resume.lose true) else none
    | .query id => if id ∈ s.submitted then none else some (s.query id)
    | .reply =>
      match s.m_context, s.pending with
      | .processing, id :: rest => some ({ s with pending := rest }.oncallback (some id))
      | _, _ => none
    | .disconnect ok => if s.m_context = .processing then some (s.lose ok) else none

end RedisCli

end Coev.Redis
