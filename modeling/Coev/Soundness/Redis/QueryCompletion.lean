import Coev.Model.Redis.RedisCli
import Coev.ToMathlib.Transition
import Mathlib.Data.List.Nodup

/-! # Queries on a Redis connection and their replies
The queries wait in the order of their commands as long as nobody else is left in the queue, so a reply resumes its own
query. When the connection is lost one waiter is resumed, so at most one query may wait then.
-/

namespace Coev.Redis.RedisCli

open Transition

variable {s t : RedisCli} {e : Event}

def Step (s : RedisCli) (e : Event) (t : RedisCli) : Prop := s.step e = some t

/-- The queries that wait. -/
def waiting (s : RedisCli) : List ℕ :=
  s.m_waiter.filterMap fun
    | .connect => none
    | .query id => some id

/-- A query is made on a connection, and a connection where there is none; it is lost by an error, and while at most one
query waits, or while none waits. -/
def Regular (s : RedisCli) : Event → Prop
  | .connect => s.m_context = .null
  | .query _ => s.m_context ≠ .null
  | .connectFailed => s.waiting.length ≤ 1
  | .disconnect ok => s.waiting.length ≤ if ok then 0 else 1
  | .cb_connect | .reply => True

/-- Every query is resumed once or still waits, and it returned 0 for its own reply only, and an error without one. -/
structure Counted (s : RedisCli) : Prop where
  running : s.crashed = false
  once : (s.completed.map Completed.query ++ s.waiting).Perm s.submitted
  distinct : s.submitted.Nodup
  own : ∀ done ∈ s.completed, done.returned = 0 ∧ done.reply = some done.query ∨ done.returned = INVALID ∧ done.reply = none

/-- And none waits without a connection. -/
structure Completes (s : RedisCli) : Prop extends Counted s where
  lost : s.m_context = .null → s.waiting = []

/-- The queue is that of `hiredis`, behind `connect` while that waits. -/
structure InOrder (s : RedisCli) : Prop where
  completes : Completes s
  idle : s.m_reply = none
  queue : s.m_waiter = (if s.m_context = .connecting then [.connect] else []) ++ s.pending.map .query

theorem InOrder.waiting_eq (order : InOrder s) : s.waiting = s.pending := by
  have queries (ids : List ℕ) : ((ids.map Waiter.query).filterMap fun
      | .connect => none
      | .query id => some id) = ids := by
    rw [List.filterMap_map]
    exact List.filterMap_some
  rw [waiting, order.queue, List.filterMap_append, queries]
  split <;> rfl

private theorem foldl_oncallback_none (ids : List ℕ) (s : RedisCli) :
    ids.foldl (fun (s : RedisCli) _ => s.oncallback none) s = s := by
  induction ids with
  | nil => rfl
  | cons id ids ih => exact ih

private theorem lose_eq (s : RedisCli) (ok : Bool) :
    s.lose ok = { s with pending := [], m_context := .null }.disconnected ok := by
  rw [lose, foldl_oncallback_none]
  rfl

/-- The query in front is resumed. -/
def answered (s : RedisCli) (id : ℕ) (rest : List ℕ) : RedisCli :=
  { s with
    m_waiter := rest.map .query
    completed := s.completed ++ [⟨id, if s.m_context ≠ .null then 0 else INVALID, s.m_reply⟩] }

private theorem resume_query {id : ℕ} {rest : List ℕ} (front : s.m_waiter = .query id :: rest.map .query) :
    s.resume = s.answered id rest := by
  rw [resume, front]
  rfl

private theorem continue_connect (some_ : s.m_context ≠ .null) :
    s.continue_ .connect = { s with m_context := .processing } :=
  if_neg some_

/-- A connection that turns out never to have been made is lost like any other. -/
theorem lose_refused {ids : List ℕ} (queue : s.m_waiter = ids.map .query) :
    s.processRemove.resume.lose true = { s with pending := [], m_context := .null }.resume := by
  cases ids with
  | nil =>
    rw [lose_eq, resume, resume, processRemove, queue]
    rfl
  | cons id rest =>
    have removed : s.processRemove.m_waiter = .query id :: rest.map .query := queue
    have gone : { s with pending := [], m_context := .null }.m_waiter = .query id :: rest.map .query := queue
    rw [lose_eq, resume_query removed, resume_query gone]
    rfl

private theorem waiting_map (ids : List ℕ) (queue : s.m_waiter = ids.map .query) : s.waiting = ids := by
  rw [waiting, queue, List.filterMap_map]
  exact List.filterMap_some

/-- A query that is resumed with its own reply, or with none when there is no connection, is counted once. -/
theorem Counted.answered {id : ℕ} {rest : List ℕ} (counted : Counted s) (waits : s.waiting = id :: rest)
    (own : s.m_context ≠ .null ∧ s.m_reply = some id ∨ s.m_context = .null ∧ s.m_reply = none) :
    Counted (s.answered id rest) := by
  have left : (s.answered id rest).waiting = rest := waiting_map rest rfl
  refine ⟨counted.running, ?_, counted.distinct, ?_⟩
  · rw [left]
    have once := counted.once
    rw [waits] at once
    refine List.Perm.trans ?_ once
    change (List.map _ (s.completed ++ [_]) ++ rest).Perm _
    rw [List.map_append, List.append_assoc]
    rfl
  · intro done member
    obtain before | last := List.mem_append.mp member
    · exact counted.own done before
    · obtain rfl := List.mem_singleton.mp last
      obtain ⟨context, reply⟩ | ⟨context, reply⟩ := own
      · exact .inl ⟨if_pos context, reply⟩
      · exact .inr ⟨if_neg (not_not_intro context), reply⟩

/-! ## Steps -/

theorem Counted.of_waiter (counted : Counted s) (waiter : t.m_waiter = s.m_waiter) (rest : t.crashed = s.crashed ∧
    t.completed = s.completed ∧ t.submitted = s.submitted) : Counted t := by
  obtain ⟨crashed, completed, submitted⟩ := rest
  have waiting : t.waiting = s.waiting := by rw [waiting, waiting, waiter]
  refine ⟨crashed.trans counted.running, ?_, submitted ▸ counted.distinct, completed ▸ counted.own⟩
  rw [completed, waiting, submitted]
  exact counted.once

/-- The connection is lost while nobody waits. -/
theorem InOrder.forgotten (order : InOrder s) (nobody : s.waiting = []) (processing : s.m_context = .processing) :
    InOrder { s with pending := [], m_context := .null } := by
  have queue := order.queue
  rw [← order.waiting_eq, nobody, processing] at queue
  exact ⟨⟨order.completes.toCounted.of_waiter rfl ⟨rfl, rfl, rfl⟩, fun _ => nobody⟩, order.idle, queue⟩

/-- The connection is lost, and the only query that waits is told. -/
theorem InOrder.told (order : InOrder s) (few : s.waiting.length ≤ 1) (processing : s.m_context = .processing) :
    InOrder { s with pending := [], m_context := .null }.resume := by
  have queue : s.m_waiter = s.waiting.map .query := by
    rw [order.waiting_eq, order.queue, processing]
    rfl
  cases waits : s.waiting with
  | nil =>
    rw [waits] at queue
    have alone : { s with pending := [], m_context := .null }.resume = { s with pending := [], m_context := .null } := by
      rw [resume, queue]
      rfl
    rw [alone]
    exact order.forgotten waits processing
  | cons id rest =>
    rw [waits] at queue few
    obtain rfl := List.length_eq_zero_iff.mp (Nat.le_zero.mp (Nat.le_of_succ_le_succ few))
    have front : { s with pending := [], m_context := .null }.m_waiter = .query id :: List.map .query [] := queue
    have counted : Counted { s with pending := [], m_context := .null } :=
      order.completes.toCounted.of_waiter rfl ⟨rfl, rfl, rfl⟩
    rw [resume_query front]
    exact ⟨⟨counted.answered waits (.inr ⟨rfl, order.idle⟩), fun _ => waiting_map [] rfl⟩, order.idle, rfl⟩

theorem InOrder.step (order : InOrder s) (regular : Regular s e) (taken : Step s e t) : InOrder t := by
  have counted := order.completes.toCounted
  unfold Step RedisCli.step at taken
  rw [if_neg (Bool.not_eq_true _ ▸ counted.running)] at taken
  cases e with
  | connect =>
    cases taken
    have absent : s.m_context = .null := regular
    have nobody := order.completes.lost absent
    have idle : s.pending = [] := order.waiting_eq.symm.trans nobody
    have queue : s.m_waiter = [] := by
      rw [order.queue, absent, idle]
      rfl
    unfold RedisCli.connect
    rw [if_neg (not_not_intro absent), queue, idle]
    refine ⟨⟨⟨counted.running, ?_, counted.distinct, counted.own⟩, nofun⟩, order.idle, rfl⟩
    have once := counted.once
    rw [nobody] at once
    exact once
  | cb_connect =>
    obtain ⟨connecting, ⟨⟩⟩ := Option.ite_none_right_eq_some.mp taken
    have queue := order.queue
    rw [connecting] at queue
    have resumed : s.resume = { s with m_waiter := s.pending.map .query, m_context := .processing } := by
      rw [resume, queue]
      exact continue_connect (s := { s with m_waiter := s.pending.map .query }) (by rw [connecting]; nofun)
    have waits : { s with m_waiter := s.pending.map .query, m_context := .processing }.waiting = s.waiting :=
      (waiting_map s.pending rfl).trans order.waiting_eq.symm
    rw [resumed]
    refine ⟨⟨⟨counted.running, ?_, counted.distinct, counted.own⟩, nofun⟩, order.idle, rfl⟩
    rw [waits]
    exact counted.once
  | connectFailed =>
    obtain ⟨processing, ⟨⟩⟩ := Option.ite_none_right_eq_some.mp taken
    have queue : s.m_waiter = s.pending.map .query := by
      rw [order.queue, processing]
      rfl
    rw [lose_refused queue]
    exact order.told regular processing
  | query id =>
    obtain ⟨fresh, ⟨⟩⟩ := Option.ite_none_left_eq_some.mp taken
    have present : s.m_context ≠ .null := regular
    have queue := order.queue
    unfold RedisCli.query
    rw [if_neg present]
    have waits :
        { s with
          submitted := s.submitted ++ [id], pending := s.pending ++ [id]
          m_waiter := s.m_waiter ++ [Waiter.query id] }.waiting =
        s.waiting ++ [id] := List.filterMap_append
    refine ⟨⟨⟨counted.running, ?_, ?_, counted.own⟩, fun absent => absurd absent present⟩, order.idle, ?_⟩
    · rw [waits, ← List.append_assoc]
      exact counted.once.append_right [id]
    · exact (List.perm_append_singleton id s.submitted).nodup_iff.mpr (List.nodup_cons.mpr ⟨fresh, counted.distinct⟩)
    · change s.m_waiter ++ _ = _ ++ (s.pending ++ [id]).map .query
      rw [queue, List.map_append, List.append_assoc]
      rfl
  | reply =>
    dsimp only at taken
    split at taken
    · next id rest processing front =>
      obtain rfl := Option.some.inj taken
      have waits : s.waiting = id :: rest := order.waiting_eq.trans front
      have queue : s.m_waiter = .query id :: rest.map .query := by
        rw [order.queue, processing, front]
        rfl
      have present : s.m_context ≠ .null := by rw [processing]; nofun
      have called : { s with pending := rest }.oncallback (some id) =
          { { s with pending := rest, m_reply := some id }.answered id rest with m_reply := none } := by
        have resumed := resume_query (s := { s with pending := rest, m_reply := some id }) queue
        rw [oncallback, if_neg (not_not_intro order.idle), ← resumed]
      have own : Counted { s with pending := rest, m_reply := some id } := counted.of_waiter rfl ⟨rfl, rfl, rfl⟩
      rw [called]
      refine ⟨⟨?_, fun absent => absurd absent present⟩, rfl, ?_⟩
      · exact (own.answered waits (.inl ⟨present, rfl⟩)).of_waiter rfl ⟨rfl, rfl, rfl⟩
      · change rest.map Waiter.query = (if s.m_context = .connecting then _ else _) ++ rest.map Waiter.query
        rw [processing]
        rfl
    · cases taken
  | disconnect ok =>
    obtain ⟨processing, ⟨⟩⟩ := Option.ite_none_right_eq_some.mp taken
    rw [lose_eq, disconnected]
    cases ok with
    | true => exact order.forgotten (List.length_eq_zero_iff.mp (Nat.le_zero.mp regular)) processing
    | false => exact order.told regular processing

end Coev.Redis.RedisCli
