import Coev.Model.Zookeeper.ZooCli
import Coev.Proofs.Core.Parked
import Coev.ToMathlib.Transition

/-! # Replies of a ZooKeeper server

Waiting calls and replies are matched by their order alone. The order is right as long as every request is that of a call
that waits, and its reply goes into the list: a multi request does not wait, and the reply to a request to set watches is
dropped by the reader.
-/

namespace Coev.Zookeeper.ZooCli

open Transition

variable {s s' : ZooCli} {c : Call}

/-- Every call that is over took the reply to its own request, every reply that went into the list goes to one call and is
taken as soon as the event loop gets to it, and no call waits for a reply that was dropped. -/
structure MatchesReplies (s : ZooCli) : Prop where
  own : ∀ done ∈ s.completed, ∃ reply, done.reply = some reply ∧ reply.request = some done.call ∧
    s.calls[done.call]? = some reply.xid
  once : s.completed.filterMap Completed.reply ++ s.completionList = s.received
  taken : s.completion.loop = [] → s.completionList = []
  dropped : ∀ r ∈ s.dropped, ∀ k ∈ s.completion.queue ++ s.completion.loop, r.request ≠ some (s.completion.caller k)

/-- An xid that has no meaning of its own. -/
def Ordinary (xid : Int32) : Prop := xid ≠ PING_XID ∧ xid ≠ SET_WATCHES_XID ∧ xid ≠ WATCHER_EVENT_XID
deriving Decidable

/-- The request is no multi and sets no watches, and its xid is an ordinary one. -/
def Single (s : ZooCli) : Call → Prop
  | .request op time _ _ => op ≠ .multi ∧ op ≠ .setWatches ∧ Ordinary (getXid s.xid time)
  | _ => True

/-- A request in flight is a ping, or that of a call. -/
def Asks (calls : List Int32) (q : Request) : Prop :=
  match q.call with
  | none => q.xid = PING_XID
  | some c => calls[c]? = some q.xid ∧ Ordinary q.xid

/-- A reply to a call. -/
def Answers (calls : List Int32) (r : Reply) : Prop := ∃ c, r.request = some c ∧ calls[c]? = some r.xid

/-- The calls that were resumed are those whose replies are in the list, and those that wait are those whose requests are in
flight, each in this order. -/
structure Invariant (s : ZooCli) : Prop where
  parked : s.completion.AllParked
  looped : s.completion.loop.map (fun k => some (s.completion.caller k)) = s.completionList.map Reply.request
  queued : s.completion.queue.map s.completion.caller = s.pending.filterMap Request.call
  asked : ∀ q ∈ s.pending, Asks s.calls q
  listed : ∀ r ∈ s.completionList, Answers s.calls r
  own : ∀ done ∈ s.completed, ∃ reply, done.reply = some reply ∧ reply.request = some done.call ∧
    s.calls[done.call]? = some reply.xid
  once : s.completed.filterMap Completed.reply ++ s.completionList = s.received
  dropped : ∀ r ∈ s.dropped, r.request = none

theorem Invariant.matchesReplies (inv : s.Invariant) : s.MatchesReplies where
  own := inv.own
  once := inv.once
  taken idle := by
    have nobody := inv.looped
    rw [idle] at nobody
    exact List.map_eq_nil_iff.mp nobody.symm
  dropped r member k _ := by
    rw [inv.dropped r member]
    exact (Option.some_ne_none _).symm

/-- What a call knows of its xid stays as more calls are made. -/
theorem asks_append {calls : List Int32} {q : Request} (asks : Asks calls q) (xid : Int32) : Asks (calls ++ [xid]) q := by
  unfold Asks at asks ⊢
  split
  next none_ => simpa only [none_] using asks
  next c some_ =>
    simp only [some_] at asks
    have below := (List.getElem?_eq_some_iff.mp asks.1).1
    exact ⟨by rw [List.getElem?_append_left below, asks.1], asks.2⟩

namespace Invariant

theorem request (inv : s.Invariant) {op : Operation} {time : Int32} {tid : ℕ} {reserved : Int64}
    (single : s.Single (.request op time tid reserved)) : (s.request op time tid reserved).Invariant := by
  obtain ⟨notMulti, notWatches, ordinary⟩ := single
  have completes : op.completes = true := by
    cases op <;> first | rfl | exact absurd rfl notMulti
  have result : s.request op time tid reserved =
      { s with
        xid := getXid s.xid time
        calls := s.calls ++ [getXid s.xid time]
        pending := s.pending ++ [⟨some s.calls.length, getXid s.xid time⟩]
        completion := s.completion.coAwait s.calls.length tid reserved } := by
    simp only [ZooCli.request, if_neg notWatches, if_pos completes]
  have kept : ∀ {c : ℕ} {xid : Int32}, s.calls[c]? = some xid → (s.calls ++ [getXid s.xid time])[c]? = some xid := by
    intro c xid at_
    rw [List.getElem?_append_left (List.getElem?_eq_some_iff.mp at_).1, at_]
  have same : ∀ k ∈ s.completion.queue ++ s.completion.loop,
      (s.completion.coAwait s.calls.length tid reserved).caller k = s.completion.caller k :=
    fun k inside => Async.caller_coAwait (inv.parked.lt_of_mem inside)
  have loop : (s.completion.coAwait s.calls.length tid reserved).loop = s.completion.loop := by rw [Async.coAwait_eq]
  have queue : (s.completion.coAwait s.calls.length tid reserved).queue =
      s.completion.queue ++ [s.completion.waiters.length] := by rw [Async.coAwait_eq]
  rw [result]
  refine ⟨inv.parked.coAwait _ _ _, ?_, ?_, ?_, ?_, ?_, inv.once, inv.dropped⟩
  · rw [loop, ← inv.looped]
    exact List.map_congr_left fun k inside => congrArg some (same k (List.mem_append_right _ inside))
  · rw [queue, List.map_append, List.map_singleton, Async.caller_coAwait_self, List.filterMap_append, ← inv.queued]
    congr 1
    exact List.map_congr_left fun k inside => same k (List.mem_append_left _ inside)
  · intro q queued
    rcases List.mem_append.mp queued with old | new
    · exact asks_append (inv.asked q old) _
    · obtain rfl := List.mem_singleton.mp new
      exact ⟨List.getElem?_concat_length, ordinary⟩
  · intro r member
    obtain ⟨c, request, at_⟩ := inv.listed r member
    exact ⟨c, request, kept at_⟩
  · intro done member
    obtain ⟨reply, took, request, at_⟩ := inv.own done member
    exact ⟨reply, took, request, kept at_⟩

theorem sendPing (inv : s.Invariant) : s.sendPing.Invariant := by
  refine ⟨inv.parked, inv.looped, ?_, ?_, inv.listed, inv.own, inv.once, inv.dropped⟩
  · simp only [ZooCli.sendPing, List.filterMap_append]
    exact inv.queued.trans (List.append_nil _).symm
  · intro q queued
    rcases List.mem_append.mp queued with old | new
    · exact inv.asked q old
    · obtain rfl := List.mem_singleton.mp new
      exact rfl

/-- What is no reply to a call is dropped. -/
theorem drop (inv : s.Invariant) {r : Reply} (nobody : r.request = none) (watcher : Async) :
    Invariant { s with dropped := s.dropped ++ [r], watcher } := by
  refine ⟨inv.parked, inv.looped, inv.queued, inv.asked, inv.listed, inv.own, inv.once, fun q member => ?_⟩
  rcases List.mem_append.mp member with old | new
  · exact inv.dropped q old
  · rw [List.mem_singleton.mp new]
    exact nobody

/-- A reply to the first call that waits goes into the list, and the call is resumed. -/
theorem receive (inv : s.Invariant) {k c : ℕ} {queue : List ℕ} {pending : List Request}
    (queued : s.completion.queue = k :: queue) (asker : s.completion.caller k = c)
    (rest : queue.map s.completion.caller = pending.filterMap Request.call) (asked : ∀ q ∈ pending, Asks s.calls q)
    {r : Reply} (request : r.request = some c) (at_ : s.calls[c]? = some r.xid) :
    Invariant { s with
      pending
      completionList := s.completionList ++ [r]
      received := s.received ++ [r]
      completion := s.completion.resumeNextLoop } := by
  have resumed : s.completion.resumeNextLoop =
      { s.completion with queue, loop := s.completion.loop ++ [k], woken := s.completion.woken ++ [(k, 0)] } := by
    simp [Async.resumeNextLoop, Async.popFront, queued]
  refine ⟨inv.parked.resumeNextLoop, ?_, ?_, asked, ?_, inv.own, ?_, inv.dropped⟩
  · rw [resumed, List.map_append, List.map_append, ← inv.looped, List.map_singleton, List.map_singleton, request, ← asker]
    rfl
  · rw [resumed]
    exact rest
  · intro p member
    rcases List.mem_append.mp member with old | new
    · exact inv.listed p old
    · obtain rfl := List.mem_singleton.mp new
      exact ⟨c, request, at_⟩
  · rw [← inv.once, List.append_assoc]

/-- The oldest request is answered: a ping is over, and another reply goes to the first call that waits. -/
theorem reply (inv : s.Invariant) {q : Request} {pending : List Request} (first : s.pending = q :: pending) (err : Int32)
    (body : List UInt8) : ({ s with pending }.process ⟨q.call, q.xid, err, body⟩).Invariant := by
  have queued := inv.queued
  have asks : Asks s.calls q := inv.asked q (by rw [first]; exact List.mem_cons_self)
  have asked : ∀ p ∈ pending, Asks s.calls p :=
    fun p inside => inv.asked p (by rw [first]; exact List.mem_cons_of_mem _ inside)
  unfold Asks at asks
  cases asker : q.call with
  | none =>
    simp only [asker] at asks
    rw [first, List.filterMap_cons_none asker] at queued
    have answered : Invariant { s with pending } :=
      ⟨inv.parked, inv.looped, queued, asked, inv.listed, inv.own, inv.once, inv.dropped⟩
    simp only [process, asks, if_true]
    exact answered.drop rfl _
  | some c =>
    simp only [asker] at asks
    obtain ⟨at_, notPing, notWatches, notEvent⟩ := asks
    rw [first, List.filterMap_cons_some asker] at queued
    obtain ⟨k, queue, waiting, asking, rest⟩ := List.map_eq_cons_iff.mp queued
    simp only [process, if_neg notPing, if_neg notWatches, if_neg notEvent]
    exact inv.receive waiting asking rest asked rfl at_

/-- A call that the event loop resumes takes the reply in front, which is its own. -/
theorem localResume (inv : s.Invariant) : s.localResume.Invariant := by
  unfold ZooCli.localResume
  cases looped : s.completion.loop with
  | nil => exact inv
  | cons k loop =>
    obtain ⟨w, at_, resumed, parked⟩ := inv.parked.localResume looped
    have below := (List.getElem?_eq_some_iff.mp at_).1
    have progress : s.completion.localResume.progress k = some (.returned 0) := by
      rw [resumed]
      exact Async.progress_awake below
    have callers : ∀ j, s.completion.localResume.caller j = s.completion.caller j := by
      intro j
      rw [resumed]
      exact Async.caller_awake at_
    have listed := inv.looped
    rw [looped, List.map_cons, eq_comm] at listed
    obtain ⟨r, rest, list, request, later⟩ := List.map_eq_cons_iff.mp listed
    simp only [progress, complete, list, List.head?_cons, List.tail_cons, callers]
    have answers := inv.listed
    rw [list] at answers
    obtain ⟨c, asked, xid⟩ := answers r List.mem_cons_self
    obtain rfl : s.completion.caller k = c := Option.some.inj (request.symm.trans asked)
    refine ⟨parked, ?_, ?_, inv.asked, fun p inside => answers p (List.mem_cons_of_mem _ inside), ?_, ?_, inv.dropped⟩
    · simp only [callers]
      rw [later, resumed]
    · rw [List.map_congr_left fun j _ => callers j, resumed]
      exact inv.queued
    · intro done member
      rcases List.mem_append.mp member with old | new
      · exact inv.own done old
      · obtain rfl := List.mem_singleton.mp new
        exact ⟨r, rfl, request, xid⟩
    · rw [List.filterMap_append, ← inv.once, list, List.append_assoc]
      rfl

/-- Every call but a multi and one that sets watches keeps the invariant. -/
theorem step (inv : s.Invariant) (single : s.Single c) (step : s.Step c s') : s'.Invariant := by
  cases c with
  | request op time tid reserved => cases step; exact inv.request single
  | ping => cases step; exact inv.sendPing
  | reply err body =>
    simp only [Step, ZooCli.call] at step
    split at step
    next => cases step
    next q pending first =>
      cases step
      exact inv.reply first err body
  | notify err body => cases step; exact inv.drop rfl _
  | waitWatches caller tid reserved | resumeWatcher | skipXid time =>
    cases step
    exact ⟨inv.parked, inv.looped, inv.queued, inv.asked, inv.listed, inv.own, inv.once, inv.dropped⟩
  | resumeCall => cases step; exact inv.localResume

theorem start : ({} : ZooCli).Invariant where
  parked := Async.allParked_empty
  looped := rfl
  queued := rfl
  asked _ queued := absurd queued List.not_mem_nil
  listed _ member := absurd member List.not_mem_nil
  own _ member := absurd member List.not_mem_nil
  once := rfl
  dropped _ member := absurd member List.not_mem_nil

end Invariant

/-- Along every run without a multi and without one that sets watches, under ordinary xids, calls and replies match. -/
theorem matches_of_single {s : ZooCli} (run : Reaches (When Single Step) {} s) : s.MatchesReplies :=
  (run.invariant (fun s _ _ (inv : s.Invariant) step => inv.step step.1 step.2) Invariant.start).matchesReplies

/-- Two calls with a ping and a refused call between them, a notification and a failed reply. -/
theorem matches_two_calls : ∃ s : ZooCli,
    s.completed.map (fun done => (done.call, done.reply.map Reply.xid, done.code)) = [(0, some 6, 0), (1, some 8, -1)] ∧
      s.MatchesReplies := by
  have run : Reaches (When Single Step) {} _ := .refl _
  have run := run.tail_when (show Step _ (.request .exists_ 5 0 3) _ from rfl) ⟨by decide, by decide, by decide⟩
  have run := run.tail_when (show Step _ .ping _ from rfl) trivial
  have run := run.tail_when (show Step _ (.skipXid 5) _ from rfl) trivial
  have run := run.tail_when (show Step _ (.request .delete_ 5 0 3) _ from rfl) ⟨by decide, by decide, by decide⟩
  have run := run.tail_when (show Step _ (.reply 0 []) _ from rfl) trivial
  have run := run.tail_when (show Step _ (.reply 0 []) _ from rfl) trivial
  have run := run.tail_when (show Step _ (.notify 0 []) _ from rfl) trivial
  have run := run.tail_when (show Step _ .resumeCall _ from rfl) trivial
  have run := run.tail_when (show Step _ (.reply (-101) []) _ from rfl) trivial
  have run := run.tail_when (show Step _ .resumeCall _ from rfl) trivial
  exact ⟨_, rfl, matches_of_single run⟩

/-- The reply to a multi goes to the call behind it, whose own reply then stays in the list; and a call that sets watches
waits for a reply that was dropped. -/
theorem mismatches : (∃ s : ZooCli, Reaches Step {} s ∧
      s.completed.map (fun done => (done.call, done.reply.map Reply.xid)) = [(0, none), (1, some 6)] ∧
      s.calls = [6, 7] ∧ s.completionList.map Reply.xid = [7] ∧ ¬ s.MatchesReplies) ∧
    ∃ s : ZooCli, Reaches Step {} s ∧ s.completed = [] ∧ s.completion.queue.map s.completion.caller = [0] ∧ s.pending = [] ∧
      ¬ s.MatchesReplies := by
  constructor
  · have run : Reaches Step ({} : ZooCli) _ := .refl _
    have run := run.tail (show Step _ (.request .multi 5 0 3) _ from rfl)
    have run := run.tail (show Step _ (.request .exists_ 5 0 3) _ from rfl)
    have run := run.tail (show Step _ (.reply 0 []) _ from rfl)
    have run := run.tail (show Step _ .resumeCall _ from rfl)
    have run := run.tail (show Step _ (.reply 0 []) _ from rfl)
    refine ⟨_, run, rfl, rfl, rfl, fun matched => ?_⟩
    exact absurd (matched.taken rfl) (by decide)
  · have run : Reaches Step ({} : ZooCli) _ := .refl _
    have run := run.tail (show Step _ (.request .setWatches 5 0 3) _ from rfl)
    have run := run.tail (show Step _ (.reply 0 []) _ from rfl)
    refine ⟨_, run, rfl, rfl, rfl, fun matched => ?_⟩
    exact matched.dropped _ List.mem_cons_self 0 List.mem_cons_self rfl

end Coev.Zookeeper.ZooCli
