import Coev.Model.Http.Session
import Coev.Soundness.Core.TaskGroup

/-! # What `get_request` makes of the callbacks

`get_request` waits for its task until the id of `finished` or of `sleep_for` comes back. These ids are 1 and 2, and a
wait returns 0 whoever ended: no call returns, however its bytes are cut, whether its message is complete or its time over.
-/

namespace Coev.Http

open Transition

/-- The loop of the call goes on for ever: neither of the two ids that it knows is what a wait returns. -/
structure Call.Waits (call : Call) : Prop where
  task : call._task.LosesIds
  finished : call._finished.toInt64 ≠ 0
  timeout : call._timeout.toInt64 ≠ 0
  returned : call.returned = none

namespace Call.Waits

variable {call : Call}

theorem wait (waits : call.Waits) : call.wait.Waits :=
  ⟨waits.task.wait .one 0 0 _, waits.finished, waits.timeout, waits.returned⟩

theorem get_request {request : Request} {reserved : ℕ → Int64} (called : Call.get_request request reserved = some call) :
    call.Waits := by
  simp only [Call.get_request, Option.bind_eq_bind, Option.bind_eq_some_iff, Prod.exists] at called
  obtain ⟨_, _, loaded₁, _, _, loaded₂, _, _, loaded₃, _, _, loaded₄, _, _, loaded₅, _, _, loaded₆, made⟩ := called
  have lost := ((Task.LosesIds.start.load loaded₁).load loaded₂).load loaded₃
  have lost := ((lost.load loaded₄).load loaded₅).load loaded₆
  obtain rfl := Option.some.inj made
  cases loaded₁
  cases loaded₂
  have finished : (Int32.ofNat 1).toInt64 ≠ 0 := by decide
  have timeout : (Int32.ofNat 2).toInt64 ≠ 0 := by decide
  exact wait ⟨lost, finished, timeout, rfl⟩

/-- The wait returned 0, and the call waits again. -/
theorem goOn (waits : call.Waits) : call.goOn.Waits := by
  unfold Call.goOn
  split
  next r _ found =>
    have zero : r.value = 0 := waits.task.zero r (List.mem_of_getElem? found)
    rw [zero, if_neg waits.timeout.symm, if_neg waits.finished.symm]
    exact wait { waits with }
  next => exact waits

theorem unload (waits : call.Waits) (part : Part) : (call.unload part).Waits :=
  goOn { waits with task := waits.task.unload part.promise }

end Call.Waits

namespace Session

variable {s t : Session} {e : Event} {c : Callback} {id : ℕ}

def Step (s : Session) (e : Event) (t : Session) : Prop := s.step e = some t

def Waits (s : Session) : Prop := ∀ call ∈ s.calls, call.Waits

namespace Waits

/-- One call is changed by what keeps it waiting. -/
theorem modify (waits : s.Waits) {f : Call → Call} (keeps : ∀ call : Call, call.Waits → (f call).Waits) :
    ∀ call ∈ s.calls.modify id f, call.Waits := by
  intro call member
  obtain ⟨j, found⟩ := List.mem_iff_getElem?.mp member
  rw [List.getElem?_modify] at found
  obtain ⟨old, there, rfl⟩ := Option.map_eq_some_iff.mp found
  have waits : old.Waits := waits old (List.mem_of_getElem? there)
  split
  · exact keeps old waits
  · exact waits

theorem proceed (waits : s.Waits) {f : Call → Call} (keeps : ∀ call : Call, call.Waits → (f call).Waits) :
    (s.proceed id f).Waits := by
  have kept : ∀ call ∈ s.calls.modify id f, call.Waits := waits.modify keeps
  unfold Session.proceed
  dsimp only
  split
  next returns =>
    obtain ⟨call, found, returned⟩ := (Option.any_eq_true _ _).mp returns
    rw [(kept call (List.mem_of_getElem? found)).returned] at returned
    cases returned
  next => exact kept

theorem unload (waits : s.Waits) (part : Part) : (s.unload id part).Waits :=
  waits.proceed fun _ waits => waits.unload part

theorem modifyRequest (waits : s.Waits) (f : Request → Request) : (s.modifyRequest id f).Waits :=
  waits.modify fun _ waits => { waits with }

theorem resumeUrl (waits : s.Waits) : s.resumeUrl.Waits := by
  unfold Session.resumeUrl
  split
  · exact waits
  next rest _ =>
    have taken : ({ s with m_url_waiter := rest } : Session).Waits := waits
    exact (taken.modifyRequest _).unload .get_url

theorem resumeHeaders (waits : s.Waits) : s.resumeHeaders.Waits := by
  unfold Session.resumeHeaders
  split
  · exact waits
  next id rest _ =>
    split
    · have taken : ({ s with m_header_waiter := rest } : Session).Waits := waits
      exact taken.unload .get_headers
    · have again : ({ s with m_header_waiter := rest ++ [id] } : Session).Waits := waits
      exact again.modifyRequest _

theorem resumeBody (waits : s.Waits) : s.resumeBody.Waits := by
  unfold Session.resumeBody
  split
  · exact waits
  next rest _ =>
    have taken : ({ s with m_body_waiter := rest } : Session).Waits := waits
    exact (taken.modifyRequest _).unload .get_body

theorem resumeStatus (waits : s.Waits) : s.resumeStatus.Waits := by
  unfold Session.resumeStatus
  split
  · exact waits
  next rest _ =>
    have taken : ({ s with m_status_waiter := rest } : Session).Waits := waits
    exact (taken.modifyRequest _).unload .get_status

theorem finishNextLoop (waits : s.Waits) : s.finishNextLoop.Waits := by
  unfold Session.finishNextLoop
  split
  · exact waits
  · exact waits.modify fun _ waits => { waits with }

theorem callback (waits : s.Waits) (c : Callback) : (s.callback c).Waits := by
  cases c with
  | on_message_begin | on_header_field => exact waits
  | on_url view => exact resumeUrl (s := { s with m_value := view }) waits
  | on_status view => exact resumeStatus (s := { s with m_value := view }) waits
  | on_header_value view => exact resumeHeaders (s := { s with m_value := view }) waits
  | on_headers_complete => exact resumeHeaders (s := s.clear) waits
  | on_body view => exact resumeBody (s := { s with m_value := view }) waits
  | on_message_complete => exact waits.finishNextLoop

theorem parse {callbacks : List Callback} (waits : s.Waits) (parsed : s.parse callbacks = some t) : t.Waits := by
  induction callbacks generalizing s with
  | nil =>
    cases parsed
    exact waits
  | cons c callbacks ih =>
    obtain ⟨next, taken, rest⟩ := Option.bind_eq_some_iff.mp parsed
    obtain ⟨phase, _, rfl⟩ := Option.map_eq_some_iff.mp taken
    exact ih (s := { s.callback c with phase, message := s.handOut c }) (waits.callback c) rest

theorem step (waits : s.Waits) (taken : Step s e t) : t.Waits := by
  cases e with
  | get_request request reserved =>
    simp only [Step, Session.step, Option.map_eq_some_iff] at taken
    obtain ⟨call, called, rfl⟩ := taken
    exact List.forall_mem_append.mpr ⟨waits, List.forall_mem_singleton.mpr (.get_request called)⟩
  | receive loop chunk callbacks =>
    obtain ⟨_, parsed⟩ := Option.ite_none_right_eq_some.mp taken
    exact parse (s := s.received loop chunk) waits parsed
  | stop loop =>
    obtain rfl := Option.some.inj taken
    exact waits
  | next id =>
    obtain ⟨_, ended⟩ := Option.ite_none_right_eq_some.mp taken
    obtain rfl := Option.some.inj ended
    exact unload (s := { s with nextLoop := s.nextLoop.erase id }) waits .finished
  | timeout id =>
    obtain ⟨_, ended⟩ := Option.ite_none_right_eq_some.mp taken
    obtain rfl := Option.some.inj ended
    exact waits.unload .sleep_for
  | again id =>
    obtain rfl := Option.some.inj taken
    exact waits.proceed fun _ waits => waits.goOn

theorem start : ({} : Session).Waits := fun _ member => absurd member List.not_mem_nil

theorem along (waits : s.Waits) (run : Reaches Step s t) : t.Waits :=
  run.invariant (fun _ _ _ waits taken => waits.step taken) waits

end Waits

/-- In every run, whatever the bytes of the requests, the chunks that they are cut into and the order of the callbacks
and of the coroutines that end, no call of `get_request` ever returns. -/
theorem get_request_never_returns (s : Session) (run : Reaches Step {} s) : ∀ call ∈ s.calls, call.returned = none := by
  have waits : s.Waits := Waits.start.along run
  exact fun call member => (waits call member).returned

/-- The bytes of a text. -/
def text (s : String) : Bytes := s.toUTF8.data.toList

/-- Two requests on one connection, of which the first one comes in two chunks: both messages are complete and gathered,
the time of both calls is over, and neither has returned. -/
theorem get_request_never_returns_two : ∃ s : Session,
    s.calls.map (fun call => (call.message.map (·.url), call.request.url, call.request.body)) =
      [(some (text "/a"), text "/a", text "hi"), (some (text "/b"), text "/b", [])] ∧
    s.calls.map (fun call => call._task.completed) = [[3, 4, 5, 1, 2], [3, 4, 1, 2]] ∧
    ∀ call ∈ s.calls, call.returned = none := by
  have run : Reaches Step {} {} := .refl _
  have run := run.tail (show Step _ (.get_request {} fun _ => 7) _ from rfl)
  have run := run.tail (show Step _ (.receive 0 (text "POST /a HTTP/1.1\r\nContent-Length: 2\r\n")
    [.on_message_begin, .on_url ⟨0, 5, 2⟩, .on_header_field ⟨0, 18, 14⟩, .on_header_value ⟨0, 34, 1⟩]) _ from rfl)
  have run := run.tail (show Step _ (.receive 0 (text "\r\nhi")
    [.on_headers_complete, .on_body ⟨0, 2, 2⟩, .on_message_complete]) _ from rfl)
  have run := run.tail (show Step _ (.next 0) _ from rfl)
  have run := run.tail (show Step _ (.timeout 0) _ from rfl)
  have run := run.tail (show Step _ (.get_request {} fun _ => 7) _ from rfl)
  have run := run.tail (show Step _ (.receive 0 (text "GET /b HTTP/1.1\r\n\r\n")
    [.on_message_begin, .on_url ⟨0, 4, 2⟩, .on_headers_complete, .on_message_complete]) _ from rfl)
  have run := run.tail (show Step _ (.next 1) _ from rfl)
  have run := run.tail (show Step _ (.timeout 1) _ from rfl)
  exact ⟨_, rfl, rfl, get_request_never_returns _ run⟩

/-- A request comes whole, its end and the end of its time are both told to the call, and the call does not return then
or later. And where the url is cut, the request has the first part of it. -/
theorem whole_request_unanswered : (∃ s : Session, Reaches Step {} s ∧
    s.calls.map (fun call => (call.message, call.request.url)) = [(some { url := text "/index" }, text "/index")] ∧
    s.calls.map (fun call => call._task.completed) = [[3, 4, 1, 2]] ∧
    ∀ t, Reaches Step s t → ∀ call ∈ t.calls, call.returned = none) ∧
    ∃ s : Session, Reaches Step {} s ∧
      s.calls.map (fun call => (call.message, call.request.url)) = [(some { url := text "/index" }, text "/in")] := by
  have asked : Reaches Step {} _ := Reaches.tail (.refl _) (show Step _ (.get_request {} fun _ => 7) _ from rfl)
  constructor
  · have run := asked.tail (show Step _ (.receive 0 (text "GET /index HTTP/1.1\r\n\r\n")
      [.on_message_begin, .on_url ⟨0, 4, 6⟩, .on_headers_complete, .on_message_complete]) _ from rfl)
    have run := run.tail (show Step _ (.next 0) _ from rfl)
    have run := run.tail (show Step _ (.timeout 0) _ from rfl)
    refine ⟨_, run, rfl, rfl, fun t later call member => ?_⟩
    have waits : t.Waits := Waits.start.along (run.trans later)
    exact (waits call member).returned
  · have run := asked.tail (show Step _ (.receive 0 (text "GET /in") [.on_message_begin, .on_url ⟨0, 4, 3⟩]) _ from rfl)
    have run := run.tail (show Step _ (.receive 0 (text "dex HTTP/1.1\r\n\r\n")
      [.on_url ⟨0, 0, 3⟩, .on_headers_complete, .on_message_complete]) _ from rfl)
    exact ⟨_, run, rfl⟩

end Session

end Coev.Http
