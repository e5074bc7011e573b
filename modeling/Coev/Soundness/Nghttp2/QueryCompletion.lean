import Coev.Model.Nghttp2.Session
import Coev.ToMathlib.Transition

/-! # Completion of queries

A query waits for the end of its stream only from the end of its sending on, and only the callback for a frame
of the stream wakes it. It completes as long as its stream is open at that point, and then is ended by the peer
or reset by it.
-/

namespace Coev.Nghttp2

open Transition

/-! ## Responses -/

/-- A response has the status, the header fields and the body of a stream. -/
structure Response.Shows (res : Response) (st : Stream) : Prop where
  status : res.status = st.status
  headers : ∀ key, res.headers[key]? = st.header key
  body : res.body = st.body

theorem Response.shows_empty : ({} : Response).Shows {} where
  status := rfl
  headers key := by simp [Stream.header]
  body := rfl

/-- A field behind others counts if it is the first of its name. -/
theorem Stream.header_append (st : Stream) {name : Bytes} (regular : name ≠ statusName) (value key : Bytes) :
    { st with headers := st.headers ++ [(name, value)] : Stream }.header key =
      (st.header key).or (if name = key then some value else none) := by
  by_cases same : name = key
  · subst same
    simp only [Stream.header, List.find?_append]
    cases List.find? (fun field => field.1 = name && field.1 ≠ statusName) st.headers <;> simp [regular]
  · simp [Stream.header, List.find?_append, same]

private theorem startsStatus_iff {name : Bytes} (valid : ValidName name) : startsStatus name ↔ name = statusName := by
  constructor
  · intro starts
    obtain rfl | ⟨nonempty, regular⟩ := valid
    · rfl
    · obtain ⟨first, rest, rfl⟩ := List.exists_cons_of_ne_nil nonempty
      have other : first ≠ 58 := fun same => regular (by simp [same])
      simp [startsStatus, statusName, List.isPrefixOf, other, Ne.symm other] at starts
  · rintro rfl
    decide

namespace Response.Shows

variable {res : Response} {st : Stream}

theorem begin_ (shows_ : res.Shows st) : res.Shows { st with begun := true } := ⟨shows_.status, shows_.headers, shows_.body⟩

private theorem end_ (shows_ : res.Shows st) : res.Shows { st with ended := true } :=
  ⟨shows_.status, shows_.headers, shows_.body⟩

theorem close (shows_ : res.Shows st) : res.Shows st.close := ⟨shows_.status, shows_.headers, shows_.body⟩

theorem append (shows_ : res.Shows st) (body : Bytes) :
    (res.append body).Shows { st with body := st.body ++ body } where
  status := shows_.status
  headers := shows_.headers
  body := congrArg (· ++ body) shows_.body

theorem addHeader (shows_ : res.Shows st) {name : Bytes} (valid : ValidName name) (value : Bytes) :
    (res.addHeader name value).Shows { st with headers := st.headers ++ [(name, value)] } := by
  unfold Response.addHeader
  by_cases status : name = statusName
  · rw [if_pos ((startsStatus_iff valid).mpr status)]
    refine ⟨?_, fun key => ?_, shows_.body⟩
    · simp [Stream.status, status]
    · rw [shows_.headers]
      simp [Stream.header, status]
  · rw [if_neg (mt (startsStatus_iff valid).mp status)]
    refine ⟨?_, fun key => ?_, shows_.body⟩
    · rw [shows_.status]
      simp [Stream.status, status]
    · rw [Stream.header_append st status, ← shows_.headers key, Std.ExtTreeMap.getElem?_insertIfNew]
      by_cases same : name = key
      · subst same
        by_cases known : name ∈ res.headers
        · simp [known]
        · simp [known]
      · simp [same]

end Response.Shows

namespace Session

variable {s t : Session} {e : Event} {id k : Int32}
variable {res : Response}

/-- A query has returned exactly when its stream was over, with what the stream carried or with an error, and
none waits for the end of a stream that is over. -/
structure Completes (s : Session) : Prop where
  answered : ∀ id code res, s.queries id = some (.returned code res) → ∃ st, s.streams id = some st ∧
    (code = 0 ∧ st.ended ∧ res.Shows st ∨ code = invalid ∧ st.aborted)
  waits : ∀ id, s.queries id = some .waiting → s.Receives id
  once : ∀ id code res, s.queries id = some (.returned code res) → ∀ e t, s.Step e t → t.queries id = s.queries id

/-- When its request is sent the stream of a query is open and the session reads; nothing is promised on it; it
is closed by a frame of its own, and not reset after its end; and the session does not end under a query. -/
def Calm (s : Session) : Event → Prop
  | .sent id => s.Receives id
  | .promise id _ _ => s.queries id = some .refused
  | .rstStream id => ∀ st ∈ s.streams id, st.ended → s.queries id ≠ some .woken
  | .streamClose id => ∀ st ∈ s.streams id, st.isOpen → s.queries id ≠ some .waiting
  | .terminate => ∀ id, s.queries id ≠ some .waiting
  | _ => True

/-! ## Operations -/

@[simp] theorem responses_changeResponse (f : Response → Response) :
    (s.changeResponse id f).responses[k]? = if id = k then some (f (s.responses[id]?.getD {})) else s.responses[k]? := by
  simp [changeResponse, Std.ExtTreeMap.getElem?_insert]

@[simp] theorem responses_removeResponse :
    (s.removeResponse id).responses[k]? = if id = k then none else s.responses[k]? := by
  simp [removeResponse, Std.ExtTreeMap.getElem?_erase]

private theorem wake_of_waiting (nonzero : id ≠ 0) (query : s.queries id = some .waiting) :
    s.wake id = s.setQuery id .woken := by
  simp [wake, nonzero, query]

private theorem wake_of_not_waiting (not : s.queries id ≠ some .waiting) : s.wake id = s := by
  unfold wake
  split
  · rfl
  · split
    next query => exact absurd query not
    next => rfl

/-! ## The invariant -/

/-- What a query that still needs it has received so far. -/
def Holds (r : Option Response) (st : Stream) : Prop := (r.getD {}).Shows st ∧ (st.begun → r.isSome)

/-- A query in its place, given its stream and its response. -/
def Fits (processing : Bool) (r : Option Response) (st : Stream) : Query → Prop
  | .sending => st.isOpen → Holds r st
  | .waiting => processing ∧ st.isOpen ∧ Holds r st
  | .woken => (st.ended ∧ ∃ res, r = some res ∧ res.Shows st) ∨ st.aborted ∧ ¬ st.ended ∧ r = none
  | .refused => True
  | .returned code res => (code = 0 ∧ st.ended ∧ res.Shows st) ∨ code = invalid ∧ st.aborted ∧ ¬ st.ended

/-- A query that has been woken or has returned has a stream that is over. -/
theorem not_isOpen_of_over {processing : Bool} {r : Option Response} {st : Stream} {q : Query}
    (fits : Fits processing r st q) (over_ : q = .woken ∨ ∃ code res, q = .returned code res) : ¬ st.isOpen := by
  have closed : st.ended ∨ st.aborted := by
    obtain rfl | ⟨code, res, rfl⟩ := over_
    · exact fits.imp And.left And.left
    · exact fits.imp (fun success => success.2.1) fun failure => failure.2.1
  obtain ended | aborted := closed
  · simp [Stream.isOpen, ended]
  · simp [Stream.isOpen, aborted]

/-- What is known of an id, used or not. -/
def At (s : Session) (id : Int32) : Prop :=
  (s.streams id = none → s.queries id = none ∧ s.responses[id]? = none) ∧
    ∀ st, s.streams id = some st → id ≠ 0 ∧ ∃ q, s.queries id = some q ∧ Fits s.processing s.responses[id]? st q

theorem At.congr (at_ : s.At id) (processing : t.processing = s.processing) (streams : t.streams id = s.streams id)
    (queries : t.queries id = s.queries id) (responses : t.responses[id]? = s.responses[id]?) : t.At id := by
  simpa only [At, processing, streams, queries, responses] using at_

/-- The invariant of a session. -/
def Inv (s : Session) : Prop := ∀ id, s.At id

private theorem inv_start : Inv {} := fun _ => ⟨fun _ => ⟨rfl, rfl⟩, fun _ known => by cases known⟩

/-- An event of one stream leaves the others alone. -/
def Elsewhere (s t : Session) (id : Int32) : Prop :=
  t.processing = s.processing ∧ ∀ k, k ≠ id →
    t.streams k = s.streams k ∧ t.queries k = s.queries k ∧ t.responses[k]? = s.responses[k]?

theorem Inv.elsewhere (inv : s.Inv) (elsewhere : s.Elsewhere t id) (here : t.At id) : t.Inv := by
  intro k
  by_cases same : k = id
  · exact same ▸ here
  · obtain ⟨streams, queries, responses⟩ := elsewhere.2 k same
    exact (inv k).congr elsewhere.1 streams queries responses

namespace Elsewhere

theorem refl (s : Session) (id : Int32) : s.Elsewhere s id := ⟨rfl, fun _ _ => ⟨rfl, rfl, rfl⟩⟩

theorem trans {u : Session} (first : s.Elsewhere t id) (rest : t.Elsewhere u id) : s.Elsewhere u id := by
  refine ⟨rest.1.trans first.1, fun k other => ?_⟩
  obtain ⟨streams, queries, responses⟩ := first.2 k other
  obtain ⟨streams', queries', responses'⟩ := rest.2 k other
  exact ⟨streams'.trans streams, queries'.trans queries, responses'.trans responses⟩

theorem changeResponse (f : Response → Response) : s.Elsewhere (s.changeResponse id f) id :=
  ⟨rfl, fun k other => ⟨rfl, rfl, by rw [responses_changeResponse, if_neg other.symm]⟩⟩

theorem removeResponse : s.Elsewhere (s.removeResponse id) id :=
  ⟨rfl, fun k other => ⟨rfl, rfl, by rw [responses_removeResponse, if_neg other.symm]⟩⟩

theorem setQuery (q : Query) : s.Elsewhere (s.setQuery id q) id :=
  ⟨rfl, fun _ other => ⟨rfl, Function.update_of_ne other _ _, rfl⟩⟩

theorem changeStream (f : Stream → Stream) : s.Elsewhere (s.changeStream id f) id :=
  ⟨rfl, fun _ other => ⟨Function.update_of_ne other _ _, rfl, rfl⟩⟩

theorem wake : s.Elsewhere (s.wake id) id := by
  unfold Session.wake
  split
  · exact refl s id
  · split
    · exact setQuery .woken
    · exact refl s id

theorem finish : s.Elsewhere (s.finish id) id := by
  unfold Session.finish
  split
  · exact removeResponse.trans (setQuery _)
  · exact setQuery _

end Elsewhere

namespace Inv

variable {st : Stream} {q : Query}

/-- What is known of the stream of an event. -/
theorem known (inv : s.Inv) (stream : s.streams id = some st) :
    id ≠ 0 ∧ ∃ q, s.queries id = some q ∧ Fits s.processing s.responses[id]? st q := (inv id).2 st stream

private theorem stream_of_query (inv : s.Inv) (query : s.queries id = some q) : ∃ st, s.streams id = some st := by
  rw [← Option.isSome_iff_exists, Option.isSome_iff_ne_none]
  intro fresh
  exact Option.some_ne_none q (query.symm.trans ((inv id).1 fresh).1)

/-- A stream that is in use is left at its place by an event that gives it a new state and its query a fitting one. -/
theorem at_of_fits {st' : Stream} {q' : Query} (nonzero : id ≠ 0) (stream : t.streams id = some st')
    (query : t.queries id = some q') (fits : Fits t.processing t.responses[id]? st' q') : t.At id := by
  refine ⟨fun fresh => ?_, fun st known => ?_⟩
  · exact absurd (stream.symm.trans fresh) (Option.some_ne_none _)
  · obtain rfl := Option.some.inj (stream.symm.trans known)
    exact ⟨nonzero, q', query, fits⟩

theorem submit (inv : s.Inv) (nonzero : id ≠ 0) (fresh : s.streams id = none) : (s.apply (.submit id)).Inv := by
  refine inv.elsewhere ⟨rfl, fun k other => ?_⟩ (at_of_fits nonzero (Function.update_self ..) (Function.update_self ..) ?_)
  · exact ⟨Function.update_of_ne other _ _, Function.update_of_ne other _ _, rfl⟩
  · intro _
    have nothing : (s.apply (.submit id)).responses[id]? = none := ((inv id).1 fresh).2
    rw [nothing]
    exact ⟨Response.shows_empty, nofun⟩

theorem sent (inv : s.Inv) (stream : s.streams id = some st) (sending : s.queries id = some .sending)
    (receives : s.Receives id) : (s.apply (.sent id)).Inv := by
  obtain ⟨nonzero, q, query, fits⟩ := inv.known stream
  obtain rfl := Option.some.inj (query.symm.trans sending)
  obtain ⟨processing, st', same, isOpen⟩ := receives
  obtain rfl := Option.some.inj (stream.symm.trans same)
  exact inv.elsewhere (.setQuery .waiting)
    (at_of_fits nonzero stream (Function.update_self ..) ⟨processing, isOpen, fits isOpen⟩)

theorem sendFails (inv : s.Inv) (stream : s.streams id = some st) : (s.apply (.sendFails id)).Inv := by
  obtain ⟨nonzero, -⟩ := inv.known stream
  exact inv.elsewhere (.setQuery .refused) (at_of_fits nonzero stream (Function.update_self ..) trivial)

/-- A query fits what its stream carries once both have gone on alike. -/
theorem receive (inv : s.Inv) (receives : s.Receives id) {f : Response → Response} {g : Stream → Stream}
    (opens : ∀ st, (g st).isOpen = st.isOpen)
    (follows : ∀ st, s.streams id = some st → ∀ res : Response, res.Shows st → (f res).Shows (g st)) :
    ((s.changeResponse id f).changeStream id g).Inv := by
  obtain ⟨processing, st, stream, isOpen⟩ := receives
  obtain ⟨nonzero, q, query, fits⟩ := inv.known stream
  have changed : ((s.changeResponse id f).changeStream id g).responses[id]? = some (f (s.responses[id]?.getD {})) := by
    simp [Session.changeStream]
  have streams : ((s.changeResponse id f).changeStream id g).streams id = some (g st) := by
    simp [Session.changeStream, Session.changeResponse, stream]
  have holds (before : Holds s.responses[id]? st) :
      Holds ((s.changeResponse id f).changeStream id g).responses[id]? (g st) := by
    rw [changed]
    exact ⟨follows st stream _ before.1, fun _ => rfl⟩
  refine inv.elsewhere ((Elsewhere.changeResponse f).trans (.changeStream g)) (at_of_fits nonzero streams query ?_)
  cases q with
  | sending => exact fun _ => holds (fits isOpen)
  | waiting => exact ⟨processing, (opens st).trans isOpen, holds fits.2.2⟩
  | refused => trivial
  | woken => exact absurd isOpen (not_isOpen_of_over fits (.inl rfl))
  | returned code res => exact absurd isOpen (not_isOpen_of_over fits (.inr ⟨code, res, rfl⟩))

theorem promise (inv : s.Inv) (stream : s.streams id = some st) (refused : s.queries id = some .refused)
    (f : Response → Response) : (s.changeResponse id f).Inv := by
  obtain ⟨nonzero, -⟩ := inv.known stream
  exact inv.elsewhere (.changeResponse f) (at_of_fits nonzero stream refused trivial)

theorem endStream (inv : s.Inv) (receives : s.Receives id) (begun : ∀ st ∈ s.streams id, st.begun) :
    (s.apply (.endStream id)).Inv := by
  obtain ⟨processing, st, stream, isOpen⟩ := receives
  obtain ⟨nonzero, q, query, fits⟩ := inv.known stream
  have streams (u : Session) (same : u.streams = s.streams) :
      (u.changeStream id fun st => { st with ended := true }).streams id = some { st with ended := true } := by
    simp [Session.changeStream, same, stream]
  refine inv.elsewhere (Elsewhere.wake.trans (.changeStream _)) ?_
  change ((s.wake id).changeStream id fun st => { st with ended := true }).At id
  cases q with
  | waiting =>
    rw [wake_of_waiting nonzero query]
    refine at_of_fits nonzero (streams _ rfl) (Function.update_self ..) (.inl ⟨rfl, ?_⟩)
    obtain ⟨-, -, shows_, has⟩ := fits
    obtain ⟨res, found⟩ := Option.isSome_iff_exists.mp (has (begun st stream))
    rw [found] at shows_
    exact ⟨res, found, shows_.end_⟩
  | sending =>
    rw [wake_of_not_waiting (by simp [query])]
    exact at_of_fits nonzero (streams s rfl) query fun opened => by simp [Stream.isOpen] at opened
  | refused =>
    rw [wake_of_not_waiting (by simp [query])]
    exact at_of_fits nonzero (streams s rfl) query trivial
  | woken => exact absurd isOpen (not_isOpen_of_over fits (.inl rfl))
  | returned code res => exact absurd isOpen (not_isOpen_of_over fits (.inr ⟨code, res, rfl⟩))

private theorem close_of_returned {processing : Bool} {r r' : Option Response} {code : Int64}
    (fits : Fits processing r st (.returned code res)) : Fits processing r' st.close (.returned code res) := by
  obtain ⟨zero, ended, shows_⟩ | ⟨failed, aborted, notEnded⟩ := fits
  · exact .inl ⟨zero, ended, shows_.close⟩
  · exact .inr ⟨failed, by simpa [Stream.close] using notEnded, notEnded⟩

private theorem not_isOpen_close (st : Stream) : ¬ st.close.isOpen := by
  cases ended : st.ended <;> simp [Stream.close, Stream.isOpen, ended]

theorem rstStream (inv : s.Inv) (stream : s.streams id = some st)
    (calm : ∀ st ∈ s.streams id, st.ended → s.queries id ≠ some .woken) : (s.apply (.rstStream id)).Inv := by
  obtain ⟨nonzero, q, query, fits⟩ := inv.known stream
  have streams (u : Session) (same : u.streams = s.streams) : (u.changeStream id .close).streams id = some st.close := by
    simp [Session.changeStream, same, stream]
  have removed : (s.removeResponse id).responses[id]? = none := by simp
  refine inv.elsewhere (Elsewhere.removeResponse.trans (Elsewhere.wake.trans (.changeStream _))) ?_
  change (((s.removeResponse id).wake id).changeStream id .close).At id
  cases q with
  | waiting =>
    obtain ⟨-, isOpen, -⟩ := fits
    have notEnded : ¬ st.ended := fun ended => by simp [Stream.isOpen, ended] at isOpen
    rw [wake_of_waiting (s := s.removeResponse id) nonzero query]
    refine at_of_fits nonzero (streams _ rfl) (Function.update_self ..) (.inr ?_)
    exact ⟨by simpa [Stream.close] using notEnded, notEnded, removed⟩
  | sending =>
    rw [wake_of_not_waiting (by simp [Session.removeResponse, query])]
    exact at_of_fits nonzero (streams _ rfl) query fun opened => absurd opened (not_isOpen_close st)
  | refused =>
    rw [wake_of_not_waiting (by simp [Session.removeResponse, query])]
    exact at_of_fits nonzero (streams _ rfl) query trivial
  | woken =>
    have notEnded : ¬ st.ended := fun ended => calm st stream ended query
    rw [wake_of_not_waiting (by simp [Session.removeResponse, query])]
    exact at_of_fits nonzero (streams _ rfl) query (.inr ⟨by simpa [Stream.close] using notEnded, notEnded, removed⟩)
  | returned code res =>
    rw [wake_of_not_waiting (by simp [Session.removeResponse, query])]
    exact at_of_fits nonzero (streams _ rfl) query (close_of_returned fits)

theorem streamClose (inv : s.Inv) (stream : s.streams id = some st)
    (calm : ∀ st ∈ s.streams id, st.isOpen → s.queries id ≠ some .waiting) : (s.apply (.streamClose id)).Inv := by
  obtain ⟨nonzero, q, query, fits⟩ := inv.known stream
  have streams : (s.changeStream id .close).streams id = some st.close := by simp [Session.changeStream, stream]
  refine inv.elsewhere (.changeStream _) (at_of_fits nonzero streams query ?_)
  cases q with
  | waiting => exact absurd query (calm st stream fits.2.1)
  | sending => exact fun opened => absurd opened (not_isOpen_close st)
  | refused => trivial
  | woken =>
    obtain ⟨ended, res, found, shows_⟩ | ⟨-, notEnded, none_⟩ := fits
    · exact .inl ⟨ended, res, found, shows_.close⟩
    · exact .inr ⟨by simpa [Stream.close] using notEnded, notEnded, none_⟩
  | returned code res => exact close_of_returned fits

theorem goaway (inv : s.Inv) : (s.apply .goaway).Inv := by
  have zero : s.streams 0 = none := by
    rw [← Option.not_isSome_iff_eq_none, Option.isSome_iff_exists]
    rintro ⟨st, stream⟩
    exact (inv.known stream).1 rfl
  have same : s.apply .goaway = s.removeResponse 0 := rfl
  rw [same]
  refine inv.elsewhere Elsewhere.removeResponse ⟨fun _ => ⟨((inv 0).1 zero).1, by simp⟩, fun st stream => ?_⟩
  exact absurd (zero.symm.trans stream) (Option.some_ne_none st).symm

theorem terminate (inv : s.Inv) (calm : ∀ id, s.queries id ≠ some .waiting) : (s.apply .terminate).Inv := by
  intro id
  refine ⟨(inv id).1, fun st stream => ?_⟩
  obtain ⟨nonzero, q, query, fits⟩ := inv.known stream
  refine ⟨nonzero, q, query, ?_⟩
  cases q with
  | waiting => exact absurd query (calm id)
  | _ => exact fits

theorem resume (inv : s.Inv) (woken : s.queries id = some .woken) : (s.apply (.resume id)).Inv := by
  obtain ⟨st, stream⟩ := inv.stream_of_query woken
  obtain ⟨nonzero, q, query, fits⟩ := inv.known stream
  obtain rfl := Option.some.inj (query.symm.trans woken)
  refine inv.elsewhere Elsewhere.finish ?_
  change (s.finish id).At id
  obtain ⟨ended, res, found, shows_⟩ | ⟨aborted, notEnded, none_⟩ := fits
  · have result : s.finish id = (s.removeResponse id).setQuery id (.returned 0 res) := by simp [Session.finish, found]
    rw [result]
    exact at_of_fits nonzero stream (Function.update_self ..) (.inl ⟨rfl, ended, shows_⟩)
  · have result : s.finish id = s.setQuery id (.returned invalid {}) := by simp [Session.finish, none_]
    rw [result]
    exact at_of_fits nonzero stream (Function.update_self ..) (.inr ⟨rfl, aborted, notEnded⟩)

/-- One step. -/
theorem step (inv : s.Inv) (calm : s.Calm e) (step : s.Step e t) : t.Inv := by
  obtain ⟨possible, rfl⟩ := step
  cases e with
  | submit id => exact inv.submit possible.2.1 possible.2.2
  | sent id =>
    obtain ⟨st, stream, sending⟩ := possible
    exact inv.sent stream sending calm
  | sendFails id =>
    obtain ⟨st, stream, -⟩ := possible
    exact inv.sendFails stream
  | beginHeaders id => exact inv.receive possible (fun _ => rfl) fun _ _ _ shows_ => shows_.begin_
  | header id name value =>
    exact inv.receive possible.1 (fun _ => rfl) fun _ _ _ shows_ => shows_.addHeader possible.2.1 value
  | promise id name value =>
    obtain ⟨-, st, stream, -⟩ := possible.1
    exact inv.promise stream calm _
  | data id body => exact inv.receive possible.1 (fun _ => rfl) fun _ _ _ shows_ => shows_.append body
  | endStream id => exact inv.endStream possible.1 possible.2
  | rstStream id =>
    obtain ⟨st, stream⟩ := Option.isSome_iff_exists.mp possible.2
    exact inv.rstStream stream calm
  | goaway => exact inv.goaway
  | streamClose id =>
    obtain ⟨st, stream⟩ := Option.isSome_iff_exists.mp possible.2
    exact inv.streamClose stream calm
  | terminate => exact inv.terminate calm
  | resume id => exact inv.resume possible

end Inv

/-! ## Queries -/

private theorem queries_wake_of_returned {code : Int64} (returned : s.queries id = some (.returned code res)) (k : Int32) :
    (s.wake k).queries id = s.queries id := by
  by_cases waiting : s.queries k = some .waiting
  · have other : id ≠ k := by
      rintro rfl
      simp [returned] at waiting
    exact (Elsewhere.wake.2 id other).2.1
  · rw [wake_of_not_waiting waiting]

/-- A query returns once. -/
theorem Inv.once (inv : s.Inv) {code : Int64} (returned : s.queries id = some (.returned code res)) (step : s.Step e t) :
    t.queries id = s.queries id := by
  obtain ⟨possible, rfl⟩ := step
  have other {k : Int32} (differs : s.queries k ≠ some (.returned code res)) : id ≠ k := by
    rintro rfl
    exact differs returned
  cases e with
  | submit k =>
    refine Function.update_of_ne (other ?_) _ _
    rw [((inv k).1 possible.2.2).1]
    nofun
  | sent k | sendFails k =>
    obtain ⟨st, -, sending⟩ := possible
    exact Function.update_of_ne (other (by simp [sending])) _ _
  | endStream k => exact queries_wake_of_returned returned k
  | rstStream k => exact queries_wake_of_returned (s := s.removeResponse k) returned k
  | resume k => exact (Elsewhere.finish.2 id (other (by simp [show s.queries k = some .woken from possible]))).2.1
  | _ => rfl

theorem Inv.completes (inv : s.Inv) : s.Completes where
  answered id code res returned := by
    obtain ⟨st, stream⟩ := inv.stream_of_query returned
    obtain ⟨-, q, query, fits⟩ := inv.known stream
    obtain rfl := Option.some.inj (query.symm.trans returned)
    exact ⟨st, stream, fits.imp_right fun failed => ⟨failed.1, failed.2.1⟩⟩
  waits id waiting := by
    obtain ⟨st, stream⟩ := inv.stream_of_query waiting
    obtain ⟨-, q, query, fits⟩ := inv.known stream
    obtain rfl := Option.some.inj (query.symm.trans waiting)
    exact ⟨fits.1, st, stream, fits.2.1⟩
  once id code res returned e t step := inv.once returned step

/-- Along every run of calm steps queries complete. -/
theorem completes_of_calm {s : Session} (run : Reaches (When Calm Step) {} s) : s.Completes := by
  have keeps : ∀ s e t, Inv s → When Calm Step s e t → Inv t := fun _ _ _ inv step => inv.step step.1 step.2
  exact (run.invariant keeps inv_start).completes

/-- Two queries: one is answered while the other is sent, the other is reset. -/
theorem completes_two_queries : ∃ s : Session,
    s.queries 1 = some (.returned 0 { status := [50, 48, 48], body := [104, 105] }) ∧
      s.queries 3 = some (.returned invalid {}) ∧ s.Completes := by
  have run : Reaches (When Calm Step) ({} : Session) _ := .refl _
  have run := run.tail_when (show Step _ (.submit 1) _ from ⟨⟨rfl, by decide, rfl⟩, rfl⟩) trivial
  have run := run.tail_when (show Step _ (.sent 1) _ from ⟨⟨_, rfl, rfl⟩, rfl⟩) ⟨rfl, _, rfl, rfl⟩
  have run := run.tail_when (show Step _ (.submit 3) _ from ⟨⟨rfl, by decide, rfl⟩, rfl⟩) trivial
  have run := run.tail_when (show Step _ (.beginHeaders 1) _ from ⟨⟨rfl, _, rfl, rfl⟩, rfl⟩) trivial
  have run := run.tail_when (show Step _ (.header 1 statusName [50, 48, 48]) _ from
    ⟨⟨⟨rfl, _, rfl, rfl⟩, .inl rfl, by rintro _ ⟨⟩; rfl⟩, rfl⟩) trivial
  have run :=
    run.tail_when (show Step _ (.data 1 [104, 105]) _ from ⟨⟨⟨rfl, _, rfl, rfl⟩, by rintro _ ⟨⟩; rfl⟩, rfl⟩) trivial
  have run := run.tail_when (show Step _ (.endStream 1) _ from ⟨⟨⟨rfl, _, rfl, rfl⟩, by rintro _ ⟨⟩; rfl⟩, rfl⟩) trivial
  have run := run.tail_when (show Step _ (.sent 3) _ from ⟨⟨_, rfl, rfl⟩, rfl⟩) ⟨rfl, _, rfl, rfl⟩
  have run := run.tail_when (show Step _ (.rstStream 3) _ from ⟨⟨rfl, rfl⟩, rfl⟩) (by rintro _ ⟨⟩ ⟨⟩)
  have run := run.tail_when (show Step _ (.resume 3) _ from ⟨rfl, rfl⟩) trivial
  have run := run.tail_when (show Step _ (.resume 1) _ from ⟨rfl, rfl⟩) trivial
  exact ⟨_, rfl, rfl, completes_of_calm run⟩

/-- The response is complete while the request is still being sent; the query then waits for good. -/
theorem waits_for_past_end : ∃ s : Session, Reaches Step {} s ∧ ¬ s.Completes := by
  have run : Reaches Step ({} : Session) _ := .refl _
  have run := run.tail (show Step _ (.submit 1) _ from ⟨⟨rfl, by decide, rfl⟩, rfl⟩)
  have run := run.tail (show Step _ (.beginHeaders 1) _ from ⟨⟨rfl, _, rfl, rfl⟩, rfl⟩)
  have run := run.tail (show Step _ (.endStream 1) _ from ⟨⟨⟨rfl, _, rfl, rfl⟩, by rintro _ ⟨⟩; rfl⟩, rfl⟩)
  have run := run.tail (show Step _ (.sent 1) _ from ⟨⟨_, rfl, rfl⟩, rfl⟩)
  refine ⟨_, run, fun completes => ?_⟩
  obtain ⟨-, st, ⟨⟩, isOpen⟩ := completes.waits 1 rfl
  exact absurd isOpen (by decide)

end Session

end Coev.Nghttp2
