import Coev.Model.Kafka.BrokerOpen
import Coev.ToMathlib.Transition

/-! # Dialing once, and authentication before use
A connection that is open while no `Open` is in its exchange is authenticated when SASL is enabled, so a request may be
written then. `Dial` is called once as long as it is called on a closed connection.
-/

namespace Coev.Kafka

open Transition

/-- An `Open` is in the exchange of a connection. -/
def BrokerCall.opensIn (epoch : ℕ) : BrokerCall → Prop
  | .versions own _ | .authenticating own => own = epoch
  | _ => False

namespace BrokerConn

variable {s t : BrokerConn} {e : Event} {id epoch : ℕ} {call : BrokerCall}

def Step (s : BrokerConn) (e : Event) (t : BrokerConn) : Prop := s.step e = some t

/-- Some `Open` is in the exchange of a connection. -/
def Exchanging (s : BrokerConn) (epoch : ℕ) : Prop := ∃ call ∈ s.calls, call.opensIn epoch

/-- `Dial` is called on a closed connection, SASL is not enabled on an open one, and what is not part of an exchange is
written behind the exchange of `Open`. -/
def Regular (s : BrokerConn) : Event → Prop
  | .open_ conf => conf.valid = true → s.m_state = .opened → conf.saslEnable = true → s.m_conf.saslEnable = true
  | .resolved _ ok => ok = true → s.m_state = .closed
  | .resume id => s.calls[id]? = some (.waiting true) → s.m_addr = .numeric → s.m_state = .closed
  | .write id => ∀ key, s.calls[id]? = some (.ready key) → key ∈ early ∨ s.m_conf.saslEnable = false ∨ ¬s.Exchanging s.epoch
  | _ => True

/-- One `Dial` in an epoch, and with SASL nothing but the requests of an exchange is written before authentication has
succeeded. -/
structure Guarded (s : BrokerConn) : Prop where
  once : s.dials.Nodup
  first : ∀ w ∈ s.writes, w.saslEnable = true → w.key ∈ early ∨ w.authenticated = true

/-- A connection that is open while no `Open` is in its exchange is authenticated. -/
structure Sound (s : BrokerConn) : Prop extends Guarded s where
  past : ∀ dialed ∈ s.dials, dialed ≤ s.epoch ∧ (s.m_state = .closed → dialed < s.epoch)
  states : s.m_state ≠ .postOpened
  gated : s.m_state = .opened → s.m_conf.saslEnable = true → s.authenticated = true ∨ s.Exchanging s.epoch

/-! ## Calls in an exchange -/

theorem Exchanging.setCall (exchanging : s.Exchanging epoch) (found : s.calls[id]? = some call) (other : ¬call.opensIn epoch)
    (new : BrokerCall) : (s.setCall id new).Exchanging epoch := by
  obtain ⟨witness, member, opens⟩ := exchanging
  obtain ⟨j, at_⟩ := List.mem_iff_getElem?.mp member
  have different : id ≠ j := by
    rintro rfl
    obtain rfl := Option.some.inj (found.symm.trans at_)
    exact other opens
  have kept : (s.calls.set id new)[j]? = some witness := (List.getElem?_set_ne different).trans at_
  exact ⟨witness, List.mem_of_getElem? kept, opens⟩

private theorem exchanging_setCall (found : s.calls[id]? = some call) (new : BrokerCall) (opens : new.opensIn epoch) :
    (s.setCall id new).Exchanging epoch := by
  have below : id < s.calls.length := (List.getElem?_eq_some_iff.mp found).1
  have at_ : (s.calls.set id new)[id]? = some new := List.getElem?_set_self below
  exact ⟨new, List.mem_of_getElem? at_, opens⟩

/-- An `Open` may go on in its exchange. -/
theorem Exchanging.next (exchanging : s.Exchanging epoch) (found : s.calls[id]? = some call) {new : BrokerCall}
    (own : call.opensIn epoch → new.opensIn epoch) : (s.setCall id new).Exchanging epoch := by
  obtain opens | other := Classical.em (call.opensIn epoch)
  · exact exchanging_setCall found new (own opens)
  · exact exchanging.setCall found other new

theorem Exchanging.resumeOpened (exchanging : s.Exchanging epoch) : s.resumeOpened.Exchanging epoch := by
  obtain ⟨witness, member, opens⟩ := exchanging
  refine ⟨witness.resume, List.mem_map_of_mem member, ?_⟩
  cases witness <;> exact opens

theorem Exchanging.openReturns {err : KError} (exchanging : s.Exchanging epoch) (found : s.calls[id]? = some call)
    (other : ¬call.opensIn epoch) : (s.openReturns id err).Exchanging epoch :=
  (exchanging.setCall found other (.returned err)).resumeOpened

theorem Exchanging.append (exchanging : s.Exchanging epoch) (calls : List BrokerCall) :
    ({ s with calls := s.calls ++ calls } : BrokerConn).Exchanging epoch := by
  obtain ⟨witness, member, opens⟩ := exchanging
  exact ⟨witness, List.mem_append_left calls member, opens⟩

/-! ## What the parts of a step keep -/

theorem Sound.of_calls {calls : List BrokerCall} (sound : s.Sound)
    (kept : s.Exchanging s.epoch → ({ s with calls := calls } : BrokerConn).Exchanging s.epoch) :
    ({ s with calls := calls } : BrokerConn).Sound :=
  ⟨⟨sound.once, sound.first⟩, sound.past, sound.states, fun opened enabled => (sound.gated opened enabled).imp_right kept⟩

/-- Nothing is asked of a connection that is not open. -/
theorem Sound.of_unopened {calls : List BrokerCall} (sound : s.Sound) (unopened : s.m_state ≠ .opened) :
    ({ s with calls := calls } : BrokerConn).Sound :=
  ⟨⟨sound.once, sound.first⟩, sound.past, sound.states, fun opened => absurd opened unopened⟩

theorem Sound.closed (sound : s.Sound) : ({ s with m_state := .closed, epoch := s.epoch + 1 } : BrokerConn).Sound := by
  have past (dialed : ℕ) (member : dialed ∈ s.dials) : dialed < s.epoch + 1 := Nat.lt_succ_of_le (sound.past dialed member).1
  exact ⟨⟨sound.once, sound.first⟩, fun dialed member =>
    ⟨(past dialed member).le, fun _ => past dialed member⟩, nofun, nofun⟩

private theorem close_state (s : BrokerConn) : s.close.m_state ≠ .opened := by
  unfold BrokerConn.close
  split <;> nofun

theorem Sound.close (sound : s.Sound) : s.close.Sound := by
  unfold BrokerConn.close
  split
  · exact sound.closed.of_unopened nofun
  · exact sound.closed.of_unopened nofun

/-- A connection that has just been made is in an exchange when SASL is enabled. -/
theorem Sound.openDialed (sound : s.Sound) (found : s.calls[id]? = some call) :
    (({ s with m_state := .opened } : BrokerConn).openDialed id).Sound := by
  have opened (calls : List BrokerCall) (exchanging : s.m_conf.saslEnable = true →
      ({ s with calls := calls } : BrokerConn).Exchanging s.epoch) :
        ({ s with m_state := .opened, calls := calls } : BrokerConn).Sound :=
    ⟨⟨sound.once, sound.first⟩, fun dialed member => ⟨(sound.past dialed member).1, nofun⟩, nofun, fun _ enabled =>
      .inr (exchanging enabled)⟩
  unfold BrokerConn.openDialed
  split
  · exact opened _ fun _ => exchanging_setCall found (.versions s.epoch 3) rfl
  · unfold BrokerConn.openSasl
    split
    · exact opened _ fun _ => exchanging_setCall found (.authenticating s.epoch) rfl
    · next disabled => exact opened _ fun enabled => absurd enabled disabled

theorem Sound.dial (sound : s.Sound) (closed : s.m_state = .closed) (id : ℕ) : (s.dial id).Sound := by
  have fresh : s.epoch ∉ s.dials := fun member => Nat.lt_irrefl _ ((sound.past _ member).2 closed)
  refine ⟨⟨?_, sound.first⟩, ?_, nofun, nofun⟩
  · exact List.nodup_append.mpr ⟨sound.once, List.nodup_singleton _, fun a member b last same => by
      obtain rfl := List.mem_singleton.mp last
      exact fresh (same ▸ member)⟩
  · intro dialed member
    refine ⟨?_, nofun⟩
    obtain before | last := List.mem_append.mp member
    · exact (sound.past dialed before).1
    · exact (List.mem_singleton.mp last).le

theorem Sound.openAddr (sound : s.Sound) (closed : s.m_addr = .numeric → s.m_state = .closed)
    (found : s.calls[id]? = some call) (other : ¬call.opensIn s.epoch) : (s.openAddr id).Sound := by
  unfold BrokerConn.openAddr
  split
  · exact sound.of_calls fun exchanging => exchanging.openReturns found other
  · next numeric => exact sound.dial (closed numeric) id
  · exact sound.of_calls fun exchanging => exchanging.setCall found other _

theorem Sound.checkReady {key : Int16} (sound : s.Sound) (found : s.calls[id]? = some call) (other : ¬call.opensIn s.epoch) :
    (s.checkReady id key).Sound := by
  unfold BrokerConn.checkReady
  split <;> exact sound.of_calls fun exchanging => exchanging.setCall found other _

theorem Sound.written {key : Int16} (sound : s.Sound)
    (first : s.m_conf.saslEnable = true → key ∈ early ∨ s.authenticated = true) : (s.written key).Sound := by
  refine ⟨⟨sound.once, fun w member => ?_⟩, sound.past, sound.states, sound.gated⟩
  obtain before | last := List.mem_append.mp member
  · exact sound.first w before
  · obtain rfl := List.mem_singleton.mp last
    exact first

/-- An `Open` in the exchange of a connection goes on with SASL when that is enabled, and else returns. -/
theorem Sound.openSasl (sound : s.Sound) (found : s.calls[id]? = some call) (own : call.opensIn s.epoch → epoch = s.epoch) :
    (s.openSasl id epoch).Sound := by
  unfold BrokerConn.openSasl
  split
  · exact sound.of_calls fun exchanging => exchanging.next found own
  · next disabled =>
    exact ⟨⟨sound.once, sound.first⟩, sound.past, sound.states, fun _ enabled => absurd enabled disabled⟩

theorem Sound.step (sound : s.Sound) (regular : s.Regular e) (taken : Step s e t) : t.Sound := by
  cases e with
  | open_ conf =>
    have found : (s.calls ++ [BrokerCall.waiting false])[s.calls.length]? = some (.waiting false) :=
      List.getElem?_concat_length
    dsimp only [Step, BrokerConn.step] at taken
    split at taken
    · obtain rfl := Option.some.inj taken
      exact sound.of_calls fun exchanging => exchanging.append _
    · next valid =>
      have configured : ({ s with m_conf := conf, calls := s.calls ++ [.waiting false] } : BrokerConn).Sound := by
        refine ⟨⟨sound.once, sound.first⟩, sound.past, sound.states, fun opened enabled => ?_⟩
        have before := regular (Bool.not_eq_false _ ▸ valid) opened enabled
        exact (sound.gated opened before).imp_right fun exchanging => exchanging.append _
      split at taken
      · obtain rfl := Option.some.inj taken
        exact configured.of_calls fun exchanging => exchanging.openReturns found nofun
      · obtain rfl := Option.some.inj taken
        exact configured
      · next closed =>
        obtain rfl := Option.some.inj taken
        exact configured.openAddr (fun _ => closed) found nofun
      · next postOpened => exact absurd postOpened sound.states
  | resolved id ok =>
    obtain ⟨found, taken⟩ := Option.ite_none_right_eq_some.mp taken
    obtain rfl := Option.some.inj taken
    cases ok with
    | true => exact sound.dial (regular rfl) id
    | false => exact sound.of_calls fun exchanging => exchanging.openReturns found nofun
  | connected id ok =>
    obtain ⟨found, taken⟩ := Option.ite_none_right_eq_some.mp taken
    obtain rfl := Option.some.inj taken
    cases ok with
    | true => exact sound.openDialed found
    | false => exact sound.closed.of_unopened nofun
  | versioned id ok =>
    dsimp only [Step, BrokerConn.step] at taken
    split at taken
    · next own version found =>
      obtain rfl := Option.some.inj taken
      split
      · exact sound.openSasl found fun opens => opens
      · split
        · exact sound.close.of_unopened s.close_state
        · exact sound.of_calls fun exchanging => exchanging.next found fun opens => opens
    · cases taken
  | authenticated id ok =>
    dsimp only [Step, BrokerConn.step] at taken
    split at taken
    · next own found =>
      obtain rfl := Option.some.inj taken
      split
      · refine ⟨⟨sound.once, sound.first⟩, sound.past, sound.states, fun opened enabled => ?_⟩
        obtain rfl | different := eq_or_ne own s.epoch
        · exact .inl (by simp [openReturns, setCall, resumeOpened])
        · obtain before | exchanging := sound.gated opened enabled
          · exact .inl (by simp [openReturns, setCall, resumeOpened, before])
          · exact .inr
              (exchanging.openReturns
                (s := { s with authenticated := s.authenticated || own = s.epoch }) found different)
      · exact sound.close.of_unopened s.close_state
    · cases taken
  | send key due =>
    obtain rfl := Option.some.inj taken
    have begun : ({ s with calls := s.calls ++ [BrokerCall.reauthenticating key] } : BrokerConn).Sound :=
      sound.of_calls fun exchanging => exchanging.append _
    cases due with
    | true => exact begun
    | false => exact begun.checkReady List.getElem?_concat_length nofun
  | reauthenticated id err =>
    dsimp only [Step, BrokerConn.step] at taken
    split at taken
    · next key found =>
      obtain rfl := Option.some.inj taken
      split
      · exact sound.checkReady found nofun
      · exact sound.of_calls fun exchanging => exchanging.setCall found nofun _
    · cases taken
  | resume id =>
    dsimp only [Step, BrokerConn.step] at taken
    split at taken
    · next found =>
      obtain rfl := Option.some.inj taken
      split
      · exact sound.of_calls fun exchanging => exchanging.openReturns found nofun
      · exact sound.openAddr (regular found) found nofun
    · next key found =>
      obtain rfl := Option.some.inj taken
      exact sound.of_calls fun exchanging => exchanging.setCall found nofun _
    · cases taken
  | exchange id key =>
    obtain ⟨⟨_, part, _⟩, taken⟩ := Option.ite_none_right_eq_some.mp taken
    obtain rfl := Option.some.inj taken
    exact sound.written fun _ => .inl part
  | write id =>
    dsimp only [Step, BrokerConn.step] at taken
    split at taken
    · next key found =>
      obtain ⟨opened, taken⟩ := Option.ite_none_right_eq_some.mp taken
      obtain rfl := Option.some.inj taken
      have sent : (s.setCall id (.sent key)).Sound := sound.of_calls fun exchanging => exchanging.setCall found nofun _
      apply sent.written
      intro enabled
      obtain part | disabled | over_ := regular key found
      · exact .inl part
      · exact absurd (disabled.symm.trans enabled) nofun
      · exact .inr ((sound.gated opened enabled).resolve_right over_)
    · cases taken
  | receive id err =>
    dsimp only [Step, BrokerConn.step] at taken
    split at taken
    · next key found =>
      obtain rfl := Option.some.inj taken
      exact sound.of_calls fun exchanging => exchanging.setCall found nofun _
    · cases taken
  | close =>
    obtain rfl := Option.some.inj taken
    exact sound.close

/-- In every run in which `Dial` is called on a closed connection, SASL is not enabled on an open one and what is not
part of an exchange is written behind the exchange of `Open`, there is one `Dial` in an epoch, and with SASL nothing but
`ApiVersions`, `SaslHandshake` and `SaslAuthenticate` is written before authentication on the connection has succeeded.
-/
theorem authenticated_before_use (addr : BrokerAddress) (s : BrokerConn)
    (run : Reaches (When Regular Step) { m_addr := addr } s) : s.Guarded := by
  have start : ({ m_addr := addr } : BrokerConn).Sound := ⟨⟨List.nodup_nil, nofun⟩, nofun, nofun, nofun⟩
  exact (run.invariant (fun _ _ _ sound taken => sound.step taken.1 taken.2) start).toGuarded

/-- A request for metadata behind the exchange of `Open`. -/
theorem authenticated_before_use_metadata : ∃ s : BrokerConn, s.Guarded ∧
    s.writes = [⟨apiKeyApiVersions, true, false⟩, ⟨apiKeySaslHandshake, true, false⟩, ⟨apiKeySASLAuth, true, false⟩,
      ⟨apiKeyMetadata, true, true⟩] := by
  have run : Reaches (When Regular Step) { m_addr := .name } { m_addr := .name } := .refl _
  have run := run.tail_when (show Step _ (.open_ { saslEnable := true }) _ from rfl) nofun
  have run := run.tail_when (show Step _ (.resolved 0 true) _ from rfl) fun _ => rfl
  have run := run.tail_when (show Step _ (.connected 0 true) _ from rfl) trivial
  have run := run.tail_when (show Step _ (.exchange 0 apiKeyApiVersions) _ from rfl) trivial
  have run := run.tail_when (show Step _ (.versioned 0 true) _ from rfl) trivial
  have run := run.tail_when (show Step _ (.exchange 0 apiKeySaslHandshake) _ from rfl) trivial
  have run := run.tail_when (show Step _ (.exchange 0 apiKeySASLAuth) _ from rfl) trivial
  have run := run.tail_when (show Step _ (.authenticated 0 true) _ from rfl) trivial
  have run := run.tail_when (show Step _ (.send apiKeyMetadata false) _ from rfl) trivial
  have run := run.tail_when (show Step _ (.write 1) _ from rfl) <| by
    intro _ _
    refine .inr (.inr ?_)
    rintro ⟨call, member, opens⟩
    obtain rfl | rfl := List.mem_pair.mp member <;> exact opens
  exact ⟨_, authenticated_before_use _ _ run, rfl⟩

/-- An `Open` that waited for another one dials the connection again that this one has made; and a request for metadata
is written while `Open` authenticates. -/
theorem used_unauthenticated : (∃ s, Reaches Step { m_addr := .numeric } s ∧ s.dials = [0, 0]) ∧
    ∃ s, Reaches Step { m_addr := .numeric } s ∧ s.writes = [⟨apiKeyMetadata, true, false⟩] := by
  have opening : Reaches Step { m_addr := .numeric } _ :=
    Reaches.tail (.refl _) (show Step _ (.open_ { apiVersionsRequest := false, saslEnable := true }) _ from rfl)
  constructor
  · have run := opening.tail (show Step _ (.open_ { apiVersionsRequest := false, saslEnable := true }) _ from rfl)
    have run := run.tail (show Step _ (.connected 0 true) _ from rfl)
    have run := run.tail (show Step _ (.authenticated 0 true) _ from rfl)
    have run := run.tail (show Step _ (.resume 1) _ from rfl)
    exact ⟨_, run, rfl⟩
  · have run := opening.tail (show Step _ (.connected 0 true) _ from rfl)
    have run := run.tail (show Step _ (.send apiKeyMetadata false) _ from rfl)
    have run := run.tail (show Step _ (.write 1) _ from rfl)
    exact ⟨_, run, rfl⟩

end BrokerConn

end Coev.Kafka
