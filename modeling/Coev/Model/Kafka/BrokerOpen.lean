import Coev.Model.Kafka.ApiVersions
import Coev.Model.Kafka.Client

/-! # The connection of a broker
The calls of `Open` and `SendAndReceive` on one broker, from one suspension to the next. What comes of name resolution,
of connecting and of every exchange is left to the events, and so is when the time to authenticate again has come. Both
versions of SASL are one exchange here; what its tokens are does not matter.
-/

namespace Coev.Kafka

/-- The members of the configuration that `Open` reads, and what `Validate` returns. -/
structure OpenConf where
  valid : Bool := true
  apiVersionsRequest : Bool := true
  saslEnable : Bool := false
deriving DecidableEq, Repr

/-- What stands in `m_addr`. -/
inductive BrokerAddress where
  | empty
  | numeric
  | name
deriving DecidableEq, Repr

/-- Where a call is suspended; an exchange has the epoch in which its connection was dialed. -/
inductive BrokerCall where
  /-- `Open` in `parse_dns`. -/
  | resolving
  /-- `Open` waits on `m_opened`, or has been resumed. -/
  | waiting (resumed : Bool)
  /-- `Open` in `Dial`. -/
  | connecting
  /-- `Open` in `SendAndReceiveApiVersions`. -/
  | versions (epoch : ℕ) (version : Int16)
  /-- `Open` in `AuthenticateViaSASLv0` or `AuthenticateViaSASLv1`. -/
  | authenticating (epoch : ℕ)
  /-- `SendAndReceive` in `AuthenticateViaSASLv1`. -/
  | reauthenticating (key : Int16)
  /-- `Ready` waits on `m_opened`, or has been resumed. -/
  | unready (key : Int16) (resumed : Bool)
  /-- Before `Write`. -/
  | ready (key : Int16)
  | sent (key : Int16)
  | returned (err : KError)
deriving DecidableEq, Repr

/-- A request that was written, whether SASL is enabled then, and whether authentication has succeeded on the connection. -/
structure Written where
  key : Int16
  saslEnable : Bool
  authenticated : Bool
deriving DecidableEq, Repr

/-- `epoch` counts how often the connection was closed, and `dials` are the epochs of the calls of `Dial`. -/
structure BrokerConn where
  m_conf : OpenConf := {}
  m_addr : BrokerAddress
  m_state : OpenState := .closed
  calls : List BrokerCall := []
  epoch : ℕ := 0
  dials : List ℕ := []
  authenticated : Bool := false
  writes : List Written := []

/-- `m_opened.resume()`. -/
def BrokerCall.resume : BrokerCall → BrokerCall
  | .waiting _ => .waiting true
  | .unready key _ => .unready key true
  | call => call

/-- `Dial` is resumed when its descriptor is closed. -/
def BrokerCall.cancel : BrokerCall → BrokerCall
  | .connecting => .returned INVALID
  | call => call

namespace BrokerConn

def setCall (s : BrokerConn) (id : ℕ) (call : BrokerCall) : BrokerConn := { s with calls := s.calls.set id call }

def resumeOpened (s : BrokerConn) : BrokerConn := { s with calls := s.calls.map .resume }

/-- `Open` returns, and resumes all that wait. -/
def openReturns (s : BrokerConn) (id : ℕ) (err : KError) : BrokerConn := (s.setCall id (.returned err)).resumeOpened

/-- `Connect::Close`; an `Open` that was connecting returns. -/
def close (s : BrokerConn) : BrokerConn :=
  let closed := { s with m_state := .closed, epoch := s.epoch + 1, calls := s.calls.map .cancel }
  if .connecting ∈ s.calls then closed.resumeOpened else closed

def dial (s : BrokerConn) (id : ℕ) : BrokerConn :=
  { s.setCall id .connecting with m_state := .opening, dials := s.dials ++ [s.epoch], authenticated := false }

/-- `_Open`, from the test of the address on. -/
def openAddr (s : BrokerConn) (id : ℕ) : BrokerConn :=
  match s.m_addr with
  | .empty => s.openReturns id INVALID
  | .numeric => s.dial id
  | .name => s.setCall id .resolving

/-- `_Open`, behind the versions. -/
def openSasl (s : BrokerConn) (id epoch : ℕ) : BrokerConn :=
  if s.m_conf.saslEnable then s.setCall id (.authenticating epoch) else s.openReturns id ErrNoError

/-- `_Open`, behind `Dial`. -/
def openDialed (s : BrokerConn) (id : ℕ) : BrokerConn :=
  if s.m_conf.apiVersionsRequest then s.setCall id (.versions s.epoch 3) else s.openSasl id s.epoch

/-- `Ready`. -/
def checkReady (s : BrokerConn) (id : ℕ) (key : Int16) : BrokerConn :=
  match s.m_state with
  | .closed => s.setCall id (.returned INVALID)
  | .opening => s.setCall id (.unready key false)
  | .opened | .postOpened => s.setCall id (.ready key)

/-- A request is written. -/
def written (s : BrokerConn) (key : Int16) : BrokerConn :=
  { s with writes := s.writes ++ [⟨key, s.m_conf.saslEnable, s.authenticated⟩] }

inductive Event where
  | open_ (conf : OpenConf)
  | resolved (id : ℕ) (ok : Bool)
  | connected (id : ℕ) (ok : Bool)
  | versioned (id : ℕ) (ok : Bool)
  | authenticated (id : ℕ) (ok : Bool)
  /-- `SendAndReceive`, and whether it authenticates again. -/
  | send (key : Int16) (due : Bool)
  | reauthenticated (id : ℕ) (err : KError)
  /-- A call goes on that waited on `m_opened`. -/
  | resume (id : ℕ)
  /-- A request of an exchange is written. -/
  | exchange (id : ℕ) (key : Int16)
  | write (id : ℕ)
  | receive (id : ℕ) (err : KError)
  /-- `Broker::Close`, or a read or a write has failed. -/
  | close
deriving DecidableEq, Repr

/-- The requests of an exchange. -/
def early : List Int16 := [apiKeyApiVersions, apiKeySaslHandshake, apiKeySASLAuth]

/-- Whether a call is in the middle of an exchange. -/
def exchanges : BrokerCall → Bool
  | .versions _ _ | .authenticating _ | .reauthenticating _ => true
  | _ => false

/-- What may happen; `Write` on a connection that is not open is a failed assertion. -/
def step (s : BrokerConn) : Event → Option BrokerConn
  | .open_ conf =>
    let id := s.calls.length
    if conf.valid = false then some { s with calls := s.calls ++ [BrokerCall.returned INVALID] }
    else
      let s := { s with m_conf := conf, calls := s.calls ++ [BrokerCall.waiting false] }
      match s.m_state with
      | .opened => some (s.openReturns id ErrNoError)
      | .opening => some s
      | .closed | .postOpened => some (s.openAddr id)
  | .resolved id ok =>
    if s.calls[id]? = some .resolving then some (if ok then s.dial id else s.openReturns id INVALID) else none
  | .connected id ok =>
    if s.calls[id]? = some .connecting then
      some (if ok then { s with m_state := .opened }.openDialed id
        else { s with m_state := .closed, epoch := s.epoch + 1 }.openReturns id INVALID)
    else none
  | .versioned id ok =>
    match s.calls[id]? with
    | some (.versions epoch version) =>
      some (if ok then s.openSasl id epoch
        else if version = 0 then s.close.openReturns id INVALID else s.setCall id (.versions epoch 0))
    | _ => none
  | .authenticated id ok =>
    match s.calls[id]? with
    | some (.authenticating epoch) =>
      some (if ok then { s with authenticated := s.authenticated || epoch = s.epoch }.openReturns id ErrNoError
        else s.close.openReturns id INVALID)
    | _ => none
  | .send key due =>
    let id := s.calls.length
    let s := { s with calls := s.calls ++ [BrokerCall.reauthenticating key] }
    some (if due then s else s.checkReady id key)
  | .reauthenticated id err =>
    match s.calls[id]? with
    | some (.reauthenticating key) => some (if err = ErrNoError then s.checkReady id key else s.setCall id (.returned err))
    | _ => none
  | .resume id =>
    match s.calls[id]? with
    | some (.waiting true) => some (if s.m_state = .closed then s.openReturns id INVALID else s.openAddr id)
    | some (.unready key true) => some (s.setCall id (if s.m_state = .closed then .returned INVALID else .ready key))
    | _ => none
  | .exchange id key =>
    if s.calls[id]?.any exchanges ∧ key ∈ early ∧ s.m_state = .opened then some (s.written key) else none
  | .write id =>
    match s.calls[id]? with
    | some (.ready key) => if s.m_state = .opened then some ((s.setCall id (.sent key)).written key) else none
    | _ => none
  | .receive id err =>
    match s.calls[id]? with
    | some (.sent _) => some (s.setCall id (.returned err))
    | _ => none
  | .close => some s.close

end BrokerConn

end Coev.Kafka
