import Mathlib.Data.List.ReduceOption

/-! # `client_pool`
The clients of one thread: those that are idle, and those that an `Instance` holds. A call of `get_cli` looks at the
counters and at the idle clients each time it comes around its loop. Clients break at any time, so each check of a
client is answered from outside.
-/

namespace Coev.ClientPool

/-- The members of `SQueue`, the calls of `get_cli` that are suspended, each by the `Instance` that it fills, and the
`Instance`s with the client that each one holds. A client that `create` makes is the next number. -/
structure State where
  maxConnections : ℕ
  retryCount : ℕ
  connected : ℕ := 0
  connecting : ℕ := 0
  used : ℕ := 0
  idle : List ℕ := []
  waiting : List ℕ := []
  dialing : List (ℕ × ℕ) := []
  pausing : List (ℕ × ℕ) := []
  resting : List ℕ := []
  instances : List (Option ℕ) := []
  created : ℕ := 0
  spinning : Bool := false
deriving DecidableEq, Repr

namespace State

/-- The clients that `Instance`s hold, one for each of these. -/
def inUse (s : State) : List ℕ := s.instances.reduceOption

/-- The `Instance` holds no client. -/
def Empty (s : State) (i : ℕ) : Prop := s.instances[i]? = some none
deriving Decidable

/-- What `get_cli` stores in its `Instance`. -/
def store (s : State) (i c : ℕ) : State := { s with instances := s.instances.set i (some c) }

/-- `del`: a client is deleted, whether it was counted or not. -/
def del (s : State) : State := { s with connected := s.connected - 1 }

def clear (s : State) : State := { s with connected := s.connected - s.idle.length, idle := [] }

/-- The loop of `create` from a round on; there may be none left. -/
def dial (s : State) (i round : ℕ) : State :=
  if round < s.retryCount then { s with dialing := (i, round) :: s.dialing }
  else { s with connecting := s.connecting - 1 }

/-- `get_cli` from the top of its loop to where it returns or is suspended. A call that finds nothing idle comes around
at once and finds the same again. -/
def turn (s : State) (i : ℕ) (alive : Bool) : State :=
  if s.maxConnections = 0 then s
  else if s.used = s.connected ∧ s.maxConnections = s.connected + s.connecting then { s with waiting := s.waiting ++ [i] }
  else if s.connected + s.connecting < s.maxConnections then { s with connecting := s.connecting + 1 }.dial i 0
  else
    match s.idle with
    | [] => { s with spinning := true }
    | c :: idle =>
      if alive then { s with idle, used := s.used + 1 }.store i c
      else { { s with idle }.del with resting := i :: s.resting }

/-- `m_waiter.resume`: the first call that waits goes on at once. -/
def wake (s : State) (alive : Bool) : State :=
  match s.waiting with
  | [] => s
  | i :: waiting => { s with waiting }.turn i alive

/-- `release`, with its assertion. -/
def release (s : State) (c : ℕ) (alive : Bool) : Option State :=
  if s.used = 0 then none else some ({ s with idle := s.idle ++ [c], used := s.used - 1 }.wake alive)

/-- What `create` came to: no client, or one that is alive or broken already. -/
def dialed (s : State) (i round : ℕ) : Option Bool → State
  | none => { s with pausing := (i, round) :: s.pausing }
  | some false => { s.del with pausing := (i, round) :: s.pausing, created := s.created + 1 }
  | some true =>
    { s with
      connected := s.connected + 1, used := s.used + 1
      connecting := s.connecting - 1, created := s.created + 1 }.store i s.created

/-- The destructor of an `Instance`. -/
def destroy (s : State) (i : ℕ) (deleting alive : Bool) : Option State :=
  match s.instances[i]? with
  | none => none
  | some none => some s
  | some (some c) =>
    let emptied := { s with instances := s.instances.set i none }
    if deleting = false ∧ 0 < s.maxConnections then emptied.release c alive else some emptied

/-- An `Instance` is made or assigned from another one, whose client it takes in place of its own. -/
def move (s : State) (source target : ℕ) : Option State :=
  if source = target then some s
  else
    match s.instances[source]? with
    | none => none
    | some client => some { s with instances := (s.instances.set target client).set source none }

def stop (s : State) : State := { s with maxConnections := 0 }.clear

end State

/-- What happens to the pool. `alive` says what a check of a client finds. -/
inductive Event where
  | construct
  | get (i : ℕ) (holdsAlive alive : Bool)
  | dialed (i round : ℕ) (client : Option Bool)
  | paused (i round : ℕ)
  | rested (i : ℕ) (alive : Bool)
  | destroy (i : ℕ) (deleting alive : Bool)
  | move (source target : ℕ)
  | stop
deriving DecidableEq, Repr

open State in
/-- One event; there is none that cannot happen, fails an assertion or finds the thread in a loop. -/
def step (s : State) (event : Event) : Option State :=
  if s.spinning then none
  else
    match event with
    | .construct => some { s with instances := s.instances ++ [none] }
    | .get i holdsAlive alive =>
      -- A broken client passes for none.
      if i < s.instances.length ∧ (s.Empty i ∨ holdsAlive = false) then some (s.turn i alive) else none
    | .dialed i round client =>
      if (i, round) ∈ s.dialing then some ({ s with dialing := s.dialing.erase (i, round) }.dialed i round client) else none
    | .paused i round =>
      if (i, round) ∈ s.pausing then some ({ s with pausing := s.pausing.erase (i, round) }.dial i (round + 1)) else none
    | .rested i alive => if i ∈ s.resting then some ({ s with resting := s.resting.erase i }.turn i alive) else none
    | .destroy i deleting alive => s.destroy i deleting alive
    | .move source target => s.move source target
    | .stop => some s.stop

def Step (s : State) (event : Event) (t : State) : Prop := step s event = some t

/-- A pool for so many connections. -/
def initial (maxConnections retryCount : ℕ) : State := { maxConnections, retryCount }

end Coev.ClientPool
