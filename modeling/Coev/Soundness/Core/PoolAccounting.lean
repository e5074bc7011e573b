import Coev.Model.Core.ClientPool
import Coev.ToMathlib.Holdings
import Coev.ToMathlib.Transition

/-! # What a pool counts
The counters of a pool agree with the clients that are idle and that `Instance`s hold, as long as each client that
leaves the pool was counted and each `Instance` that is filled was empty. Nobody waits beside a free place as long as no
place is given up beside somebody who waits.
-/

namespace Coev.ClientPool

open State Transition

variable {s t : State} {i c round : ℕ} {alive : Bool} {e : Event}
variable {idle : List ℕ}

/-! ## What holds -/

/-- The counters agree with the clients, no more connections are made than allowed, each client is in one place, and no
call of `get_cli` goes around its loop without being suspended. -/
structure Counted (s : State) : Prop where
  connected : s.connected = s.inUse.length + s.idle.length
  connecting : s.connecting = s.dialing.length + s.pausing.length
  used : s.used = s.inUse.length
  within : s.connected + s.connecting ≤ s.maxConnections
  once : (s.inUse ++ s.idle).Nodup
  made : ∀ c ∈ s.inUse ++ s.idle, c < s.created
  suspends : s.spinning = false

/-- No call waits while a client is idle or a connection could be opened. -/
def Served (s : State) : Prop := s.waiting ≠ [] → s.idle = [] ∧ s.maxConnections ≤ s.connected + s.connecting

/-! ## Which steps keep it -/

/-- An `Instance` is empty when a call fills it and when another one is moved into it. A client that `create` made
broken is deleted only where none is counted. No `Instance` that holds a client is destroyed while a client is being
deleted or after the pool was stopped, and it is stopped when nothing is in use and no connection is being opened. -/
def Regular (s : State) : Event → Prop
  | .construct => True
  | .get i _ _ => s.Empty i
  | .dialed i _ client => s.Empty i ∧ (client = some false → s.connected = 0)
  | .paused _ _ => True
  | .rested i _ => s.Empty i
  | .destroy i deleting _ =>
    s.Empty i ∨ deleting = false ∧ 0 < s.maxConnections ∧ ∀ w ∈ s.waiting.head?, s.Empty w
  | .move source target => source = target ∨ s.Empty target
  | .stop => s.inUse = [] ∧ s.connecting = 0

/-- No call gives up, and none finds its client broken, while another one waits. -/
def Prompt (s : State) : Event → Prop
  | .paused _ round => round + 1 < s.retryCount ∨ s.waiting = []
  | .destroy i _ alive => s.Empty i ∨ alive = true ∨ s.waiting.length ≤ 1
  | _ => True

/-! ## The parts of a step -/

/-- Which calls wait or rest does not matter. -/
theorem Counted.aside (counted : Counted s) (waiting resting : List ℕ) : Counted { s with waiting, resting } :=
  ⟨counted.connected, counted.connecting, counted.used, counted.within, counted.once, counted.made, counted.suspends⟩

/-- An idle client goes into an `Instance` that is empty. -/
theorem Counted.take (counted : Counted s) (first : s.idle = c :: idle) (empty : s.Empty i) :
    Counted ({ s with idle, used := s.used + 1 }.store i c) := by
  have filled : (s.instances.set i (some c)).reduceOption.Perm (c :: s.inUse) := Holdings.perm_fill empty
  have moved : ((s.instances.set i (some c)).reduceOption ++ idle).Perm (s.inUse ++ s.idle) := by
    rw [first]
    exact (filled.append_right idle).trans List.perm_middle.symm
  have connected := counted.connected
  rw [first, List.length_cons] at connected
  have oneMore : (s.instances.set i (some c)).reduceOption.length = s.inUse.length + 1 := filled.length_eq
  constructor
  · calc s.connected = (s.inUse.length + 1) + idle.length := by omega
      _ = (s.instances.set i (some c)).reduceOption.length + idle.length := by rw [oneMore]
  · exact counted.connecting
  · calc s.used + 1 = s.inUse.length + 1 := by rw [counted.used]
      _ = (s.instances.set i (some c)).reduceOption.length := oneMore.symm
  · exact counted.within
  · exact moved.nodup_iff.mpr counted.once
  · exact fun c member => counted.made c (moved.mem_iff.mp member)
  · exact counted.suspends

/-- An idle client is deleted. -/
theorem Counted.discard (counted : Counted s) (first : s.idle = c :: idle) : Counted { s with idle }.del := by
  have connected := counted.connected
  have within := counted.within
  have fewer : s.connected - 1 = s.inUse.length + idle.length := by
    rw [first, List.length_cons] at connected
    omega
  have stillWithin : s.connected - 1 + s.connecting ≤ s.maxConnections := by omega
  have sub : (s.inUse ++ idle).Sublist (s.inUse ++ s.idle) := by
    rw [first]
    exact (List.sublist_cons_self c idle).append_left _
  constructor
  · exact fewer
  · exact counted.connecting
  · exact counted.used
  · exact stillWithin
  · exact counted.once.sublist sub
  · exact fun c member => counted.made c (sub.subset member)
  · exact counted.suspends

/-- A call that has a place begins another round or gives the place up. -/
theorem Counted.dial (connected : s.connected = s.inUse.length + s.idle.length)
    (connecting : s.connecting = s.dialing.length + s.pausing.length + 1) (used : s.used = s.inUse.length)
    (within : s.connected + s.connecting ≤ s.maxConnections) (once : (s.inUse ++ s.idle).Nodup)
    (made : ∀ c ∈ s.inUse ++ s.idle, c < s.created) (suspends : s.spinning = false) : Counted (s.dial i round) := by
  unfold State.dial
  split
  · refine ⟨connected, ?_, used, within, once, made, suspends⟩
    simp only [List.length_cons]
    omega
  · refine ⟨connected, ?_, used, ?_, once, made, suspends⟩ <;> (dsimp only; omega)

/-- Nothing idle is missed: where all places are taken and some clients are not in use, one of these is idle. -/
theorem Counted.turn (counted : Counted s) (empty : s.Empty i) : Counted (s.turn i alive) := by
  have connected := counted.connected
  have used := counted.used
  have within := counted.within
  unfold State.turn
  split
  · exact counted
  split
  · exact counted.aside _ _
  · next notFull =>
    split
    · next room =>
      have connecting := counted.connecting
      apply Counted.dial
      · exact connected
      · dsimp only
        omega
      · exact used
      · dsimp only
        omega
      · exact counted.once
      · exact counted.made
      · exact counted.suspends
    · next full =>
      split
      · next none_ =>
        rw [none_, List.length_nil] at connected
        exact absurd ⟨by omega, by omega⟩ notFull
      · next first =>
        split
        · exact counted.take first empty
        · exact (counted.discard first).aside _ _

private theorem length_erase_dialing (member : (i, round) ∈ s.dialing) :
    (s.dialing.erase (i, round)).length + 1 = s.dialing.length := by
  have some_ := List.length_pos_of_mem member
  rw [List.length_erase_of_mem member]
  omega

private theorem length_erase_pausing (member : (i, round) ∈ s.pausing) :
    (s.pausing.erase (i, round)).length + 1 = s.pausing.length := by
  have some_ := List.length_pos_of_mem member
  rw [List.length_erase_of_mem member]
  omega

/-- What a round came to is counted with the call that is over or goes to rest. -/
theorem Counted.dialed {client : Option Bool} (counted : Counted s) (member : (i, round) ∈ s.dialing) (empty : s.Empty i)
    (uncounted : client = some false → s.connected = 0) :
    Counted ({ s with dialing := s.dialing.erase (i, round) }.dialed i round client) := by
  have shorter := length_erase_dialing member
  have connected := counted.connected
  have connecting := counted.connecting
  have within := counted.within
  have same : s.connecting = (s.dialing.erase (i, round)).length + (s.pausing.length + 1) := by omega
  have made (c : ℕ) (member : c ∈ s.inUse ++ s.idle) : c < s.created + 1 := Nat.lt_succ_of_lt (counted.made c member)
  obtain _ | alive := client
  · exact ⟨connected, same, counted.used, within, counted.once, counted.made, counted.suspends⟩
  cases alive with
  | false =>
    have none_ := uncounted rfl
    have still : s.connected - 1 = s.inUse.length + s.idle.length := by omega
    have stillWithin : s.connected - 1 + s.connecting ≤ s.maxConnections := by omega
    exact ⟨still, same, counted.used, stillWithin, counted.once, made, counted.suspends⟩
  | true =>
    have filled : (s.instances.set i (some s.created)).reduceOption.Perm (s.created :: s.inUse) := Holdings.perm_fill empty
    have oneMore : (s.instances.set i (some s.created)).reduceOption.length = s.inUse.length + 1 := filled.length_eq
    have oneCallLess : s.connecting - 1 = (s.dialing.erase (i, round)).length + s.pausing.length := by omega
    have new : s.created ∉ s.inUse ++ s.idle := fun member => Nat.lt_irrefl _ (counted.made _ member)
    constructor
    · calc s.connected + 1 = (s.inUse.length + 1) + s.idle.length := by omega
        _ = (s.instances.set i (some s.created)).reduceOption.length + s.idle.length := by rw [oneMore]
    · exact oneCallLess
    · calc s.used + 1 = s.inUse.length + 1 := by rw [counted.used]
        _ = (s.instances.set i (some s.created)).reduceOption.length := oneMore.symm
    · calc s.connected + 1 + (s.connecting - 1) = s.connected + s.connecting := by omega
        _ ≤ s.maxConnections := within
    · exact (filled.append_right s.idle).nodup_iff.mpr (List.nodup_cons.mpr ⟨new, counted.once⟩)
    · intro c member
      rcases List.mem_cons.mp ((filled.append_right s.idle).mem_iff.mp member) with rfl | old
      · exact Nat.lt_succ_self _
      · exact made c old
    · exact counted.suspends

theorem Counted.paused (counted : Counted s) (member : (i, round) ∈ s.pausing) :
    Counted ({ s with pausing := s.pausing.erase (i, round) }.dial i (round + 1)) := by
  have shorter := length_erase_pausing member
  have connecting := counted.connecting
  apply Counted.dial
  · exact counted.connected
  · dsimp only
    omega
  · exact counted.used
  · exact counted.within
  · exact counted.once
  · exact counted.made
  · exact counted.suspends

/-- A client goes back from its `Instance` to the idle ones. -/
theorem Counted.release (counted : Counted s) (holds : s.instances[i]? = some (some c)) :
    Counted { s with instances := s.instances.set i none, idle := s.idle ++ [c], used := s.used - 1 } := by
  have vacated : s.inUse.Perm (c :: (s.instances.set i none).reduceOption) := Holdings.perm_vacate holds
  have oneLess : s.inUse.length = (s.instances.set i none).reduceOption.length + 1 := vacated.length_eq
  have connected := counted.connected
  have used := counted.used
  have sameConnected : s.connected = (s.instances.set i none).reduceOption.length + (s.idle ++ [c]).length := by
    rw [List.length_append, List.length_singleton]
    omega
  have lessUsed : s.used - 1 = (s.instances.set i none).reduceOption.length := by omega
  have moved : ((s.instances.set i none).reduceOption ++ (s.idle ++ [c])).Perm (s.inUse ++ s.idle) := by
    rw [← List.append_assoc]
    exact (List.perm_append_singleton c _).trans (vacated.append_right s.idle).symm
  constructor
  · exact sameConnected
  · exact counted.connecting
  · exact lessUsed
  · exact counted.within
  · exact moved.nodup_iff.mpr counted.once
  · exact fun c member => counted.made c (moved.mem_iff.mp member)
  · exact counted.suspends

theorem Counted.move {source target : ℕ} {client : Option ℕ} (counted : Counted s)
    (holds : s.instances[source]? = some client) (empty : s.Empty target) (apart : source ≠ target) :
    Counted { s with instances := (s.instances.set target client).set source none } := by
  have moved : ((s.instances.set target client).set source none).reduceOption.Perm s.inUse :=
    Holdings.perm_transfer holds empty apart
  have all := moved.append_right s.idle
  constructor
  · calc s.connected = s.inUse.length + s.idle.length := counted.connected
      _ = ((s.instances.set target client).set source none).reduceOption.length + s.idle.length := by rw [moved.length_eq]
  · exact counted.connecting
  · exact counted.used.trans moved.length_eq.symm
  · exact counted.within
  · exact all.nodup_iff.mpr counted.once
  · exact fun c member => counted.made c (all.mem_iff.mp member)
  · exact counted.suspends

theorem Counted.stop (counted : Counted s) (unused : s.inUse = []) (notDialing : s.connecting = 0) : Counted s.stop := by
  have connected := counted.connected
  rw [unused, List.length_nil] at connected
  have none_ : s.connected - s.idle.length = 0 := by omega
  have unheld : s.stop.inUse = [] := unused
  constructor
  · rw [unheld]
    exact none_
  · exact counted.connecting
  · exact counted.used
  · exact Nat.le_of_eq (Nat.add_eq_zero_iff.mpr ⟨none_, notDialing⟩)
  · rw [unheld]
    exact List.nodup_nil
  · rw [unheld]
    nofun
  · exact counted.suspends

private theorem getElem?_set_none {w : ℕ} (empty : s.Empty w) (n : ℕ) : (s.instances.set n none)[w]? = some none := by
  rw [List.getElem?_set]
  split
  · next same =>
    obtain ⟨bound, -⟩ := List.getElem?_eq_some_iff.mp empty
    rw [same, if_pos bound]
  · exact empty

theorem Counted.wake (counted : Counted s) (empty : ∀ w ∈ s.waiting.head?, s.Empty w) : Counted (s.wake alive) := by
  unfold State.wake
  split
  · exact counted
  · next w waiting first =>
    apply (counted.aside waiting s.resting).turn
    apply empty
    rw [first]
    rfl

/-! ## Steps and runs -/

private theorem destroy_cases {deleting : Bool} (taken : s.destroy i deleting alive = some t) :
    (s.Empty i ∧ t = s) ∨ ∃ c, s.instances[i]? = some (some c) ∧ if deleting = false ∧ 0 < s.maxConnections then
        s.used ≠ 0 ∧ t = { s with instances := s.instances.set i none, idle := s.idle ++ [c], used := s.used - 1 }.wake alive
      else t = { s with instances := s.instances.set i none } := by
  unfold State.destroy at taken
  split at taken
  · cases taken
  · next empty =>
    cases taken
    exact .inl ⟨empty, rfl⟩
  · next c holds =>
    refine .inr ⟨c, holds, ?_⟩
    dsimp only at taken
    split
    · next goesBack =>
      rw [if_pos goesBack, State.release] at taken
      split at taken
      · cases taken
      · next some_ =>
        cases taken
        exact ⟨some_, rfl⟩
    · next isLost =>
      rw [if_neg isLost] at taken
      exact (Option.some.inj taken).symm

private theorem move_cases {source target : ℕ} (taken : s.move source target = some t) :
    (source = target ∧ t = s) ∨ source ≠ target ∧ ∃ client, s.instances[source]? = some client ∧
      t = { s with instances := (s.instances.set target client).set source none } := by
  unfold State.move at taken
  split at taken
  · next same =>
    cases taken
    exact .inl ⟨same, rfl⟩
  · next apart =>
    split at taken
    · cases taken
    · next client holds =>
      cases taken
      exact .inr ⟨apart, client, holds, rfl⟩

private theorem not_empty_of_holds (holds : s.instances[i]? = some (some c)) : ¬ s.Empty i := by
  intro empty
  rw [State.Empty, holds] at empty
  cases empty

theorem Counted.construct (counted : Counted s) : Counted { s with instances := s.instances ++ [none] } := by
  have same : (s.instances ++ [none]).reduceOption = s.inUse := by
    rw [List.reduceOption_append]
    exact List.append_nil _
  constructor
  · exact counted.connected.trans (congrArg (·.length + s.idle.length) same.symm)
  · exact counted.connecting
  · exact counted.used.trans (congrArg List.length same.symm)
  · exact counted.within
  · exact (congrArg (· ++ s.idle) same).symm ▸ counted.once
  · exact fun c member => counted.made c (congrArg (· ++ s.idle) same ▸ member)
  · exact counted.suspends

theorem Counted.step (counted : Counted s) (regular : Regular s e) (taken : Step s e t) : Counted t := by
  unfold Step ClientPool.step at taken
  have going : ¬ s.spinning = true := Bool.not_eq_true _ ▸ counted.suspends
  rw [if_neg going] at taken
  cases e with
  | construct =>
    cases taken
    exact counted.construct
  | get i holdsAlive alive =>
    obtain ⟨-, ⟨⟩⟩ := Option.ite_none_right_eq_some.mp taken
    exact counted.turn regular
  | dialed i round client =>
    obtain ⟨member, ⟨⟩⟩ := Option.ite_none_right_eq_some.mp taken
    exact counted.dialed member regular.1 regular.2
  | paused i round =>
    obtain ⟨member, ⟨⟩⟩ := Option.ite_none_right_eq_some.mp taken
    exact counted.paused member
  | rested i alive =>
    obtain ⟨-, ⟨⟩⟩ := Option.ite_none_right_eq_some.mp taken
    exact (counted.aside s.waiting _).turn regular
  | destroy i deleting alive =>
    obtain ⟨-, rfl⟩ | ⟨c, holds, rest⟩ := destroy_cases taken
    · exact counted
    · obtain ⟨held, limit, waits⟩ := regular.resolve_left (not_empty_of_holds holds)
      rw [if_pos ⟨held, limit⟩] at rest
      obtain ⟨-, rfl⟩ := rest
      exact (counted.release holds).wake fun w member => getElem?_set_none (waits w member) i
  | move source target =>
    obtain ⟨-, rfl⟩ | ⟨apart, client, holds, rfl⟩ := move_cases taken
    · exact counted
    · exact counted.move holds (regular.resolve_left apart) apart
  | stop =>
    cases taken
    exact counted.stop regular.1 regular.2

/-! ## Who waits -/

private theorem served_of_nobody (nobody : s.waiting = []) : Served s := fun waits => absurd nobody waits

/-- A turn leaves nobody behind: all places are taken, and an idle client that others wait beside is the one that is
taken. -/
private theorem served_turn (counted : Counted s) (full : s.waiting ≠ [] → s.maxConnections ≤ s.connected + s.connecting ∧
      (s.idle = [] ∨ s.idle.length = 1 ∧ alive = true)) : Served (s.turn i alive) := by
  have connected := counted.connected
  have used := counted.used
  have within := counted.within
  unfold State.turn
  split
  · next closed =>
    intro waits
    exact ⟨List.eq_nil_of_length_eq_zero (by omega), (full waits).1⟩
  split
  · next taken =>
    have none_ : s.idle = [] := List.eq_nil_of_length_eq_zero (by omega)
    exact fun _ => ⟨none_, Nat.le_of_eq taken.2⟩
  split
  · next room =>
    have nobody : s.waiting = [] := by
      by_contra waits
      exact absurd (full waits).1 (Nat.not_le_of_lt room)
    apply served_of_nobody
    unfold State.dial
    split <;> exact nobody
  · next noRoom =>
    split
    · next none_ => exact fun _ => ⟨none_, Nat.le_of_not_lt noRoom⟩
    · next c idle first =>
      split
      · intro waits
        obtain ⟨busy, none_ | ⟨one, -⟩⟩ := full waits
        · rw [none_] at first
          cases first
        · rw [first, List.length_cons] at one
          exact ⟨List.eq_nil_of_length_eq_zero (Nat.succ.inj one), busy⟩
      · next broken =>
        intro waits
        obtain ⟨-, none_ | ⟨-, isAlive⟩⟩ := full waits
        · rw [none_] at first
          cases first
        · exact absurd isAlive broken

theorem Served.turn (served : Served s) (counted : Counted s) : Served (s.turn i alive) :=
  served_turn counted fun waits => ⟨(served waits).2, .inl (served waits).1⟩

/-- The client that was given back goes to the first one who waits. -/
private theorem served_wake {c : ℕ} (counted : Counted s) (given : s.idle = idle ++ [c])
    (waits : s.waiting ≠ [] → idle = [] ∧ s.maxConnections ≤ s.connected + s.connecting)
    (prompt : alive = true ∨ s.waiting.length ≤ 1) : Served (s.wake alive) := by
  unfold State.wake
  split
  · next nobody => exact served_of_nobody nobody
  · next w waiting first =>
    apply served_turn (counted.aside waiting s.resting)
    intro others
    obtain ⟨rfl, busy⟩ := waits (by rw [first]; nofun)
    have isAlive : alive = true := by
      apply prompt.resolve_right
      rw [first, List.length_cons]
      have some_ := List.length_pos_of_ne_nil others
      dsimp only at some_
      omega
    exact ⟨busy, .inr ⟨congrArg List.length given, isAlive⟩⟩

theorem Served.step (served : Served s) (counted : Counted s) (regular : Regular s e) (prompt : Prompt s e)
    (taken : Step s e t) : Served t := by
  unfold Step ClientPool.step at taken
  have going : ¬ s.spinning = true := Bool.not_eq_true _ ▸ counted.suspends
  rw [if_neg going] at taken
  cases e with
  | construct =>
    cases taken
    exact served
  | get i holdsAlive alive =>
    obtain ⟨-, ⟨⟩⟩ := Option.ite_none_right_eq_some.mp taken
    exact served.turn counted
  | dialed i round client =>
    obtain ⟨member, ⟨⟩⟩ := Option.ite_none_right_eq_some.mp taken
    have some_ := List.length_pos_of_mem member
    have connecting := counted.connecting
    intro waits
    obtain _ | alive := client
    · exact served waits
    cases alive with
    | false =>
      have none_ := regular.2 rfl
      obtain ⟨unused, full⟩ := served waits
      have stillFull : s.maxConnections ≤ s.connected - 1 + s.connecting := by omega
      exact ⟨unused, stillFull⟩
    | true =>
      obtain ⟨unused, full⟩ := served waits
      have stillFull : s.maxConnections ≤ s.connected + 1 + (s.connecting - 1) := by omega
      exact ⟨unused, stillFull⟩
  | paused i round =>
    obtain ⟨member, ⟨⟩⟩ := Option.ite_none_right_eq_some.mp taken
    unfold State.dial
    split
    · exact served
    · next over_ => exact served_of_nobody (prompt.resolve_left over_)
  | rested i alive =>
    obtain ⟨-, ⟨⟩⟩ := Option.ite_none_right_eq_some.mp taken
    exact Served.turn (s := { s with resting := s.resting.erase i }) served (counted.aside s.waiting _)
  | destroy i deleting alive =>
    obtain ⟨-, rfl⟩ | ⟨c, holds, rest⟩ := destroy_cases taken
    · exact served
    · have notEmpty := not_empty_of_holds holds
      obtain ⟨held, limit, -⟩ := regular.resolve_left notEmpty
      rw [if_pos ⟨held, limit⟩] at rest
      obtain ⟨-, rfl⟩ := rest
      exact served_wake (counted.release holds) rfl served (prompt.resolve_left notEmpty)
  | move source target =>
    obtain ⟨-, rfl⟩ | ⟨apart, client, holds, rfl⟩ := move_cases taken
    · exact served
    · exact served
  | stop =>
    cases taken
    have after := counted.stop regular.1 regular.2
    intro waits
    exact ⟨rfl, Nat.zero_le _⟩

private theorem counted_initial (maxConnections retryCount : ℕ) : Counted (initial maxConnections retryCount) :=
  ⟨rfl, rfl, rfl, Nat.zero_le _, List.nodup_nil, nofun, rfl⟩

private theorem counted_of_run {maxConnections retryCount : ℕ}
    (run : Reaches (When Regular Step) (initial maxConnections retryCount) s) : Counted s :=
  run.invariant (fun _ _ _ counted taken => counted.step taken.1 taken.2) (counted_initial maxConnections retryCount)

private theorem served_of_run {maxConnections retryCount : ℕ}
    (run : Reaches (When (fun s e => Regular s e ∧ Prompt s e) Step) (initial maxConnections retryCount) s) :
    Counted s ∧ Served s := by
  have keeps (s : State) (e : Event) (t : State) (holds : Counted s ∧ Served s)
      (taken : When (fun s e => Regular s e ∧ Prompt s e) Step s e t) : Counted t ∧ Served t :=
    ⟨holds.1.step taken.1.1 taken.2, holds.2.step holds.1 taken.1.1 taken.1.2 taken.2⟩
  exact run.invariant keeps ⟨counted_initial maxConnections retryCount, served_of_nobody rfl⟩

/-- In every run of regular steps the counters agree with the clients, and no call goes around its loop for ever. Where
no place is given up beside somebody who waits, nobody waits beside a place or an idle client either. -/
theorem pool_accounts (maxConnections retryCount : ℕ) (s : State) :
    (Reaches (When Regular Step) (initial maxConnections retryCount) s →
      s.connected = s.inUse.length + s.idle.length ∧ s.used = s.inUse.length ∧
        s.connected + s.connecting ≤ s.maxConnections ∧ s.inUse.Nodup ∧ s.spinning = false) ∧
      (Reaches (When (fun s e => Regular s e ∧ Prompt s e) Step) (initial maxConnections retryCount) s → Served s) := by
  constructor
  · intro run
    have counted := counted_of_run run
    exact ⟨counted.connected, counted.used, counted.within, counted.once.sublist (List.sublist_append_left _ _),
      counted.suspends⟩
  · exact fun run => (served_of_run run).2

/-- The first of two calls has the only connection, and the second one waits for it. -/
theorem pool_accounts_waiting : ∃ s, s.waiting = [1] ∧ Served s ∧ s.used = s.inUse.length ∧ s.inUse = [0] := by
  have run : Reaches (When (fun s e => Regular s e ∧ Prompt s e) Step) (initial 1 1) (initial 1 1) := .refl _
  have run := run.tail_when (show Step _ .construct _ from rfl) ⟨trivial, trivial⟩
  have run := run.tail_when (show Step _ .construct _ from rfl) ⟨trivial, trivial⟩
  have run := run.tail_when (show Step _ (.get 0 false true) _ from rfl) ⟨rfl, trivial⟩
  have run := run.tail_when (show Step _ (.dialed 0 0 (some true)) _ from rfl) ⟨⟨rfl, nofun⟩, trivial⟩
  have run := run.tail_when (show Step _ (.get 1 false true) _ from rfl) ⟨rfl, trivial⟩
  have counts := (pool_accounts 1 1 _).1 (run.when_mono fun _ _ => And.left)
  exact ⟨_, rfl, (pool_accounts 1 1 _).2 run, counts.2.1, rfl⟩

/-- A run of given events. -/
private theorem reaches_of_foldlM (events : List Event) (run : events.foldlM step s = some t) : Reaches Step s t := by
  induction events generalizing s with
  | nil =>
    cases run
    exact .refl _
  | cons e events ih =>
    obtain ⟨u, taken, rest⟩ := Option.bind_eq_some_iff.mp run
    exact (Reaches.tail (.refl s) taken).trans (ih rest)

/-- A call gives the only place up while another one waits, and nobody wakes that one. -/
def givesUp : List Event :=
  [.construct, .construct, .get 0 false true, .get 1 false true, .dialed 0 0 none, .paused 0 0]

/-- A client that was never counted is deleted, so a third connection is made where two are allowed, and the next call
goes around its loop for ever. -/
def deletesUncounted : List Event :=
  [.construct, .construct, .construct, .construct, .get 0 false true, .dialed 0 0 (some true), .get 1 false true,
    .dialed 1 0 (some false), .paused 1 0, .dialed 1 1 (some true), .get 2 false true, .dialed 2 0 (some true),
      .get 3 false true]

theorem pool_miscounts : (∃ s, Reaches Step (initial 1 1) s ∧ ¬ Served s) ∧
    ∃ s, Reaches Step (initial 2 2) s ∧ s.inUse.length = 3 ∧ s.connected = 2 ∧ s.spinning = true :=
  ⟨⟨_, reaches_of_foldlM givesUp rfl, fun served => absurd (served (by nofun)).2 (by decide)⟩,
    ⟨_, reaches_of_foldlM deletesUncounted rfl, rfl, rfl, rfl⟩⟩

/-! ## Who holds a client -/

/-- No client is held twice, idle twice, or both, and all of them were made. -/
def Apart (s : State) : Prop := (s.inUse ++ s.idle).Nodup ∧ ∀ c ∈ s.inUse ++ s.idle, c < s.created

/-- Clients may go, and change their places. -/
theorem Apart.of_subperm (apart : Apart s) (fewer : (t.inUse ++ t.idle).Subperm (s.inUse ++ s.idle))
    (made : t.created = s.created) : Apart t := by
  obtain ⟨clients, perm, sub⟩ := fewer
  exact ⟨perm.nodup_iff.mp (apart.1.sublist sub), fun c member => made ▸ apart.2 c (sub.subset (perm.mem_iff.mpr member))⟩

/-- An idle client goes over whatever the `Instance` holds. -/
theorem Apart.turn (apart : Apart s) : Apart (s.turn i alive) := by
  unfold State.turn
  split
  · exact apart
  split
  · exact apart
  split
  · unfold State.dial
    split <;> exact apart
  split
  · exact apart
  next c idle first =>
  have moved : (c :: s.inUse ++ idle).Perm (s.inUse ++ s.idle) := first ▸ List.perm_middle.symm
  split
  · exact apart.of_subperm ((Holdings.subperm_set (some c) idle).trans moved.subperm) rfl
  · exact apart.of_subperm ((List.sublist_cons_self c _).subperm.trans moved.subperm) rfl

theorem Apart.wake (apart : Apart s) : Apart (s.wake alive) := by
  unfold State.wake
  split
  · exact apart
  · exact Apart.turn apart

private theorem apart_step (s : State) (e : Event) (t : State) (apart : Apart s) (taken : Step s e t) : Apart t := by
  unfold Step ClientPool.step at taken
  split at taken
  · cases taken
  cases e with
  | construct =>
    cases taken
    simpa [Apart, State.inUse, List.reduceOption_append] using apart
  | get | rested =>
    obtain ⟨-, ⟨⟩⟩ := Option.ite_none_right_eq_some.mp taken
    exact Apart.turn apart
  | dialed i round client =>
    obtain ⟨-, ⟨⟩⟩ := Option.ite_none_right_eq_some.mp taken
    have made (c : ℕ) (member : c ∈ s.inUse ++ s.idle) : c < s.created + 1 := Nat.lt_succ_of_lt (apart.2 c member)
    obtain _ | _ | _ := client
    · exact apart
    · exact ⟨apart.1, made⟩
    · have new : s.created ∉ s.inUse ++ s.idle := fun member => Nat.lt_irrefl _ (apart.2 _ member)
      have all : Apart { s with idle := s.created :: (s.inUse ++ s.idle), instances := [], created := s.created + 1 } :=
        ⟨List.nodup_cons.mpr ⟨new, apart.1⟩, List.forall_mem_cons.mpr ⟨Nat.lt_succ_self _, made⟩⟩
      exact all.of_subperm (Holdings.subperm_set (some s.created) s.idle) rfl
  | paused i round =>
    obtain ⟨-, ⟨⟩⟩ := Option.ite_none_right_eq_some.mp taken
    unfold State.dial
    split <;> exact apart
  | destroy i deleting alive =>
    obtain ⟨-, rfl⟩ | ⟨c, holds, rest⟩ := destroy_cases taken
    · exact apart
    split at rest
    · obtain ⟨-, rfl⟩ := rest
      refine Apart.wake (apart.of_subperm (List.Perm.subperm ?_) rfl)
      rw [← List.append_assoc]
      exact (List.perm_append_singleton c _).trans ((Holdings.perm_vacate holds).append_right s.idle).symm
    · subst rest
      exact apart.of_subperm (Holdings.subperm_set none s.idle) rfl
  | move source target =>
    obtain ⟨-, rfl⟩ | ⟨differ, client, holds, rfl⟩ := move_cases taken
    · exact apart
    rw [List.set_comm _ _ differ.symm]
    refine apart.of_subperm ((Holdings.subperm_set client s.idle).trans ?_) rfl
    cases client with
    | none => exact Holdings.subperm_set none s.idle
    | some c => exact ((Holdings.perm_vacate holds).append_right s.idle).symm.subperm
  | stop =>
    cases taken
    exact apart.of_subperm ((List.nil_sublist s.idle).append_left s.inUse).subperm rfl

/-- Whatever is called, moved, destroyed or stopped, and however the counters come out, no client is in two places. -/
theorem clients_apart {maxConnections retryCount : ℕ} (run : Reaches Step (initial maxConnections retryCount) s) :
    (s.inUse ++ s.idle).Nodup ∧ ∀ c ∈ s.inUse ++ s.idle, c < s.created := by
  have apart : Apart s := run.invariant apart_step ⟨List.nodup_nil, nofun⟩
  exact apart

/-- Three clients are in use where two are counted. -/
theorem clients_apart_miscounted : ∃ s : State, s.connected = 2 ∧ s.inUse = [0, 2, 3] ∧ (s.inUse ++ s.idle).Nodup :=
  have run : Reaches Step (initial 2 2) _ := reaches_of_foldlM deletesUncounted rfl
  ⟨_, rfl, rfl, (clients_apart run).1⟩

end Coev.ClientPool
