import Coev.Model.Kafka.Client

/-! # What an update makes of the registered brokers

Afterwards the registry holds the ids that the response names, each with the address it names last. What was registered
before under an id without its address is closed if its connection was open; one that is still opening is left alone.
-/

namespace Coev.Kafka.ClientBrokers

variable {s : ClientBrokers} {brokers : List BrokerObject} {id : Int32}

/-- The address that the response names last for an id. -/
def address (brokers : List BrokerObject) (id : Int32) : Option Bytes :=
  (brokers.filter fun named => named.broker.id = id).getLast?.map fun named => named.broker.addr

/-- The registry follows the response, what it holds no more is closed, and the seeds are what they were. -/
structure Updated (s : ClientBrokers) (brokers : List BrokerObject) (t : ClientBrokers) : Prop where
  ids : ∀ id, id ∈ t.brokers ↔ ∃ named ∈ brokers, named.broker.id = id
  addresses : ∀ id held, t.brokers[id]? = some held → address brokers id = some held.broker.addr
  closed : ∀ id held, s.brokers[id]? = some held → address brokers id ≠ some held.broker.addr →
    t.connection held.object = .closed
  seeds : (t.seedBrokers ++ t.deadSeeds).Perm (s.seedBrokers ++ s.deadSeeds)

/-! ## Connections -/

/-- Some connections were closed, and nothing else was done. -/
def Shut (c d : ℕ → OpenState) : Prop := ∀ n, d n = c n ∨ c n = .opened ∧ d n = .closed

theorem Shut.refl (c : ℕ → OpenState) : Shut c c := fun _ => .inl rfl

theorem Shut.trans {c d e : ℕ → OpenState} (first : Shut c d) (second : Shut d e) : Shut c e := by
  intro n
  rcases first n with same | ⟨opened, closed⟩
  · rw [← same]
    exact second n
  · rcases second n with same | ⟨again, -⟩
    · exact .inr ⟨opened, same.trans closed⟩
    · rw [closed] at again
      cases again

theorem Shut.not_opened {c d : ℕ → OpenState} (shut : Shut c d) {n : ℕ} (idle : c n ≠ .opened) : d n ≠ .opened := by
  rcases shut n with same | ⟨opened, -⟩
  · exact same ▸ idle
  · exact absurd opened idle

private theorem shut_safeAsyncClose (c : ℕ → OpenState) (object : ℕ) : Shut c (safeAsyncClose c object) := by
  intro n
  unfold safeAsyncClose
  split
  · next opened =>
    rcases eq_or_ne n object with rfl | other
    · exact .inr ⟨opened, Function.update_self ..⟩
    · exact .inl (Function.update_of_ne other ..)
  · exact .inl rfl

private theorem safeAsyncClose_ne_opened (c : ℕ → OpenState) (object : ℕ) : safeAsyncClose c object object ≠ .opened := by
  unfold safeAsyncClose
  split
  · rw [Function.update_self]
    decide
  · next idle => exact idle

/-! ## The first loop -/

private theorem addBroker_getElem? (s : ClientBrokers) (added : BrokerObject) (id : Int32) :
    ((s.addBroker added).brokers[id]?.map fun held => held.broker.addr) =
      if added.broker.id = id then some added.broker.addr else s.brokers[id]?.map fun held => held.broker.addr := by
  have inserted : ((s.brokers.insert added.broker.id added)[id]?.map fun held => held.broker.addr) =
      if added.broker.id = id then some added.broker.addr else s.brokers[id]?.map fun held => held.broker.addr := by
    rw [Std.ExtTreeMap.getElem?_insert]
    by_cases same : added.broker.id = id
    · rw [if_pos (Std.compare_eq_iff_eq.mpr same), if_pos same]
      rfl
    · rw [if_neg (mt Std.compare_eq_iff_eq.mp same), if_neg same]
  unfold addBroker
  split
  · exact inserted
  · next known found =>
    split
    · exact inserted
    · next same =>
      split
      · next here =>
        rw [← here, found, not_not.mp same]
        rfl
      · rfl

private theorem addBroker_seeds (s : ClientBrokers) (added : BrokerObject) :
    (s.addBroker added).seedBrokers = s.seedBrokers ∧ (s.addBroker added).deadSeeds = s.deadSeeds := by
  unfold addBroker
  split
  · exact ⟨rfl, rfl⟩
  · split <;> exact ⟨rfl, rfl⟩

private theorem addBroker_shut (s : ClientBrokers) (added : BrokerObject) :
    Shut s.connection (s.addBroker added).connection := by
  unfold addBroker
  split
  · exact .refl _
  · split
    · exact shut_safeAsyncClose _ _
    · exact .refl _

/-- A broker stays registered, or its connection is not open. -/
private theorem addBroker_held (added : BrokerObject) {held : BrokerObject} (found : s.brokers[id]? = some held) :
    (s.addBroker added).brokers[id]? = some held ∨ (s.addBroker added).connection held.object ≠ .opened := by
  unfold addBroker
  split
  · next absent =>
    left
    rw [Std.ExtTreeMap.getElem?_insert, if_neg, found]
    intro same
    rw [Std.compare_eq_iff_eq.mp same, found] at absent
    cases absent
  · next known registered =>
    split
    · by_cases same : added.broker.id = id
      · rw [same, found] at registered
        obtain rfl := Option.some.inj registered
        exact .inr (safeAsyncClose_ne_opened _ _)
      · left
        rw [Std.ExtTreeMap.getElem?_insert, if_neg (mt Std.compare_eq_iff_eq.mp same), found]
    · exact .inl found

private theorem address_cons (first : BrokerObject) (rest : List BrokerObject) (id : Int32) :
    address (first :: rest) id = (address rest id).or (if first.broker.id = id then some first.broker.addr else none) := by
  unfold address
  by_cases same : first.broker.id = id
  · rw [List.filter_cons_of_pos (by simpa using same), List.getLast?_cons, if_pos same]
    cases (rest.filter fun named => named.broker.id = id).getLast? <;> rfl
  · rw [List.filter_cons_of_neg (by simpa using same), if_neg same, Option.or_none]

/-- What the first loop leaves of an id, of the seeds, of the connections and of what was registered. -/
private theorem addBrokers_spec (brokers : List BrokerObject) (s : ClientBrokers) :
    (∀ id, ((brokers.foldl addBroker s).brokers[id]?.map fun held => held.broker.addr) =
        (address brokers id).or (s.brokers[id]?.map fun held => held.broker.addr)) ∧
      ((brokers.foldl addBroker s).seedBrokers = s.seedBrokers ∧ (brokers.foldl addBroker s).deadSeeds = s.deadSeeds) ∧
      Shut s.connection (brokers.foldl addBroker s).connection ∧
      ∀ (id : Int32) (held : BrokerObject), s.brokers[id]? = some held →
        (brokers.foldl addBroker s).brokers[id]? = some held ∨
        (brokers.foldl addBroker s).connection held.object ≠ .opened := by
  induction brokers generalizing s with
  | nil => exact ⟨fun _ => rfl, ⟨rfl, rfl⟩, .refl _, fun _ _ found => .inl found⟩
  | cons first rest ih =>
    obtain ⟨addresses, seeds, shut, kept⟩ := ih (s.addBroker first)
    rw [List.foldl_cons]
    refine ⟨fun id => ?_, ⟨seeds.1.trans (addBroker_seeds s first).1, seeds.2.trans (addBroker_seeds s first).2⟩,
      (addBroker_shut s first).trans shut, fun id held found => ?_⟩
    · rw [addresses id, addBroker_getElem?, address_cons, Option.or_assoc]
      congr 1
      split <;> rfl
    · rcases addBroker_held first found with still | idle
      · exact kept id held still
      · exact .inr (shut.not_opened idle)

/-! ## The second loop -/

private theorem closing_spec (entries : List (Int32 × BrokerObject)) (c : ℕ → OpenState) :
    Shut c (entries.foldl (fun connection entry => safeAsyncClose connection entry.2.object) c) ∧
      ∀ entry ∈ entries, entries.foldl (fun connection entry => safeAsyncClose connection entry.2.object) c
        entry.2.object ≠ .opened := by
  induction entries generalizing c with
  | nil => exact ⟨.refl _, fun _ member => absurd member List.not_mem_nil⟩
  | cons first rest ih =>
    obtain ⟨shut, idle⟩ := ih (safeAsyncClose c first.2.object)
    refine ⟨(shut_safeAsyncClose _ _).trans shut, fun entry member => ?_⟩
    rcases List.mem_cons.mp member with rfl | later
    · exact shut.not_opened (safeAsyncClose_ne_opened _ _)
    · exact idle entry later

private theorem isCurrent_iff : isCurrent brokers id = true ↔ ∃ named ∈ brokers, named.broker.id = id := by
  simp only [isCurrent, List.any_eq_true, decide_eq_true_eq]

private theorem address_eq_none_iff : address brokers id = none ↔ isCurrent brokers id = false := by
  rw [address, Option.map_eq_none_iff, List.getLast?_eq_none_iff, List.filter_eq_nil_iff, ← Bool.not_eq_true,
    isCurrent_iff]
  simp

private theorem removeBrokers_getElem? (s : ClientBrokers) (brokers : List BrokerObject) (id : Int32) :
    (s.removeBrokers brokers).brokers[id]? = if isCurrent brokers id = true then s.brokers[id]? else none := by
  rw [removeBrokers, Std.ExtTreeMap.getElem?_filter']
  cases isCurrent brokers id with
  | true => cases s.brokers[id]? <;> rfl
  | false => cases s.brokers[id]? <;> rfl

/-! ## The update -/

private theorem shut_updateBroker (s : ClientBrokers) (brokers : List BrokerObject) :
    Shut s.connection (s.updateBroker brokers).connection :=
  (addBrokers_spec brokers s).2.2.1.trans (closing_spec
    ((brokers.foldl addBroker s).brokers.toList.filter fun entry => !isCurrent brokers entry.1)
    (brokers.foldl addBroker s).connection).1

/-- An update does all it should when whatever was registered under an id without its address had a connection that was open
or closed. -/
theorem updateBroker_iff (s : ClientBrokers) (brokers : List BrokerObject) :
    Updated s brokers (s.updateBroker brokers) ↔
      ∀ id held, s.brokers[id]? = some held → address brokers id ≠ some held.broker.addr →
        s.connection held.object = .closed ∨ s.connection held.object = .opened := by
  obtain ⟨addresses, seeds, -, kept⟩ := addBrokers_spec brokers s
  obtain ⟨shutAgain, idle⟩ := closing_spec
    ((brokers.foldl addBroker s).brokers.toList.filter fun entry => !isCurrent brokers entry.1)
    (brokers.foldl addBroker s).connection
  have allShut := shut_updateBroker s brokers
  have left_ (id : Int32) : (s.updateBroker brokers).brokers[id]? =
      if isCurrent brokers id = true then (brokers.foldl addBroker s).brokers[id]? else none := removeBrokers_getElem? ..
  have shown (id : Int32) (current : isCurrent brokers id = true) :
      ((s.updateBroker brokers).brokers[id]?.map fun held => held.broker.addr) = address brokers id := by
    have named : address brokers id ≠ none := by
      rw [ne_eq, address_eq_none_iff, current]
      decide
    obtain ⟨addr, same⟩ := Option.ne_none_iff_exists'.mp named
    rw [left_, if_pos current, addresses, same]
    rfl
  have stale (id : Int32) (held : BrokerObject) (found : s.brokers[id]? = some held)
      (gone : address brokers id ≠ some held.broker.addr) : (s.updateBroker brokers).connection held.object ≠ .opened := by
    rcases kept id held found with still | shutDown
    · refine idle (id, held) (List.mem_filter.mpr ⟨Std.ExtTreeMap.mem_toList_iff_getElem?_eq_some.mpr still, ?_⟩)
      rw [Bool.not_eq_true', ← Bool.not_eq_true]
      intro current
      rw [← shown id current, left_, if_pos current, still] at gone
      exact gone rfl
    · exact shutAgain.not_opened shutDown
  constructor
  · intro updated id held found gone
    have closed := updated.closed id held found gone
    rcases allShut held.object with same | ⟨opened, -⟩
    · exact .inl (same.symm.trans closed)
    · exact .inr opened
  · intro settled
    refine ⟨fun id => ?_, fun id held found => ?_, fun id held found gone => ?_, ?_⟩
    · rw [← isCurrent_iff, Std.ExtTreeMap.mem_iff_isSome_getElem?]
      constructor
      · intro some_
        rw [left_] at some_
        by_contra absent
        rw [if_neg absent] at some_
        cases some_
      · intro current
        have named : address brokers id ≠ none := by
          rw [ne_eq, address_eq_none_iff, current]
          decide
        rw [← shown id current] at named
        cases held : (s.updateBroker brokers).brokers[id]? with
        | none => exact absurd (by rw [held]; rfl) named
        | some _ => rfl
    · have current : isCurrent brokers id = true := by
        by_contra absent
        rw [left_, if_neg absent] at found
        cases found
      rw [← shown id current, found]
      rfl
    · have off := stale id held found gone
      rcases allShut held.object with same | ⟨-, closed⟩
      · rcases settled id held found gone with closed | opened
        · exact same.trans closed
        · exact absurd (same.trans opened) off
      · exact closed
    · exact List.Perm.of_eq (congrArg₂ (· ++ ·) seeds.1 seeds.2)

/-- A client with a broker whose connection is still opening. -/
def connecting : ClientBrokers :=
  ⟨(∅ : Std.ExtTreeMap Int32 BrokerObject).insert 1 ⟨0, ⟨1, [97], []⟩⟩, [], [], fun _ => .opening⟩

/-- A broker that is still opening when the response names another one in its place goes on opening. -/
theorem opening_broker_left : ¬ Updated connecting [⟨1, ⟨2, [98], []⟩⟩] (connecting.updateBroker [⟨1, ⟨2, [98], []⟩⟩]) := by
  intro updated
  have gone : address [⟨1, ⟨2, [98], []⟩⟩] 1 ≠ some [97] := by decide
  have closed := updated.closed 1 ⟨0, ⟨1, [97], []⟩⟩ Std.ExtTreeMap.getElem?_insert_self gone
  rcases shut_updateBroker connecting [⟨1, ⟨2, [98], []⟩⟩] 0 with same | ⟨opened, -⟩
  · exact absurd (same.symm.trans closed) (by decide)
  · cases opened

end Coev.Kafka.ClientBrokers
