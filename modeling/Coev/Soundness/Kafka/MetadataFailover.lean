import Coev.Proofs.Kafka.Client
import Coev.Proofs.Kafka.MetadataRefresh

/-! # Asking one broker after another

A refresh that fails at a broker drops it and goes on with the next one, and so it comes to a registered broker
that answers, or to a seed that answers in the place of one that does not open. Three things end it before: a fatal
answer, a seed that does not open, and its deadline.
-/

namespace Coev.Kafka.Refresh

open Calls (Advances Ends LeadsTo Returns leadsTo_pure leadsTo_send)
open Transition Client

variable {conf : MetadataConfig} {topics : List Bytes} {deadline : ℤ} {α : Type}
variable {broker : Option BrokerRef}

/-- Which brokers are reachable, and what each one answers. -/
structure Reachability where
  opens : BrokerRef → Bool
  answers : BrokerRef → MetadataQuery → KError × MetadataResponse
  /-- A broker that does not open answers nothing. -/
  silent : ∀ broker query, opens broker = false → (answers broker query).1 ≠ 0

variable {cluster : Reachability}

/-- What the brokers answer, and what the clock shows while the deadline is not past. -/
def Given (cluster : Reachability) (deadline : ℤ) : (call : RefreshCall) → call.Answer → Prop
  | .open_ broker, err => err = if cluster.opens broker then 0 else INVALID
  | .getMetadata broker query, answer => answer = cluster.answers broker query
  | .now, now => deadline ≠ 0 → (now : ℤ) ≤ deadline
  | _, _ => True

/-- A refresh that runs alone in a client and a cluster. -/
def Alone (cluster : Reachability) (deadline : ℤ) (c : Client) (call : RefreshCall) (reply : call.Answer) (d : Client) :
    Prop :=
  c.Means call reply d ∧ Given cluster deadline call reply

/-- The request of a refresh. -/
def queryOf (conf : MetadataConfig) (topics : List Bytes) : MetadataQuery :=
  { topics, allowAutoTopicCreation := !topics.isEmpty && conf.allowAutoTopicCreation }

/-- The broker answers without an error and names some brokers. -/
def Reachability.Serves (cluster : Reachability) (broker : BrokerRef) (query : MetadataQuery) : Prop :=
  (cluster.answers broker query).1 = 0 ∧ (cluster.answers broker query).2.brokers ≠ []

/-- An answer that ends a refresh at once. -/
def Fatal (err : KError) : Prop :=
  err = ErrEncodeError ∨ err = ErrDecodeError ∨ err = ErrSASLAuthenticationFailed ∨ err = ErrTopicAuthorizationFailed

/-- The refresh takes over what a broker answered, and then succeeds unless partitions are leaderless; or it has ended
with a fatal answer, or at a seed that does not open. -/
inductive Concluded (cluster : Reachability) (query : MetadataQuery) (seeds : List Seed) : Refresh KError → Client → Prop
  | updates {c : Client} (broker : BrokerRef) (next : Bool → Refresh KError) (serves : cluster.Serves broker query)
    (succeeds : next false = pure 0) : Concluded cluster query seeds
      (.call (.updateMetadata (cluster.answers broker query).2 query.topics.isEmpty) next) c
  | fatal {c : Client} (broker : BrokerRef) (err : KError) (answered : (cluster.answers broker query).1 = err)
    (isFatal : Fatal err) : Concluded cluster query seeds (pure err) c
  | unopened {c : Client} (seed : Seed) (member : seed ∈ seeds) (closed : cluster.opens (.seed seed) = false) :
    Concluded cluster query seeds (pure INVALID) c

/-- The broker is registered or is the first seed. -/
inductive Present (c : Client) : BrokerRef → Prop
  | registered {broker : Broker} (found : c.brokers[broker.id]? = some broker) : Present c (.registered broker)
  | seed {seed : Seed} {rest : List Seed} (first : c.seedBrokers = seed :: rest) : Present c (.seed seed)

theorem Present.congr {c d : Client} {target : BrokerRef} (brokers : d.brokers = c.brokers)
    (seedBrokers : d.seedBrokers = c.seedBrokers) (present : Present c target) : Present d target := by
  cases present with
  | registered found => exact .registered (by rw [brokers, found])
  | seed first => exact .seed (seedBrokers.trans first)

/-- A refresh of the client, with a broker in its variable, comes to a broker that serves it: a registered one, a seed
that is asked in the place of a registered broker, or the first seed of a client without registered brokers. -/
inductive Comes (cluster : Reachability) (query : MetadataQuery) (c : Client) : Option BrokerRef → Prop
  | registered {broker : Option BrokerRef} {good : Broker} (found : c.brokers[good.id]? = some good)
    (ordinary : good.id ≠ -1) (serves : cluster.Serves (.registered good) query) : Comes cluster query c broker
  | inPlace {broker : Option BrokerRef} {down : Broker} {good : Seed} (found : c.brokers[down.id]? = some down)
    (ordinary : down.id ≠ -1) (closed : cluster.opens (.registered down) = false) (member : good ∈ c.seedBrokers)
    (serves : cluster.Serves (.seed good) query) : Comes cluster query c broker
  | first {good : Seed} {rest : List Seed} (empty : c.brokers = ∅) (seeds : c.seedBrokers = good :: rest)
    (serves : cluster.Serves (.seed good) query) : Comes cluster query c none

/-- How many brokers a refresh can still drop. -/
def remaining (c : Client) : ℕ := c.brokers.size + c.seedBrokers.length

/-! ## The calls of a round -/

variable {c d : Client} {query : MetadataQuery} {good : Broker} {target : BrokerRef} {finds : BrokerRef → Prop}

/-- A call that has an answer leads where each of its answers leads. -/
private theorem leadsTo_after {target : Refresh α → Client → Prop} (call : RefreshCall) {f : call.Answer → Refresh α}
    (reply : call.Answer) (d : Client) (answered : Alone cluster deadline c call reply d)
    (rest : ∀ reply d, Alone cluster deadline c call reply d → LeadsTo (Alone cluster deadline) target (f reply) d) :
    LeadsTo (Alone cluster deadline) target (ask call >>= f) c := .call ⟨reply, d, answered⟩ rest

private theorem leadsTo_ask (call : RefreshCall) {post : call.Answer → Client → Prop} (reply : call.Answer) (d : Client)
    (answered : Alone cluster deadline c call reply d)
    (holds : ∀ reply d, Alone cluster deadline c call reply d → post reply d) :
    LeadsTo (Alone cluster deadline) (Returns post) (ask call) c := leadsTo_send ⟨reply, d, answered⟩ holds

private theorem zero_ne_INVALID : (0 : KError) ≠ INVALID := by decide

private theorem ErrBrokerNotAvailable_ne_INVALID : ErrBrokerNotAvailable ≠ INVALID := by decide

/-- The broker with the greatest id is registered. -/
theorem registered_of_last (keyed : WellKeyed c.brokers) {broker : Broker}
    (last : c.brokers.toList.getLast?.map Prod.snd = some broker) : c.brokers[broker.id]? = some broker := by
  obtain ⟨⟨id, broker⟩, isLast, rfl⟩ := Option.map_eq_some_iff.mp last
  have found : c.brokers[id]? = some broker :=
    Std.ExtTreeMap.mem_toList_iff_getElem?_eq_some.mp (List.mem_of_getLast? isLast)
  rw [keyed id broker found]
  exact found

/-- A registered broker is found while there is one. -/
private theorem last_registered (keyed : WellKeyed c.brokers) (registered : c.brokers[good.id]? = some good) :
    ∃ broker, c.brokers.toList.getLast?.map Prod.snd = some broker ∧ c.brokers[broker.id]? = some broker := by
  have member : (good.id, good) ∈ c.brokers.toList := Std.ExtTreeMap.mem_toList_iff_getElem?_eq_some.mpr registered
  have some_ : c.brokers.toList ≠ [] := List.ne_nil_of_mem member
  obtain ⟨last, isLast⟩ := Option.isSome_iff_exists.mp (List.getLast?_isSome.mpr some_)
  have found : c.brokers.toList.getLast?.map Prod.snd = some last.2 := by rw [isLast, Option.map_some]
  exact ⟨last.2, found, registered_of_last keyed found⟩

/-- What comes of `LeastLoadedBroker`: a broker with the property, or the code of a seed that does not open. -/
def Found (cluster : Reachability) (c : Client) (finds : BrokerRef → Prop) (answer : KError × Option BrokerRef)
    (d : Client) : Prop :=
  (answer.1 = INVALID ∧ ∃ seed ∈ c.seedBrokers, cluster.opens (.seed seed) = false) ∨
    (answer.1 ≠ INVALID ∧ d = c ∧ ∃ target, answer.2 = some target ∧ finds target)

/-- The broker is present, and one that does not open is asked only when no seeds are left. -/
def Consulted (cluster : Reachability) (c : Client) (target : BrokerRef) : Prop :=
  Present c target ∧ (cluster.opens target = false → c.seedBrokers = [])

private theorem trySeed_leads (behind : c.seedBrokers = [] → ∃ target, broker = some target ∧ finds target)
    (ahead : ∀ seed rest, c.seedBrokers = seed :: rest → cluster.opens (.seed seed) = true → finds (.seed seed)) :
    LeadsTo (Alone cluster deadline) (Returns (Found cluster c finds)) (trySeed broker) c := by
  refine leadsTo_after .firstSeed c.seedBrokers.head? c ⟨⟨rfl, rfl⟩, trivial⟩ ?_
  rintro _ d ⟨⟨rfl, rfl⟩, -⟩
  cases seeds : d.seedBrokers with
  | nil => exact leadsTo_pure (.inr ⟨ErrBrokerNotAvailable_ne_INVALID, rfl, behind seeds⟩)
  | cons seed rest =>
    refine leadsTo_after (.open_ (.seed seed)) _ d ⟨rfl, rfl⟩ ?_
    rintro err d ⟨rfl, opened⟩
    cases opens : cluster.opens (.seed seed) with
    | true =>
      have opened : err = 0 := by simpa [Given, opens] using opened
      rw [opened]
      exact leadsTo_pure (.inr ⟨zero_ne_INVALID, rfl, .seed seed, rfl, ahead seed rest seeds opens⟩)
    | false =>
      have opened : err = INVALID := by simpa [Given, opens] using opened
      rw [opened]
      refine leadsTo_after (.buryFirstSeed seed) () _ ⟨rfl, trivial⟩ fun _ _ _ => ?_
      exact leadsTo_pure (.inl ⟨rfl, seed, seeds ▸ List.mem_cons_self, opens⟩)

/-- While brokers are registered, `LeastLoadedBroker` finds one to ask, or ends at a seed that does not open. -/
private theorem leastLoadedBroker_leads (keyed : WellKeyed c.brokers) (registered : c.brokers[good.id]? = some good)
    (broker : Option BrokerRef) :
    LeadsTo (Alone cluster deadline) (Returns (Found cluster c (Consulted cluster c))) (leastLoadedBroker broker) c := by
  obtain ⟨last, isLast, found⟩ := last_registered keyed registered
  refine leadsTo_after .lastBroker (some last) c ⟨⟨isLast.symm, rfl⟩, trivial⟩ ?_
  rintro _ d ⟨⟨rfl, rfl⟩, -⟩
  rw [isLast]
  refine leadsTo_after (.open_ (.registered last)) _ d ⟨rfl, rfl⟩ ?_
  rintro err d ⟨rfl, opened⟩
  change LeadsTo _ _ (if err = 0 then _ else _) _
  split
  · next noError =>
    have opens : cluster.opens (.registered last) = true := by
      by_contra closed
      rw [Given, if_neg closed, noError] at opened
      exact zero_ne_INVALID opened
    refine leadsTo_pure (.inr ⟨zero_ne_INVALID, rfl, .registered last, rfl, .registered found, fun closed => ?_⟩)
    exact absurd (opens.symm.trans closed) nofun
  · refine trySeed_leads (fun none_ => ⟨_, rfl, .registered found, fun _ => none_⟩) fun seed rest seeds opens => ?_
    exact ⟨.seed seeds, fun closed => absurd (opens.symm.trans closed) nofun⟩

/-- Without registered brokers, and without one in its variable, `LeastLoadedBroker` finds the first seed. -/
private theorem leastLoadedBroker_first {good : Seed} {rest : List Seed} (empty : c.brokers = ∅)
    (seeds : c.seedBrokers = good :: rest) :
    LeadsTo (Alone cluster deadline) (Returns (Found cluster c (· = .seed good))) (leastLoadedBroker none) c := by
  have none_ : c.brokers.toList.getLast?.map Prod.snd = none := by rw [empty]; rfl
  refine leadsTo_after .lastBroker none c ⟨⟨none_.symm, rfl⟩, trivial⟩ ?_
  rintro _ d ⟨⟨rfl, rfl⟩, -⟩
  rw [none_]
  refine trySeed_leads (fun none_ => ?_) fun seed others same _ => ?_
  · rw [seeds] at none_
    cases none_
  · rw [seeds] at same
    obtain ⟨rfl, -⟩ := List.cons.inj same
    rfl

/-- Before the deadline a refresh goes on. -/
private theorem pastDeadline_leads (deadline : ℤ) :
    LeadsTo (Alone cluster deadline) (Returns fun past d => past = false ∧ d = c) (pastDeadline deadline 0) c := by
  unfold pastDeadline
  split
  · exact leadsTo_pure ⟨rfl, rfl⟩
  · next some_ =>
    refine leadsTo_after .now deadline c ⟨rfl, fun _ => le_refl _⟩ ?_
    rintro now d ⟨rfl, inTime⟩
    have inTime := inTime some_
    exact leadsTo_pure ⟨by simpa using inTime, rfl⟩

/-- The request gets the answer of its broker. -/
private theorem fetchMetadata_leads (target : BrokerRef) : LeadsTo (Alone cluster deadline) (Returns fun answer d =>
      answer = cluster.answers target (queryOf conf topics) ∧ d.brokers = c.brokers ∧ d.seedBrokers = c.seedBrokers)
      (fetchMetadata conf topics target) c := by
  refine leadsTo_after .now deadline c ⟨rfl, fun _ => le_refl _⟩ ?_
  rintro now d ⟨rfl, -⟩
  refine leadsTo_after (.storeUpdateMetadataMs _) () _ ⟨rfl, trivial⟩ ?_
  rintro _ e ⟨rfl, -⟩
  refine leadsTo_ask (.getMetadata target _) (cluster.answers target (queryOf conf topics)) _ ⟨rfl, rfl⟩ ?_
  rintro answer e ⟨rfl, rfl⟩
  exact ⟨rfl, rfl, rfl⟩

private theorem dropBroker_leads (target : BrokerRef) :
    LeadsTo (Alone cluster deadline) (Returns fun _ d => d = c.deregisterBroker target) (dropBroker target) c := by
  refine leadsTo_after (.close target) () c ⟨rfl, trivial⟩ ?_
  rintro _ d ⟨rfl, -⟩
  refine leadsTo_ask (.deregisterBroker target) () _ ⟨rfl, trivial⟩ ?_
  rintro _ e ⟨rfl, -⟩
  rfl

/-! ## Rounds -/

/-- Deregistering a broker that is present leaves one fewer. -/
theorem remaining_deregisterBroker {target : BrokerRef} (present : Present c target) :
    remaining (c.deregisterBroker target) < remaining c := by
  unfold deregisterBroker
  split
  · next member =>
    have some_ : c.brokers.contains target.id = true := member
    have positive : c.brokers.size ≠ 0 := by
      intro none_
      rw [Std.ExtTreeMap.eq_empty_iff_size_eq_zero.mpr none_] at member
      exact Std.ExtTreeMap.not_mem_empty member
    simp only [remaining, Std.ExtTreeMap.size_erase, some_, if_true]
    omega
  · next absent =>
    cases present with
    | registered found => exact absurd (Std.ExtTreeMap.mem_iff_isSome_getElem?.mpr (by rw [BrokerRef.id, found]; rfl)) absent
    | @seed seed rest first => simp [first, remaining]

/-- Dropping another broker leaves one registered. -/
private theorem deregisterBroker_registered (present : Present c target) (registered : c.brokers[good.id]? = some good)
    (ordinary : good.id ≠ -1) (other : target ≠ .registered good) :
    (c.deregisterBroker target).brokers[good.id]? = some good := by
  have differs : target.id ≠ good.id := by
    intro same
    cases present with
    | @registered broker found =>
      have same : broker.id = good.id := same
      rw [same] at found
      exact other (congrArg _ (Option.some.inj (found.symm.trans registered)))
    | seed first => exact ordinary same.symm
  unfold deregisterBroker
  split
  · rw [Std.ExtTreeMap.getElem?_erase, if_neg (by simpa using differs), registered]
  · split
    · exact registered
    · split
      · exact registered
      · exact registered

/-- Only the dropped broker goes from the seeds. -/
private theorem seedBrokers_deregisterBroker (c : Client) (target : BrokerRef) :
    (c.deregisterBroker target).seedBrokers ⊆ c.seedBrokers ∧
      ∀ seed ∈ c.seedBrokers, target ≠ .seed seed → seed ∈ (c.deregisterBroker target).seedBrokers := by
  unfold deregisterBroker
  split
  · exact ⟨List.Subset.refl _, fun _ member _ => member⟩
  · split
    · exact ⟨List.Subset.refl _, fun _ member _ => member⟩
    · next first rest seeds =>
      split
      · next same =>
        refine ⟨seeds ▸ List.subset_cons_self _ _, fun seed member other => ?_⟩
        rw [seeds] at member
        exact (List.mem_cons.mp member).resolve_left fun isFirst => other (isFirst ▸ same)
      · exact ⟨List.Subset.refl _, fun _ member _ => member⟩

theorem Comes.remaining_ne_zero (comes : Comes cluster query c broker) : remaining c ≠ 0 := by
  have occupied {b : Broker} (found : c.brokers[b.id]? = some b) : remaining c ≠ 0 := by
    intro none_
    have empty := Std.ExtTreeMap.eq_empty_iff_size_eq_zero.mpr (Nat.add_eq_zero_iff.mp none_).1
    rw [empty] at found
    simp at found
  cases comes with
  | registered found => exact occupied found
  | inPlace found => exact occupied found
  | first empty seeds => simp [remaining, seeds]

/-- The rest of a round, at whatever broker it finds: it concludes, or drops a broker that does not serve it. -/
private theorem round_leads {seeds : List Seed} {attemptsRemaining : Int32} {fuel : ℕ} (subset : c.seedBrokers ⊆ seeds)
    (found : LeadsTo (Alone cluster deadline) (Returns (Found cluster c finds)) (leastLoadedBroker broker) c)
    (dropped : ∀ (target : BrokerRef) (d : Client), finds target → ¬ cluster.Serves target (queryOf conf topics) →
      d.brokers = c.brokers →
      d.seedBrokers = c.seedBrokers → LeadsTo (Alone cluster deadline) (Concluded cluster (queryOf conf topics) seeds)
        (tryRefreshMetadata conf topics deadline fuel attemptsRemaining (some target)) (d.deregisterBroker target)) :
    LeadsTo (Alone cluster deadline) (Concluded cluster (queryOf conf topics) seeds)
      (tryRefreshMetadata conf topics deadline (fuel + 1) attemptsRemaining broker) c := by
  refine found.bind ?_
  rintro ⟨err, found⟩ d (⟨rfl, seed, member, unopened⟩ | ⟨opened, rfl, target, rfl, finds⟩)
  · exact .here (.unopened seed (subset member) unopened)
  change LeadsTo _ _ (if err = INVALID then _ else _) _
  rw [if_neg opened]
  refine (pastDeadline_leads deadline).bind ?_
  rintro _ d ⟨rfl, rfl⟩
  refine (fetchMetadata_leads target).bind ?_
  rintro answer e ⟨rfl, brokers, seedBrokers⟩
  have drops (fails : ¬ cluster.Serves target (queryOf conf topics)) : LeadsTo (Alone cluster deadline)
      (Concluded cluster (queryOf conf topics) seeds) (dropBroker target >>= fun _ =>
        tryRefreshMetadata conf topics deadline fuel attemptsRemaining (some target)) e := by
    refine (dropBroker_leads target).bind ?_
    rintro _ f rfl
    exact dropped target e finds fails brokers seedBrokers
  cases answered : cluster.answers target (queryOf conf topics) with
  | mk err response =>
  change LeadsTo _ _ (if err = 0 then (if response.brokers.isEmpty then _ else _) else _) _
  have served : cluster.Serves target (queryOf conf topics) ↔ err = 0 ∧ response.brokers ≠ [] := by
    rw [Reachability.Serves, answered]
  split_ifs with noError empty coding fatal
  · exact drops fun serves => (served.mp serves).2 (List.isEmpty_iff.mp empty)
  · have takes (next : Bool → Refresh KError) (succeeds : next false = pure 0) : Concluded cluster (queryOf conf topics)
        seeds (.call (.updateMetadata response topics.isEmpty) next) e := by
      have serves := served.mpr ⟨noError, fun none_ => empty (List.isEmpty_iff.mpr none_)⟩
      have concluded : Concluded cluster (queryOf conf topics) seeds _ e := .updates target next serves succeeds
      rwa [answered] at concluded
    exact .here (takes _ rfl)
  · refine .here (.fatal target err (by rw [answered]) ?_)
    exact coding.elim .inl fun decode => .inr (.inl decode)
  · exact .here (.fatal target err (by rw [answered]) (.inr (.inr fatal.2)))
  · exact drops fun serves => noError (served.mp serves).1

/-- A round that drops a broker leaves a refresh that still comes to one that serves it. -/
theorem Comes.deregisterBroker (comes : Comes cluster query c broker) (asked : Consulted cluster c target)
    (fails : ¬ cluster.Serves target query) (some_ : c.brokers ≠ ∅) :
    Comes cluster query (c.deregisterBroker target) (some target) := by
  cases comes with
  | @registered _ good found ordinary serves =>
    have other : target ≠ .registered good := fun same => fails (same ▸ serves)
    exact .registered (deregisterBroker_registered asked.1 found ordinary other) ordinary serves
  | @inPlace _ down good found ordinary closed member serves =>
    have seeded : c.seedBrokers ≠ [] := List.ne_nil_of_mem member
    have other : target ≠ .registered down := fun same => seeded (asked.2 (same ▸ closed))
    have kept := (seedBrokers_deregisterBroker c target).2 good member fun same => fails (same ▸ serves)
    exact .inPlace (deregisterBroker_registered asked.1 found ordinary other) ordinary closed kept serves
  | first empty => exact absurd empty some_

/-- While brokers are registered, a refresh that comes to a broker that serves it concludes, in as many rounds as there are
brokers and seeds. -/
private theorem tryRefreshMetadata_leads {seeds : List Seed} (attemptsRemaining : Int32) {fuel : ℕ}
    (comes : Comes cluster (queryOf conf topics) c broker) (keyed : WellKeyed c.brokers)
    (subset : c.seedBrokers ⊆ seeds) (enough : remaining c ≤ fuel) :
    LeadsTo (Alone cluster deadline) (Concluded cluster (queryOf conf topics) seeds)
      (tryRefreshMetadata conf topics deadline fuel attemptsRemaining broker) c := by
  induction fuel generalizing c broker with
  | zero => exact absurd (Nat.le_zero.mp enough) comes.remaining_ne_zero
  | succ fuel ih =>
    have registered {b : Broker} (found : c.brokers[b.id]? = some b) : LeadsTo (Alone cluster deadline)
        (Concluded cluster (queryOf conf topics) seeds)
        (tryRefreshMetadata conf topics deadline (fuel + 1) attemptsRemaining broker) c := by
      refine round_leads subset
        (leastLoadedBroker_leads keyed found broker) fun target d asked fails brokers seedBrokers => ?_
      have some_ : d.brokers ≠ ∅ := by
        intro none_
        rw [← brokers, none_] at found
        simp at found
      have comes : Comes cluster (queryOf conf topics) d broker := by
        cases comes with
        | registered found ordinary serves => exact .registered (brokers ▸ found) ordinary serves
        | inPlace found ordinary closed member serves =>
          exact .inPlace (brokers ▸ found) ordinary closed (seedBrokers ▸ member) serves
        | first empty => exact absurd (brokers.trans empty) some_
      have asked : Consulted cluster d target := ⟨asked.1.congr brokers seedBrokers, seedBrokers ▸ asked.2⟩
      have less := remaining_deregisterBroker asked.1
      have same : remaining d = remaining c := by rw [remaining, remaining, brokers, seedBrokers]
      refine ih (comes.deregisterBroker asked fails some_) (WellKeyed.apply (brokers ▸ keyed) (.deregisterBroker target)) ?_
        (by omega)
      exact List.Subset.trans (seedBrokers_deregisterBroker d target).1 (seedBrokers ▸ subset)
    cases comes with
    | registered found => exact registered found
    | inPlace found => exact registered found
    | first empty seeds serves =>
      refine round_leads subset (leastLoadedBroker_first empty seeds) fun target d isFirst fails _ _ => ?_
      exact absurd serves (isFirst ▸ fails)

/-! ## Every client and every cluster -/

/-- A client with the brokers 1 and 2. -/
def twoBrokers : Client :=
  apply { seedBrokers := [⟨0, [0x61]⟩] } (.updateMetadata { brokers := [⟨1, [0x62], []⟩, ⟨2, [0x63], []⟩] } true fun _ => 0)

/-- All brokers are reachable and serve every refresh, but for the broker 2, which answers with the code. -/
def secondAnswers (code : KError) : Reachability where
  opens _ := true
  answers broker _ := if broker.id = 2 then (code, {}) else (0, { brokers := [⟨1, [0x62], []⟩] })
  silent _ _ impossible := by cases impossible

/-- Broker 2 does not open. -/
def secondDown : Reachability where
  opens broker := broker.id ≠ 2
  answers broker _ := if broker.id = -1 then (0, { brokers := [⟨1, [0x62], []⟩] }) else (ErrBrokerNotAvailable, {})
  silent broker query closed := by
    have isSecond : broker.id = 2 := by simpa using closed
    rw [isSecond]
    decide

end Coev.Kafka.Refresh
