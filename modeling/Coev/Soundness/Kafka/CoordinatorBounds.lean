import Coev.Soundness.Kafka.MetadataFailover

/-! # The requests of a coordinator search

The loop goes on while its variable has a broker, and `LeastLoadedBroker` never empties the variable. An attempt that has
lost all registered brokers turns to the broker it has just deregistered, unless that one does not open again and the
first seed does.
-/

namespace Coev.Kafka.Search

open Calls (Advances Upholds)
open Transition Client Refresh

variable {conf : MetadataConfig} {version : KafkaVersion} {coordinatorKey : Bytes} {coordinatorType : CoordinatorType}
variable {broker : Option BrokerRef}

/-- A client in the course of an attempt: which brokers the attempt sent to, which ones it deregistered, how many
attempts were made with it, and how many brokers it began with. -/
structure Attempt where
  client : Client
  asked : List BrokerRef := []
  dropped : List BrokerRef := []
  attempts : ℕ
  live : ℕ

def Attempt.begin (client : Client) (attempts : ℕ) : Attempt := { client, attempts, live := remaining client }

/-- What a call can answer, and what it leaves. Brokers answer anything, and anything may happen to the client while the
search asks for a leader. -/
def Attempt.Means (s : Attempt) : (call : SearchCall) → call.Answer → Attempt → Prop
  | .pick call, answer, t => ∃ client, s.client.Means call answer client ∧ t = { s with client }
  | .findCoordinator broker _, _, t => t = { s with asked := s.asked ++ [broker] }
  | .deregisterBroker broker, _, t =>
    t = { s with client := s.client.deregisterBroker broker, dropped := s.dropped ++ [broker] }
  | .leader _, _, t => ∃ client, Reaches Client.Step s.client client ∧ t = { s with client }
  | .resurrectDeadBrokers, _, t => t = { s with client := s.client.resurrectDeadBrokers }
  | .retrying _ _, _, t => t = .begin s.client (s.attempts + 1)
  | .close _, _, t | .sleepFor _, _, t => t = s
  | .exhausted, answer, _ => answer.elim

/-- The attempt has deregistered brokers, and none is registered any more. -/
def Attempt.Stranded (s : Attempt) : Prop := s.dropped ≠ [] ∧ s.client.brokers = ∅

/-- The answer helps the search on: a broker that was deregistered does not open again, a stranded attempt finds a first
seed that it has not deregistered and that opens, and an answer without an error names a coordinator. -/
def Helps (s : Attempt) : (call : SearchCall) → call.Answer → Prop
  | .pick (.open_ broker), err => if broker ∈ s.dropped then err ≠ (0 : KError) else s.Stranded → err = (0 : KError)
  | .pick .firstSeed, seed => s.Stranded → ∃ first, seed = some first ∧ .seed first ∉ s.dropped
  | .findCoordinator _ _, (err, response) => err = 0 → response.err.toInt = ErrNoError → response.coordinator ≠ none
  | _, _ => True

def Helped (s : Attempt) (call : SearchCall) (answer : call.Answer) (t : Attempt) : Prop :=
  Helps s call answer ∧ s.Means call answer t

/-- The attempt has sent to no broker twice, and there were no more attempts than one and the retries. -/
structure Bounded (retryMax : Int32) (s : Attempt) : Prop where
  once : s.asked.Nodup
  attempts : (s.attempts : ℤ) ≤ max 0 retryMax.toInt + 1

/-- The calls a search may make. A request goes to a live broker that the attempt has not sent to and not deregistered,
and the loop comes to its bound only if the attempt began with as many live brokers. -/
def Permitted (fuel : ℕ) (retryMax : Int32) (s : Attempt) : SearchCall → Prop
  | .findCoordinator broker _ =>
    Bounded retryMax s ∧ Present s.client broker ∧ broker ∉ s.asked ∧ broker ∉ s.dropped
  | .exhausted => Bounded retryMax s ∧ fuel ≤ s.live
  | _ => Bounded retryMax s

/-- A search returns zero only with a response without an error and a coordinator. -/
def Concludes (retryMax : Int32) (answer : KError × FindCoordinatorResponse) (s : Attempt) : Prop :=
  Bounded retryMax s ∧ (answer.1 = 0 → answer.2.err.toInt = ErrNoError ∧ answer.2.coordinator ≠ none)

variable {fuel total : ℕ} {retryMax attemptsRemaining : Int32} {s : Attempt} {α : Type}

/-! ## Picking a broker -/

/-- A live broker that the attempt has not deregistered is picked, or none. -/
def Picked (s : Attempt) (broker : Option BrokerRef) (t : Attempt) : Prop :=
  ∃ client, t = { s with client } ∧ client.brokers = s.client.brokers ∧ remaining client ≤ remaining s.client ∧
    ∀ b, broker = some b → Present client b ∧ b ∉ s.dropped

private theorem picked_self (live : ∀ b, broker = some b → Present s.client b ∧ b ∉ s.dropped) :
    Picked s broker s := ⟨s.client, rfl, rfl, le_refl _, live⟩

private theorem trySeed_upholds (bounded : Bounded retryMax s) {left : Option BrokerRef}
    (fallback : ¬ s.Stranded → ∀ b, left = some b → ∃ r, b = .registered r ∧ s.client.brokers[r.id]? = some r ∧
      b ∉ s.dropped) :
    Upholds Helped (Permitted total retryMax) (fun answer => Picked s answer.2) (picked (trySeed left)) s := by
  refine ⟨bounded, ?_⟩
  rintro seed t ⟨helps, client, ⟨rfl, rfl⟩, rfl⟩
  have helps : s.Stranded → ∃ first, s.client.seedBrokers.head? = some first ∧ .seed first ∉ s.dropped := helps
  cases seeds : s.client.seedBrokers with
  | nil =>
    have notStranded : ¬ s.Stranded := by
      intro stranded
      obtain ⟨first, found, -⟩ := helps stranded
      rw [seeds] at found
      cases found
    refine picked_self fun b isLeft => ?_
    obtain ⟨r, rfl, found, notDropped⟩ := fallback notStranded b isLeft
    exact ⟨.registered found, notDropped⟩
  | cons first rest =>
    refine ⟨bounded, ?_⟩
    rintro err t ⟨opens, client, rfl, rfl⟩
    have opens : if .seed first ∈ s.dropped then err ≠ (0 : KError) else s.Stranded → err = (0 : KError) := opens
    by_cases opened : err = (0 : KError)
    · have notDropped : .seed first ∉ s.dropped := by
        intro dropped
        rw [if_pos dropped] at opens
        exact opens opened
      subst opened
      refine picked_self fun b isSeed => ?_
      cases isSeed
      exact ⟨.seed seeds, notDropped⟩
    · have notStranded : ¬ s.Stranded := by
        intro stranded
        obtain ⟨first_, found, notDropped⟩ := helps stranded
        rw [seeds] at found
        cases found
        rw [if_neg notDropped] at opens
        exact opened (opens stranded)
      change Upholds _ _ _ (picked (if err ≠ 0 then _ else _)) _
      rw [if_pos opened]
      refine ⟨bounded, ?_⟩
      rintro _ t ⟨-, client, rfl, rfl⟩
      have buried : s.client.buryFirstSeed first =
          { s.client with seedBrokers := rest, deadSeeds := s.client.deadSeeds ++ [first] } := by
        simp [buryFirstSeed, seeds]
      rw [buried]
      refine ⟨_, rfl, rfl, ?_, fun b isLeft => ?_⟩
      · simp [remaining, seeds]
      · obtain ⟨r, rfl, found, notDropped⟩ := fallback notStranded b isLeft
        exact ⟨.registered found, notDropped⟩

/-- The broker in the variable: none at the start of an attempt, and then one that was deregistered. -/
def Held (s : Attempt) (broker : Option BrokerRef) : Prop :=
  broker = none ∧ s.dropped = [] ∨ ∃ b ∈ s.dropped, broker = some b

private theorem leastLoadedBroker_upholds (bounded : Bounded retryMax s) (keyed : WellKeyed s.client.brokers)
    (gone : ∀ r, .registered r ∈ s.dropped → r.id ∉ s.client.brokers) (held : Held s broker) :
    Upholds Helped (Permitted total retryMax) (fun answer => Picked s answer.2) (picked (leastLoadedBroker broker)) s := by
  refine ⟨bounded, ?_⟩
  rintro last t ⟨-, client, ⟨isLast, rfl⟩, rfl⟩
  cases last with
  | some r =>
    have found := registered_of_last keyed isLast.symm
    have notDropped : .registered r ∉ s.dropped := by
      intro dropped
      refine gone r dropped (Std.ExtTreeMap.mem_iff_isSome_getElem?.mpr ?_)
      rw [found, Option.isSome_some]
    refine ⟨bounded, ?_⟩
    rintro err t ⟨-, client, rfl, rfl⟩
    change Upholds _ _ _ (picked (if err = 0 then _ else _)) _
    split
    · refine picked_self fun b isLast => ?_
      cases isLast
      exact ⟨.registered found, notDropped⟩
    · refine trySeed_upholds bounded fun _ b isLast => ?_
      cases isLast
      exact ⟨r, rfl, found, notDropped⟩
  | none =>
    have empty : s.client.brokers = ∅ := by
      rw [← Std.ExtTreeMap.toList_eq_nil_iff]
      simpa using isLast.symm
    obtain ⟨rfl, dropped⟩ | ⟨b, dropped, rfl⟩ := held
    · exact trySeed_upholds bounded nofun
    · have stranded : s.Stranded := ⟨List.ne_nil_of_mem dropped, empty⟩
      refine ⟨bounded, ?_⟩
      rintro err t ⟨opens, client, rfl, rfl⟩
      have opens : if b ∈ s.dropped then err ≠ (0 : KError) else s.Stranded → err = (0 : KError) := opens
      rw [if_pos dropped] at opens
      change Upholds _ _ _ (picked (if err = 0 then _ else _)) _
      rw [if_neg opens]
      exact trySeed_upholds bounded fun notStranded => absurd stranded notStranded

/-! ## Attempts -/

/-- A broker is found by its id no more once it is deregistered. -/
private theorem not_mem_deregisterBroker (c : Client) (broker : Broker) :
    broker.id ∉ (c.deregisterBroker (.registered broker)).brokers := by
  unfold deregisterBroker
  split
  · simp [BrokerRef.id]
  · next absent =>
    have absent : broker.id ∉ c.brokers := absent
    split
    · exact absent
    · split <;> exact absent

private theorem mem_of_mem_deregisterBroker {c : Client} {broker : BrokerRef} {id : Int32}
    (member : id ∈ (c.deregisterBroker broker).brokers) : id ∈ c.brokers := by
  unfold deregisterBroker at member
  split at member
  · exact (Std.ExtTreeMap.mem_erase.mp member).2
  · split at member
    · exact member
    · split at member <;> exact member

/-- The state of an attempt at the head of its loop, with the attempts that remain. -/
structure Going (retryMax attemptsRemaining : Int32) (s : Attempt) : Prop where
  keyed : WellKeyed s.client.brokers
  asked : s.asked = s.dropped
  once : s.dropped.Nodup
  gone : ∀ r, .registered r ∈ s.dropped → r.id ∉ s.client.brokers
  live : remaining s.client + s.dropped.length ≤ s.live
  attempts : (s.attempts : ℤ) + max 0 attemptsRemaining.toInt ≤ max 0 retryMax.toInt + 1

theorem Going.bounded (going : Going retryMax attemptsRemaining s) : Bounded retryMax s where
  once := going.asked ▸ going.once
  attempts := by
    have := going.attempts
    omega

/-- A failed request takes a live broker from the client. -/
theorem Going.failed (going : Going retryMax attemptsRemaining s) {broker : BrokerRef} (present : Present s.client broker)
    (notDropped : broker ∉ s.dropped) : Going retryMax attemptsRemaining { s with
      client := s.client.deregisterBroker broker, asked := s.asked ++ [broker], dropped := s.dropped ++ [broker] } where
  keyed := going.keyed.apply (.deregisterBroker broker)
  asked := by rw [going.asked]
  once := by simpa [List.nodup_append] using ⟨going.once, fun b member => fun same => notDropped (same ▸ member)⟩
  gone := by
    intro r member
    rcases List.mem_append.mp member with member | member
    · exact fun found => going.gone r member (mem_of_mem_deregisterBroker found)
    · cases List.mem_singleton.mp member
      exact not_mem_deregisterBroker s.client r
  live := by
    have fewer := remaining_deregisterBroker present
    have := going.live
    simp only [List.length_append, List.length_singleton]
    omega
  attempts := going.attempts

/-- What a retry starts from: requests that went to different brokers, and attempts that remain. -/
structure Ended (retryMax attemptsRemaining : Int32) (s : Attempt) : Prop where
  keyed : WellKeyed s.client.brokers
  once : s.asked.Nodup
  attempts : (s.attempts : ℤ) + max 0 attemptsRemaining.toInt ≤ max 0 retryMax.toInt + 1

theorem Ended.bounded (ended : Ended retryMax attemptsRemaining s) : Bounded retryMax s where
  once := ended.once
  attempts := by
    have := ended.attempts
    omega

private theorem awaitLeader_upholds (ended : Ended retryMax attemptsRemaining s) (topic : Bytes) :
    Upholds Helped (Permitted total retryMax) (fun _ => Ended retryMax attemptsRemaining) (awaitLeader topic) s := by
  refine ⟨ended.bounded, ?_⟩
  rintro err t ⟨-, client, reached, rfl⟩
  have ended : Ended retryMax attemptsRemaining { s with client } := { ended with keyed := ended.keyed.reaches reached }
  refine .ite (fun _ => ?_) (fun _ => ended)
  refine Calls.upholds_send ended.bounded ?_
  rintro _ t ⟨-, rfl⟩
  exact ended

/-- A retry that returns its code or makes attempts that keep to the bounds. -/
def Retries (total : ℕ) (retryMax attemptsRemaining : Int32)
    (retry : KError → FindCoordinatorResponse → Search (KError × FindCoordinatorResponse)) : Prop :=
  ∀ err response s, err ≠ 0 → Ended retryMax attemptsRemaining s →
    Upholds Helped (Permitted total retryMax) (Concludes retryMax) (retry err response) s

variable {retry : KError → FindCoordinatorResponse → Search (KError × FindCoordinatorResponse)}

private theorem answered_upholds (retries : Retries total retryMax attemptsRemaining retry)
    (ended : Ended retryMax attemptsRemaining s) {response : FindCoordinatorResponse}
    (named : response.err.toInt = ErrNoError → response.coordinator ≠ none) :
    Upholds Helped (Permitted total retryMax) (Concludes retryMax) (answered coordinatorType retry response) s := by
  refine .ite (fun noError => ⟨ended.bounded, fun _ => ⟨noError, named noError⟩⟩) fun failed => ?_
  refine .ite (fun _ => ?_) fun _ => .ite (fun _ => ?_) fun _ => ⟨ended.bounded, fun zero => absurd zero failed⟩
  · refine (awaitLeader_upholds ended _).bind fun _ t ended => ?_
    refine .ite (fun _ => ?_) (fun _ => retries _ _ _ (by decide) ended)
    exact (awaitLeader_upholds ended _).bind fun _ t ended => retries _ _ _ (by decide) ended
  · exact retries _ _ _ (by decide) ended

private theorem search_upholds (retries : Retries total retryMax attemptsRemaining retry)
    (going : Going retryMax attemptsRemaining s) (held : Held s broker) (rounds : fuel + s.dropped.length = total)
    (response : FindCoordinatorResponse) : Upholds Helped (Permitted total retryMax) (Concludes retryMax)
      (search version coordinatorKey coordinatorType retry fuel broker response) s := by
  induction fuel generalizing s broker with
  | zero =>
    have := going.live
    exact ⟨⟨going.bounded, by omega⟩, fun answer => answer.elim⟩
  | succ fuel ih =>
    refine (leastLoadedBroker_upholds going.bounded going.keyed going.gone held).bind ?_
    rintro ⟨err, broker⟩ _ ⟨client, rfl, brokers, fewer, live⟩
    have going : Going retryMax attemptsRemaining { s with client } :=
      { going with
        keyed := brokers ▸ going.keyed
        gone := brokers ▸ going.gone
        live := by
          have := going.live
          simp only
          omega }
    cases broker with
    | none =>
      refine ⟨going.bounded, ?_⟩
      rintro _ t ⟨-, rfl⟩
      refine retries _ _ _ (by decide) ⟨going.keyed, going.bounded.once, going.attempts⟩
    | some broker =>
      obtain ⟨present, notDropped⟩ := live broker rfl
      refine ⟨⟨going.bounded, present, ?_, notDropped⟩, ?_⟩
      · rw [going.asked]
        exact notDropped
      rintro ⟨err, answer⟩ t ⟨named, rfl⟩
      have failed := going.failed present notDropped
      have named : err = 0 → answer.err.toInt = ErrNoError → answer.coordinator ≠ none := named
      have bounded : Bounded retryMax { s with client, asked := s.asked ++ [broker] } :=
        ⟨failed.bounded.once, going.bounded.attempts⟩
      change Upholds _ _ _ (if err ≠ 0 then _ else _) _
      refine .ite (fun _ => ?_) fun noError => ?_
      · refine ⟨bounded, ?_⟩
        rintro _ t ⟨-, rfl⟩
        refine ⟨bounded, ?_⟩
        rintro _ t ⟨-, rfl⟩
        refine ih failed (.inr ⟨broker, List.mem_append_right _ (List.mem_singleton_self _), rfl⟩) ?_
        simp only [List.length_append, List.length_singleton]
        omega
      · have ended : Ended retryMax attemptsRemaining { s with client, asked := s.asked ++ [broker] } :=
          ⟨going.keyed, bounded.once, going.attempts⟩
        exact answered_upholds retries ended (named (not_not.mp noError))

private theorem findCoordinator_upholds (response : FindCoordinatorResponse) {client : Client} {attempts : ℕ}
    (keyed : WellKeyed client.brokers)
    (made : (attempts : ℤ) + max 0 attemptsRemaining.toInt ≤ max 0 retryMax.toInt + 1) :
    Upholds Helped (Permitted fuel retryMax) (Concludes retryMax)
      (findCoordinator conf version coordinatorKey coordinatorType fuel attemptsRemaining response)
      (.begin client attempts) := by
  induction measured :
    attemptsRemaining.toInt.toNat using Nat.strongRecOn generalizing attemptsRemaining client attempts response with
  | ind n ih =>
    rw [findCoordinator]
    have going : Going retryMax attemptsRemaining (.begin client attempts) :=
      ⟨keyed, rfl, List.nodup_nil, fun _ member => absurd member List.not_mem_nil, le_refl _, made⟩
    refine search_upholds ?_ going (.inl ⟨rfl, rfl⟩) rfl response
    intro err response s error ended
    split
    · next remain =>
      have less := toInt_sub_one remain
      refine ⟨ended.bounded, ?_⟩
      rintro _ t ⟨-, rfl⟩
      have := ended.attempts
      refine ih _ ?_ response ended.keyed ?_ rfl
      · omega
      · push_cast
        omega
    · exact ⟨ended.bounded, fun zero => absurd zero error⟩

def deafSeed : Seed := ⟨0, []⟩

def spareSeed : Seed := ⟨1, []⟩

/-- A client with one seed. -/
def deafClient : Client := { seedBrokers := [deafSeed] }

def deafRequest : FindCoordinatorRequest := { version := 0, coordinatorKey := [], coordinatorType := .group }

def twoSeeds : Client := { seedBrokers := [deafSeed, spareSeed] }

/-- The calls of a round after the first one. -/
def deafRound : List (Sigma SearchCall.Answer) :=
  [⟨.pick .lastBroker, none⟩, ⟨.pick (.open_ (.seed deafSeed)), (0 : KError)⟩,
    ⟨.findCoordinator (.seed deafSeed) deafRequest, (ErrOutOfBrokers, {})⟩, ⟨.close (.seed deafSeed), ()⟩,
    ⟨.deregisterBroker (.seed deafSeed), ()⟩]

def deafStart : List (Sigma SearchCall.Answer) :=
  [⟨.pick .lastBroker, none⟩, ⟨.pick .firstSeed, some deafSeed⟩, ⟨.pick (.open_ (.seed deafSeed)), (0 : KError)⟩,
    ⟨.findCoordinator (.seed deafSeed) deafRequest, (ErrOutOfBrokers, {})⟩, ⟨.close (.seed deafSeed), ()⟩,
    ⟨.deregisterBroker (.seed deafSeed), ()⟩]

/-- The client and the requests after some rounds. -/
def deafAfter (rounds : ℕ) : Attempt where
  client := { deadSeeds := [deafSeed] }
  asked := List.replicate rounds (.seed deafSeed)
  dropped := List.replicate rounds (.seed deafSeed)
  attempts := 1
  live := 1

/-- The first of two seeds has failed. -/
def seedFailed : Attempt where
  client := { seedBrokers := [spareSeed], deadSeeds := [deafSeed] }
  asked := [.seed deafSeed]
  dropped := [.seed deafSeed]
  attempts := 1
  live := 2

variable {fuel : ℕ} {response : FindCoordinatorResponse}

private theorem deafStart_advances :
    Advances Attempt.Means (search {} [] .group retry (fuel + 1) none response) (.begin deafClient 1)
    deafStart (search {} [] .group retry fuel (some (.seed deafSeed)) response) (deafAfter 1) := by
  refine .call ⟨deafClient, ⟨rfl, rfl⟩, rfl⟩ (.call ⟨deafClient, ⟨rfl, rfl⟩, rfl⟩ (.call ⟨deafClient, rfl, rfl⟩ ?_))
  exact .call rfl (.call rfl (.call rfl .done))

private theorem seedFailed_advances :
    Advances Helped (search {} [] .group retry (fuel + 1) none response) (.begin twoSeeds 1)
    deafStart (search {} [] .group retry fuel (some (.seed deafSeed)) response) seedFailed := by
  refine .call ⟨trivial, twoSeeds, ⟨rfl, rfl⟩, rfl⟩ ?_
  refine .call ⟨fun stranded => absurd rfl stranded.1, twoSeeds, ⟨rfl, rfl⟩, rfl⟩ ?_
  refine .call ⟨by simp [Helps, Attempt.begin], twoSeeds, rfl, rfl⟩ ?_
  exact .call ⟨fun zero => absurd zero (by decide), rfl⟩ (.call ⟨trivial, rfl⟩ (.call ⟨trivial, rfl⟩ .done))

private theorem spareSeed_advances : ∃ next, Advances Helped
    (search {} [] .group retry (fuel + 1) (some (.seed deafSeed)) response) seedFailed
    [⟨.pick .lastBroker, none⟩, ⟨.pick (.open_ (.seed deafSeed)), ErrOutOfBrokers⟩, ⟨.pick .firstSeed, some spareSeed⟩,
      ⟨.pick (.open_ (.seed spareSeed)), (0 : KError)⟩]
    (.call (.findCoordinator (.seed spareSeed) deafRequest) next) seedFailed := by
  refine ⟨_, .call ⟨trivial, seedFailed.client, ⟨rfl, rfl⟩, rfl⟩ (.call ⟨?_, seedFailed.client, rfl, rfl⟩
    (.call ⟨fun _ => ⟨spareSeed, rfl, by decide⟩, seedFailed.client, ⟨rfl, rfl⟩, rfl⟩
      (.call ⟨?_, seedFailed.client, rfl, rfl⟩ .done)))⟩
  · simp [Helps, seedFailed, ErrOutOfBrokers]
  · simp [Helps, seedFailed, deafSeed, spareSeed]

/-- The loop opens the seed that it has deregistered, and sends to it again. -/
private theorem deafRound_advances (rounds : ℕ) :
    Advances Attempt.Means (search {} [] .group retry (fuel + 1) (some (.seed deafSeed)) response) (deafAfter rounds)
      deafRound (search {} [] .group retry fuel (some (.seed deafSeed)) response) (deafAfter (rounds + 1)) := by
  refine .call ⟨{ deadSeeds := [deafSeed] }, ⟨rfl, rfl⟩, rfl⟩ (.call ⟨{ deadSeeds := [deafSeed] }, rfl, rfl⟩ ?_)
  refine .call rfl (.call rfl (.call ?_ .done))
  simp only [Attempt.Means, deafAfter, List.replicate_succ']
  rfl

private theorem deafRounds_advance (rounds fuel : ℕ) : ∃ trace, Advances Attempt.Means
    (search {} [] .group retry (fuel + (rounds + 1)) none response) (.begin deafClient 1) trace
    (search {} [] .group retry fuel (some (.seed deafSeed)) response) (deafAfter (rounds + 1)) := by
  induction rounds generalizing fuel with
  | zero => exact ⟨deafStart, deafStart_advances⟩
  | succ rounds ih =>
    obtain ⟨trace, before⟩ := ih (fuel + 1)
    rw [show fuel + 1 + (rounds + 1) = fuel + (rounds + 1 + 1) by omega] at before
    exact ⟨trace ++ deafRound, before.trans (deafRound_advances (rounds + 1))⟩

private theorem deafAgain_advances : ∃ next, Advances Attempt.Means
    (search {} [] .group retry (fuel + 1) (some (.seed deafSeed)) response) (deafAfter 1)
    [⟨.pick .lastBroker, none⟩, ⟨.pick (.open_ (.seed deafSeed)), (0 : KError)⟩]
    (.call (.findCoordinator (.seed deafSeed) deafRequest) next) (deafAfter 1) :=
  ⟨_, .call ⟨{ deadSeeds := [deafSeed] }, ⟨rfl, rfl⟩, rfl⟩ (.call ⟨{ deadSeeds := [deafSeed] }, rfl, rfl⟩ .done)⟩

end Coev.Kafka.Search
