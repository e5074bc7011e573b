import Coev.Model.Kafka.Client
import Coev.ToMathlib.Calls

/-! # Refreshing the metadata

A refresh is a program over what it asks of the client and of the brokers, so that other refreshes can come
between any two of its calls. Its loop may ask broker after broker without an end; the fuel bounds the number of
requests, and a program that runs out of it stops at a call that has no answer.
-/

namespace Coev.Kafka

def ErrNoTopicsToUpdateMetadata : KError := 1016
def ErrSASLAuthenticationFailed : KError := 58
def ErrLittleEnd : KError := 91

def IsKError (err : KError) : Prop := err < ErrLittleEnd
deriving Decidable

/-- Attempts that remain are counted down without an overflow. -/
theorem toInt_sub_one {attemptsRemaining : Int32} (remain : attemptsRemaining > 0) :
    0 < attemptsRemaining.toInt ∧ (attemptsRemaining - 1).toInt = attemptsRemaining.toInt - 1 := by
  have positive : (0 : ℤ) < attemptsRemaining.toInt := by simpa using Int32.lt_iff_toInt_lt.mp remain
  have upTo := attemptsRemaining.toInt_lt
  refine ⟨positive, ?_⟩
  rw [Int32.toInt_sub, Int32.toInt_one]
  exact Int.bmod_eq_of_le (by omega) (by omega)

/-- `metadata_config`, as a refresh reads it; durations are in milliseconds. -/
structure MetadataConfig where
  retryMax : Int32 := 3
  backoff : ℤ := 1000
  backoffFunc : Option (Int32 → Int32 → ℤ) := none
  full : Bool := true
  timeout : ℤ := 2000
  allowAutoTopicCreation : Bool := true

def MetadataConfig.computeBackoff (conf : MetadataConfig) (attemptsRemaining : Int32) : ℤ :=
  match conf.backoffFunc with
  | some backoffFunc => backoffFunc (conf.retryMax - attemptsRemaining) conf.retryMax
  | none => conf.backoff

/-- What a refresh sets of a `MetadataRequest`; no topics stand for all of them. -/
structure MetadataQuery where
  topics : List Bytes
  allowAutoTopicCreation : Bool
deriving DecidableEq, Repr

/-- What a refresh asks of others. -/
inductive RefreshCall where
  | closed
  | metadataTopics
  | addTopics (topics : List Bytes)
  /-- `steady_clock::now`. -/
  | now
  | sleepFor (backoff : ℤ)
  /-- The broker with the greatest id. -/
  | lastBroker
  /-- `m_seed_brokers[0]`. -/
  | firstSeed
  /-- A seed that does not open goes to the dead seeds, if it is still the first one. -/
  | buryFirstSeed (seed : Seed)
  | open_ (broker : BrokerRef)
  | close (broker : BrokerRef)
  | deregisterBroker (broker : BrokerRef)
  | storeUpdateMetadataMs (ms : ℤ)
  | loadUpdateMetadataMs
  | getMetadata (broker : BrokerRef) (query : MetadataQuery)
  | updateMetadata (data : MetadataResponse) (allKnownMetadata : Bool)
  /-- The program goes on past the bound that it was given. -/
  | exhausted
deriving DecidableEq

/-- The answers. -/
abbrev RefreshCall.Answer : RefreshCall → Type
  | .closed => Bool
  | .metadataTopics => KError × List Bytes
  /- The reading of the system clock that decided goes with the topics. -/
  | .addTopics _ => TimePoint × List Bytes
  | .now => ℤ
  | .lastBroker => Option Broker
  | .firstSeed => Option Seed
  | .open_ _ => KError
  | .loadUpdateMetadataMs => ℤ
  /- The response counts when the code is zero. -/
  | .getMetadata _ _ => KError × MetadataResponse
  | .updateMetadata _ _ => Bool
  | .exhausted => Empty
  | .sleepFor _ | .buryFirstSeed _ | .close _ | .deregisterBroker _ | .storeUpdateMetadataMs _ =>
    Unit

abbrev Refresh := Calls RefreshCall RefreshCall.Answer

namespace Refresh

def ask (c : RefreshCall) : Refresh c.Answer := Calls.send c

/-- The second half of `LeastLoadedBroker`: the first seed is opened. -/
def trySeed (broker : Option BrokerRef) : Refresh (KError × Option BrokerRef) := do
  match ← ask .firstSeed with
  | none => return (ErrBrokerNotAvailable, broker)
  | some seed =>
    let err ← ask (.open_ (.seed seed))
    if err ≠ 0 then
      ask (.buryFirstSeed seed)
      return (err, broker)
    else return (0, some (.seed seed))

/-- `LeastLoadedBroker`: its code, and the broker it leaves in the variable of its caller. The code of a registered
broker that does not open is lost in a variable of its own. -/
def leastLoadedBroker (broker : Option BrokerRef) : Refresh (KError × Option BrokerRef) := do
  let last ← ask .lastBroker
  match (last.map BrokerRef.registered).or broker with
  | none => trySeed none
  | some broker =>
    let err ← ask (.open_ broker)
    if err = 0 then return (0, some broker) else trySeed (some broker)

/-- `PastDeadline`, for a deadline on the steady clock; zero stands for none. -/
def pastDeadline (deadline backoff : ℤ) : Refresh Bool := do
  if deadline = 0 then return false
  else
    let now ← ask .now
    return now + backoff * 1000000 > deadline

variable (conf : MetadataConfig) (topics : List Bytes) (deadline : ℤ)

/-- `RetryRefreshMetadata` waits before another attempt. -/
def backOff (backoff : ℤ) : Refresh Unit := if backoff > 0 then ask (.sleepFor backoff) else return ()

/-- The end of `RetryRefreshMetadata`: no attempt is made if there was an update in the meantime. -/
def attemptUnlessUpdated (attempt : Int32 → Refresh KError) (backoff : ℤ) (attemptsRemaining : Int32) (err : KError) :
    Refresh KError := do
  let t ← ask .loadUpdateMetadataMs
  let now ← ask .now
  if now - t * 1000000 < backoff * 1000000 then return err
  else attempt (attemptsRemaining - 1)

/-- `RetryRefreshMetadata`, given what another attempt does. -/
def retryRefreshMetadata (attempt : Int32 → Refresh KError) (attemptsRemaining : Int32) (err : KError) :
    Refresh KError := do
  if attemptsRemaining > 0 then
    let backoff := conf.computeBackoff attemptsRemaining
    if ← pastDeadline deadline backoff then return err
    else
      backOff backoff
      attemptUnlessUpdated attempt backoff attemptsRemaining err
  else return err

/-- A broker is given up. -/
def dropBroker (broker : BrokerRef) : Refresh Unit := do
  ask (.close broker)
  ask (.deregisterBroker broker)

/-- The request of one round: the stamp of the update, and the answer. -/
def fetchMetadata (broker : BrokerRef) : Refresh (KError × MetadataResponse) := do
  let now ← ask .now
  ask (.storeUpdateMetadataMs (now.tdiv 1000000))
  ask (.getMetadata broker { topics, allowAutoTopicCreation := !topics.isEmpty && conf.allowAutoTopicCreation })

/-- `TryRefreshMetadata` from one round of its loop on, with the broker of the round before. The loop has no exit of
its own; what stands behind it in the source is not reached. -/
def tryRefreshMetadata : ℕ → Int32 → Option BrokerRef → Refresh KError
  | 0, _, _ => .call .exhausted nofun
  | fuel + 1, attemptsRemaining, broker => do
    let (err, broker) ← leastLoadedBroker broker
    if err = INVALID then return err
    else
      match broker with
      | none => return ErrBrokerNotAvailable
      | some broker =>
        if ← pastDeadline deadline 0 then return ErrBrokerNotAvailable
        else
          let (err, response) ← fetchMetadata conf topics broker
          if err = 0 then
            if response.brokers.isEmpty then
              dropBroker broker
              tryRefreshMetadata fuel attemptsRemaining (some broker)
            else
              let shouldRetry ← ask (.updateMetadata response topics.isEmpty)
              if shouldRetry then
                retryRefreshMetadata conf deadline (fun attempts => tryRefreshMetadata fuel attempts none)
                  attemptsRemaining ErrLeaderNotAvailable
              else return 0
          else if err = ErrEncodeError ∨ err = ErrDecodeError then return err
          else if IsKError err ∧ (err = ErrSASLAuthenticationFailed ∨ err = ErrTopicAuthorizationFailed) then return err
          else
            dropBroker broker
            tryRefreshMetadata fuel attemptsRemaining (some broker)

/-- `_RefreshMetadata`. -/
def refreshFrom (fuel : ℕ) : Refresh KError := do
  let now ← ask .now
  let deadline := if conf.timeout > 0 then now + conf.timeout * 1000000 else now
  tryRefreshMetadata conf topics deadline fuel conf.retryMax none

/-- `RefreshMetadata` of a list of topics. -/
def refreshMetadata (fuel : ℕ) : Refresh KError := do
  if ← ask .closed then return ErrClosedClient
  else if topics.any List.isEmpty then return ErrInvalidTopic
  else
    let (_, refreshTopics) ← ask (.addTopics topics)
    refreshFrom conf refreshTopics fuel

/-- `RefreshMetadata` without a list: of all topics, or of those that were asked for before. -/
def refreshKnownMetadata (fuel : ℕ) : Refresh KError := do
  if conf.full then refreshMetadata conf [] fuel
  else
    let (err, topics) ← ask .metadataTopics
    if err ≠ 0 then return err
    else if topics.isEmpty then return ErrNoTopicsToUpdateMetadata
    else refreshMetadata conf topics fuel

/-- `MetadataRefresh`: of the given topics themselves, where no timeout means no deadline. -/
def metadataRefresh (fuel : ℕ) : Refresh KError := do
  if conf.timeout > 0 then
    let now ← ask .now
    tryRefreshMetadata conf topics (now + conf.timeout * 1000000) fuel conf.retryMax none
  else tryRefreshMetadata conf topics 0 fuel conf.retryMax none

end Refresh

/-! ## What the calls do -/

namespace Client

/-- `LeastLoadedBroker` moves a seed that does not open. -/
def buryFirstSeed (c : Client) (seed : Seed) : Client :=
  match c.seedBrokers with
  | [] => c
  | first :: rest => if first = seed then { c with seedBrokers := rest, deadSeeds := c.deadSeeds ++ [seed] } else c

/-- `MetadataTopics`. -/
def metadataTopicsOf (c : Client) : KError × List Bytes :=
  if c.closed then (ErrClosedClient, []) else (0, c.metadataTopics.keys)

/-- What a call can answer in a client, and the client it leaves. Brokers and clocks answer anything. -/
def Means (c : Client) : (call : RefreshCall) → call.Answer → Client → Prop
  | .closed, closed, d => closed = c.closed ∧ d = c
  | .metadataTopics, answer, d => answer = c.metadataTopicsOf ∧ d = c
  | .addTopics topics, (now, refreshTopics), d =>
    ∃ refresher, c.metadataRefresher.addTopics topics now = (refreshTopics, refresher) ∧
      d = { c with metadataRefresher := refresher }
  | .lastBroker, last, d => last = c.brokers.toList.getLast?.map Prod.snd ∧ d = c
  | .firstSeed, seed, d => seed = c.seedBrokers.head? ∧ d = c
  | .buryFirstSeed seed, _, d => d = c.buryFirstSeed seed
  | .deregisterBroker broker, _, d => d = c.deregisterBroker broker
  | .storeUpdateMetadataMs ms, _, d => d = { c with updateMetadataMs := ms }
  | .loadUpdateMetadataMs, ms, d => ms = c.updateMetadataMs ∧ d = c
  | .updateMetadata data all, shouldRetry, d => ∃ now, c.updateMetadata data all now = (shouldRetry, d)
  | .now, _, d | .sleepFor _, _, d | .open_ _, _, d | .close _, _, d | .getMetadata _ _, _, d => d = c
  | .exhausted, answer, _ => answer.elim

end Client

/-! ## The search for a coordinator

A search is a program over what it asks of the client and of the brokers. Its loop over the brokers may go on without
an end; the fuel bounds the rounds of each attempt.
-/

def ErrOutOfBrokers : KError := 1002

inductive CoordinatorType where
  | group
  | transaction
deriving DecidableEq, Repr

structure FindCoordinatorRequest where
  version : Int16
  coordinatorKey : Bytes
  coordinatorType : CoordinatorType
deriving DecidableEq, Repr

/-- `FindCoordinatorResponse`; an empty address is decoded as no coordinator. -/
structure FindCoordinatorResponse where
  throttleTime : Int64 := 0
  err : Int16 := 0
  errMsg : Bytes := []
  coordinator : Option Broker := none
deriving DecidableEq, Repr, Inhabited

/-- What a search asks of others. -/
inductive SearchCall where
  /-- A call of `LeastLoadedBroker`. -/
  | pick (call : RefreshCall)
  | findCoordinator (broker : BrokerRef) (request : FindCoordinatorRequest)
  | close (broker : BrokerRef)
  | deregisterBroker (broker : BrokerRef)
  /-- The leader of partition 0, after a refresh if need be. -/
  | leader (topic : Bytes)
  | sleepFor (seconds : ℕ)
  | resurrectDeadBrokers
  /-- The line that is logged before another attempt, and the wait. -/
  | retrying (backoff : ℤ) (attemptsRemaining : Int32)
  /-- The loop goes on past the bound that it was given. -/
  | exhausted
deriving DecidableEq

/-- The answers. -/
abbrev SearchCall.Answer : SearchCall → Type
  | .pick call => call.Answer
  /- The response counts when the code is zero. -/
  | .findCoordinator _ _ => KError × FindCoordinatorResponse
  | .leader _ => KError
  | .exhausted => Empty
  | .close _ | .deregisterBroker _ | .sleepFor _ | .resurrectDeadBrokers | .retrying _ _ => Unit

abbrev Search := Calls SearchCall SearchCall.Answer

namespace Search

def ask (c : SearchCall) : Search c.Answer := Calls.send c

/-- The calls of `LeastLoadedBroker` are made by the search. -/
def picked {α : Type} : Refresh α → Search α
  | .pure a => .pure a
  | .call c next => .call (.pick c) fun r => picked (next r)

/-- `"__consumer_offsets"`. -/
def consumerOffsets : Bytes := "__consumer_offsets".toUTF8.toList

/-- `"__transaction_state"`. -/
def transactionState : Bytes := "__transaction_state".toUTF8.toList

/-- A topic without a leader is waited for. -/
def awaitLeader (topic : Bytes) : Search Unit := do
  let err ← ask (.leader topic)
  if err ≠ 0 then ask (.sleepFor 2)

/-- The version of the request, from the configured one. -/
def requestVersion (version : KafkaVersion) : Int16 :=
  if version.isAtLeast V2_0_0_0 then 2 else if version.isAtLeast V0_11_0_0 then 1 else 0

variable (conf : MetadataConfig) (version : KafkaVersion) (coordinatorKey : Bytes) (coordinatorType : CoordinatorType)

/-- What follows an answer, given what `retry` does. -/
def answered (retry : KError → FindCoordinatorResponse → Search (KError × FindCoordinatorResponse))
    (response : FindCoordinatorResponse) : Search (KError × FindCoordinatorResponse) := do
  if response.err.toInt = ErrNoError then return (0, response)
  else if response.err.toInt = ErrConsumerCoordinatorNotAvailable then
    awaitLeader consumerOffsets
    if coordinatorType = .transaction then awaitLeader transactionState
    retry ErrConsumerCoordinatorNotAvailable response
  else if response.err.toInt = ErrGroupAuthorizationFailed then retry ErrGroupAuthorizationFailed response
  else return (response.err.toInt, response)

/-- The loop of `FindCoordinator`, with the broker in its variable and the response in that of its caller. The code of
`LeastLoadedBroker` is not read. -/
def search (retry : KError → FindCoordinatorResponse → Search (KError × FindCoordinatorResponse)) :
    ℕ → Option BrokerRef → FindCoordinatorResponse → Search (KError × FindCoordinatorResponse)
  | 0, _, _ => .call .exhausted nofun
  | fuel + 1, broker, response => do
    let (_, broker) ← picked (Refresh.leastLoadedBroker broker)
    match broker with
    | none =>
      ask .resurrectDeadBrokers
      retry ErrOutOfBrokers response
    | some broker =>
      let (err, answer) ← ask (.findCoordinator broker
        { version := requestVersion version, coordinatorKey, coordinatorType })
      if err ≠ 0 then
        ask (.close broker)
        ask (.deregisterBroker broker)
        search retry fuel (some broker) response
      else answered coordinatorType retry answer

/-- `FindCoordinator`: its code, and what it leaves as the response. -/
def findCoordinator (fuel : ℕ) (attemptsRemaining : Int32) (response : FindCoordinatorResponse) :
    Search (KError × FindCoordinatorResponse) :=
  search version coordinatorKey coordinatorType
    (fun err response =>
      if remain : attemptsRemaining > 0 then do
        ask (.retrying (conf.computeBackoff attemptsRemaining) (attemptsRemaining - 1))
        findCoordinator fuel (attemptsRemaining - 1) response
      else return (err, response))
    fuel none response
termination_by attemptsRemaining.toInt.toNat
decreasing_by
  have := toInt_sub_one remain
  omega

end Search

end Coev.Kafka
