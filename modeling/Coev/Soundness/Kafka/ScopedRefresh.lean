import Coev.Proofs.Kafka.Client
import Coev.Proofs.Kafka.MetadataRefresh
import Coev.ToMathlib.Pool

/-! # Refreshes of some topics

An empty list stands for all topics. `add_topics` leaves out what was asked for or answered a moment ago, so a
refresh stays with its topics as long as it keeps at least one of them.
-/

namespace Coev.Kafka

open Calls (Advances Ensures Pool Turn)
open Transition

/-- The topic was asked for or answered a moment ago. -/
def MetadataRefresher.Throttled (r : MetadataRefresher) (topic : Bytes) (now : TimePoint) : Prop :=
  ∃ times, r.topicsMap[topic]? = some times ∧ throttled times now = true

namespace MetadataRefresher

/-- A round of the loop decides about its topic as the refresher stood before the loop, if nothing was kept so far. -/
theorem addTopics_spec (topics : List Bytes) (now : TimePoint) (r : MetadataRefresher) (kept : List Bytes) :
    ∃ added, (topics.foldl (addTopic now) (kept, r)).1 = kept ++ added ∧ added ⊆ topics ∧
      (added = [] ↔ ∀ topic ∈ topics, r.Throttled topic now) := by
  induction topics generalizing r kept with
  | nil => exact ⟨[], (List.append_nil kept).symm, List.nil_subset _, by simp⟩
  | cons topic topics ih =>
    by_cases isThrottled : r.Throttled topic now
    · have skips : addTopic now (kept, r) topic = (kept, r) := by
        obtain ⟨times, found, recent⟩ := isThrottled
        simp only [addTopic, found, recent, if_true]
      obtain ⟨added, left_, subset, empty⟩ := ih r kept
      refine ⟨added, ?_, List.subset_cons_of_subset topic subset, ?_⟩
      · rw [List.foldl_cons, skips, left_]
      · rw [empty, List.forall_mem_cons, and_iff_right isThrottled]
    · have keeps : ∃ s, addTopic now (kept, r) topic = (kept ++ [topic], s) := by
        simp only [addTopic]
        split
        · next times found =>
          have notRecent : ¬ throttled times now = true := fun recent => isThrottled ⟨times, found, recent⟩
          exact ⟨_, if_neg notRecent⟩
        · exact ⟨_, rfl⟩
      obtain ⟨s, keeps⟩ := keeps
      obtain ⟨added, left_, subset, -⟩ := ih s (kept ++ [topic])
      refine ⟨topic :: added, ?_, List.cons_subset_cons topic subset, ?_⟩
      · rw [List.foldl_cons, keeps, left_, List.append_assoc, List.singleton_append]
      · simp [isThrottled]

private theorem addTopics_subset (r : MetadataRefresher) (topics : List Bytes) (now : TimePoint) :
    (r.addTopics topics now).1 ⊆ topics := by
  obtain ⟨added, left_, subset, -⟩ := addTopics_spec topics now r []
  rwa [addTopics, left_]

/-- Nothing is left to ask for if and only if every topic is throttled. -/
theorem addTopics_eq_nil_iff (r : MetadataRefresher) (topics : List Bytes) (now : TimePoint) :
    (r.addTopics topics now).1 = [] ↔ ∀ topic ∈ topics, r.Throttled topic now := by
  obtain ⟨added, left_, -, empty⟩ := addTopics_spec topics now r []
  rwa [addTopics, left_]

end MetadataRefresher

namespace Refresh

variable {conf : MetadataConfig} {α β : Type} {topics : List Bytes} {deadline : ℤ}
variable {call : RefreshCall}

/-- The refresh was called with these topics. -/
def Asked (trace : Trace) (topics : List Bytes) : Prop := ∃ reply, ⟨.addTopics topics, reply⟩ ∈ trace

/-- The call asks for some of the topics and for no others, and forgets no others. -/
def Scoped (topics : List Bytes) : RefreshCall → Prop
  | .getMetadata _ query => query.topics ≠ [] ∧ query.topics ⊆ topics
  | .updateMetadata _ allKnownMetadata => allKnownMetadata = false
  | _ => True

/-- The topics that an answer names. -/
def namedBy : RefreshCall → List Bytes
  | .updateMetadata data _ => data.topics.map TopicMetadata.name
  | _ => []

/-- Clients of one configuration: refreshes may start at any time, and anything else may happen to the client. -/
def Turns (conf : MetadataConfig) := Pool.Step (α := KError)
  (fun program => (∃ topics fuel, program = refreshMetadata conf topics fuel) ∨
    (∃ fuel, program = refreshKnownMetadata conf fuel) ∨ ∃ topics fuel, program = metadataRefresh conf topics fuel)
  Client.Means (fun c d => ∃ event, d = c.apply event)

/-- A refresh that comes to `add_topics` with topics finds one of them that is not throttled. -/
def FindsTopic (pool : Pool Client RefreshCall RefreshCall.Answer KError) :
    Turn Client RefreshCall RefreshCall.Answer KError → Prop
  | .answer _ (.addTopics topics) (now, _) =>
    topics ≠ [] → ∃ topic ∈ topics, ¬ pool.state.metadataRefresher.Throttled topic now
  | _ => True

/-! ## The contract of a refresh -/

/-- The list of topics to ask for is part of the topics, and is empty for all topics only. -/
def Relies (_ : Trace) : (call : RefreshCall) → call.Answer → Prop
  | .addTopics topics, (_, refreshTopics) => refreshTopics ⊆ topics ∧ (topics ≠ [] → refreshTopics ≠ [])
  | _, _ => True

def ScopedAfter (trace : Trace) (call : RefreshCall) : Prop :=
  ∀ topics, Asked trace topics → topics ≠ [] → Scoped topics call

/-- What is asked for is some of the topics the refresh was called with. -/
def WithinAsked (requested : List Bytes) (trace : Trace) : Prop :=
  ∀ topics, Asked trace topics → topics ≠ [] → requested ≠ [] ∧ requested ⊆ topics

/-- The program makes scoped calls and is not called with other topics on the way. -/
def StaysWithin (requested : List Bytes) (x : Refresh α) : Prop :=
  ∀ before, WithinAsked requested before → Ensures Relies ScopedAfter before x fun _ trace => WithinAsked requested trace

variable {requested : List Bytes} {x : Refresh α} {f : α → Refresh β}

theorem StaysWithin.pure (a : α) : StaysWithin requested (pure a : Refresh α) := fun _ within => within

theorem StaysWithin.bind (first : StaysWithin requested x) (rest : ∀ a, StaysWithin requested (f a)) :
    StaysWithin requested (x >>= f) :=
  fun before within => (first before within).bind fun a trace within => rest a trace within

theorem StaysWithin.ite {p : Prop} [Decidable p] {y : Refresh α} (yes : StaysWithin requested x)
    (no : StaysWithin requested y) : StaysWithin requested (if p then x else y) := by
  split
  · exact yes
  · exact no

private theorem not_asked_nil : ¬ Asked [] topics := by
  rintro ⟨reply, member⟩
  cases member

private theorem asked_append_iff {trace : Trace} {reply : call.Answer} (other : ∀ topics, call ≠ .addTopics topics) :
    Asked (trace ++ [⟨call, reply⟩]) topics ↔ Asked trace topics := by
  constructor
  · rintro ⟨answer, member⟩
    rcases List.mem_append.mp member with member | member
    · exact ⟨answer, member⟩
    · have same := congrArg Sigma.fst (List.mem_singleton.mp member)
      exact absurd same.symm (other topics)
  · rintro ⟨answer, member⟩
    exact ⟨answer, List.mem_append_left _ member⟩

/-- A call stays within the topics if it is scoped whenever they are. -/
theorem staysWithin_ask (other : ∀ topics, call ≠ .addTopics topics)
    (inScope : ∀ topics, requested ≠ [] → requested ⊆ topics → Scoped topics call) : StaysWithin requested (ask call) := by
  intro before within
  refine Ensures.send (fun topics asked some_ => ?_) fun reply _ topics asked some_ => ?_
  · obtain ⟨nonempty, subset⟩ := within topics asked some_
    exact inScope topics nonempty subset
  · exact within topics ((asked_append_iff other).mp asked) some_

/-- A call that asks for nothing and forgets nothing. -/
def plain : RefreshCall → Bool
  | .addTopics _ | .getMetadata _ _ | .updateMetadata _ _ => false
  | _ => true

private theorem staysWithin_plain {call : RefreshCall} (isPlain : plain call = true) : StaysWithin requested (ask call) := by
  refine staysWithin_ask (fun topics same => ?_) fun topics _ _ => ?_
  · rw [same] at isPlain
    cases isPlain
  · cases call <;> trivial

theorem StaysWithin.after {f : call.Answer → Refresh β} (isPlain : plain call = true)
    (rest : ∀ reply, StaysWithin requested (f reply)) : StaysWithin requested (ask call >>= f) :=
  (staysWithin_plain isPlain).bind rest

private theorem staysWithin_trySeed (broker : Option BrokerRef) : StaysWithin requested (trySeed broker) := by
  refine .after rfl fun seed => ?_
  cases seed with
  | none => exact .pure _
  | some seed => exact .after rfl fun err => .ite (.after rfl fun _ => .pure _) (.pure _)

private theorem staysWithin_leastLoadedBroker (broker : Option BrokerRef) :
    StaysWithin requested (leastLoadedBroker broker) := by
  refine .after rfl fun last => ?_
  cases (last.map BrokerRef.registered).or broker with
  | none => exact staysWithin_trySeed none
  | some broker => exact .after rfl fun err => .ite (.pure _) (staysWithin_trySeed _)

private theorem staysWithin_pastDeadline (deadline backoff : ℤ) : StaysWithin requested (pastDeadline deadline backoff) :=
  .ite (.pure _) (.after rfl fun _ => .pure _)

private theorem staysWithin_dropBroker (broker : BrokerRef) : StaysWithin requested (dropBroker broker) :=
  .after rfl fun _ => staysWithin_plain rfl

private theorem staysWithin_retryRefreshMetadata {attempt : Int32 → Refresh KError}
    (attempts : ∀ n, StaysWithin requested (attempt n)) (attemptsRemaining : Int32) (err : KError) :
    StaysWithin requested (retryRefreshMetadata conf deadline attempt attemptsRemaining err) := by
  refine .ite ((staysWithin_pastDeadline _ _).bind fun past => .ite (.pure _) ?_) (.pure _)
  have backsOff : StaysWithin requested (backOff (conf.computeBackoff attemptsRemaining)) :=
    .ite (staysWithin_plain rfl) (.pure _)
  exact backsOff.bind fun _ => .after rfl fun t => .after rfl fun now => .ite (.pure _) (attempts _)

private theorem staysWithin_fetchMetadata (broker : BrokerRef) :
    StaysWithin requested (fetchMetadata conf requested broker) := by
  refine .after rfl fun now => .after rfl fun _ => ?_
  exact staysWithin_ask nofun fun _ nonempty subset => ⟨nonempty, subset⟩

private theorem staysWithin_updateMetadata (response : MetadataResponse) :
    StaysWithin requested (ask (.updateMetadata response requested.isEmpty)) := by
  refine staysWithin_ask nofun fun topics nonempty _ => ?_
  exact List.isEmpty_eq_false_iff.mpr nonempty

private theorem staysWithin_tryRefreshMetadata (fuel : ℕ) (attemptsRemaining : Int32) (broker : Option BrokerRef) :
    StaysWithin requested (tryRefreshMetadata conf requested deadline fuel attemptsRemaining broker) := by
  induction fuel generalizing attemptsRemaining broker with
  | zero => exact fun before within => ⟨fun _ _ _ => trivial, fun reply => reply.elim⟩
  | succ fuel ih =>
    refine (staysWithin_leastLoadedBroker broker).bind fun (err, broker) => .ite (.pure _) ?_
    cases broker with
    | none => exact .pure _
    | some broker =>
      have dropped : StaysWithin requested
          (dropBroker broker >>= fun _ => tryRefreshMetadata conf requested deadline fuel attemptsRemaining (some broker)) :=
        (staysWithin_dropBroker broker).bind fun _ => ih _ _
      have retried := @staysWithin_retryRefreshMetadata conf deadline requested _
        (fun n => ih n none) attemptsRemaining ErrLeaderNotAvailable
      refine (staysWithin_pastDeadline _ _).bind fun past => .ite (.pure _) ?_
      refine (staysWithin_fetchMetadata broker).bind fun (err, response) => .ite (.ite dropped ?_) ?_
      · exact (staysWithin_updateMetadata response).bind fun shouldRetry => .ite retried (.pure _)
      · exact .ite (.pure _) (.ite (.pure _) dropped)

private theorem staysWithin_refreshFrom (fuel : ℕ) : StaysWithin requested (refreshFrom conf requested fuel) :=
  .after rfl fun _ => staysWithin_tryRefreshMetadata _ _ _

/-- A refresh of topics, before any others were asked for. -/
theorem ensures_refreshMetadata (topics : List Bytes) (fuel : ℕ) {before : Trace} (unasked : WithinAsked [] before) :
    Ensures Relies ScopedAfter before (refreshMetadata conf topics fuel) fun _ _ => True := by
  refine (@staysWithin_plain [] .closed rfl before unasked).bind fun closed trace unasked => ?_
  cases closed with
  | true => exact trivial
  | false =>
    change Ensures _ _ _ (if topics.any List.isEmpty then _ else _) _
    split
    · exact trivial
    refine ⟨fun _ _ _ => trivial, fun reply relied => ?_⟩
    have within : WithinAsked reply.2 (trace ++ [⟨.addTopics topics, reply⟩]) := by
      rintro others ⟨answer, member⟩ some_
      rcases List.mem_append.mp member with member | member
      · exact absurd rfl (unasked others ⟨answer, member⟩ some_).1
      · have same := RefreshCall.addTopics.inj (congrArg Sigma.fst (List.mem_singleton.mp member))
        rw [same] at some_ ⊢
        exact ⟨relied.2 some_, relied.1⟩
    exact (staysWithin_refreshFrom fuel _ within).mono fun _ _ _ => trivial

private theorem withinAsked_nil (requested : List Bytes) : WithinAsked requested [] :=
  fun _ asked => absurd asked not_asked_nil

private theorem ensures_refreshKnownMetadata (fuel : ℕ) :
    Ensures Relies ScopedAfter [] (refreshKnownMetadata conf fuel) fun _ _ => True := by
  unfold refreshKnownMetadata
  split
  · exact ensures_refreshMetadata [] fuel (withinAsked_nil [])
  · refine (@staysWithin_plain [] .metadataTopics rfl [] (withinAsked_nil [])).bind fun reply trace unasked => ?_
    obtain ⟨err, topics⟩ := reply
    change Ensures _ _ _ (if err ≠ 0 then _ else if topics.isEmpty then _ else _) _
    split_ifs
    · exact trivial
    · exact trivial
    · exact ensures_refreshMetadata topics fuel unasked

private theorem ensures_metadataRefresh (topics : List Bytes) (fuel : ℕ) :
    Ensures Relies ScopedAfter [] (metadataRefresh conf topics fuel) fun _ _ => True := by
  have stays : StaysWithin topics (metadataRefresh conf topics fuel) :=
    .ite (.after rfl fun _ => staysWithin_tryRefreshMetadata _ _ _) (staysWithin_tryRefreshMetadata _ _ _)
  exact (stays [] (withinAsked_nil topics)).mono fun _ _ _ => trivial

/-! ## One turn -/

variable {pool pool' : Pool Client RefreshCall RefreshCall.Answer KError}

/-- A refresh that finds a topic gets an answer of `add_topics` that it relies on. -/
theorem relied_of_findsTopic {turn : Turn Client RefreshCall RefreshCall.Answer KError} (finds : FindsTopic pool turn)
    (step : Turns conf pool turn pool') : Pool.Relied Relies pool turn := by
  cases step with
  | start => exact trivial
  | outside => exact trivial
  | @answer k call reply trace next c waits means =>
    intro _ _
    cases call with
    | addTopics topics =>
      obtain ⟨now, refreshTopics⟩ := reply
      obtain ⟨refresher, added, -⟩ := means
      have same : refreshTopics = (pool.state.metadataRefresher.addTopics topics now).1 := by rw [added]
      rw [same]
      refine ⟨MetadataRefresher.addTopics_subset _ topics now, fun some_ none_ => ?_⟩
      obtain ⟨topic, member, notThrottled⟩ := finds some_
      exact notThrottled ((MetadataRefresher.addTopics_eq_nil_iff _ topics now).mp none_ topic member)
    | _ => exact trivial

/-- A scoped call changes nothing that is kept of a topic its answer does not name. -/
theorem means_frame {c d : Client} {reply : call.Answer} {name : Bytes} (means : c.Means call reply d)
    (inScope : Scoped topics call) (unnamed : name ∉ namedBy call) :
    d.metadata[name]? = c.metadata[name]? ∧ d.cachedPartitionsResults[name]? = c.cachedPartitionsResults[name]? := by
  cases call with
  | updateMetadata data all =>
    obtain ⟨now, updates⟩ := means
    have forgetsNone : all = false := inScope
    rw [forgetsNone] at updates
    have frame := c.updateMetadata_frame data now unnamed
    rwa [updates] at frame
  | addTopics topics =>
    obtain ⟨refresher, -, same⟩ := means
    rw [same]
    exact ⟨rfl, rfl⟩
  | closed | metadataTopics | lastBroker | firstSeed | loadUpdateMetadataMs =>
    obtain ⟨-, rfl⟩ := means
    exact ⟨rfl, rfl⟩
  | buryFirstSeed seed =>
    have same : d = c.buryFirstSeed seed := means
    rw [same]
    unfold Client.buryFirstSeed
    split
    · exact ⟨rfl, rfl⟩
    · split <;> exact ⟨rfl, rfl⟩
  | deregisterBroker broker =>
    have same : d = c.deregisterBroker broker := means
    rw [same]
    unfold Client.deregisterBroker
    split
    · exact ⟨rfl, rfl⟩
    · split
      · exact ⟨rfl, rfl⟩
      · split <;> exact ⟨rfl, rfl⟩
  | storeUpdateMetadataMs ms =>
    have same : d = { c with updateMetadataMs := ms } := means
    rw [same]
    exact ⟨rfl, rfl⟩
  | now | sleepFor _ | open_ _ | close _ | getMetadata _ _ =>
    have same : d = c := means
    rw [same]
    exact ⟨rfl, rfl⟩
  | exhausted => exact reply.elim

/-! ## A refresh that is alone, and one that comes too soon -/

/-- A new client with one seed. -/
def fresh : Client := { seedBrokers := [⟨0, [0x61]⟩] }

/-- The same client after it was asked for the topic `t`. -/
def askedOnce : Client := { fresh with metadataRefresher := (fresh.metadataRefresher.addTopics [[0x74]] 0).2 }

/-- The seed is asked for a list of topics. -/
def fromSeed (topics : List Bytes) : RefreshCall :=
  .getMetadata (.seed ⟨0, [0x61]⟩) { topics, allowAutoTopicCreation := !topics.isEmpty }

/-- A refresh of `t` up to its request: the calls and their answers. -/
def upToRequest (refreshTopics : List Bytes) : Trace :=
  [⟨.closed, false⟩, ⟨.addTopics [[0x74]], ((0 : ℤ), refreshTopics)⟩, ⟨.now, (0 : ℤ)⟩, ⟨.lastBroker, none⟩,
    ⟨.firstSeed, some ⟨0, [0x61]⟩⟩, ⟨.open_ (.seed ⟨0, [0x61]⟩), (0 : ℤ)⟩, ⟨.now, (0 : ℤ)⟩, ⟨.now, (0 : ℤ)⟩,
    ⟨.storeUpdateMetadataMs 0, ()⟩]

private theorem asked_upToRequest (refreshTopics : List Bytes) : Asked (upToRequest refreshTopics) [[0x74]] :=
  ⟨_, List.mem_cons_of_mem _ List.mem_cons_self⟩

/-- An answer to a call that finds a topic when it comes to `add_topics`. -/
def Finds (c : Client) (call : RefreshCall) (reply : call.Answer) (d : Client) : Prop :=
  (∀ threads, FindsTopic ⟨c, threads⟩ (.answer 0 call reply)) ∧ c.Means call reply d

private theorem fresh_finds :
    ∀ threads, FindsTopic ⟨fresh, threads⟩ (.answer 0 (.addTopics [[0x74]]) ((0 : ℤ), [[0x74]])) := by
  intro threads _
  refine ⟨[0x74], List.mem_singleton_self _, ?_⟩
  rintro ⟨times, found, -⟩
  cases found

/-- The first refresh of `t` asks for `t`. -/
theorem first_reaches_request : ∃ next, Advances (α := KError) Finds (refreshMetadata {} [[0x74]] 1) fresh
    (upToRequest [[0x74]]) (.call (fromSeed [[0x74]]) next) askedOnce := by
  have other {c d : Client} {call : RefreshCall} {reply : call.Answer} (isPlain : plain call = true)
      (means : c.Means call reply d) : Finds c call reply d := by
    refine ⟨fun threads => ?_, means⟩
    cases call <;> trivial
  exact ⟨_, .call (other rfl ⟨by decide, rfl⟩) (.call ⟨fresh_finds, _, rfl, rfl⟩
    (.call (other rfl rfl) (.call (other rfl ⟨by decide, rfl⟩) (.call (other rfl ⟨rfl, rfl⟩)
      (.call (other rfl rfl) (.call (other rfl rfl) (.call (other rfl rfl) (.call (other rfl rfl) .done))))))))⟩

/-- A second one at the same time asks for everything. -/
theorem second_reaches_request : ∃ next, Advances (α := KError) Client.Means (refreshMetadata {} [[0x74]] 1) askedOnce
    (upToRequest []) (.call (fromSeed []) next) askedOnce := by
  exact ⟨_, .call ⟨by decide, rfl⟩ (.call ⟨askedOnce.metadataRefresher, rfl, rfl⟩
    (.call rfl (.call ⟨by decide, rfl⟩ (.call ⟨rfl, rfl⟩ (.call rfl (.call rfl (.call rfl (.call rfl .done))))))))⟩

/-! ## Every run -/

end Refresh

end Coev.Kafka
