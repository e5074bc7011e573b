import Coev.Proofs.Kafka.MetadataRefresh
import Coev.Soundness.Kafka.MetadataCache

/-! # Errors of topics in a refresh

An update tells its caller only whether to ask again. A refresh whose last response gives no reason to ask again
returns zero, whatever the errors of the topics are; and the partitions that come with an error of a leader are kept.
-/

namespace Coev.Kafka.Refresh

open Calls (Advances Every)

variable {conf : MetadataConfig} {topics : List Bytes} {deadline : ℤ} {data : MetadataResponse} {topic : Bytes}

/-- A client, and the last response that it was given with the client that it was given to. -/
structure Seen where
  client : Client
  last : Option (MetadataResponse × Client) := none

/-- The response that a call hands over. -/
def Seen.after (s : Seen) : RefreshCall → Option (MetadataResponse × Client)
  | .updateMetadata data _ => some (data, s.client)
  | _ => s.last

/-- A call is answered by the client. -/
def Seen.Means (s : Seen) (call : RefreshCall) (answer : call.Answer) (t : Seen) : Prop :=
  s.client.Means call answer t.client ∧ t.last = s.after call

/-- The topic is in the response, without an error. -/
def Clean (data : MetadataResponse) (topic : Bytes) : Prop :=
  (∃ entry ∈ data.topics, entry.name = topic) ∧ ∀ entry ∈ data.topics, entry.name = topic → entry.err.toInt = ErrNoError

/-- The topic is in the response with an error. -/
def Erroneous (data : MetadataResponse) (topic : Bytes) : Prop :=
  ∃ entry ∈ data.topics, entry.name = topic ∧ entry.err.toInt ≠ ErrNoError

/-- What is to be reported: zero stands for topics without errors in the last response, and a topic with an error in it
neither goes with a zero nor is known afterwards. -/
structure Reported (topics : List Bytes) (code : KError) (s : Seen) : Prop where
  zero : code = 0 → ∃ data c, s.last = some (data, c) ∧ ∀ topic ∈ topics, Clean data topic
  error : ∀ data c, s.last = some (data, c) → ∀ topic ∈ topics, Erroneous data topic →
    code ≠ 0 ∧ topic ∉ s.client.metadata

/-- An entry is a reason to ask again. -/
def Unsettled (entry : TopicMetadata) : Prop :=
  entry.err.toInt = ErrUnknownTopicOrPartition ∨ entry.err.toInt = ErrLeaderNotAvailable ∨
    entry.err.toInt = ErrNoError ∧ ∃ partition ∈ entry.partitions, partition.Leaderless

/-- A response is a reason to ask again: the client is not closed, and an entry is unsettled. -/
def Retriable (data : MetadataResponse) (c : Client) : Prop := c.closed = false ∧ ∃ entry ∈ data.topics, Unsettled entry

/-- The last entry of the topic does not store partitions. -/
def Unstored (data : MetadataResponse) (topic : Bytes) : Prop :=
  ∀ entry, Client.lastNamed data.topics topic = some entry → Client.Accepted entry → entry.partitions = []

/-! ## What an update answers and keeps -/

section Update

open Client

variable {c : Client} {now : Bytes → TimePoint} {retry : Bool}

private theorem storePartitions_retry (name : Bytes) (partitions : List PartitionMetadata) (retry : Bool) (c : Client) :
    (partitions.foldl (storePartition name) (retry, c)).1 = true ↔
      retry = true ∨ ∃ partition ∈ partitions, partition.Leaderless := by
  induction partitions generalizing retry c with
  | nil => simp
  | cons partition partitions ih =>
    rw [List.foldl_cons]
    refine (ih _ _).trans ?_
    simp [or_assoc]

private theorem storeTopic_retry (retry : Bool) (c : Client) (entry : TopicMetadata) :
    (storeTopic retry c entry).1 = true ↔ retry = true ∨ ∃ partition ∈ entry.partitions, partition.Leaderless :=
  storePartitions_retry entry.name entry.partitions retry c

/-- A round over the topics asks to ask again for an unsettled entry. -/
theorem updateTopic_retry (now : Bytes → TimePoint) (retry : Bool) (c : Client) (entry : TopicMetadata) :
    (updateTopic now (retry, c) entry).1 = true ↔ retry = true ∨ Unsettled entry := by
  simp only [updateTopic]
  split_ifs with noError denied unknown noLeader
  · rw [storeTopic_retry]
    simp [Unsettled, noError, ErrNoError, ErrUnknownTopicOrPartition, ErrLeaderNotAvailable]
  · have settled : ¬ Unsettled entry := by
      rcases denied with denied | denied <;>
        simp [Unsettled, denied, ErrInvalidTopic, ErrTopicAuthorizationFailed, ErrUnknownTopicOrPartition,
          ErrLeaderNotAvailable, ErrNoError]
    simp [settled]
  · simp [Unsettled, unknown]
  · rw [storeTopic_retry]
    simp [Unsettled, noLeader]
  · simp [Unsettled, noError, unknown, noLeader]

private theorem updateTopics_retry (entries : List TopicMetadata) (retry : Bool) (c : Client) :
    (entries.foldl (updateTopic now) (retry, c)).1 = true ↔ retry = true ∨ ∃ entry ∈ entries, Unsettled entry := by
  induction entries generalizing retry c with
  | nil => simp
  | cons entry entries ih =>
    have first := updateTopic_retry now retry c entry
    rw [List.foldl_cons]
    refine (ih (updateTopic now (retry, c) entry).1 (updateTopic now (retry, c) entry).2).trans ?_
    rw [first, or_assoc, List.exists_mem_cons_iff]

/-- An update asks to ask again for a retriable response. -/
theorem updateMetadata_retry (c : Client) (data : MetadataResponse) (all : Bool) (now : Bytes → TimePoint) :
    (c.updateMetadata data all now).1 = true ↔ Retriable data c := by
  unfold updateMetadata Retriable
  split
  · next closed => simp [closed]
  · next opened =>
    rw [updateTopics_retry]
    simp [opened]

/-- After its round a topic is known if its partitions were stored. -/
theorem updateTopic_known_iff (now : Bytes → TimePoint) (retry : Bool) (c : Client) (entry : TopicMetadata) :
    entry.name ∈ (updateTopic now (retry, c) entry).2.metadata ↔ Accepted entry ∧ entry.partitions ≠ [] := by
  have absent := (forgetTopic_absent c entry.name).1
  have stored (retry : Bool) {d : Client} (absent : entry.name ∉ d.metadata) :
      entry.name ∈ (storeTopic retry d entry).2.metadata ↔ entry.partitions ≠ [] := by
    obtain ⟨metadata, left_, -, member⟩ := storePartitions_spec entry.name entry.partitions retry d
    simp only [storeTopic, left_]
    rw [member, or_iff_right absent]
  have refused (notAccepted : ¬ Accepted entry) :
      entry.name ∈ (c.forgetTopic entry.name).metadata ↔ Accepted entry ∧ entry.partitions ≠ [] :=
    iff_of_false absent fun accepted => notAccepted accepted.1
  simp only [updateTopic]
  split_ifs with noError denied unknown noLeader
  · refine (stored retry ?_).trans (by simp [Accepted, noError])
    exact absent
  · exact refused (by rcases denied with denied | denied <;> rw [Accepted, denied] <;> decide)
  · exact refused (by rw [Accepted, unknown]; decide)
  · exact (stored true absent).trans (by simp [Accepted, noLeader])
  · exact refused (not_or.mpr ⟨noError, noLeader⟩)

/-- The last entry of a topic decides whether it is known. -/
theorem updateTopics_known_iff {entries : List TopicMetadata} {last : TopicMetadata} (retry : Bool) (c : Client)
    (found : lastNamed entries topic = some last) :
    topic ∈ (entries.foldl (updateTopic now) (retry, c)).2.metadata ↔ Accepted last ∧ last.partitions ≠ [] := by
  induction entries using List.reverseRecOn with
  | nil => cases found
  | append_singleton entries entry ih =>
    rw [lastNamed_append_singleton] at found
    rw [List.foldl_append]
    split at found
    · next same =>
      cases found
      rw [← same]
      exact updateTopic_known_iff now _ _ last
    · next other =>
      have kept := (updateTopic_frame now (entries.foldl (updateTopic now) (retry, c)).1
        (entries.foldl (updateTopic now) (retry, c)).2 (Ne.symm other)).1
      rw [← ih found, Std.ExtTreeMap.mem_iff_isSome_getElem?, Std.ExtTreeMap.mem_iff_isSome_getElem?, ← kept]
      rfl

private theorem exists_lastNamed {entries : List TopicMetadata} {entry : TopicMetadata} (member : entry ∈ entries) :
    ∃ last, lastNamed entries entry.name = some last := by
  refine Option.isSome_iff_exists.mp (List.find?_isSome.mpr ⟨entry, List.mem_reverse.mpr member, ?_⟩)
  exact decide_eq_true rfl

/-- A topic with an error in a response is forgotten if and only if no partitions of it are stored. -/
theorem updateMetadata_unknown_iff (opened : c.closed = false) (all : Bool) (erroneous : Erroneous data topic) :
    topic ∉ (c.updateMetadata data all now).2.metadata ↔ Unstored data topic := by
  obtain ⟨entry, member, rfl, -⟩ := erroneous
  obtain ⟨last, found⟩ := exists_lastNamed member
  simp only [updateMetadata, opened, Bool.false_eq_true, if_false]
  rw [updateTopics_known_iff false _ found]
  simp [Unstored, found]

end Update

/-! ## A refresh -/

/-- The program leaves the property whenever it returns. -/
abbrev Returning {α : Type} := Calls.Upholds (α := α) Seen.Means fun _ _ => True

/-- What is known is what the last update left. -/
def Kept (s : Seen) : Prop :=
  ∀ data c, s.last = some (data, c) → ∃ all now, s.client.metadata = (c.updateMetadata data all now).2.metadata

/-- The refresh goes on. -/
def Pending (s : Seen) : Prop := Kept s ∧ ∀ data c, s.last = some (data, c) → Retriable data c

/-- A refresh returns zero for a response that is not retriable and only for one. -/
def Told (code : KError) (s : Seen) : Prop :=
  Kept s ∧ (code = 0 → ∃ data c, s.last = some (data, c) ∧ ¬ Retriable data c) ∧
    (code ≠ 0 → ∀ data c, s.last = some (data, c) → Retriable data c)

variable {s : Seen}

theorem Pending.told {code : KError} (pending : Pending s) (error : code ≠ 0) : Told code s :=
  ⟨pending.1, fun zero => absurd zero error, fun _ => pending.2⟩

/-- A call that is no update. -/
def NoUpdate (call : RefreshCall) : Prop := ∀ data all, call ≠ .updateMetadata data all

/-- Only an update changes what is known. -/
theorem means_metadata {c d : Client} {call : RefreshCall} {answer : call.Answer} (noUpdate : NoUpdate call)
    (means : c.Means call answer d) : d.metadata = c.metadata := by
  cases call with
  | updateMetadata data all => exact absurd rfl (noUpdate data all)
  | exhausted => exact answer.elim
  | addTopics topics =>
    obtain ⟨refresher, -, rfl⟩ := means
    rfl
  | buryFirstSeed seed =>
    obtain rfl := means
    simp only [Client.buryFirstSeed]
    split
    · rfl
    · split <;> rfl
  | deregisterBroker broker =>
    obtain rfl := means
    simp only [Client.deregisterBroker]
    split
    · rfl
    · split
      · rfl
      · split <;> rfl
  | closed | metadataTopics | lastBroker | firstSeed | loadUpdateMetadataMs => rw [means.2]
  | now | sleepFor _ | open_ _ | close _ | getMetadata _ _ | storeUpdateMetadataMs _ => rw [means]

theorem Pending.keeps (s : Seen) (call : RefreshCall) (answer : call.Answer) (t : Seen) (noUpdate : NoUpdate call)
    (pending : Pending s) (means : s.Means call answer t) : Pending t := by
  have last : t.last = s.last := by
    rw [means.2]
    cases call with
    | updateMetadata data all => exact absurd rfl (noUpdate data all)
    | _ => rfl
  have metadata := means_metadata noUpdate means.1
  unfold Pending Kept
  rw [last, metadata]
  exact pending

theorem Pending.returning {α : Type} {x : Refresh α} (every : Every NoUpdate x) (pending : Pending s) :
    Returning (fun _ => Pending) x s :=
  every.upholds (fun _ _ _ _ => trivial) Pending.keeps pending

theorem Pending.quiet {α : Type} {x : Refresh α} (every : Every Quiet x) (pending : Pending s) :
    Returning (fun _ => Pending) x s :=
  Pending.returning (every.mono fun _ => And.right) pending

/-- A retry ends with an error, or as another attempt does. -/
theorem retryRefreshMetadata_told {attempt : Int32 → Refresh KError} {err : KError} (error : err ≠ 0)
    (attempts : ∀ n s, Pending s → Returning Told (attempt n) s) (pending : Pending s) (attemptsRemaining : Int32) :
    Returning Told (retryRefreshMetadata conf deadline attempt attemptsRemaining err) s := by
  refine .ite (fun _ => ?_) (fun _ => pending.told error)
  refine (Pending.quiet (every_pastDeadline _ _) pending).bind fun past t pending => ?_
  refine .ite (fun _ => pending.told error) (fun _ => ?_)
  refine (Pending.quiet (every_backOff _) pending).bind fun _ t pending => ?_
  have load : Every NoUpdate (ask .loadUpdateMetadataMs) := Calls.every_send (by simp [NoUpdate])
  refine (Pending.returning load pending).bind fun _ t pending => ?_
  refine (Pending.quiet (every_ask (by simp [Quiet, Ordinary])) pending).bind fun _ t pending => ?_
  exact .ite (fun _ => pending.told error) (fun _ => attempts _ _ pending)

/-- An update leaves what it answers to be told. -/
theorem update_told (data : MetadataResponse) (all : Bool) :
    Returning (fun shouldRetry t => if shouldRetry then Pending t else Told 0 t) (ask (.updateMetadata data all)) s := by
  refine Calls.upholds_send trivial ?_
  rintro shouldRetry t ⟨⟨now, updated⟩, last⟩
  have answer : (s.client.updateMetadata data all now).1 = shouldRetry := congrArg Prod.fst updated
  have left_ : (s.client.updateMetadata data all now).2 = t.client := congrArg Prod.snd updated
  have kept : Kept t := by
    intro data_ c found
    rw [last] at found
    cases found
    exact ⟨all, now, by rw [left_]⟩
  have retry := updateMetadata_retry s.client data all now
  rw [answer] at retry
  cases shouldRetry with
  | true =>
    refine ⟨kept, fun data_ c found => ?_⟩
    rw [last] at found
    cases found
    exact retry.mp rfl
  | false =>
    refine ⟨kept, fun _ => ⟨data, s.client, last, fun retriable => ?_⟩, fun error => absurd rfl error⟩
    cases retry.mpr retriable

private theorem tryRefreshMetadata_told (fuel : ℕ) (attemptsRemaining : Int32) (broker : Option BrokerRef)
    (pending : Pending s) :
    Returning Told (tryRefreshMetadata conf topics deadline fuel attemptsRemaining broker) s := by
  induction fuel generalizing attemptsRemaining broker s with
  | zero => exact ⟨trivial, fun answer => answer.elim⟩
  | succ fuel ih =>
    unfold tryRefreshMetadata
    refine (Pending.quiet (every_leastLoadedBroker broker) pending).bind fun picked t pending => ?_
    refine .ite (fun invalid => pending.told ?_) (fun _ => ?_)
    · rw [invalid]
      decide
    cases picked.2 with
    | none => exact pending.told (by decide)
    | some broker =>
      refine (Pending.quiet (every_pastDeadline deadline 0) pending).bind fun past t pending => ?_
      refine .ite (fun _ => pending.told (by decide)) (fun _ => ?_)
      refine (Pending.quiet (every_fetchMetadata broker) pending).bind fun fetched t pending => ?_
      have dropped : Returning Told (dropBroker broker >>= fun _ =>
          tryRefreshMetadata conf topics deadline fuel attemptsRemaining (some broker)) t :=
        (Pending.quiet (every_dropBroker broker) pending).bind fun _ _ pending => ih _ _ pending
      refine .ite (fun _ => .ite (fun _ => dropped) (fun _ => ?_)) (fun failed => ?_)
      · refine (update_told fetched.2 topics.isEmpty).bind fun shouldRetry t told => ?_
        refine .ite (fun again => ?_) (fun enough => ?_)
        · rw [if_pos again] at told
          exact retryRefreshMetadata_told (by decide) (fun n s pending => ih n none pending) told attemptsRemaining
        · rw [if_neg enough] at told
          exact told
      · exact .ite (fun _ => pending.told failed) (fun _ => .ite (fun _ => pending.told failed) (fun _ => dropped))

private theorem refreshMetadata_told (fuel : ℕ) (c : Client) :
    Returning Told (refreshMetadata conf topics fuel) ⟨c, none⟩ := by
  have pending : Pending ⟨c, none⟩ := ⟨nofun, nofun⟩
  refine (Pending.returning (Calls.every_send (by simp [NoUpdate])) pending).bind fun closed t pending => ?_
  refine .ite (fun _ => pending.told (by decide)) (fun _ => ?_)
  refine .ite (fun _ => pending.told (by decide)) (fun _ => ?_)
  refine (Pending.returning (Calls.every_send (by simp [NoUpdate])) pending).bind fun added t pending => ?_
  refine (Pending.returning (Calls.every_send (by simp [NoUpdate])) pending).bind fun now t pending => ?_
  exact tryRefreshMetadata_told fuel conf.retryMax none pending

/-- A refresh reports the errors of its topics if and only if all its topics are in the last response without an error,
or the response is retriable and no partitions are stored for the topics with an error. -/
theorem topic_errors_reported_iff (conf : MetadataConfig) (topics : List Bytes) (fuel : ℕ) (c : Client) {trace : Trace}
    {code : KError} {t : Seen} (run : Advances Seen.Means (refreshMetadata conf topics fuel) ⟨c, none⟩ trace (pure code) t) :
    Reported topics code t ↔ ∀ data found, t.last = some (data, found) → (∀ topic ∈ topics, Clean data topic) ∨
        Retriable data found ∧ ∀ topic ∈ topics, Erroneous data topic → Unstored data topic := by
  obtain ⟨kept, zero, error⟩ := (refreshMetadata_told fuel c).advances run
  have clean_not {data : MetadataResponse} {topic : Bytes} (clean : Clean data topic) : ¬ Erroneous data topic := by
    rintro ⟨entry, member, name, err⟩
    exact err (clean.2 entry member name)
  constructor
  · intro reported data found last
    by_cases ok : code = 0
    · obtain ⟨data', found', last', clean⟩ := reported.zero ok
      rw [last] at last'
      cases last'
      exact .inl clean
    · have retriable := error ok data found last
      refine .inr ⟨retriable, fun topic member erroneous => ?_⟩
      obtain ⟨all, now, metadata⟩ := kept data found last
      have unknown := (reported.error data found last topic member erroneous).2
      rw [metadata] at unknown
      exact (updateMetadata_unknown_iff retriable.1 all erroneous).mp unknown
  · intro holds
    constructor
    · intro ok
      obtain ⟨data, found, last, notRetriable⟩ := zero ok
      refine ⟨data, found, last, ?_⟩
      exact (holds data found last).resolve_right fun retriable => notRetriable retriable.1
    · intro data found last topic member erroneous
      obtain ⟨retriable, unstored⟩ :=
        (holds data found last).resolve_left fun clean => clean_not (clean topic member) erroneous
      have failed : code ≠ 0 := by
        intro ok
        obtain ⟨data', found', last', notRetriable⟩ := zero ok
        rw [last] at last'
        cases last'
        exact notRetriable retriable
      refine ⟨failed, ?_⟩
      obtain ⟨all, now, metadata⟩ := kept data found last
      rw [metadata]
      exact (updateMetadata_unknown_iff retriable.1 all erroneous).mpr (unstored topic member erroneous)

/-! ## A refresh of one topic -/

/-- A client with one seed. -/
def seeded : Client := { seedBrokers := [⟨0, []⟩] }

/-- The refresher remembers the topic. -/
def asking : Client := { seeded with metadataRefresher := (seeded.metadataRefresher.addTopics [[0x74]] 0).2 }

/-- A response that says something of a topic. -/
def about (entry : TopicMetadata) : MetadataResponse := { brokers := [{ id := 1, addr := [] }], topics := [entry] }

/-- What a response leaves. -/
def answeredWith (response : MetadataResponse) : Client := (asking.updateMetadata response false fun _ => 0).2

/-- The only seed answers. -/
def answered (response : MetadataResponse) : Trace :=
  [⟨.closed, false⟩, ⟨.addTopics [[0x74]], (0, [[0x74]])⟩, ⟨.now, (0 : ℤ)⟩, ⟨.lastBroker, none⟩,
    ⟨.firstSeed, some ⟨0, []⟩⟩, ⟨.open_ (.seed ⟨0, []⟩), (0 : ℤ)⟩, ⟨.now, (0 : ℤ)⟩, ⟨.now, (0 : ℤ)⟩,
    ⟨.storeUpdateMetadataMs 0, ()⟩,
    ⟨.getMetadata (.seed ⟨0, []⟩) { topics := [[0x74]], allowAutoTopicCreation := true }, ((0 : ℤ), response)⟩,
    ⟨.updateMetadata response false, false⟩]

/-- A response that gives no reason to ask again ends the refresh. -/
theorem answered_run {entry : TopicMetadata} (settled : (asking.updateMetadata (about entry) false fun _ => 0).1 = false) :
    Advances Seen.Means (refreshMetadata {} [[0x74]] 1) ⟨seeded, none⟩ (answered (about entry)) (pure 0)
      ⟨answeredWith (about entry), some (about entry, asking)⟩ := by
  have told : asking.Means (.updateMetadata (about entry) false) false (answeredWith (about entry)) :=
    ⟨fun _ => 0, Prod.ext settled rfl⟩
  refine .call (t := Seen.mk seeded none) ⟨⟨by decide, rfl⟩, rfl⟩ ?_
  refine .call (t := Seen.mk asking none) ⟨⟨_, rfl, rfl⟩, rfl⟩ ?_
  refine .call (t := Seen.mk asking none) ⟨rfl, rfl⟩ ?_
  refine .call (t := Seen.mk asking none) ⟨⟨by decide, rfl⟩, rfl⟩ ?_
  refine .call (t := Seen.mk asking none) ⟨⟨rfl, rfl⟩, rfl⟩ ?_
  refine .call (t := Seen.mk asking none) ⟨rfl, rfl⟩ ?_
  refine .call (t := Seen.mk asking none) ⟨rfl, rfl⟩ ?_
  refine .call (t := Seen.mk asking none) ⟨rfl, rfl⟩ ?_
  refine .call (t := Seen.mk asking none) ⟨rfl, rfl⟩ ?_
  refine .call (t := Seen.mk asking none) ⟨rfl, rfl⟩ ?_
  refine .call (t := Seen.mk (answeredWith (about entry)) (some (about entry, asking))) ⟨told, rfl⟩ ?_
  exact .done

/-- A response with the partitions of the topic. -/
def describing : MetadataResponse :=
  about { name := [0x74], partitions := [{ id := 0, leader := 1 }, { id := 1, leader := 1 }] }

/-- The topic is there without an error, so that the zero is true. -/
theorem topic_errors_reported_described :
    Advances Seen.Means (refreshMetadata {} [[0x74]] 1) ⟨seeded, none⟩ (answered describing) (pure 0)
        ⟨answeredWith describing, some (describing, asking)⟩ ∧
      Reported [[0x74]] 0 ⟨answeredWith describing, some (describing, asking)⟩ := by
  have run : Advances Seen.Means (refreshMetadata {} [[0x74]] 1) ⟨seeded, none⟩ (answered describing) (pure 0)
      ⟨answeredWith describing, some (describing, asking)⟩ := answered_run (by decide +kernel)
  have clean : Clean describing [0x74] := by
    refine ⟨⟨_, List.mem_singleton_self _, rfl⟩, fun entry member _ => ?_⟩
    rw [List.mem_singleton.mp member]
    rfl
  refine ⟨run, (topic_errors_reported_iff {} [[0x74]] 1 seeded run).mpr fun data found last => .inl fun topic asked => ?_⟩
  cases last
  rwa [List.mem_singleton.mp asked]

/-! ## A refused topic -/

/-- A response that calls the name of its only topic invalid. -/
def refusing : MetadataResponse := about { err := 17, name := [0x74] }

private theorem refusing_erroneous : Erroneous refusing [0x74] := ⟨_, List.mem_singleton_self _, rfl, by decide⟩

/-- The name of the topic is invalid, and the refresh returns zero. -/
theorem invalid_topic_succeeds : ∃ t,
    Advances Seen.Means (refreshMetadata {} [[0x74]] 1) ⟨seeded, none⟩ (answered refusing) (pure 0) t ∧
      t.last = some (refusing, asking) ∧ Erroneous refusing [0x74] ∧ ¬ Reported [[0x74]] 0 t := by
  refine ⟨⟨answeredWith refusing, some (refusing, asking)⟩, answered_run (by decide +kernel), rfl, refusing_erroneous,
    fun reported => ?_⟩
  exact (reported.error refusing asking rfl [0x74] (List.mem_singleton_self _) refusing_erroneous).1 rfl

end Coev.Kafka.Refresh
