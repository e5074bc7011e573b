import Coev.Model.Kafka.ReadBroker

/-! # The preferred replica of a partition

The test of the code of `GetBroker` is the wrong way round: the replica is kept when it cannot be used, and dropped
when it can.
-/

namespace Coev.Kafka.Reader

variable {strict : Bool} {pc : PartitionConsumer} {leaderEpoch epoch : Int32} {broker : Option BrokerObject}
  {trace : List (Sigma ReaderCall.Answer)} {selection : Selection}

/-! ## The property -/

/-- The answer to the look-up of the preferred replica. -/
def LookedUp (pc : PartitionConsumer) (trace : List (Sigma ReaderCall.Answer))
    (lookup : BrokerLookup pc.preferredReadReplica) :
    Prop := ⟨.getBroker pc.preferredReadReplica, lookup⟩ ∈ trace

/-- A known replica; `strict` asks that it can be opened, too. -/
def Known (strict : Bool) (pc : PartitionConsumer) (trace : List (Sigma ReaderCall.Answer)) (replica : BrokerObject) :
    Prop :=
  ∃ registered opened, LookedUp pc trace (.known replica registered opened) ∧ (strict = true → opened = 0)

/-- The leader, behind a refresh if there was a preference. -/
structure FellBack (pc : PartitionConsumer) (trace : List (Sigma ReaderCall.Answer)) (selection : Selection)
    (leader : BrokerObject) : Prop where
  answered : ∃ epoch, ⟨.leaderAndEpoch pc.topic pc.partition, .found leader epoch⟩ ∈ trace
  dropped : selection.consumer.preferredReadReplica < 0
  refreshed : 0 ≤ pc.preferredReadReplica → ⟨.refreshMetadata [pc.topic], ErrNoError⟩ ∈ trace

/-- Without an error the broker is the preferred replica if it is known, and the leader otherwise. -/
def Selects (strict : Bool) (pc : PartitionConsumer) (trace : List (Sigma ReaderCall.Answer)) (selection : Selection) :
    Prop :=
  selection.err = 0 → ∃ broker, selection.broker = some broker ∧
    (Known strict pc trace broker ∨ (∀ replica, ¬ Known strict pc trace replica) ∧ FellBack pc trace selection broker)

/-- No child is moved but to another broker, and no null pointer is followed. -/
def MovesApart (own : BrokerObject) (handled : List Handling) : Prop :=
  ∀ handling ∈ handled, handling ≠ .nullPointer ∧ ∀ selected child, handling = .moves selected child → selected ≠ own

/-- There is no preference, or it is for a registered broker that cannot be opened (where such a one counts as known),
or for one that can, when the refresh or the look-up of the leader fails or the leader is that broker. -/
def Replica (strict : Bool) (pc : PartitionConsumer) (trace : List (Sigma ReaderCall.Answer)) : Prop :=
  pc.preferredReadReplica < 0 ∨ ∃ replica registered opened, LookedUp pc trace (.known replica registered opened) ∧
    (opened ≠ 0 ∧ strict = false ∨ opened = 0 ∧ ∀ leader epoch,
      ⟨.leaderAndEpoch pc.topic pc.partition, .found leader epoch⟩ ∈ trace → leader = replica)

/-- Every preference is for a registered broker. -/
def Registered (trace : List (Sigma ReaderCall.Answer)) : Prop :=
  ∀ id, (⟨.getBroker id, .unknown⟩ : Sigma ReaderCall.Answer) ∉ trace

/-! ## Runs -/

/-- The look-up of the leader. -/
inductive LeaderRun (pc : PartitionConsumer) (broker : Option BrokerObject) (epoch : Int32) :
    List (Sigma ReaderCall.Answer) → Selection → Prop
  | fails (err : KError) (nonzero : err ≠ 0) (closed : Bool) :
    LeaderRun pc broker epoch [⟨.leaderAndEpoch pc.topic pc.partition, .fails err nonzero closed⟩]
      ⟨err, broker, if closed then epoch else -1, pc⟩
  | found (leader : BrokerObject) (leaderEpoch : Int32) :
    LeaderRun pc broker epoch [⟨.leaderAndEpoch pc.topic pc.partition, .found leader leaderEpoch⟩]
      ⟨0, some leader, leaderEpoch, pc⟩

/-- The consumer without its preference. -/
def unprefer (pc : PartitionConsumer) : PartitionConsumer := { pc with preferredReadReplica := InvalidPreferredReplicaID }

/-- The ways through `PreferredBroker`. -/
inductive SelectionRun (leaderEpoch : Int32) (pc : PartitionConsumer) (broker : Option BrokerObject) (epoch : Int32) :
    List (Sigma ReaderCall.Answer) → Selection → Prop
  | unset {trace : List (Sigma ReaderCall.Answer)} {selection : Selection} (unset : pc.preferredReadReplica < 0)
    (leader : LeaderRun pc broker epoch trace selection) : SelectionRun leaderEpoch pc broker epoch trace selection
  | unknown (set : 0 ≤ pc.preferredReadReplica) :
    SelectionRun leaderEpoch pc broker epoch [⟨.getBroker pc.preferredReadReplica, .unknown⟩] ⟨0, broker, leaderEpoch, pc⟩
  | unusable (set : 0 ≤ pc.preferredReadReplica) (replica : BrokerObject)
    (registered : replica.broker.id = pc.preferredReadReplica) (opened : KError) (failed : opened ≠ 0) :
    SelectionRun leaderEpoch pc broker epoch [⟨.getBroker pc.preferredReadReplica, .known replica registered opened⟩]
      ⟨0, some replica, leaderEpoch, pc⟩
  | unrefreshed (set : 0 ≤ pc.preferredReadReplica) (replica : BrokerObject)
    (registered : replica.broker.id = pc.preferredReadReplica) (err : KError) (failed : err ≠ 0) :
    SelectionRun leaderEpoch pc broker epoch
      [⟨.getBroker pc.preferredReadReplica, .known replica registered 0⟩, ⟨.refreshMetadata [pc.topic], err⟩]
      ⟨err, some replica, epoch, unprefer pc⟩
  | dropped (set : 0 ≤ pc.preferredReadReplica) (replica : BrokerObject)
    (registered : replica.broker.id = pc.preferredReadReplica) {trace : List (Sigma ReaderCall.Answer)}
      {selection : Selection}
    (leader : LeaderRun (unprefer pc) (some replica) epoch trace selection) :
    SelectionRun leaderEpoch pc broker epoch
      (⟨.getBroker pc.preferredReadReplica, .known replica registered 0⟩ ::
        ⟨.refreshMetadata [pc.topic], (0 : KError)⟩ :: trace)
      selection

private theorem leaderRun_of_runs (run : (selectLeader pc broker epoch).Runs trace selection) :
    LeaderRun pc broker epoch trace selection := by
  obtain ⟨answer, rest, rfl, run⟩ := run
  cases answer with
  | fails err nonzero closed =>
    obtain ⟨rfl, rfl⟩ := run
    exact .fails err nonzero closed
  | found leader leaderEpoch =>
    obtain ⟨rfl, rfl⟩ := run
    exact .found leader leaderEpoch

private theorem selectionRun_of_runs (run : (preferredBroker leaderEpoch pc broker epoch).Runs trace selection) :
    SelectionRun leaderEpoch pc broker epoch trace selection := by
  unfold preferredBroker at run
  split_ifs at run with set
  · obtain ⟨answer, rest, rfl, run⟩ := run
    cases answer with
    | unknown =>
      obtain ⟨rfl, rfl⟩ := run
      exact .unknown set
    | known replica registered opened =>
      simp only [Calls.bind] at run
      split_ifs at run with failed
      · obtain ⟨rfl, rfl⟩ := run
        exact .unusable set replica registered opened failed
      · obtain rfl : opened = 0 := not_not.mp failed
        obtain ⟨err, rest, rfl, run⟩ := run
        simp only [Calls.bind] at run
        split_ifs at run with failed
        · obtain ⟨rfl, rfl⟩ := run
          exact .unrefreshed set replica registered err failed
        · obtain rfl : err = 0 := not_not.mp failed
          exact .dropped set replica registered (leaderRun_of_runs run)
  · exact .unset (Int32.not_le.mp set) (leaderRun_of_runs run)

/-! ## The broker of a run -/

/-- The look-up of a leader asks for no broker. -/
theorem LeaderRun.not_lookedUp {looking : PartitionConsumer} {lookup : BrokerLookup pc.preferredReadReplica}
    (leader : LeaderRun looking broker epoch trace selection) : ¬ LookedUp pc trace lookup := by
  cases leader <;> simp [LookedUp]

private theorem selects_of_unset (unset : pc.preferredReadReplica < 0) (leader : LeaderRun pc none epoch trace selection) :
    Selects strict pc trace selection := by
  have unknown : ∀ replica, ¬ Known strict pc trace replica := by
    rintro replica ⟨registered, opened, lookedUp, -⟩
    exact leader.not_lookedUp lookedUp
  cases leader with
  | fails err nonzero closed => exact fun ok => absurd ok nonzero
  | found leader leaderEpoch =>
    refine fun _ => ⟨leader, rfl, .inr ⟨unknown, ⟨leaderEpoch, by simp⟩, unset, fun set => ?_⟩⟩
    exact absurd unset (Int32.not_lt.mpr set)

/-- The replica is looked up once. -/
theorem LeaderRun.lookedUp_behind {looking : PartitionConsumer} {replica other : BrokerObject}
    {registered : replica.broker.id = pc.preferredReadReplica} {registered' : other.broker.id = pc.preferredReadReplica}
    {opened : KError} (leader : LeaderRun looking broker epoch trace selection)
    (lookedUp : LookedUp pc (⟨.getBroker pc.preferredReadReplica, .known replica registered 0⟩ ::
      ⟨.refreshMetadata [pc.topic], (0 : KError)⟩ :: trace) (.known other registered' opened)) :
    other = replica ∧ opened = 0 := by
  have later : ¬ LookedUp pc trace (.known other registered' opened) := leader.not_lookedUp
  simpa [LookedUp, later] using (List.mem_cons.mp lookedUp).imp_right fun member =>
    (List.mem_cons.mp member).resolve_right later

/-- Behind a look-up of the replica that succeeds, only the replica itself may be selected. -/
private theorem selects_dropped_iff {replica : BrokerObject} (registered : replica.broker.id = pc.preferredReadReplica)
    (leader : LeaderRun (unprefer pc) (some replica) epoch trace selection) :
    Selects strict pc (⟨.getBroker pc.preferredReadReplica, .known replica registered 0⟩ ::
      ⟨.refreshMetadata [pc.topic], (0 : KError)⟩ :: trace) selection ↔
      ∀ found epoch, ⟨.leaderAndEpoch pc.topic pc.partition, .found found epoch⟩ ∈ trace → found = replica := by
  have known : ∀ other, Known strict pc (⟨.getBroker pc.preferredReadReplica, .known replica registered 0⟩ ::
      ⟨.refreshMetadata [pc.topic], (0 : KError)⟩ :: trace) other ↔ other = replica := by
    intro other
    constructor
    · rintro ⟨registered', opened, lookedUp, -⟩
      exact (leader.lookedUp_behind lookedUp).1
    · rintro rfl
      exact ⟨registered, 0, by simp [LookedUp], fun _ => rfl⟩
  cases leader with
  | fails err nonzero closed =>
    refine ⟨fun _ found epoch answered => ?_, fun _ ok => absurd ok nonzero⟩
    simp at answered
  | found found foundEpoch =>
    constructor
    · intro selects other otherEpoch answered
      obtain ⟨broker, same, known_ | ⟨unknown, -⟩⟩ := selects rfl
      · cases same
        simp only [unprefer, List.mem_singleton, Sigma.mk.injEq, heq_eq_eq, true_and, LeaderLookup.found.injEq] at answered
        exact answered.1.trans ((known _).mp known_)
      · exact absurd ((known replica).mpr rfl) (unknown replica)
    · intro same _
      exact ⟨found, rfl, .inl ((known found).mpr (same found foundEpoch (List.mem_singleton.mpr rfl)))⟩

private theorem selects_iff_of_run (run : SelectionRun leaderEpoch pc none epoch trace selection) :
    Selects strict pc trace selection ↔ Replica strict pc trace := by
  cases run with
  | unset unset leader => exact iff_of_true (selects_of_unset unset leader) (.inl unset)
  | unknown set =>
    refine iff_of_false (fun selects => ?_) ?_
    · obtain ⟨broker, missing, -⟩ := selects rfl
      cases missing
    · rintro (unset | ⟨replica, registered, opened, lookedUp, -⟩)
      · exact Int32.not_lt.mpr set unset
      · simp [LookedUp] at lookedUp
  | unusable set replica registered opened failed =>
    have known : ∀ other, Known strict pc [⟨.getBroker pc.preferredReadReplica, .known replica registered opened⟩] other ↔
        other = replica ∧ strict = false := by
      intro other
      constructor
      · rintro ⟨registered', opened', lookedUp, usable⟩
        simp only [LookedUp, List.mem_singleton, Sigma.mk.injEq, heq_eq_eq, true_and, BrokerLookup.known.injEq] at lookedUp
        obtain ⟨rfl, rfl⟩ := lookedUp
        exact ⟨rfl, Bool.eq_false_iff.mpr fun strict_ => failed (usable strict_)⟩
      · rintro ⟨rfl, lenient⟩
        exact ⟨registered, opened, List.mem_singleton.mpr rfl, fun strict_ => by simp [lenient] at strict_⟩
    constructor
    · intro selects
      obtain ⟨broker, same, known_ | ⟨-, fellBack⟩⟩ := selects rfl
      · exact .inr ⟨replica, registered, opened, List.mem_singleton.mpr rfl, .inl ⟨failed, ((known broker).mp known_).2⟩⟩
      · exact absurd fellBack.dropped (Int32.not_lt.mpr set)
    · rintro (unset | ⟨replica', registered', opened', lookedUp, ⟨-, lenient⟩ | ⟨usable, -⟩⟩)
      · exact absurd unset (Int32.not_lt.mpr set)
      · exact fun _ => ⟨replica, rfl, .inl ((known replica).mpr ⟨rfl, lenient⟩)⟩
      · simp only [LookedUp, List.mem_singleton, Sigma.mk.injEq, heq_eq_eq, true_and, BrokerLookup.known.injEq] at lookedUp
        exact absurd (lookedUp.2.symm.trans usable) failed
  | unrefreshed set replica registered err failed =>
    refine iff_of_true (fun ok => absurd ok failed) (.inr ⟨replica, registered, 0, by simp [LookedUp], .inr ⟨rfl, ?_⟩⟩)
    intro leader epoch answered
    simp at answered
  | dropped set replica registered leader =>
    rw [selects_dropped_iff registered leader]
    constructor
    · intro same
      refine .inr ⟨replica, registered, 0, by simp [LookedUp], .inr ⟨rfl, fun found epoch answered => same found epoch ?_⟩⟩
      simpa using answered
    · rintro (unset | ⟨replica', registered', opened', lookedUp, ⟨failed, -⟩ | ⟨-, same⟩⟩) found epoch answered
      · exact absurd unset (Int32.not_lt.mpr set)
      · exact absurd (leader.lookedUp_behind lookedUp).2 failed
      · rw [← (leader.lookedUp_behind lookedUp).1]
        exact same found epoch (by simp [answered])

/-! ## Children that are handled -/

variable {own : BrokerObject} {child : Child} {children : List (Int32 × Child)} {initialOffset : Int64} {returnErrors : Bool}
  {handling : Handling} {handled : List Handling}

theorem LeaderRun.registered (leader : LeaderRun pc broker epoch trace selection) : Registered trace := by
  cases leader <;> simp [Registered]

theorem LeaderRun.found_some (leader : LeaderRun pc broker epoch trace selection) (ok : selection.err = 0) :
    selection.broker ≠ none := by
  cases leader with
  | fails err nonzero closed => exact absurd ok nonzero
  | found leader leaderEpoch => exact Option.some_ne_none leader

/-- The pointer stays null where an unknown broker is preferred, and there only. -/
private theorem null_iff_of_run (run : SelectionRun leaderEpoch pc none epoch trace selection) :
    (selection.err = 0 ∧ selection.broker = none) ↔ ¬ Registered trace := by
  cases run with
  | unset unset leader => exact iff_of_false (fun null => leader.found_some null.1 null.2) (not_not.mpr leader.registered)
  | unknown set =>
    exact iff_of_true ⟨rfl, rfl⟩ fun registered => registered pc.preferredReadReplica (List.mem_singleton.mpr rfl)
  | unusable set replica registered opened failed =>
    exact iff_of_false (fun null => Option.some_ne_none replica null.2) (not_not.mpr (by simp [Registered]))
  | unrefreshed set replica registered err failed =>
    exact iff_of_false (fun null => failed null.1) (not_not.mpr (by simp [Registered]))
  | dropped set replica registered leader =>
    refine iff_of_false (fun null => leader.found_some null.1 null.2) (not_not.mpr ?_)
    intro id unknown
    rcases List.mem_cons.mp unknown with head | later
    · cases head
    · exact leader.registered id ((List.mem_cons.mp later).resolve_left (by simp))

private theorem compareBrokers_null_iff : compareBrokers own child selection = .nullPointer ↔
    selection.err = 0 ∧ selection.broker = none := by
  unfold compareBrokers
  split_ifs with ok
  · cases found : selection.broker with
    | none => simp [ok]
    | some broker =>
      dsimp only
      split_ifs <;> simp
  · simp [ok]

private theorem compareBrokers_moves {selected : BrokerObject} {moved : Child}
    (moves : compareBrokers own child selection = .moves selected moved) : selected ≠ own := by
  rintro rfl
  unfold compareBrokers at moves
  split_ifs at moves with ok
  cases found : selection.broker with
  | none => simp [found] at moves
  | some broker =>
    simp only [found] at moves
    split_ifs at moves with other
    cases moves
    exact other rfl

/-- A round that asks for no broker. -/
def Handling.Unasked : Handling → Prop
  | .stays _ | .leaves _ => True
  | .moves _ _ | .nullPointer => False

private theorem resetOffset_unasked (run : (resetOffset initialOffset returnErrors child).Runs trace handling) :
    Registered trace ∧ handling.Unasked := by
  obtain ⟨answers, rest, rfl, run⟩ := run
  simp only [Calls.bind] at run
  split_ifs at run
  · obtain ⟨rfl, rfl⟩ := run
    exact ⟨by simp [Registered], trivial⟩
  · obtain ⟨rfl, rfl⟩ := run
    exact ⟨by simp [Registered], trivial⟩

/-- What a round leaves, and for which answers. -/
private theorem handleResponse_run
    (run : (handleResponse initialOffset returnErrors own leaderEpoch child).Runs trace handling) :
    (handling = .nullPointer ↔ ¬ Registered trace) ∧ ∀ selected moved, handling = .moves selected moved →
      selected ≠ own := by
  have unasked : Registered trace ∧ handling.Unasked →
      (handling = .nullPointer ↔ ¬ Registered trace) ∧ ∀ selected moved, handling = .moves selected moved →
        selected ≠ own := by
    rintro ⟨registered, none_⟩
    exact ⟨iff_of_false (by rintro rfl; exact none_) (not_not.mpr registered), by
      rintro selected moved rfl; exact none_.elim⟩
  unfold handleResponse at run
  dsimp only at run
  split_ifs at run
  · obtain ⟨before, after, selection, rfl, asked, rfl, rfl⟩ := Calls.runs_bind_iff.mp run
    rw [List.append_nil]
    exact ⟨compareBrokers_null_iff.trans (null_iff_of_run (selectionRun_of_runs asked)),
      fun selected moved moves => compareBrokers_moves moves⟩
  · obtain ⟨rfl, rfl⟩ := run
    exact unasked ⟨by simp [Registered], trivial⟩
  · exact unasked (resetOffset_unasked run)
  · obtain ⟨rfl, rfl⟩ := run
    exact unasked ⟨by simp [Registered], trivial⟩
  · obtain ⟨rfl, rfl⟩ := run
    exact unasked ⟨by simp [Registered], trivial⟩

private theorem registered_append {first second : List (Sigma ReaderCall.Answer)} :
    Registered (first ++ second) ↔ Registered first ∧ Registered second := by
  simp only [Registered, List.mem_append, not_or, forall_and]

/-- The loop follows no null pointer when no unknown broker is preferred, and only then. -/
private theorem movesApart_iff (run : (handleResponses initialOffset returnErrors own children).Runs trace handled) :
    MovesApart own handled ↔ Registered trace := by
  induction children generalizing trace handled with
  | nil =>
    obtain ⟨rfl, rfl⟩ := run
    simp [MovesApart, Registered]
  | cons first rest ih =>
    obtain ⟨leaderEpoch, child⟩ := first
    obtain ⟨before, after, handling, rfl, round, later⟩ := Calls.runs_bind_iff.mp run
    obtain ⟨null, apart⟩ := handleResponse_run round
    have goesOn :
        handling ≠ .nullPointer → ∃ others, (handleResponses initialOffset returnErrors own rest).Runs after others ∧
        handled = handling :: others := by
      intro goes
      have later : (do
          let later ← handleResponses initialOffset returnErrors own rest
          return handling :: later : Reader (List Handling)).Runs after handled := by
        cases handling with
        | nullPointer => exact absurd rfl goes
        | stays child | moves selected child | leaves child => exact later
      obtain ⟨others, last, handled', rfl, rounds, rfl, rfl⟩ := Calls.runs_bind_iff.mp later
      exact ⟨handled', by rwa [List.append_nil], rfl⟩
    rw [registered_append]
    by_cases stops : handling = .nullPointer
    · refine iff_of_false (fun moves => ?_) fun registered => null.mp stops registered.1
      subst stops
      obtain ⟨rfl, rfl⟩ := later
      exact (moves _ (List.mem_singleton.mpr rfl)).1 rfl
    · obtain ⟨others, rounds, rfl⟩ := goesOn stops
      have registered : Registered before := not_not.mp (mt null.mpr stops)
      rw [and_iff_right registered, ← ih rounds, MovesApart, List.forall_mem_cons, and_iff_right ⟨stops, apart⟩]
      rfl

/-! ## The statement -/

/-- The broker that is returned without an error is the right one exactly in these cases, and `HandleResponses` moves
partitions to other brokers only, unless an unknown broker is preferred. -/
theorem readBroker_selected_iff (strict : Bool) (pc : PartitionConsumer) (leaderEpoch epoch : Int32) (own : BrokerObject)
    (children : List (Int32 × Child)) (initialOffset : Int64) (returnErrors : Bool) :
    (∀ trace selection, (preferredBroker leaderEpoch pc none epoch).Runs trace selection →
      (Selects strict pc trace selection ↔ Replica strict pc trace)) ∧
    ∀ trace handled, (handleResponses initialOffset returnErrors own children).Runs trace handled →
      (MovesApart own handled ↔ Registered trace) :=
  ⟨fun _ _ run => selects_iff_of_run (selectionRun_of_runs run), fun _ _ run => movesApart_iff run⟩

/-- A consumer that prefers the replica 2. -/
def follower : PartitionConsumer := { topic := [], partition := 0, preferredReadReplica := 2 }

/-- The replica 2 and the leader. -/
def replica2 : BrokerObject := ⟨0, { id := 2, addr := [] }⟩
def leader1 : BrokerObject := ⟨1, { id := 1, addr := [] }⟩

/-- An unknown replica leaves the pointer null, and one that is open is not read from. -/
theorem replica_never_selected :
    ((preferredBroker 0 follower none 0).Runs [⟨.getBroker 2, .unknown⟩] ⟨0, none, 0, follower⟩ ∧
      ¬ Selects false follower [⟨.getBroker 2, .unknown⟩] ⟨0, none, 0, follower⟩) ∧
    ((preferredBroker 0 follower none 0).Runs
        [⟨.getBroker 2, .known replica2 rfl 0⟩, ⟨.refreshMetadata [[]], (0 : KError)⟩,
          ⟨.leaderAndEpoch [] 0, .found leader1 5⟩] ⟨0, some leader1, 5, { topic := [], partition := 0 }⟩ ∧
      ¬ Selects false follower [⟨.getBroker 2, .known replica2 rfl 0⟩, ⟨.refreshMetadata [[]], (0 : KError)⟩,
          ⟨.leaderAndEpoch [] 0, .found leader1 5⟩] ⟨0, some leader1, 5, { topic := [], partition := 0 }⟩) := by
  refine ⟨⟨⟨.unknown, [], rfl, rfl, rfl⟩, fun selects => ?_⟩, ⟨?_, fun selects => ?_⟩⟩
  · obtain ⟨broker, missing, -⟩ := selects rfl
    cases missing
  · exact ⟨.known replica2 rfl 0, _, rfl, (0 : KError), _, rfl, .found leader1 5, [], rfl, rfl, rfl⟩
  · obtain ⟨broker, same, known | ⟨unknown, -⟩⟩ := selects rfl
    · cases same
      obtain ⟨registered, -⟩ := known
      exact absurd registered (by decide)
    · exact unknown replica2 ⟨rfl, 0, List.mem_cons_self, fun _ => rfl⟩

end Coev.Kafka.Reader
