import Coev.Proofs.Kafka.PartitionProducer

/-! # The order of a partition under retries

A partition producer forwards or returns every message it takes, keeps the order of the messages that were never
retried, and lets no message pass one of a higher retry level, whatever comes of the look-ups of the leader behind
the first one. When the first look-up fails, the coroutine is gone and takes no message at all.
-/

namespace Coev.Kafka.PartitionProducer

open Calls (Ensures Runs Ends Answered Allowed Every every_pure every_send)

variable {conf : ProducerConfig} {topic : Bytes} {partition : Int32} {inputs : List ProducerMessage} {trace : Trace}
  {pp pp' : PartitionProducer} {result : Option PartitionProducer} {n : ℕ}

/-- The messages but for the markers, whatever their stamps. -/
def dataOf (inputs : List ProducerMessage) : List ProducerMessage := (inputs.filter (·.flags = 0)).map unstamped

/-- The inputs have been dealt with in order. -/
structure Orderly (inputs : List ProducerMessage) (trace : Trace) (pp : PartitionProducer) : Prop where
  /-- Every message was forwarded or returned exactly once, or still waits. -/
  conserved : (dataOf inputs).Perm (forwarded trace ++ returned trace ++ buffered pp.retryState)
  /-- A message waits only behind an open level. -/
  waiting : ∀ msg ∈ buffered pp.retryState, ∃ level, msg.retries < level ∧ isOpen level trace = true
  /-- Messages that were never retried are forwarded in the order of the input. -/
  fresh : ((forwarded trace).filter fresh).Sublist ((dataOf inputs).filter fresh)
  /-- No message was forwarded while a higher level was outstanding. -/
  behind : Allowed InOrder [] trace

/-- The first look-up of the leader succeeds. -/
def FindsLeader (trace : Trace) : Prop :=
  ∃ topic partition leader rest, trace = ⟨.leader topic partition, (0, leader)⟩ :: rest

/-- Nothing was received, and no level is open. -/
private theorem inv_create : Inv conf [] [] (create conf topic partition).retryState 0 := by
  have nothing : ∀ level : ℕ, (create conf topic partition).retryState[level]?.getD {} = ({} : PartitionRetryState) := by
    intro level
    rw [create, List.getElem?_replicate]
    split <;> rfl
  constructor
  · exact List.length_replicate
  · exact Nat.zero_le _
  · intro level m member
    rw [bufAt, nothing] at member
    cases member
  · intro level
    rw [expects, nothing]
    rfl
  · intro level chaser
    rw [expects, nothing] at chaser
    cases chaser
  · exact fun m member => absurd member List.not_mem_nil
  · have empty : buffered (create conf topic partition).retryState = [] := by
      refine List.flatMap_eq_nil_iff.mpr fun state member => ?_
      rw [List.eq_of_mem_replicate member]
      rfl
    rw [empty]
    exact List.Perm.refl _
  · rw [bufAt, nothing]
    exact List.Sublist.refl _

private theorem dispatch_ensures :
    Ensures (Expected conf) InOrder [] ((create conf topic partition).dispatch conf n) fun pp t => Waiting conf t pp := by
  apply Ensures.bind (silent_toLeader _ _ _ _ _ inv_create)
  rintro ⟨err, pp⟩ t ⟨kept, ⟨sameState, sameMark⟩, -⟩
  have waiting : Waiting conf t pp := by
    constructor
    · rw [sameState, sameMark]
      exact kept
    · rw [sameMark]
      exact fun positive => absurd positive (Nat.lt_irrefl 0)
  dsimp only
  split
  · exact Ensures.pure waiting
  · exact dispatchLoop_ensures n waiting

/-- Without a leader to begin with no message is taken, and else all are. -/
private theorem taken_of_dispatch (run : Runs (pp.dispatch conf n) trace pp') :
    FindsLeader trace ∧ (taken trace).length = n ∨ ¬ FindsLeader trace ∧ taken trace = [] := by
  obtain ⟨first, rest, ⟨err, next⟩, rfl, head, tail⟩ := Calls.runs_bind_iff.mp run
  have noneTaken := taken_of_notGet (every_toLeader.run head)
  obtain ⟨_, later, ⟨code, leader⟩, rfl, looked, goesOn⟩ := Calls.runs_bind_iff.mp head
  rw [Calls.runs_send_iff.mp looked] at noneTaken ⊢
  dsimp only at goesOn tail
  by_cases ok : code = 0
  · left
    subst ok
    refine ⟨⟨_, _, leader, _, rfl⟩, ?_⟩
    rw [if_neg (not_not.mpr rfl)] at goesOn
    have err_ : err = 0 := by
      obtain ⟨_, afterStart, _, rfl, _, goesOn⟩ := Calls.runs_bind_iff.mp goesOn
      obtain ⟨_, _, _, rfl, _, ended⟩ := Calls.runs_bind_iff.mp goesOn
      exact (congrArg Prod.fst (Calls.runs_pure_iff.mp ended).2).symm
    rw [if_neg (not_not.mpr err_)] at tail
    rw [taken_append, noneTaken, List.nil_append]
    exact length_taken_of_dispatchLoop tail
  · right
    rw [if_pos ok] at goesOn
    obtain ⟨rfl, same⟩ := Calls.runs_pure_iff.mp goesOn
    have err_ : code = err := congrArg Prod.fst same
    rw [← err_, if_pos ok] at tail
    obtain ⟨rfl, -⟩ := Calls.runs_pure_iff.mp tail
    refine ⟨?_, by rwa [List.append_nil]⟩
    rintro ⟨_, _, _, _, same⟩
    simp only [List.cons_append, List.cons.injEq, Sigma.mk.injEq, ParentCall.leader.injEq] at same
    obtain ⟨⟨⟨rfl, rfl⟩, same⟩, -⟩ := same
    exact ok (congrArg Prod.fst (eq_of_heq same))

private theorem received_eq_dataOf_taken (trace : Trace) : received trace = dataOf (taken trace) := by
  induction trace with
  | nil => rfl
  | cons entry rest ih =>
    obtain ⟨call, answer⟩ := entry
    rw [received, List.flatMap_cons, ← received, ih]
    cases call with
    | get =>
      by_cases data : answer.flags = 0
      · simp [receives, dataOf, taken, data]
      · simp [receives, dataOf, taken, data]
    | _ => rfl

/-- All data of the inputs was taken. -/
private theorem orderly_iff_dataOf_eq (waiting : Waiting conf trace pp) (allowed : Allowed InOrder [] trace)
    (serves : taken trace <+: inputs) : Orderly inputs trace pp ↔ dataOf (taken trace) = dataOf inputs := by
  have conserved := waiting.inv.conserved
  rw [List.map_nil, List.append_nil, received_eq_dataOf_taken] at conserved
  constructor
  · intro orderly
    have same : (dataOf (taken trace)).length = (dataOf inputs).length := (conserved.trans orderly.conserved.symm).length_eq
    exact ((serves.filter _).map _).eq_of_length same
  · intro same
    constructor
    · rw [← same]
      exact conserved
    · intro msg member
      obtain ⟨level, m, inBuf, rfl⟩ := mem_buffered_iff.mp member
      obtain ⟨low, retries, -⟩ := waiting.inv.below level m inBuf
      refine ⟨pp.highWatermark, lt_of_le_of_lt (le_of_eq retries) low, ?_⟩
      rw [waiting.inv.chasers]
      exact waiting.top (Nat.lt_of_le_of_lt (Nat.zero_le _) low)
    · have inOrder := waiting.inv.inOrder
      rw [received_eq_dataOf_taken, same, List.append_assoc] at inOrder
      exact (List.sublist_append_left _ _).trans inOrder
    · exact allowed

private theorem dataOf_eq_nil_iff : dataOf inputs = [] ↔ ∀ msg ∈ inputs, msg.flags ≠ 0 := by
  rw [dataOf, List.map_eq_nil_iff, List.filter_eq_nil_iff]
  exact forall₂_congr fun _ _ => not_congr decide_eq_true_iff

private theorem nonempty_of_inOrder (before : Trace) (call : ParentCall) (allowed : InOrder before call) :
    Nonempty call.Answer := by
  cases call with
  | get => exact ⟨({} : ProducerMessage)⟩
  | leader => exact ⟨(ErrNoError, (0 : Int32))⟩
  | refreshMetadata => exact ⟨ErrNoError⟩
  | tryGetAbandoned => exact ⟨false⟩
  | inFlightAdd => exact ⟨(0 : ℕ)⟩
  | getAndIncrementSequenceNumber => exact ⟨((0 : Int32), (0 : Int16))⟩
  | isTransactional => exact ⟨false⟩
  | abort => exact absurd allowed id
  | _ => exact ⟨()⟩

/-- A partition producer ends no other way than in order, but for the messages left behind when the first look-up of the
leader fails. -/
theorem orderly_iff_findsLeader (ends : Ends ((create conf topic partition).dispatch conf inputs.length) trace result)
    (serves : taken trace <+: inputs) (answered : Answered (Expected conf) [] trace) :
    (∃ pp, result = some pp ∧ Orderly inputs trace pp) ↔ FindsLeader trace ∨ ∀ msg ∈ inputs, msg.flags ≠ 0 := by
  have contract := @dispatch_ensures conf topic partition inputs.length
  obtain ⟨pp, rfl⟩ := contract.isSome ends answered nonempty_of_inOrder
  have run := Calls.ends_some_iff.mp ends
  obtain ⟨allowed, waiting⟩ := contract.run run answered
  rw [List.nil_append] at waiting
  have orderly : (∃ pp', some pp = some pp' ∧ Orderly inputs trace pp') ↔ dataOf (taken trace) = dataOf inputs := by
    rw [← orderly_iff_dataOf_eq waiting allowed serves]
    constructor
    · rintro ⟨pp', same, orderly⟩
      rwa [Option.some.inj same]
    · exact fun orderly => ⟨pp, rfl, orderly⟩
  rw [orderly]
  rcases taken_of_dispatch run with ⟨found, all⟩ | ⟨notFound, none_⟩
  · rw [serves.eq_of_length all]
    exact iff_of_true rfl (.inl found)
  · rw [none_, ← dataOf_eq_nil_iff]
    constructor
    · exact fun empty => .inr empty.symm
    · rintro (found | empty)
      · exact absurd found notFound
      · exact empty.symm

/-- A retried message, a fresh one and the marker of the level that the first one opened. -/
def retriedInputs : List ProducerMessage := [{ value := [1], retries := 1 }, {}, { flags := Fin_, retries := 1 }]

def retriedTrace : Trace :=
  [⟨.leader [] 0, (ErrNoError, (7 : Int32))⟩, ⟨.getBrokerProducer 7, ()⟩, ⟨.inFlightAdd, (0 : ℕ)⟩,
    ⟨.set 7 { flags := Syn }, ()⟩,
    ⟨.get, { value := [1], retries := 1 }⟩, ⟨.tryGetAbandoned 7, false⟩, ⟨.inFlightAdd, (1 : ℕ)⟩,
    ⟨.set 7 { flags := Fin_, ticket := 1 }, ()⟩, ⟨.sleepFor, ()⟩, ⟨.refreshMetadata [[]], ErrNoError⟩,
    ⟨.leader [] 0, (ErrNoError, (8 : Int32))⟩, ⟨.getBrokerProducer 8, ()⟩, ⟨.inFlightAdd, (2 : ℕ)⟩,
    ⟨.set 8 { flags := Syn, ticket := 2 }, ()⟩, ⟨.isTransactional, false⟩, ⟨.set 8 { value := [1], retries := 1 }, ()⟩,
    ⟨.get, ({} : ProducerMessage)⟩, ⟨.tryGetAbandoned 8, false⟩,
    ⟨.get, { flags := Fin_, retries := 1 }⟩, ⟨.tryGetAbandoned 8, false⟩, ⟨.set 8 {}, ()⟩,
    ⟨.inFlightDone { flags := Fin_, retries := 1 }, ()⟩]

/-- The fresh message waits until the marker is back, and is forwarded then. -/
theorem retried_orderly : ∃ pp, Orderly retriedInputs retriedTrace pp := by
  have run : Runs ((create {} [] 0).dispatch {} retriedInputs.length) retriedTrace
      { create {} [] 0 with leader := some 8, brokerProducer := some 8 } := by
    iterate 22 refine ⟨_, _, rfl, ?_⟩
    exact ⟨rfl, rfl⟩
  have serves : taken retriedTrace <+: retriedInputs := List.prefix_refl _
  have answered : Answered (Expected {}) [] retriedTrace := by
    simp only [retriedTrace, Calls.answered_cons_iff]
    simp only [Expected, Calls.answered_nil, and_true, true_and]
    decide
  have found : FindsLeader retriedTrace := ⟨[], 0, 7, _, rfl⟩
  obtain ⟨pp, -, orderly⟩ := (orderly_iff_findsLeader (Calls.ends_some_iff.mpr run) serves answered).mpr (.inl found)
  exact ⟨pp, orderly⟩

/-- Without a leader to begin with, a message is neither forwarded nor returned. -/
theorem not_orderly_without_leader :
    ¬ ∀ (conf : ProducerConfig) (topic : Bytes) (partition : Int32) (inputs : List ProducerMessage) (trace : Trace)
      (result : Option PartitionProducer), Ends ((create conf topic partition).dispatch conf inputs.length) trace result →
      taken trace <+: inputs → Answered (Expected conf) [] trace → ∃ pp, result = some pp ∧ Orderly inputs trace pp := by
  intro claim
  have ends :
      Ends ((create {} [] 0).dispatch {} 1) [⟨.leader [] 0, (ErrLeaderNotAvailable, (0 : Int32))⟩]
        (some (create {} [] 0)) :=
    .inr ⟨_, _, rfl, rfl, rfl⟩
  have answered : Answered (Expected {}) [] [⟨.leader [] 0, (ErrLeaderNotAvailable, (0 : Int32))⟩] :=
    Calls.answered_cons_iff.mpr ⟨trivial, Calls.answered_nil⟩
  obtain ⟨pp, same, orderly⟩ := claim {} [] 0 [{}] _ _ ends List.nil_prefix answered
  obtain rfl := Option.some.inj same
  have left := orderly.conserved.length_eq
  simp [dataOf, forwarded, returned, forwards, returns, buffered, create, waits] at left

end Coev.Kafka.PartitionProducer
