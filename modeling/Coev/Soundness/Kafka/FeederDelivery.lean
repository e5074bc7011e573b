import Coev.Model.Kafka.BrokerConsumer
import Coev.ToMathlib.Transition

/-! # What a feeder delivers

A message that is handled in time passes through the interceptors once and goes out. The first message that is not passes
through them again, so the feeder does what it is for just when none is late.
-/

namespace Coev.Kafka

open Transition

namespace FeederEvent

/-- The event is about the message. -/
def Concerns (i : ℕ) : FeederEvent → Bool
  | .intercepted j | .delivered j => j = i
  | _ => false

def delivered? : FeederEvent → Option ℕ
  | .delivered i => some i
  | _ => none

def queued? : FeederEvent → Option ℕ
  | .queued worker => some worker
  | _ => none

/-- Each of the messages from `i` on passes through the interceptors and goes out. -/
def inOrder (i n : ℕ) : List FeederEvent := (List.range' i n).flatMap fun j => [.intercepted j, .delivered j]

private theorem inOrder_succ (i n : ℕ) : inOrder i (n + 1) = [.intercepted i, .delivered i] ++ inOrder (i + 1) n := by
  rw [inOrder, List.range'_succ, List.flatMap_cons]
  rfl

private theorem filter_inOrder_of_lt {i j n : ℕ} (before : j < i) : (inOrder i n).filter (Concerns j) = [] := by
  induction n generalizing i with
  | zero => rfl
  | succ n ih =>
    rw [inOrder_succ, List.filter_append, ih (by omega)]
    simp [Concerns, before.ne']

private theorem filter_inOrder {i j n : ℕ} (from_ : i ≤ j) (below : j < i + n) :
    (inOrder i n).filter (Concerns j) = [.intercepted j, .delivered j] := by
  induction n generalizing i with
  | zero => omega
  | succ n ih =>
    rw [inOrder_succ, List.filter_append]
    rcases Nat.eq_or_lt_of_le from_ with rfl | after
    · rw [filter_inOrder_of_lt (Nat.lt_succ_self i)]
      simp [Concerns]
    · rw [ih after (by omega)]
      simp [Concerns, after.ne]

private theorem delivered_inOrder (i n : ℕ) : (inOrder i n).filterMap delivered? = List.range' i n := by
  induction n generalizing i with
  | zero => rfl
  | succ n ih =>
    rw [inOrder_succ, List.filterMap_append, ih, List.range'_succ]
    rfl

end FeederEvent

namespace ResponseFeeder

variable {maxProcessingTime : ℤ}
variable {f : ResponseFeeder}

/-- The messages up to the last are handled in time: the looks at the clock are less than `MaxProcessingTime` apart. -/
def InTime (maxProcessingTime start : ℤ) (rounds : List FeederRound) : Prop :=
  (start :: rounds.map FeederRound.now).IsChain fun earlier later => later - earlier < maxProcessingTime

private theorem round_history (maxProcessingTime : ℤ) (f : ResponseFeeder) (r : FeederRound) :
    ∃ more, (f.round maxProcessingTime r).history = f.history ++ more := by
  unfold round
  split
  · exact ⟨[], (List.append_nil _).symm⟩
  · dsimp only [timeOut, deliver, note]
    split_ifs <;> simp only [List.append_assoc, List.append_cancel_left_eq, exists_eq']

/-- What was done stays done. -/
private theorem run_history (maxProcessingTime : ℤ) (f : ResponseFeeder) (rounds : List FeederRound) :
    ∃ more, (f.run maxProcessingTime rounds).history = f.history ++ more := by
  induction rounds generalizing f with
  | nil => exact ⟨[], (List.append_nil _).symm⟩
  | cons r rounds ih =>
    obtain ⟨first, one⟩ := f.round_history maxProcessingTime r
    obtain ⟨more, rest⟩ := ih (f.round maxProcessingTime r)
    exact ⟨first ++ more, by rw [← List.append_assoc, ← one]; exact rest⟩

private theorem round_inTime {r : FeederRound} {msg : ConsumerMessage} {rest : List ConsumerMessage}
    (front : f.left = msg :: rest) (alive : f.child.dying = 0) (quiet : r.closes = 0)
    (inTime : r.now - f.lastExpiry < maxProcessingTime) :
    f.round maxProcessingTime r = (f.note (.intercepted f.i)).deliver r.now msg rest := by
  rw [round, front, quiet]
  dsimp only [Function.iterate_zero, id, note]
  rw [if_neg (not_le.mpr inTime)]
  exact if_neg (by rw [alive]; exact Nat.lt_irrefl 0)

private theorem round_late {r : FeederRound} {msg : ConsumerMessage} {rest : List ConsumerMessage}
    (front : f.left = msg :: rest) (first : f.firstAttempt = true) (late : maxProcessingTime ≤ r.now - f.lastExpiry) :
    (f.round maxProcessingTime r).i = f.i ∧
    (f.round maxProcessingTime r).history = f.history ++ [.intercepted f.i, .expired] ∧
      (f.round maxProcessingTime r).left = f.left ∧ (f.round maxProcessingTime r).returned = f.returned := by
  rw [round, front]
  dsimp only [note]
  rw [if_pos late, if_pos first]
  simp only [List.append_assoc, List.cons_append, List.nil_append, and_self, front]

/-- Every round begins with the interceptors. -/
private theorem round_intercepts (maxProcessingTime : ℤ) (r : FeederRound) (left : f.left ≠ []) :
    ∃ more, (f.round maxProcessingTime r).history = f.history ++ .intercepted f.i :: more := by
  obtain ⟨msg, rest, front⟩ := List.exists_cons_of_ne_nil left
  rw [round, front]
  dsimp only [timeOut, deliver, note]
  split_ifs <;> simp only [List.append_assoc, List.append_cancel_left_eq, List.cons_append, List.nil_append,
    List.cons.injEq, true_and, exists_eq']

/-- A feeder that is always in time does for every message what it is for. -/
private theorem run_inTime {rounds : List FeederRound} (running : f.returned = false) (alive : f.child.dying = 0)
    (quiet : ∀ r ∈ rounds, r.closes = 0) (inTime : InTime maxProcessingTime f.lastExpiry rounds)
    (ends : f.Ends maxProcessingTime rounds) :
    (f.run maxProcessingTime rounds).history = f.history ++ FeederEvent.inOrder f.i f.left.length ∧
      (f.run maxProcessingTime rounds).child.messages = f.child.messages ++ f.left := by
  induction rounds generalizing f with
  | nil =>
    have none : f.left = [] := ends.resolve_left (by rw [running]; decide)
    rw [none]
    exact ⟨(List.append_nil _).symm, (List.append_nil _).symm⟩
  | cons r rounds ih =>
    obtain ⟨unfinished, ends⟩ := ends
    obtain ⟨msg, rest, front⟩ := List.exists_cons_of_ne_nil fun none => unfinished (.inr none)
    obtain ⟨first, later⟩ := List.isChain_cons_cons.mp inTime
    have step := round_inTime front alive (quiet r List.mem_cons_self) first
    rw [step] at ends
    let passed := (f.note (.intercepted f.i)).deliver r.now msg rest
    obtain ⟨history, messages⟩ :=
      ih (f := passed) running alive (fun r member => quiet r (List.mem_cons_of_mem _ member)) later ends
    rw [run, List.foldl_cons, step]
    refine ⟨history.trans ?_, messages.trans ?_⟩
    · rw [front, List.length_cons, FeederEvent.inOrder_succ]
      simp only [passed, deliver, note, List.append_assoc, List.cons_append, List.nil_append]
    · rw [front]
      simp only [passed, deliver, note, List.append_assoc, List.cons_append, List.nil_append]

/-- A feeder that is not always in time takes a message through the interceptors twice. -/
private theorem run_late {rounds : List FeederRound} (running : f.returned = false) (first : f.firstAttempt = true)
    (alive : f.child.dying = 0) (quiet : ∀ r ∈ rounds, r.closes = 0)
    (late : ¬ InTime maxProcessingTime f.lastExpiry rounds) (ends : f.Ends maxProcessingTime rounds) :
    ∃ i < f.i + f.left.length, 1 < (f.run maxProcessingTime rounds).history.count (.intercepted i) := by
  induction rounds generalizing f with
  | nil => exact absurd (List.isChain_singleton _) late
  | cons r rounds ih =>
    obtain ⟨unfinished, ends⟩ := ends
    obtain ⟨msg, rest, front⟩ := List.exists_cons_of_ne_nil fun none => unfinished (.inr none)
    by_cases inTime : r.now - f.lastExpiry < maxProcessingTime
    · have step := round_inTime front alive (quiet r List.mem_cons_self) inTime
      rw [step] at ends
      have later : ¬ InTime maxProcessingTime r.now rounds := fun chain => late (List.isChain_cons_cons.mpr ⟨inTime, chain⟩)
      let passed := (f.note (.intercepted f.i)).deliver r.now msg rest
      obtain ⟨i, below, twice⟩ :=
        ih (f := passed) running rfl alive (fun r member => quiet r (List.mem_cons_of_mem _ member)) later ends
      rw [run, List.foldl_cons, step]
      refine ⟨i, ?_, twice⟩
      rw [front, List.length_cons]
      dsimp only [passed, deliver, note] at below
      omega
    · obtain ⟨same, once, unchanged, returned⟩ := round_late front first (not_lt.mp inTime)
      cases rounds with
      | nil =>
        refine absurd ends ?_
        rw [Ends, Finished, unchanged, returned]
        exact unfinished
      | cons again rounds =>
        have left : (f.round maxProcessingTime r).left ≠ [] := fun none => ends.1 (.inr none)
        obtain ⟨some_, twice⟩ := round_intercepts maxProcessingTime again left
        obtain ⟨more, rest⟩ := ((f.round maxProcessingTime r).round maxProcessingTime again).run_history
          maxProcessingTime rounds
        refine ⟨f.i, by rw [front, List.length_cons]; omega, ?_⟩
        have whole : (f.run maxProcessingTime (r :: again :: rounds)).history =
            f.history ++ [.intercepted f.i, .expired] ++ .intercepted f.i :: (some_ ++ more) := by
          refine rest.trans ?_
          rw [twice, once, same, List.append_assoc, List.cons_append]
        rw [whole, List.count_append, List.count_append, List.count_cons_self, List.count_cons_self]
        omega

end ResponseFeeder

namespace FeederCall

variable (maxProcessingTime : ℤ) (call : FeederCall) (child : Child)

/-- `AsyncClose` was called before the feeder returned. -/
def Closing : Prop :=
  (call.before child).closing = true ∨ 0 < (call.before child).dying ∨ ∃ r ∈ call.rounds, 0 < r.closes

/-- Each message passes through the interceptors once and then goes out, in order; and after an expiry the consumer is queued
once, at the worker that feeds it. -/
structure DeliversOnce : Prop where
  once : ∀ i < (call.messages child).length,
    (call.after maxProcessingTime child).history.filter (FeederEvent.Concerns i) = [.intercepted i, .delivered i]
  order : (call.after maxProcessingTime child).history.filterMap FeederEvent.delivered? =
    List.range (call.messages child).length
  channel : (call.after maxProcessingTime child).child.messages = (call.before child).messages ++ call.messages child
  requeued : .expired ∈ (call.after maxProcessingTime child).history →
    (call.after maxProcessingTime child).history.filterMap FeederEvent.queued? = [call.worker]

private theorem expired_not_mem_inOrder (i n : ℕ) : .expired ∉ FeederEvent.inOrder i n := by
  simp [FeederEvent.inOrder]

/-- A feeder does what it is for just when it is in time for every message. -/
private theorem deliversOnce_iff (returns : call.Returns maxProcessingTime child) (open_ : ¬ call.Closing child) :
    call.DeliversOnce maxProcessingTime child ↔ ResponseFeeder.InTime maxProcessingTime call.start call.rounds := by
  have alive : (call.enter child).child.dying = 0 := Nat.eq_zero_of_not_pos fun dying => open_ (.inr (.inl dying))
  have quiet (r : FeederRound) (member : r ∈ call.rounds) : r.closes = 0 :=
    Nat.eq_zero_of_not_pos fun closes => open_ (.inr (.inr ⟨r, member, closes⟩))
  constructor
  · intro delivers
    by_contra late
    obtain ⟨i, below, twice⟩ := ResponseFeeder.run_late rfl rfl alive quiet late returns
    rw [enter, Nat.zero_add] at below
    have counted := congrArg (List.count (FeederEvent.intercepted i)) (delivers.once i below)
    rw [List.count_filter (by simp [FeederEvent.Concerns])] at counted
    have one : [FeederEvent.intercepted i, .delivered i].count (.intercepted i) = 1 := by simp
    exact absurd twice (by rw [one] at counted; exact (counted.trans_le le_rfl).not_gt)
  · intro inTime
    obtain ⟨history, messages⟩ := ResponseFeeder.run_inTime rfl alive quiet inTime returns
    have history : (call.after maxProcessingTime child).history = FeederEvent.inOrder 0 (call.messages child).length :=
      history
    constructor
    · intro i below
      rw [history]
      exact FeederEvent.filter_inOrder (Nat.zero_le i) (by omega)
    · rw [history, FeederEvent.delivered_inOrder, List.range_eq_range']
    · exact messages
    · rw [history]
      exact fun expired => absurd expired (expired_not_mem_inOrder 0 _)

/-- Over all responses a consumer is given, its feeders do what they are for just when they are in time until it closes. -/
theorem feeder_delivers_iff (maxProcessingTime : ℤ) (child : Child) (calls : List FeederCall) :
    Along (fun child (call : FeederCall) => call.Returns maxProcessingTime child → ¬ call.Closing child →
        call.DeliversOnce maxProcessingTime child) (Step maxProcessingTime) child calls ↔
      Along (fun child (call : FeederCall) => call.Returns maxProcessingTime child → call.Closing child ∨
        ResponseFeeder.InTime maxProcessingTime call.start call.rounds) (Step maxProcessingTime) child calls := by
  refine Along.congr (fun _ _ _ (always : True) _ => always)
    (fun child call _ => forall_congr' fun returns => ?_) trivial calls
  rw [or_iff_not_imp_left]
  exact forall_congr' fun open_ => call.deliversOnce_iff maxProcessingTime child returns open_

/-- A response with the records at offsets 0 and 1 of partition 0 of the topic `t`. -/
def twoRecords : FetchResponse :=
  { blocks := Std.ExtTreeMap.insert ∅ [0x74] (Std.ExtTreeMap.insert ∅ 0
      { recordsSet :=
          [.batch { records := [{ value := [0x61] }, { offsetDelta := 1, value := [0x62] }], lastOffsetDelta := 1 }]
        recordsNextOffset := 2, highWaterMarkOffset := 2 }) }

/-- A consumer that was created for worker 0. -/
def movedConsumer : Child := { consumer := { topic := [0x74], partition := 0 }, broker := 0 }

/-- Worker 1 feeds it now, and the interceptors take 150 for the first message. -/
def slowCall : FeederCall := { worker := 1, response := twoRecords, start := 0, rounds := [⟨150, 0⟩, ⟨160, 0⟩] }

/-- The first message passes through the interceptors twice, the second not at all, and the consumer is queued at worker
0. -/
theorem slow_reader_misfed : slowCall.Returns 100 movedConsumer ∧ ¬ slowCall.Closing movedConsumer ∧
    (slowCall.after 100 movedConsumer).history =
      [.intercepted 0, .expired, .intercepted 0, .expired, .delivered 0, .delivered 1, .queued 0] ∧
    ¬ slowCall.DeliversOnce 100 movedConsumer := by
  have history : (slowCall.after 100 movedConsumer).history =
      [.intercepted 0, .expired, .intercepted 0, .expired, .delivered 0, .delivered 1, .queued 0] := by decide
  refine ⟨?_, ?_, history, ?_⟩
  · refine ⟨?_, ?_, .inl rfl⟩
    · rintro (returned | none)
      · exact absurd returned (by decide)
      · exact absurd (congrArg List.length none) (by decide)
    · rintro (returned | none)
      · exact absurd returned (by decide)
      · exact absurd (congrArg List.length none) (by decide)
  · rintro (closing | dying | ⟨r, member, closes⟩)
    · exact absurd closing (by decide)
    · exact absurd dying (by decide)
    · revert r
      decide
  · intro delivers
    have requeued := delivers.requeued (by rw [history]; decide)
    rw [history] at requeued
    exact absurd requeued (by decide)

end FeederCall

end Coev.Kafka
