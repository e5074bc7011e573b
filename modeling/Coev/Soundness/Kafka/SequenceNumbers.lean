import Coev.Model.Kafka.TransactionManager

/-! # How messages are numbered

The manager counts by a key made of the topic and the partition. Within an epoch the count of a key is the
number of calls with it; it is the number of calls for one partition as long as no other pair with the same key
is numbered in the epoch, which takes a negative partition and a topic that ends in a dash.
-/

namespace Coev.Kafka.TransactionManager

variable {m m' : TransactionManager} {topic : Bytes} {partition : Int32}

/-- The calls that number messages. -/
inductive SequenceCall where
  | next (topic : Bytes) (partition : Int32)
  | bump
deriving DecidableEq

/-- The manager that a call leaves. -/
def SequenceCall.run (m : TransactionManager) : SequenceCall → Except Fault TransactionManager
  | .next topic partition => (m.getAndIncrementSequenceNumber topic partition).map (·.2)
  | .bump => .ok m.bumpEpoch

/-- The manager that some calls leave, one after the other. -/
def sequenceRun (m : TransactionManager) (calls : List SequenceCall) : Except Fault TransactionManager :=
  calls.foldlM SequenceCall.run m

/-- The calls behind the last bump. -/
def epochCalls (calls : List SequenceCall) : List SequenceCall :=
  (calls.reverse.takeWhile (· ≠ SequenceCall.bump)).reverse

/-- How often a partition was numbered in the epoch. -/
def numbered (calls : List SequenceCall) (topic : Bytes) (partition : Int32) : ℕ :=
  (epochCalls calls).count (.next topic partition)

/-- Every call of a run returns the number of earlier calls for its partition in the epoch, modulo `2 ^ 31`, and
the epoch, which is one more after each bump. -/
def NumbersInOrder (m : TransactionManager) (calls : List SequenceCall) : Prop :=
  ∀ before topic partition, before ++ [.next topic partition] <+: calls →
    ∃ m₁ m₂, m.sequenceRun before = .ok m₁ ∧ m₁.getAndIncrementSequenceNumber topic partition =
      .ok ((Int32.ofNat (numbered before topic partition % 2 ^ 31),
        m.producerEpoch + Int16.ofNat (before.count .bump)), m₂)

/-- Two partitions, one of them negative, that share a key: a dash belongs to the topic of the one and is the sign
of the other. -/
def Clash (topic : Bytes) (partition : Int32) (topic' : Bytes) (partition' : Int32) : Prop :=
  partition < 0 ∧ topic' = topic ++ [Decimal.dash] ∧ partition'.toInt = -partition.toInt

/-- In no epoch a partition is numbered `2 ^ 31` times, or beside one it clashes with. -/
def CountsApart (calls : List SequenceCall) : Prop :=
  ∀ before topic partition, before ++ [.next topic partition] <+: calls →
    numbered before topic partition < 2 ^ 31 - 1 ∧
      ∀ topic' partition', Clash topic partition topic' partition' ∨ Clash topic' partition' topic partition →
        numbered before topic' partition' = 0

/-! ## Keys -/

private theorem sequenceKey_eq_iff {topic' : Bytes} {partition' : Int32} :
    sequenceKey topic partition = sequenceKey topic' partition' ↔ (topic = topic' ∧ partition = partition') ∨
        Clash topic partition topic' partition' ∨ Clash topic' partition' topic partition := by
  rw [sequenceKey, sequenceKey, Decimal.append_ofInt_eq_iff, Decimal.stem, Decimal.stem, ← Int32.toInt_inj]
  simp only [Clash, Int32.lt_iff_toInt_lt, Int32.toInt_zero]
  constructor
  · rintro ⟨stems, absolutes⟩
    by_cases negative : partition.toInt < 0 <;> by_cases negative' : partition'.toInt < 0
    · rw [if_pos negative, if_pos negative'] at stems
      exact .inl ⟨List.append_cancel_right stems, by omega⟩
    · rw [if_pos negative, if_neg negative'] at stems
      exact .inr (.inl ⟨negative, stems.symm, by omega⟩)
    · rw [if_neg negative, if_pos negative'] at stems
      exact .inr (.inr ⟨negative', stems, by omega⟩)
    · rw [if_neg negative, if_neg negative'] at stems
      exact .inl ⟨stems, by omega⟩
  · rintro (⟨rfl, same⟩ | ⟨negative, rfl, opposite⟩ | ⟨negative, rfl, opposite⟩)
    · rw [same]
      exact ⟨rfl, rfl⟩
    · rw [if_pos negative, if_neg (by omega)]
      exact ⟨rfl, by omega⟩
    · rw [if_neg (by omega), if_pos negative]
      exact ⟨rfl, by omega⟩

/-- The call numbers a partition with the key. -/
def SequenceCall.hasKey (key : Bytes) : SequenceCall → Bool
  | .next topic partition => sequenceKey topic partition = key
  | .bump => false

/-- How often a key was used in the epoch. -/
def keyed (calls : List SequenceCall) (key : Bytes) : ℕ := (epochCalls calls).countP (SequenceCall.hasKey key)

@[simp] theorem epochCalls_bump (calls : List SequenceCall) : epochCalls (calls ++ [.bump]) = [] := by
  simp [epochCalls]

@[simp] theorem epochCalls_next (calls : List SequenceCall) (topic : Bytes) (partition : Int32) :
    epochCalls (calls ++ [.next topic partition]) = epochCalls calls ++ [.next topic partition] := by
  simp [epochCalls]

private theorem keyed_next (calls : List SequenceCall) (key : Bytes) : keyed (calls ++ [.next topic partition]) key =
      keyed calls key + if sequenceKey topic partition = key then 1 else 0 := by
  rw [keyed, epochCalls_next, List.countP_append, List.countP_singleton]
  simp only [SequenceCall.hasKey, decide_eq_true_eq, keyed]

private theorem keyed_bump (calls : List SequenceCall) (key : Bytes) : keyed (calls ++ [.bump]) key = 0 := by
  rw [keyed, epochCalls_bump, List.countP_nil]

/-- A stronger condition is met as often as a weaker one exactly when nothing meets the weaker one alone. -/
theorem countP_eq_countP_iff {α : Type} {p q : α → Bool} (imp : ∀ x, q x → p x) (l : List α) :
    l.countP p = l.countP q ↔ ∀ x ∈ l, p x → q x := by
  induction l with
  | nil => simp
  | cons x l ih =>
    have least : l.countP q ≤ l.countP p := List.countP_mono_left fun y _ => imp y
    rw [List.countP_cons, List.countP_cons, List.forall_mem_cons, ← ih]
    by_cases strong : q x
    · simp [strong, imp x strong]
    · by_cases weak : p x <;> simp [strong, weak]
      omega

variable {calls : List SequenceCall}

/-- A key is used for one partition exactly when no partition that clashes with it is numbered. -/
theorem keyed_eq_numbered_iff : keyed calls (sequenceKey topic partition) = numbered calls topic partition ↔
      ∀ topic' partition', Clash topic partition topic' partition' ∨ Clash topic' partition' topic partition →
        numbered calls topic' partition' = 0 := by
  rw [keyed, numbered, List.count, countP_eq_countP_iff]
  · constructor
    · intro alone topic' partition' clash
      refine List.count_eq_zero_of_not_mem fun member => ?_
      have shared : sequenceKey topic partition = sequenceKey topic' partition' := sequenceKey_eq_iff.mpr (.inr clash)
      have same := alone _ member (by simp only [SequenceCall.hasKey, shared, decide_true])
      simp only [beq_iff_eq, SequenceCall.next.injEq] at same
      obtain ⟨rfl, rfl⟩ := same
      rcases clash with ⟨-, longer, -⟩ | ⟨-, longer, -⟩ <;> simp at longer
    · intro unused call member shared
      cases call with
      | bump => cases shared
      | next topic' partition' =>
        rw [SequenceCall.hasKey, decide_eq_true_eq, eq_comm, sequenceKey_eq_iff] at shared
        rcases shared with ⟨rfl, rfl⟩ | clash
        · exact beq_self_eq_true _
        · exact absurd member (List.count_eq_zero.mp (unused _ _ clash))
  · intro call same
    rw [beq_iff_eq] at same
    simp only [same, SequenceCall.hasKey, decide_true]

private theorem numbered_le_keyed (calls : List SequenceCall) (topic : Bytes) (partition : Int32) :
    numbered calls topic partition ≤ keyed calls (sequenceKey topic partition) := by
  refine List.countP_mono_left fun call _ same => ?_
  rw [beq_iff_eq] at same
  simp only [same, SequenceCall.hasKey, decide_true]

/-! ## What a run counts -/

/-- The counter of each key is the number of its calls in the epoch. -/
structure Counts (m : TransactionManager) (calls : List SequenceCall) (m' : TransactionManager) : Prop where
  sequence : ∀ key, m'.sequenceNumbers[key]?.getD 0 = Int32.ofNat (keyed calls key)
  bound : ∀ key, keyed calls key < 2 ^ 31
  epoch : m'.producerEpoch = m.producerEpoch + Int16.ofNat (calls.count .bump)

private theorem ofNat_eq_maxValue_iff {n : ℕ} (bound : n < 2 ^ 31) : Int32.ofNat n = Int32.maxValue ↔ n = 2 ^ 31 - 1 := by
  rw [← Int32.toInt_inj, Int32.toInt_ofNat_of_lt bound, Int32.toInt_maxValue]
  omega

/-- A call returns the count of its key, unless the next one is beyond an `int32_t`. -/
theorem Counts.getAndIncrement (counts : Counts m calls m') : m'.getAndIncrementSequenceNumber topic partition =
      if keyed calls (sequenceKey topic partition) = 2 ^ 31 - 1 then .error .overflow
      else .ok ((Int32.ofNat (keyed calls (sequenceKey topic partition)),
          m.producerEpoch + Int16.ofNat (calls.count .bump)), m'.setSequence (sequenceKey topic partition)
          (Int32.ofNat (keyed calls (sequenceKey topic partition)) + 1)) := by
  rw [getAndIncrementSequenceNumber, counts.sequence, counts.epoch]
  simp only [ofNat_eq_maxValue_iff (counts.bound _)]

theorem Counts.next (counts : Counts m calls m') (room : keyed calls (sequenceKey topic partition) < 2 ^ 31 - 1) :
    Counts m (calls ++ [.next topic partition]) (m'.setSequence (sequenceKey topic partition)
        (Int32.ofNat (keyed calls (sequenceKey topic partition)) + 1)) where
  sequence key := by
    rw [keyed_next, setSequence, Std.ExtTreeMap.getElem?_insert]
    by_cases same : sequenceKey topic partition = key
    · subst same
      simp [Int32.ofNat_add]
    · simp only [Std.compare_eq_iff_eq, if_neg same, Nat.add_zero]
      exact counts.sequence key
  bound key := by
    rw [keyed_next]
    split
    next same =>
      subst same
      omega
    next => exact counts.bound key
  epoch := by
    rw [List.count_append, List.count_singleton]
    exact counts.epoch

theorem Counts.bump (counts : Counts m calls m') : Counts m (calls ++ [.bump]) m'.bumpEpoch where
  sequence key := by
    rw [keyed_bump, bumpEpoch, Std.ExtTreeMap.getElem?_map]
    cases m'.sequenceNumbers[key]? <;> rfl
  bound key := by
    rw [keyed_bump]
    exact Nat.two_pow_pos 31
  epoch := by
    rw [bumpEpoch, counts.epoch, List.count_append, List.count_singleton_self, Int16.ofNat_add, ← Int16.add_assoc]
    rfl

/-- While no key is used up, a run goes on and counts. -/
theorem counts_sequenceRun (start : m.sequenceNumbers = ∅) (calls : List SequenceCall)
    (room : ∀ before topic partition, before ++ [.next topic partition] <+: calls →
      keyed before (sequenceKey topic partition) < 2 ^ 31 - 1) :
    ∃ m', m.sequenceRun calls = .ok m' ∧ Counts m calls m' := by
  induction calls using List.reverseRecOn with
  | nil =>
    refine ⟨m, rfl, fun key => ?_, fun key => Nat.two_pow_pos 31, (Int16.add_zero _).symm⟩
    rw [start]
    rfl
  | append_singleton calls call ih =>
    obtain ⟨m', ran, counts⟩ := ih fun before topic partition shorter =>
      room before topic partition (shorter.trans (List.prefix_append _ _))
    cases call with
    | next topic partition =>
      have enough := room calls topic partition List.prefix_rfl
      refine ⟨_, ?_, counts.next enough⟩
      rw [sequenceRun, List.foldlM_append, ← sequenceRun, ran]
      simp only [List.foldlM_cons, List.foldlM_nil, SequenceCall.run, counts.getAndIncrement, if_neg enough.ne,
        bind, Except.bind, Except.map, pure, Except.pure]
    | bump =>
      refine ⟨_, ?_, counts.bump⟩
      rw [sequenceRun, List.foldlM_append, ← sequenceRun, ran]
      rfl

/-! ## Numbers in order -/

/-- One call returns the number that is due, given what the calls before it counted. -/
theorem Counts.inOrder_iff (counts : Counts m calls m') :
    (∃ m₂, m'.getAndIncrementSequenceNumber topic partition = .ok ((Int32.ofNat (numbered calls topic partition % 2 ^ 31),
        m.producerEpoch + Int16.ofNat (calls.count .bump)), m₂)) ↔ numbered calls topic partition < 2 ^ 31 - 1 ∧
        keyed calls (sequenceKey topic partition) = numbered calls topic partition := by
  have bound := counts.bound (sequenceKey topic partition)
  have least := numbered_le_keyed calls topic partition
  rw [counts.getAndIncrement, Nat.mod_eq_of_lt (by omega)]
  split
  next full =>
    constructor
    · rintro ⟨_, ⟨⟩⟩
    · rintro ⟨room, same⟩
      omega
  next room =>
    constructor
    · rintro ⟨m₂, returned⟩
      simp only [Except.ok.injEq, Prod.mk.injEq] at returned
      have values := congrArg Int32.toInt returned.1.1
      rw [Int32.toInt_ofNat_of_lt bound, Int32.toInt_ofNat_of_lt (by omega)] at values
      omega
    · rintro ⟨-, same⟩
      exact ⟨_, by rw [same]⟩

private theorem countsApart_iff : CountsApart calls ↔ ∀ before topic partition, before ++ [.next topic partition] <+: calls →
      numbered before topic partition < 2 ^ 31 - 1 ∧
        keyed before (sequenceKey topic partition) = numbered before topic partition := by
  simp only [CountsApart, keyed_eq_numbered_iff]

theorem CountsApart.of_prefix {before calls : List SequenceCall} (apart : CountsApart calls) (shorter : before <+: calls) :
    CountsApart before :=
  fun before' topic partition first => apart before' topic partition (first.trans shorter)

/-- A run that counts apart goes on and counts. -/
theorem CountsApart.counts (apart : CountsApart calls) (start : m.sequenceNumbers = ∅) :
    ∃ m', m.sequenceRun calls = .ok m' ∧ Counts m calls m' := by
  refine counts_sequenceRun start calls fun before topic partition first => ?_
  obtain ⟨room, same⟩ := countsApart_iff.mp apart before topic partition first
  rwa [same]

theorem CountsApart.inOrder (apart : CountsApart calls) (start : m.sequenceNumbers = ∅) : NumbersInOrder m calls := by
  intro before topic partition first
  obtain ⟨m₁, ran, counts⟩ := (apart.of_prefix ((List.prefix_append _ _).trans first)).counts start
  obtain ⟨m₂, returned⟩ := counts.inOrder_iff.mpr (countsApart_iff.mp apart before topic partition first)
  exact ⟨m₁, m₂, ran, returned⟩

theorem NumbersInOrder.of_prefix {before calls : List SequenceCall} (inOrder : NumbersInOrder m calls)
    (shorter : before <+: calls) : NumbersInOrder m before :=
  fun before' topic partition first => inOrder before' topic partition (first.trans shorter)

/-- Up to the first call that does not count apart the run counts, so that call does not return its number. -/
theorem NumbersInOrder.countsApart (inOrder : NumbersInOrder m calls) (start : m.sequenceNumbers = ∅) :
    CountsApart calls := by
  induction calls using List.reverseRecOn with
  | nil =>
    intro before topic partition first
    exact absurd first (by simp)
  | append_singleton calls call ih =>
    have apart := ih (inOrder.of_prefix (List.prefix_append _ _))
    rw [countsApart_iff]
    intro before topic partition first
    rcases List.prefix_concat_iff.mp first with same | shorter
    · obtain ⟨rfl, last⟩ := List.append_inj' same rfl
      obtain ⟨m₁, m₂, ran, returned⟩ := inOrder before topic partition first
      obtain ⟨m', ran', counts⟩ := apart.counts start
      obtain rfl : m' = m₁ := Except.ok.inj (ran'.symm.trans ran)
      exact counts.inOrder_iff.mp ⟨m₂, returned⟩
    · exact countsApart_iff.mp apart before topic partition shorter

/-- A manager as it numbers its first message, with the producer id and epoch that it was given. -/
def createWith (conf : TxnConfig) (producerId : Int64) (producerEpoch : Int16) : TransactionManager :=
  { create conf with producerId, producerEpoch }

/-- The numbers of a run are in order exactly when it counts apart. -/
theorem sequence_numbers_iff (conf : TxnConfig) (producerId : Int64) (producerEpoch : Int16)
    (calls : List SequenceCall) : NumbersInOrder (createWith conf producerId producerEpoch) calls ↔ CountsApart calls :=
  ⟨fun inOrder => inOrder.countsApart rfl, fun apart => apart.inOrder rfl⟩

private theorem numbered_replicate (n : ℕ) (topic : Bytes) (partition : Int32) :
    numbered (List.replicate n (.next topic partition)) topic partition = n := by
  rw [numbered, epochCalls, List.reverse_replicate, List.takeWhile_replicate_eq_filter, List.filter_replicate_of_pos rfl,
    List.reverse_replicate, List.count_replicate_self]

/-- The call number `2 ^ 31` for a partition finds the counter at the end of its range. -/
theorem not_countsApart_replicate {n : ℕ} (many : 2 ^ 31 ≤ n) (topic : Bytes) (partition : Int32) :
    ¬ CountsApart (List.replicate n (.next topic partition)) := by
  intro apart
  obtain ⟨k, rfl⟩ : ∃ k, n = k + 1 := ⟨n - 1, by omega⟩
  have last := (apart (List.replicate k (.next topic partition)) topic partition (by rw [List.replicate_succ'])).1
  rw [numbered_replicate] at last
  omega

/-- One partition numbered `2 ^ 31` times, and two partitions that share a key. -/
theorem numbers_out_of_order :
    let conf : TxnConfig := { version := V2_1_0_0, idempotent := true, transactionID := [], retryMax := 3 }
    ¬ NumbersInOrder (createWith conf 7 0) (List.replicate (2 ^ 31) (.next [97] 0)) ∧
      ¬ NumbersInOrder (createWith conf 7 0) [.next [97, 45] 1, .next [97] (-1)] := by
  refine ⟨fun inOrder => ?_, fun inOrder => ?_⟩
  · exact not_countsApart_replicate le_rfl [97] 0 (inOrder.countsApart rfl)
  · have apart := inOrder.countsApart rfl [.next [97, 45] 1] [97] (-1) List.prefix_rfl
    have unused := apart.2 [97, 45] 1 (.inl ⟨by decide, rfl, by decide⟩)
    exact absurd unused (by decide)

end Coev.Kafka.TransactionManager
