import Coev.Model.Kafka.Partitioner
import Mathlib.Data.List.GetD

/-! # Which partition a message gets
A key decides on its partition, for every hash function and every way to take the remainder; a message without a key is
left to the fallback. Partitions taken in turn are all visited. A producer stores a member of the list that applies, or
says why not.
-/

namespace Coev.Kafka

variable {n : Int32}

/-! ## Remainders of hash values -/

private theorem toInt_and_nonneg (x : Int32) : 0 ≤ (x &&& 0x7fffffff).toInt := by
  have top : (x &&& 0x7fffffff).toBitVec.msb = false := by
    rw [Int32.toBitVec_and, BitVec.msb_and]
    exact Bool.and_false _
  exact BitVec.toInt_nonneg_of_msb_false top

private theorem toInt_pos (positive : 0 < n) : 0 < n.toInt := by
  rwa [Int32.lt_iff_toInt_lt, Int32.toInt_zero] at positive

/-- A remainder of unsigned numbers, by a positive one. -/
private theorem toInt_umod (hashValue : UInt32) (positive : 0 < n) :
    (hashValue % n.toUInt32).toInt32.toInt = hashValue.toNat % n.toInt := by
  have modulus : (n.toUInt32.toNat : ℤ) = n.toInt := by
    rw [Int32.toNat_toUInt32_of_le (Int32.le_of_lt positive), ← Int32.toNat_toInt]
    exact Int.toNat_of_nonneg (toInt_pos positive).le
  have value : (hashValue % n.toUInt32).toInt32.toBitVec.toNat = hashValue.toNat % n.toUInt32.toNat := UInt32.toNat_mod _ _
  have below : n.toInt < 2 ^ 31 := n.toInt_lt
  have small := Nat.mod_lt hashValue.toNat (by have := toInt_pos positive; omega : 0 < n.toUInt32.toNat)
  have exact_ : (hashValue % n.toUInt32).toInt32.toInt = (hashValue % n.toUInt32).toInt32.toBitVec.toNat :=
    BitVec.toInt_eq_toNat_of_lt (by omega)
  rw [exact_, value, ← modulus]
  norm_cast

namespace HashPartitionerConfig

/-- Whatever the hash value, the choice is a partition. -/
private theorem choose_range (h : HashPartitionerConfig) (hashValue : UInt32) (positive : 0 < n) :
    0 ≤ h.choose hashValue n ∧ h.choose hashValue n < n := by
  have modulus := toInt_pos positive
  have below : n.toInt < 2 ^ 31 := n.toInt_lt
  have low := Int.lt_tmod_of_pos hashValue.toInt32.toInt modulus
  have high := Int.tmod_lt_of_pos hashValue.toInt32.toInt modulus
  unfold choose
  dsimp only
  split_ifs with absolute unsigned negative
  all_goals
    rw [Int32.le_iff_toInt_le, Int32.lt_iff_toInt_lt, Int32.toInt_zero]
  · rw [Int32.toInt_mod]
    exact ⟨Int.tmod_nonneg _ (toInt_and_nonneg _), Int.tmod_lt_of_pos _ modulus⟩
  · rw [toInt_umod hashValue positive]
    exact ⟨Int.emod_nonneg _ modulus.ne', Int.emod_lt_of_pos _ modulus⟩
  · rw [Int32.lt_iff_toInt_lt, Int32.toInt_zero, Int32.toInt_mod] at negative
    rw [Int32.toInt_neg, Int32.toInt_mod, Int.bmod_eq_of_le (by omega) (by omega)]
    omega
  · rw [Int32.lt_iff_toInt_lt, Int32.toInt_zero, Int32.toInt_mod] at negative
    rw [Int32.toInt_mod]
    omega

/-- For messages with a key the partition is one of the `n`, and depends on the key and on `n` alone. -/
def KeyDecides (h : HashPartitionerConfig) : Prop :=
  ∀ (key : Bytes) (n : Int32), key ≠ [] → 0 < n → ∃ choice, 0 ≤ choice ∧ choice < n ∧
    ∀ s (msg : ProducerMessage), msg.key = key → ((HashPartitioner h).partition s msg n).1 = (0, some choice)

private theorem keyDecides (h : HashPartitionerConfig) : h.KeyDecides := by
  intro key n hasKey positive
  have decided (s t : h.hasher.State) : h.hasher.final (h.hasher.update (h.hasher.reset s) key) =
      h.hasher.final (h.hasher.update (h.hasher.reset t) key) := by rw [h.hasher.reset_eq s t]
  rcases isEmpty_or_nonempty h.hasher.State with none | ⟨⟨t⟩⟩
  · exact ⟨0, Int32.le_refl 0, positive, fun s => (none.false s.1).elim⟩
  let hashValue := h.hasher.final (h.hasher.update (h.hasher.reset t) key)
  obtain ⟨low, high⟩ := h.choose_range hashValue positive
  refine ⟨h.choose hashValue n, low, high, ?_⟩
  rintro ⟨s, random⟩ msg rfl
  simp only [HashPartitioner, List.isEmpty_iff, hasKey, if_false, decided s t, hashValue]

/-- Messages without a key are left to the fallback. -/
def KeylessFallsBack (h : HashPartitionerConfig) : Prop :=
  ∀ (s : (HashPartitioner h).State) (msg : ProducerMessage) (n : Int32), msg.key = [] →
    ((HashPartitioner h).partition s msg n).1 = (h.randomPartitioner.partition s.2 msg n).1

private theorem keylessFallsBack (h : HashPartitionerConfig) : h.KeylessFallsBack := by
  intro s msg n keyless
  simp only [HashPartitioner, keyless, List.isEmpty_nil, if_true]

end HashPartitionerConfig

/-! ## Taking turns -/

namespace Partitioner

/-- Every answer is one of the partitions. -/
def InRange (p : Partitioner) (start : p.State) : Prop :=
  ∀ calls : List (ProducerMessage × Int32), (∀ call ∈ calls, 0 < call.2) →
    List.Forall₂ (fun call answer => ∃ choice, answer = (0, some choice) ∧ 0 ≤ choice ∧ choice < call.2) calls
      (p.answers start calls)

/-- Any calls in a row with one number of partitions, as many as there are partitions, visit all of them. -/
def VisitsAll (p : Partitioner) (start : p.State) : Prop :=
  ∀ (calls inRow : List (ProducerMessage × Int32)) (n : Int32), (∀ call ∈ calls, 0 < call.2) → 0 < n →
    (∀ call ∈ inRow, call.2 = n) → inRow.length = n.toInt → ∀ i, 0 ≤ i → i < n →
      (0, some i) ∈ (p.answers start (calls ++ inRow)).drop calls.length

/-- The state behind a sequence of calls. -/
def after (p : Partitioner) : p.State → List (ProducerMessage × Int32) → p.State :=
  List.foldl fun s call => (p.partition s call.1 call.2).2

private theorem answers_length (p : Partitioner) (s : p.State) (calls : List (ProducerMessage × Int32)) :
    (p.answers s calls).length = calls.length := by
  induction calls generalizing s with
  | nil => rfl
  | cons call calls ih => exact congrArg (· + 1) (ih (p.partition s call.1 call.2).2)

private theorem answers_append (p : Partitioner) (s : p.State) (calls more : List (ProducerMessage × Int32)) :
    p.answers s (calls ++ more) = p.answers s calls ++ p.answers (p.after s calls) more := by
  induction calls generalizing s with
  | nil => rfl
  | cons call calls ih => exact congrArg (_ :: ·) (ih (p.partition s call.1 call.2).2)

private theorem drop_answers (p : Partitioner) (s : p.State) (calls more : List (ProducerMessage × Int32)) :
    (p.answers s (calls ++ more)).drop calls.length = p.answers (p.after s calls) more := by
  rw [answers_append, List.drop_left' (p.answers_length s calls)]

/-- What an invariant of the state implies for each answer holds of all. -/
private theorem forall₂_answers {p : Partitioner} {inv : p.State → Prop}
    {good : ProducerMessage × Int32 → KError × Option Int32 → Prop}
    (step : ∀ s (call : ProducerMessage × Int32), inv s → 0 < call.2 →
      inv (p.partition s call.1 call.2).2 ∧ good call (p.partition s call.1 call.2).1)
    {s : p.State} (start : inv s) {calls : List (ProducerMessage × Int32)} (positive : ∀ call ∈ calls, 0 < call.2) :
    List.Forall₂ good calls (p.answers s calls) ∧ inv (p.after s calls) := by
  induction calls generalizing s with
  | nil => exact ⟨.nil, start⟩
  | cons call calls ih =>
    obtain ⟨positive, rest⟩ := List.forall_mem_cons.mp positive
    obtain ⟨kept, first⟩ := step s call start positive
    obtain ⟨later, last⟩ := ih kept rest
    exact ⟨.cons first later, last⟩

end Partitioner

/-- A draw is one of the partitions. -/
private theorem randomPartitioner_range (generator : UniformInt) (s : generator.State) (msg : ProducerMessage)
    (positive : 0 < n) :
    ∃ choice, ((RandomPartitioner generator).partition s msg n).1 = (0, some choice) ∧ 0 ≤ choice ∧ choice < n := by
  have modulus := toInt_pos positive
  have below : n.toInt < 2 ^ 31 := n.toInt_lt
  have last : (n - 1).toInt = n.toInt - 1 := by
    rw [Int32.toInt_sub, Int32.toInt_one]
    exact Int.bmod_eq_of_le (by omega) (by omega)
  refine ⟨Int32.ofNat (generator.draw s (n - 1).toInt.toNat).1, rfl, ?_⟩
  have drawn := (generator.draw s (n - 1).toInt.toNat).1.isLt
  rw [Int32.le_iff_toInt_le, Int32.lt_iff_toInt_lt, Int32.toInt_zero, Int32.toInt_ofNat_of_lt (by omega)]
  omega

/-- With the default fallback, the answers to all messages are partitions. -/
private theorem hashPartitioner_inRange (h : HashPartitionerConfig) (generator : UniformInt)
    (s : (HashPartitioner { h with randomPartitioner := RandomPartitioner generator }).State) :
    (HashPartitioner { h with randomPartitioner := RandomPartitioner generator }).InRange s := by
  intro calls positive
  refine (Partitioner.forall₂_answers (fun s call (always : True) positive => ⟨always, ?_⟩) trivial positive).1
  rcases eq_or_ne call.1.key [] with keyless | hasKey
  · rw [HashPartitionerConfig.keylessFallsBack _ s call.1 call.2 keyless]
    exact randomPartitioner_range generator s.2 call.1 positive
  · obtain ⟨choice, low, high, decides⟩ := HashPartitionerConfig.keyDecides
      { h with randomPartitioner := RandomPartitioner generator } call.1.key call.2 hasKey positive
    exact ⟨choice, decides s call.1 rfl, low, high⟩

namespace RoundRobinPartitioner

/-- The turn that a state stands for. -/
def turn (s n : Int32) : Int32 := if n ≤ s then 0 else s

private theorem turn_range {s n : Int32} (nonneg : 0 ≤ s) (positive : 0 < n) : 0 ≤ turn s n ∧ turn s n < n := by
  unfold turn
  split
  · exact ⟨Int32.le_refl 0, positive⟩
  · next before => exact ⟨nonneg, Int32.not_le.mp before⟩

private theorem toInt_turn_succ {s n : Int32} (nonneg : 0 ≤ s) (positive : 0 < n) :
    (turn s n + 1).toInt = (turn s n).toInt + 1 := by
  obtain ⟨low, high⟩ := turn_range nonneg positive
  rw [Int32.le_iff_toInt_le, Int32.toInt_zero] at low
  rw [Int32.lt_iff_toInt_lt] at high
  have below : n.toInt < 2 ^ 31 := n.toInt_lt
  rw [Int32.toInt_add, Int32.toInt_one]
  exact Int.bmod_eq_of_le (by omega) (by omega)

/-- One call leaves a state that is not negative, and answers with a partition. -/
theorem step (s : Int32) (call : ProducerMessage × Int32) (nonneg : 0 ≤ s) (positive : 0 < call.2) :
    (0 : Int32) ≤ (RoundRobinPartitioner.partition s call.1 call.2).2 ∧
      ∃ choice, (RoundRobinPartitioner.partition s call.1 call.2).1 = (0, some choice) ∧ 0 ≤ choice ∧ choice < call.2 := by
  obtain ⟨low, high⟩ := turn_range nonneg positive
  refine ⟨?_, turn s call.2, rfl, low, high⟩
  change 0 ≤ turn s call.2 + 1
  rw [Int32.le_iff_toInt_le, Int32.toInt_zero] at low ⊢
  rw [toInt_turn_succ nonneg positive]
  omega

theorem run {calls : List (ProducerMessage × Int32)} (positive : ∀ call ∈ calls, 0 < call.2) :
    List.Forall₂ (fun call answer => ∃ choice, answer = (0, some choice) ∧ 0 ≤ choice ∧ choice < call.2) calls
        (RoundRobinPartitioner.answers (0 : Int32) calls) ∧
      (0 : Int32) ≤ RoundRobinPartitioner.after (0 : Int32) calls :=
  Partitioner.forall₂_answers step (Int32.le_refl 0) positive

theorem inRange : RoundRobinPartitioner.InRange (0 : Int32) := fun _ positive => (run positive).1

/-- The next turn is the next partition, and the first one behind the last. -/
private theorem turn_turn_succ {s n : Int32} (nonneg : 0 ≤ s) (positive : 0 < n) :
    (turn (turn s n + 1) n).toInt = ((turn s n).toInt + 1) % n.toInt := by
  obtain ⟨low, high⟩ := turn_range nonneg positive
  rw [Int32.le_iff_toInt_le, Int32.toInt_zero] at low
  rw [Int32.lt_iff_toInt_lt] at high
  have next := toInt_turn_succ nonneg positive
  rw [turn]
  split
  · next behind =>
    rw [Int32.le_iff_toInt_le, next] at behind
    rw [Int32.toInt_zero, le_antisymm (Int.add_one_le_of_lt high) behind, Int.emod_self]
  · next before =>
    rw [Int32.le_iff_toInt_le, next, not_le] at before
    rw [next, Int.emod_eq_of_lt (by omega) before]

/-- The partition that is `k` turns away is answered within `k + 1` calls. -/
private theorem mem_answers {n i : Int32} (positive : 0 < n) {inRow : List (ProducerMessage × Int32)}
    (same : ∀ call ∈ inRow, call.2 = n) {s : Int32} (nonneg : 0 ≤ s) {k : ℕ} (within : k < inRow.length)
    (turns : i.toInt = ((turn s n).toInt + k) % n.toInt) : (0, some i) ∈ RoundRobinPartitioner.answers s inRow := by
  induction inRow generalizing s k with
  | nil => exact absurd within (Nat.not_lt_zero k)
  | cons call inRow ih =>
    obtain ⟨message, number⟩ := call
    obtain ⟨rfl, same⟩ := List.forall_mem_cons.mp same
    obtain ⟨low, high⟩ := turn_range nonneg positive
    rw [Int32.le_iff_toInt_le, Int32.toInt_zero] at low
    rw [Int32.lt_iff_toInt_lt] at high
    cases k with
    | zero =>
      rw [Nat.cast_zero, add_zero, Int.emod_eq_of_lt low high] at turns
      rw [Int32.toInt_inj.mp turns]
      exact List.mem_cons_self
    | succ k =>
      refine List.mem_cons_of_mem _ (ih same (step s (message, number) nonneg positive).1 (Nat.lt_of_succ_lt_succ within) ?_)
      change i.toInt = ((turn (turn s number + 1) number).toInt + k) % number.toInt
      rw [turns, turn_turn_succ nonneg positive, Int.emod_add_emod]
      push_cast
      ring_nf

private theorem visitsAll : RoundRobinPartitioner.VisitsAll (0 : Int32) := by
  intro calls inRow n positive some_ same long i low high
  have nonneg := (run positive).2
  have inRow_ : (RoundRobinPartitioner.answers (0 : Int32) (calls ++ inRow)).drop calls.length =
      RoundRobinPartitioner.answers (RoundRobinPartitioner.after (0 : Int32) calls) inRow := Partitioner.drop_answers _ _ _ _
  rw [inRow_]
  rw [Int32.le_iff_toInt_le, Int32.toInt_zero] at low
  rw [Int32.lt_iff_toInt_lt] at high
  have modulus := toInt_pos some_
  let away := (i.toInt - (turn (RoundRobinPartitioner.after (0 : Int32) calls) n).toInt) % n.toInt
  have least : 0 ≤ away := Int.emod_nonneg _ modulus.ne'
  have most : away < n.toInt := Int.emod_lt_of_pos _ modulus
  refine mem_answers some_ same nonneg (k := away.toNat) (by omega) ?_
  rw [Int.toNat_of_nonneg least, Int.add_emod_emod, add_sub_cancel, Int.emod_eq_of_lt low high]

end RoundRobinPartitioner

/-! ## The partition that is stored -/

/-- The partitions that apply: those of the cache, or if it has none those that it has after the refresh. -/
def Client.applicable (c : Client) (consistency : Bool) (topic : Bytes) (refresh : KError × Client) : List Int32 :=
  (if (c.cachedPartitions consistency topic).isEmpty then refresh.2 else c).cachedPartitions consistency topic

/-- A producer stores one of the partitions that apply, as it gets them, and changes nothing else; or it reports an error and
leaves the message as it is. -/
def StoresApplicable (p : Partitioner) : Prop :=
  ∀ (s : p.State) (c : Client) (refresh : KError × Client) (uninitialised : Int32) (msg : ProducerMessage),
    (∃ partition ∈ c.applicable (p.consistencyOf msg) msg.topic refresh,
        c.getPartitions (p.consistencyOf msg) msg.topic refresh =
          .ok (c.applicable (p.consistencyOf msg) msg.topic refresh) ∧
          (partitionMessage p s c refresh uninitialised msg).1 = (0, { msg with partition })) ∨
      ∃ err ≠ 0, (partitionMessage p s c refresh uninitialised msg).1 = (err, msg)

private theorem getPartitions_spec (c : Client) (consistency : Bool) (topic : Bytes) (refresh : KError × Client) :
    (∃ err ≠ 0, c.getPartitions consistency topic refresh = .error err) ∨
      c.getPartitions consistency topic refresh = .ok (c.applicable consistency topic refresh) := by
  unfold Client.getPartitions
  split_ifs with closed empty failed none
  · exact .inl ⟨ErrClosedClient, by decide, rfl⟩
  · exact .inl ⟨refresh.1, failed, rfl⟩
  · exact .inl ⟨ErrUnknownTopicOrPartition, by decide, rfl⟩
  · exact .inr (by rw [Client.applicable, if_pos empty])
  · exact .inr (by rw [Client.applicable, if_neg empty])

/-- A choice below the number of partitions is a place in the list. -/
private theorem getD_mem {partitions : List Int32} {choice : Int32} (low : ¬ choice < 0)
    (high : ¬ Int32.ofInt partitions.length ≤ choice) : partitions.getD choice.toInt.toNat 0 ∈ partitions := by
  rw [Int32.lt_iff_toInt_lt, Int32.toInt_zero, not_lt] at low
  rw [Int32.le_iff_toInt_le, Int32.toInt_ofInt, not_le] at high
  have wrapped : (partitions.length : ℤ).bmod Int32.size ≤ partitions.length := by
    rw [Int.bmod_def]
    dsimp only [Int32.size]
    split <;> omega
  have within : choice.toInt.toNat < partitions.length := by omega
  rw [List.getD_eq_getElem _ _ within]
  exact List.getElem_mem within

private theorem storesApplicable (p : Partitioner) : StoresApplicable p := by
  intro s c refresh uninitialised msg
  rcases getPartitions_spec c (p.consistencyOf msg) msg.topic refresh with ⟨err, nonzero, failed⟩ | found
  · refine .inr ⟨err, nonzero, ?_⟩
    rw [partitionMessage, failed]
  · unfold partitionMessage
    rw [found]
    dsimp only
    split_ifs with none outside
    · exact .inr ⟨ErrLeaderNotAvailable, by decide, rfl⟩
    · exact .inr ⟨ErrInvalidPartition, by decide, rfl⟩
    · obtain ⟨low, high⟩ := not_or.mp outside
      exact .inl ⟨_, getD_mem low high, rfl, rfl⟩

/-- Keys decide on their partitions, messages without a key are left to the fallback, all answers are in range,
partitions in turn are all visited, and what is stored is a partition that applies. -/
theorem partitioners_sound (h : HashPartitionerConfig) (p : Partitioner) : h.KeyDecides ∧ h.KeylessFallsBack ∧
      (∀ generator s, (HashPartitioner { h with randomPartitioner := RandomPartitioner generator }).InRange s) ∧
      RoundRobinPartitioner.InRange (0 : Int32) ∧ RoundRobinPartitioner.VisitsAll (0 : Int32) ∧ StoresApplicable p :=
  ⟨h.keyDecides, h.keylessFallsBack, hashPartitioner_inRange h, RoundRobinPartitioner.inRange,
    RoundRobinPartitioner.visitsAll,
    storesApplicable p⟩

/-- A generator that goes up by one. -/
def counting : UniformInt where
  State := ℕ
  draw k last := (Fin.ofNat (last + 1) k, k + 1)

/-- Without a key, the default hash partitioner chooses anew for every message. -/
theorem keyless_message_moves :
    (NewHashPartitioner counting).answers ((0 : UInt32), (0 : ℕ)) [({}, 2), ({}, 2)] = [(0, some 0), (0, some 1)] := by
  decide

end Coev.Kafka
