import Coev.Proofs.Kafka.StickyPlan
import Mathlib.Data.Nat.ModEq

/-! # What a round of the round-robin strategy does

Each round gives a partition to a subscriber if one of the members in the vector is one, and leaves in the slot at hand the
member it stopped at. So a member that was passed over is gone.
-/

namespace Coev.Kafka

open Std (ExtTreeMap)

namespace RoundRobin

variable {n : ℕ} [NeZero n] {s : RoundRobin n} {p q : TopicPartition} {rest order : List TopicPartition} {topic m : Bytes}
variable {members : Members}

/-- A member in the vector subscribes to the topic. -/
def Serves (s : RoundRobin n) (topic : Bytes) : Prop := ∃ k, (s.members k).hasTopic topic

/-- The slot whose member a round stops at. -/
structure Picks (s : RoundRobin n) (topic : Bytes) (k : Fin n) : Prop where
  stays : s.current.hasTopic topic → k = s.slot
  passes : k = s.slot → s.current.hasTopic topic ∨ n = 1
  finds : s.Serves topic → (s.members k).hasTopic topic

/-! ## The search -/

theorem ofNat_ne_of_lt {i a : ℕ} (positive : 0 < a) (less : a < n) : Fin.ofNat n (i + a) ≠ Fin.ofNat n i := by
  intro same
  have values : (i + a) % n = i % n := congrArg Fin.val same
  have multiple : n ∣ i + a - i := (Nat.modEq_iff_dvd' (Nat.le_add_right i a)).mp values.symm
  rw [Nat.add_sub_cancel_left] at multiple
  exact absurd (Nat.le_of_dvd positive multiple) (by omega)

theorem exists_ofNat (i : ℕ) (k : Fin n) : ∃ a < n, Fin.ofNat n (i + a) = k := by
  refine ⟨(k.val + (n - i % n)) % n, Nat.mod_lt _ (Nat.pos_of_neZero n), Fin.ext ?_⟩
  change (i + (k.val + (n - i % n)) % n) % n = k.val
  have bound := Nat.mod_lt i (Nat.pos_of_neZero n)
  rw [Nat.add_mod_mod, ← Nat.mod_add_mod, show i % n + (k.val + (n - i % n)) = k.val + n by omega, Nat.add_mod_right,
    Nat.mod_eq_of_lt k.isLt]

/-- After `a` attempts the slot at hand has a copy of the member `a` slots further on. -/
theorem seekMember_spec (s : RoundRobin n) (topic : Bytes) (attempts a : ℕ) (count : attempts + a = n) (less : a < n)
    (none_ : ∀ b < a, ¬ (s.members (Fin.ofNat n (s.i + b))).hasTopic topic) :
    ∃ k, s.Picks topic k ∧ ∃ i, seekMember topic s.slot attempts
      { s with i := s.i + a, members := Function.update s.members s.slot (s.members (Fin.ofNat n (s.i + a))) } =
      { s with i := i, members := Function.update s.members s.slot (s.members k) } := by
  induction attempts generalizing a with
  | zero => omega
  | succ attempts ih =>
    simp only [seekMember, Function.update_self, Function.update_idem]
    have atSlot : Fin.ofNat n (s.i + a) = s.slot → a = 0 := by
      intro same
      by_contra positive
      exact ofNat_ne_of_lt (Nat.pos_of_ne_zero positive) less same
    split
    next found =>
      refine ⟨Fin.ofNat n (s.i + a), ⟨fun here => ?_, fun same => ?_, fun _ => found⟩, _, rfl⟩
      · rcases Nat.eq_zero_or_pos a with zero | positive
        · rw [zero]
          rfl
        · exact absurd here (none_ 0 positive)
      · rw [same] at found
        exact .inl found
    next missed =>
      have none_' : ∀ b < a + 1, ¬ (s.members (Fin.ofNat n (s.i + b))).hasTopic topic := by
        intro b below
        rcases Nat.lt_succ_iff_lt_or_eq.mp below with below | rfl
        · exact none_ b below
        · exact missed
      rcases Nat.lt_or_ge (a + 1) n with less' | last
      · have other : Fin.ofNat n (s.i + (a + 1)) ≠ s.slot := ofNat_ne_of_lt (Nat.succ_pos a) less'
        rw [show s.i + a + 1 = s.i + (a + 1) from rfl, Function.update_of_ne other]
        exact ih (a + 1) (by omega) less' none_'
      · -- the search is back at its slot
        obtain rfl : attempts = 0 := by omega
        have back : Fin.ofNat n (s.i + a + 1) = s.slot := by
          rw [show s.i + a + 1 = s.i + n by omega]
          exact Fin.ext (Nat.add_mod_right s.i n)
        rw [back, Function.update_self]
        refine ⟨Fin.ofNat n (s.i + a), ⟨fun here => absurd here (none_' 0 (Nat.succ_pos a)), fun same => .inr ?_, ?_⟩,
          _, rfl⟩
        · have := atSlot same
          omega
        · rintro ⟨k, has⟩
          obtain ⟨b, below, rfl⟩ := exists_ofNat s.i k
          exact absurd has (none_' b (by omega))

/-- A round stops at a subscriber, if there is one, and copies it over the member at hand. -/
theorem assignNext_spec (s : RoundRobin n) (p : TopicPartition) :
    ∃ k, s.Picks p.1 k ∧ (assignNext s p).members = Function.update s.members s.slot (s.members k) ∧
      (assignNext s p).plan =
        if (s.members k).hasTopic p.1 then addToPlan s.plan (s.members k).memberID p.1 [p.2] else s.plan := by
  have unmoved :
      s = { s with i := s.i + 0, members := Function.update s.members s.slot (s.members (Fin.ofNat n (s.i + 0))) } := by
    rw [show Fin.ofNat n (s.i + 0) = s.slot from rfl, Function.update_eq_self]
    rfl
  obtain ⟨k, picks, i, run⟩ :=
    seekMember_spec s p.1 n 0 rfl (Nat.pos_of_neZero n) (fun b below => absurd below (Nat.not_lt_zero b))
  rw [← unmoved] at run
  refine ⟨k, picks, ?_⟩
  unfold assignNext
  simp only [run, Function.update_self]
  split <;> exact ⟨rfl, rfl⟩

/-! ## Who is still served -/

/-- A member that is passed over is missed by nobody: each topic of it that still has a partition to come has a subscriber in
another slot. -/
def Harmless (s : RoundRobin n) (p : TopicPartition) (rest : List TopicPartition) : Prop :=
  s.current.hasTopic p.1 ∨
    ∀ q ∈ rest, s.current.hasTopic q.1 → ∃ k, (k = s.slot → n = 1) ∧ (s.members k).hasTopic q.1

/-- No round over the partitions passes over a member that is missed later. -/
def Lossless : RoundRobin n → List TopicPartition → Prop
  | _, [] => True
  | s, p :: rest => s.Harmless p rest ∧ Lossless (assignNext s p) rest

instance (s : RoundRobin n) (p : TopicPartition) (rest : List TopicPartition) : Decidable (s.Harmless p rest) :=
  inferInstanceAs (Decidable (_ ∨ _))

instance decidableLossless : (s : RoundRobin n) → (order : List TopicPartition) → Decidable (s.Lossless order)
  | _, [] => isTrue trivial
  | s, p :: rest =>
    have := decidableLossless (assignNext s p) rest
    inferInstanceAs (Decidable (_ ∧ _))

/-- The members in the vector are still those of the group. -/
def Genuine (members : Members) (s : RoundRobin n) : Prop :=
  ∀ k topic, (s.members k).hasTopic topic → members.Subscribes (s.members k).memberID topic

theorem mem_assignNext (s : RoundRobin n) (p : TopicPartition) (j : Fin n) :
    ∃ k, (assignNext s p).members j = s.members k := by
  obtain ⟨k, -, moved, -⟩ := assignNext_spec s p
  rw [moved, Function.update_apply]
  split
  · exact ⟨k, rfl⟩
  · exact ⟨j, rfl⟩

theorem Genuine.assignNext (genuine : s.Genuine members) : (assignNext s p).Genuine members := by
  intro j topic has
  obtain ⟨k, same⟩ := mem_assignNext s p j
  rw [same] at has ⊢
  exact genuine k topic has

theorem serves_of_assignNext (serves : (assignNext s p).Serves topic) : s.Serves topic := by
  obtain ⟨j, has⟩ := serves
  obtain ⟨k, same⟩ := mem_assignNext s p j
  exact ⟨k, same ▸ has⟩

theorem Harmless.serves (harmless : s.Harmless p rest) (member : q ∈ rest) (serves : s.Serves q.1) :
    (assignNext s p).Serves q.1 := by
  obtain ⟨k, picks, moved, -⟩ := assignNext_spec s p
  obtain ⟨j, has⟩ := serves
  rw [Serves, moved]
  rcases harmless with stays | missed
  · refine ⟨j, ?_⟩
    rwa [picks.stays stays, Function.update_eq_self]
  · by_cases here : j = s.slot
    · subst here
      obtain ⟨k', other, has'⟩ := missed q member has
      by_cases here' : k' = s.slot
      · -- the slot at hand is the only one
        obtain rfl := other here'
        refine ⟨s.slot, ?_⟩
        rwa [Function.update_self, Subsingleton.elim k s.slot]
      · refine ⟨k', ?_⟩
        rwa [Function.update_of_ne here']
    · refine ⟨j, ?_⟩
      rwa [Function.update_of_ne here]

/-- Where nobody is missed after a round, it was harmless. -/
theorem harmless_of_serves (serves : ∀ q ∈ rest, s.Serves q.1 → (assignNext s p).Serves q.1) : s.Harmless p rest := by
  obtain ⟨k, picks, moved, -⟩ := assignNext_spec s p
  by_cases stays : s.current.hasTopic p.1
  · exact .inl stays
  · refine .inr fun q member has => ?_
    obtain ⟨j, has'⟩ := serves q member ⟨s.slot, has⟩
    rw [moved] at has'
    by_cases here : j = s.slot
    · rw [here, Function.update_self] at has'
      exact ⟨k, fun same => (picks.passes same).resolve_left stays, has'⟩
    · rw [Function.update_of_ne here] at has'
      exact ⟨j, fun same => absurd same here, has'⟩

/-! ## What is assigned -/

/-- A round assigns its partition to one subscriber or to nobody. -/
theorem assigns_assignNext (s : RoundRobin n) (p : TopicPartition) :
    ∃ k, (s.Serves p.1 → (s.members k).hasTopic p.1) ∧ ∀ m q, (assignNext s p).plan.Assigns m q ↔
      (p = q ∧ (s.members k).hasTopic p.1 ∧ (s.members k).memberID = m) ∨ s.plan.Assigns m q := by
  obtain ⟨k, picks, -, planned⟩ := assignNext_spec s p
  refine ⟨k, picks.finds, fun m q => ?_⟩
  rw [planned]
  split
  next has =>
    rw [assigns_addToPlan]
    tauto
  next missed => tauto

theorem keeps_assignNext (assigned : s.plan.Assigns m q) : (assignNext s p).plan.Assigns m q := by
  obtain ⟨k, -, assigns⟩ := assigns_assignNext s p
  exact (assigns m q).mpr (.inr assigned)

theorem keeps_foldl (assigned : s.plan.Assigns m q) : (order.foldl assignNext s).plan.Assigns m q := by
  induction order generalizing s with
  | nil => exact assigned
  | cons p order ih => exact ih (keeps_assignNext assigned)

/-- What the rounds assign, they assign to subscribers. -/
theorem assigned_of_foldl (genuine : s.Genuine members) (assigned : (order.foldl assignNext s).plan.Assigns m q) :
    s.plan.Assigns m q ∨ q ∈ order ∧ s.Serves q.1 ∧ members.Subscribes m q.1 := by
  induction order generalizing s with
  | nil => exact .inl assigned
  | cons p order ih =>
    rcases ih genuine.assignNext assigned with before | ⟨member, serves, subscribes⟩
    · obtain ⟨k, -, assigns⟩ := assigns_assignNext s p
      rcases (assigns m q).mp before with ⟨rfl, has, rfl⟩ | before
      · exact .inr ⟨List.mem_cons_self, ⟨k, has⟩, genuine k p.1 has⟩
      · exact .inl before
    · exact .inr ⟨List.mem_cons_of_mem p member, serves_of_assignNext serves, subscribes⟩

/-- No partition is assigned twice. -/
theorem unique_foldl (nodup : order.Nodup) (new : ∀ p ∈ order, ∀ m, ¬ s.plan.Assigns m p)
    (unique : ∀ m m' q, s.plan.Assigns m q → s.plan.Assigns m' q → m = m') {m' : Bytes}
    (first : (order.foldl assignNext s).plan.Assigns m q) (second : (order.foldl assignNext s).plan.Assigns m' q) :
    m = m' := by
  induction order generalizing s with
  | nil => exact unique m m' q first second
  | cons p order ih =>
    obtain ⟨notAgain, nodup⟩ := List.nodup_cons.mp nodup
    obtain ⟨newHead, newTail⟩ := List.forall_mem_cons.mp new
    obtain ⟨k, -, assigns⟩ := assigns_assignNext s p
    refine ih nodup ?_ ?_ first second
    · intro other member m assigned
      rcases (assigns m other).mp assigned with ⟨rfl, -⟩ | before
      · exact notAgain member
      · exact newTail other member m before
    · intro m m' q first second
      rcases (assigns m q).mp first with ⟨rfl, -, rfl⟩ | before <;>
        rcases (assigns m' _).mp second with ⟨same, -, rfl⟩ | before'
      · rfl
      · exact absurd before' (newHead m')
      · exact absurd (same ▸ before) (newHead m)
      · exact unique m m' q before before'

/-- The rounds assign all that has a subscriber exactly if they lose nobody who is missed. -/
theorem complete_iff_lossless (genuine : s.Genuine members) (nodup : order.Nodup)
    (new : ∀ p ∈ order, ∀ m, ¬ s.plan.Assigns m p) :
    (∀ p ∈ order, s.Serves p.1 → ∃ m, (order.foldl assignNext s).plan.Assigns m p) ↔ s.Lossless order := by
  induction order generalizing s with
  | nil => exact ⟨fun _ => trivial, fun _ p member => absurd member List.not_mem_nil⟩
  | cons p order ih =>
    obtain ⟨notAgain, nodup⟩ := List.nodup_cons.mp nodup
    obtain ⟨newHead, newTail⟩ := List.forall_mem_cons.mp new
    obtain ⟨k, finds, assigns⟩ := assigns_assignNext s p
    have new' : ∀ q ∈ order, ∀ m, ¬ (assignNext s p).plan.Assigns m q := by
      intro q member m assigned
      rcases (assigns m q).mp assigned with ⟨rfl, -⟩ | before
      · exact notAgain member
      · exact newTail q member m before
    rw [Lossless, ← ih genuine.assignNext nodup new', List.forall_mem_cons, List.foldl_cons]
    constructor
    · rintro ⟨-, complete⟩
      refine ⟨harmless_of_serves fun q member serves => ?_, fun q member serves => ?_⟩
      · obtain ⟨m, assigned⟩ := complete q member serves
        rcases assigned_of_foldl genuine.assignNext assigned with before | ⟨-, serves', -⟩
        · exact absurd before (new' q member m)
        · exact serves'
      · exact complete q member (serves_of_assignNext serves)
    · rintro ⟨harmless, complete⟩
      refine ⟨fun serves => ?_, fun q member serves => complete q member (harmless.serves member serves)⟩
      have here : (assignNext s p).plan.Assigns (s.members k).memberID p := (assigns _ p).mpr (.inl ⟨rfl, finds serves, rfl⟩)
      exact ⟨_, keeps_foldl here⟩

end RoundRobin

end Coev.Kafka
