import Coev.Proofs.Kafka.Carries

/-! # What a decoder leaves of an encoding

`CarriesInto` says what is read back. Where it is not known whether anything is, `Leaves` bounds from the other side what a
decoder that succeeds can have made of the bytes. A map that was read back whole had each of its entries read back.
-/

namespace Coev.Kafka

open EStateM (bind_eq_ok_iff)
open Std (ExtTreeMap)
open ByteString DecodeInto PacketDecoder PacketEncoder

variable {α σ τ δ : Type} {strict flexible : Bool}
variable {put : Encode Unit} {Q : σ → Bytes → Prop} {x : DecodeInto σ Unit} {least : ℕ} {o : σ} {spoil : σ → σ} {n : ℕ}
  {get : Decode α}

/-- Whatever `put` writes is at least so many bytes. -/
def Sized (flexible : Bool) (put : Encode Unit) (least : ℕ) : Prop :=
  ∃ output, Writes flexible put () output ∧ ∀ bytes ∈ output, least ≤ bytes.length

/-- Within the limit of a request, where `x` succeeds on what `put` writes, the object and the bytes behind it are `Q`. -/
def Leaves (flexible : Bool) (put : Encode Unit) (x : DecodeInto σ Unit) (o : σ) (Q : σ → Bytes → Prop) (least : ℕ) : Prop :=
  ∃ output, Writes flexible put () output ∧
    ∀ bytes ∈ output, least ≤ bytes.length ∧
      (bytes.length ≤ maxRequestSize → ∀ pd rest, InMode flexible pd → pd.unread = bytes ++ rest →
        ∀ o' pd', x (o, pd) = .ok () (o', pd') → Q o' pd'.unread)

/-! ## Sizes -/

theorem Carries.sized {a : α} (carries : Carries strict flexible put get a least) : Sized flexible put least := by
  obtain ⟨output, writes, each⟩ := carries
  exact ⟨output, writes, fun bytes member => (each bytes member).1⟩

theorem CarriesInto.sized {o o' : σ} (carries : CarriesInto strict flexible put x o o' least) :
    Sized flexible put least := by
  obtain ⟨output, writes, each⟩ := carries
  exact ⟨output, writes, fun bytes member => (each bytes member).1⟩

theorem Leaves.sized (leaves : Leaves flexible put x o Q least) : Sized flexible put least := by
  obtain ⟨output, writes, each⟩ := leaves
  exact ⟨output, writes, fun bytes member => (each bytes member).1⟩

theorem Sized.bind {put put' : Encode Unit} {m n : ℕ} (first : Sized flexible put m) (next : Sized flexible put' n) :
    Sized flexible (put >>= fun _ => put') (m + n) := by
  obtain ⟨p, writes, each⟩ := first
  obtain ⟨q, writes', each'⟩ := next
  refine ⟨_, writes.bind writes', fun bytes member => ?_⟩
  obtain ⟨head, isHead, tail, isTail, rfl⟩ := append_of_mem member
  rw [List.length_append]
  exact Nat.add_le_add (each head isHead) (each' tail isTail)

theorem Sized.forM {put : δ → Encode Unit} {xs : List δ} (each : ∀ x ∈ xs, Sized flexible (put x) 1) :
    Sized flexible (xs.forM put) xs.length := by
  induction xs with
  | nil => exact (@CarriesInto.pure Unit false flexible ()).sized
  | cons x xs ih =>
    obtain ⟨head, tail⟩ := List.forall_mem_cons.mp each
    rw [List.length_cons, Nat.add_comm]
    exact head.bind (ih tail)

/-- The whole is at least as long as any part. -/
theorem Sized.forM_of_mem {put : δ → Encode Unit} {xs : List δ} {x : δ} (each : ∀ x ∈ xs, Sized flexible (put x) 1)
    (member : x ∈ xs) (sized : Sized flexible (put x) least) : Sized flexible (xs.forM put) least := by
  induction xs with
  | nil => cases member
  | cons y xs ih =>
    obtain ⟨head, tail⟩ := List.forall_mem_cons.mp each
    rcases List.mem_cons.mp member with rfl | member
    · obtain ⟨output, writes, long⟩ := sized.bind (Sized.forM tail)
      exact ⟨output, writes, fun bytes isBytes => Nat.le_of_add_right_le (long bytes isBytes)⟩
    · obtain ⟨output, writes, long⟩ := head.bind (ih tail member)
      exact ⟨output, writes, fun bytes isBytes => Nat.le_of_add_left_le (long bytes isBytes)⟩

theorem Sized.weaken {m n : ℕ} (sized : Sized flexible put n) (le : m ≤ n) : Sized flexible put m := by
  obtain ⟨output, writes, each⟩ := sized
  exact ⟨output, writes, fun bytes member => le.trans (each bytes member)⟩

theorem Sized.inVersions {versions : Prop} [Decidable versions] (sized : Sized flexible put least) :
    Sized flexible (inVersions versions put) 0 := by
  unfold Kafka.inVersions
  split
  · exact sized.weaken (Nat.zero_le _)
  · exact (@CarriesInto.pure Unit false flexible ()).sized

theorem sized_putString (s : Bytes) : Sized flexible (putString s) 1 := (@carries_putString false flexible s).sized

theorem sized_putInt32 (x : Int32) : Sized flexible (putInt32 x) 1 := (@carries_putInt32 false flexible x).sized

theorem sized_putArrayLength (x : Int32) : Sized flexible (putArrayLength x) 1 := by
  refine ⟨_, writes_putArrayLength x, fun bytes member => ?_⟩
  obtain ⟨⟨n, counts⟩, stored⟩ := mem_accepted member
  rw [arrayLengthOutput] at stored
  split at stored
  · split at stored
    · cases stored
    · obtain rfl := Option.some.inj stored
      rw [length_encodeUVariant]
      exact Leb128.size_pos _
  · obtain rfl := Option.some.inj stored
    rw [length_bigEndian]
    omega

theorem sized_putEmptyTaggedFieldArray : Sized true putEmptyTaggedFieldArray 1 := by
  refine ⟨_, writes_putEmptyTaggedFieldArray, fun bytes member => ?_⟩
  obtain rfl := Option.some.inj member
  rw [if_pos rfl, length_encodeUVariant]
  exact Leb128.size_pos _

/-! ## Sequencing -/

/-- What is written is the same whichever way it was found out. -/
theorem Sized.of_writes {output : Option Bytes} {bytes : Bytes} (sized : Sized flexible put n)
    (writes : Writes flexible put () output) (member : bytes ∈ output) (within : n ≤ maxRequestSize) :
    n ≤ bytes.length := by
  by_cases small : bytes.length ≤ maxRequestSize
  · obtain ⟨output', writes', each⟩ := sized
    obtain ⟨same, -⟩ := (encodeBody_eq_ok_iff writes').mp ((encodeBody_eq_ok_iff writes).mpr ⟨member, small⟩)
    exact each bytes same
  · omega

theorem CarriesInto.atLeast {o o' : σ} {m n : ℕ} (carries : CarriesInto strict flexible put x o o' m)
    (sized : Sized flexible put n) (within : n ≤ maxRequestSize) : CarriesInto strict flexible put x o o' n := by
  obtain ⟨output, writes, each⟩ := carries
  exact ⟨output, writes, fun bytes member => ⟨sized.of_writes writes member within, (each bytes member).2⟩⟩

/-- Where the bytes do not matter. -/
theorem Sized.leaves (sized : Sized flexible put least)
    (all : least ≤ maxRequestSize → ∀ pd o' pd', x (o, pd) = .ok () (o', pd') → Q o' pd'.unread) :
    Leaves flexible put x o Q least := by
  obtain ⟨output, writes, each⟩ := sized
  refine ⟨output, writes, fun bytes member => ⟨each bytes member, ?_⟩⟩
  intro small pd _ _ _ o' pd' run
  exact all ((each bytes member).trans small) pd o' pd' run

/-- What is written and not read stays behind. -/
theorem Sized.leavesUnread (sized : Sized flexible put least) (positive : 0 < least) (o : σ) :
    Leaves flexible put (pure ()) o (fun _ unread => unread ≠ []) least := by
  obtain ⟨output, writes, each⟩ := sized
  refine ⟨output, writes, fun bytes member => ⟨each bytes member, ?_⟩⟩
  rintro - pd rest - ahead o' pd' ⟨⟩
  rw [ahead]
  rintro none_
  obtain ⟨rfl, -⟩ := List.append_eq_nil_iff.mp none_
  exact absurd (positive.trans_le (each [] member)) (Nat.lt_irrefl 0)

theorem Leaves.weaken {P Q : σ → Bytes → Prop} {m n : ℕ} (leaves : Leaves flexible put x o P n)
    (implies : ∀ o' unread, P o' unread → Q o' unread) (le : m ≤ n) : Leaves flexible put x o Q m := by
  obtain ⟨output, writes, each⟩ := leaves
  refine ⟨output, writes, fun bytes member => ⟨le.trans (each bytes member).1, ?_⟩⟩
  intro small pd rest mode ahead o' pd' run
  exact implies _ _ ((each bytes member).2 small pd rest mode ahead o' pd' run)

theorem Leaves.atLeast {m n : ℕ} (leaves : Leaves flexible put x o Q m) (sized : Sized flexible put n)
    (within : n ≤ maxRequestSize) : Leaves flexible put x o Q n := by
  obtain ⟨output, writes, each⟩ := leaves
  exact ⟨output, writes, fun bytes member => ⟨sized.of_writes writes member within, (each bytes member).2⟩⟩

/-- What is read back is all that there can be. -/
theorem CarriesInto.only {o o₁ : σ} (carries : CarriesInto strict flexible put x o o₁ least) :
    Leaves flexible put x o (fun o' _ => o' = o₁) least := by
  obtain ⟨output, writes, each⟩ := carries
  refine ⟨output, writes, fun bytes member => ⟨(each bytes member).1, ?_⟩⟩
  intro small pd rest mode ahead o' pd' run
  rw [((each bytes member).2 small).reads pd rest mode ahead] at run
  cases run
  rfl

/-- What is read back stands in front of the rest. -/
theorem CarriesInto.leaves {put put' : Encode Unit} {x y : DecodeInto σ Unit} {o o' : σ} {m n : ℕ}
    (first : CarriesInto strict flexible put x o o' m) (next : Leaves flexible put' y o' Q n) :
    Leaves flexible (put >>= fun _ => put') (x >>= fun _ => y) o Q (m + n) := by
  obtain ⟨p, writes, each⟩ := first
  obtain ⟨q, writes', each'⟩ := next
  refine ⟨_, writes.bind writes', fun bytes member => ?_⟩
  obtain ⟨head, isHead, tail, isTail, rfl⟩ := append_of_mem member
  obtain ⟨least, takes⟩ := each head isHead
  obtain ⟨least', leaves⟩ := each' tail isTail
  rw [List.length_append]
  refine ⟨Nat.add_le_add least least', fun small pd rest mode ahead o₂ pd' run => ?_⟩
  rw [List.append_assoc] at ahead
  rw [(takes (by omega)).reads.andThen ahead mode] at run
  exact leaves (by omega) _ rest (mode.advance _) (unread_advance ahead) o₂ pd' run

theorem Carries.leaves {put put' : Encode Unit} {k : α → DecodeInto σ Unit} {a : α} {m n : ℕ}
    (first : Carries strict flexible put get a m) (next : Leaves flexible put' (k a) o Q n) :
    Leaves flexible (put >>= fun _ => put') (readOr spoil get >>= k) o Q (m + n) := by
  obtain ⟨p, writes, each⟩ := first
  obtain ⟨q, writes', each'⟩ := next
  refine ⟨_, writes.bind writes', fun bytes member => ?_⟩
  obtain ⟨head, isHead, tail, isTail, rfl⟩ := append_of_mem member
  obtain ⟨least, takes⟩ := each head isHead
  obtain ⟨least', leaves⟩ := each' tail isTail
  rw [List.length_append]
  refine ⟨Nat.add_le_add least least', fun small pd rest mode ahead o₂ pd' run => ?_⟩
  rw [List.append_assoc] at ahead
  rw [((takes (by omega)).reads.readOr spoil o).andThen ahead mode] at run
  exact leaves (by omega) _ rest (mode.advance _) (unread_advance ahead) o₂ pd' run

/-- The fixed mode reads every number of elements as some count, also where a failure would not matter. -/
theorem Leaves.countedBy {getCount : Decode Int32} {get : Int32 → DecodeInto σ Unit} {loop : DecodeInto σ Unit}
    (follows : EStateM.Extends getArrayLength getCount) (rest : Leaves false put loop o Q least) (enough : n ≤ least)
    (same : n ≤ maxRequestSize → get (countSeen n) = loop) :
    Leaves false (putArrayLength (Int32.ofNat n) >>= fun _ => put) (readOr spoil getCount >>= get) o Q least := by
  obtain ⟨q, writes, each⟩ := rest
  refine ⟨_, (writes_putArrayLength _).bind writes, fun bytes member => ?_⟩
  obtain ⟨head, isHead, tail, isTail, rfl⟩ := append_of_mem member
  obtain ⟨-, stored⟩ := mem_accepted isHead
  obtain ⟨long, leaves⟩ := each tail isTail
  rw [List.length_append]
  refine ⟨Nat.le_add_left_of_le long, ?_⟩
  intro small pd rest mode ahead o' pd' run
  have few : n ≤ maxRequestSize := by omega
  rw [List.append_assoc] at ahead
  rw [((reads_of_extends (reads_count few stored) follows).readOr spoil o).andThen ahead mode, same few] at run
  exact leaves (by omega) _ rest (mode.advance _) (unread_advance ahead) o' pd' run

theorem Leaves.counted {get : Int32 → DecodeInto σ Unit} {loop : DecodeInto σ Unit}
    (rest : Leaves false put loop o Q least) (enough : n ≤ least) (same : n ≤ maxRequestSize → get (countSeen n) = loop) :
    Leaves false (putArrayLength (Int32.ofNat n) >>= fun _ => put) (readOr spoil getArrayLength >>= get) o Q least :=
  Leaves.countedBy (.refl _) rest enough same

theorem Leaves.afterUpdate {f : σ → σ} (leaves : Leaves flexible put x (f o) Q least) :
    Leaves flexible put (update f >>= fun _ => x) o Q least := by
  obtain ⟨output, writes, each⟩ := leaves
  refine ⟨output, writes, fun bytes member => ⟨(each bytes member).1, ?_⟩⟩
  intro small pd rest mode ahead o' pd' run
  exact (each bytes member).2 small pd rest mode ahead o' pd' run

theorem Leaves.part {x : DecodeInto τ Unit} {get : σ → τ} {set : τ → σ → σ}
    (leaves : Leaves flexible put x (get o) (fun t unread => Q (set t o) unread) least) :
    Leaves flexible put (part get set x) o Q least := by
  obtain ⟨output, writes, each⟩ := leaves
  refine ⟨output, writes, fun bytes member => ⟨(each bytes member).1, ?_⟩⟩
  intro small pd rest mode ahead o' pd' run
  obtain ⟨t, inner, rfl⟩ := part_eq_ok_iff.mp run
  exact (each bytes member).2 small pd rest mode ahead t pd' inner

/-! ## What is kept -/

/-- Where `x` succeeds, `f` of the object is what it was. -/
def Keeps (f : σ → τ) (x : DecodeInto σ α) : Prop := ∀ o pd a o' pd', x (o, pd) = .ok a (o', pd') → f o' = f o

section Keeps

variable {β υ : Type} {f : σ → τ}

theorem Keeps.const (b : β) (x : DecodeInto σ α) : Keeps (fun _ => b) x := fun _ _ _ _ _ _ => rfl

theorem Keeps.pure (a : α) : Keeps f (Pure.pure a) := by
  rintro o pd b o' pd' ⟨⟩
  rfl

theorem Keeps.bind {x : DecodeInto σ α} {k : α → DecodeInto σ β} (first : Keeps f x) (next : ∀ a, Keeps f (k a)) :
    Keeps f (x >>= k) := by
  intro o pd b o' pd' run
  obtain ⟨a, ⟨o₁, pd₁⟩, head, tail⟩ := bind_eq_ok_iff.mp run
  exact (next a o₁ pd₁ b o' pd' tail).trans (first o pd a o₁ pd₁ head)

theorem Keeps.seq {x y : DecodeInto σ Unit} (first : Keeps f x) (next : Keeps f y) : Keeps f (x >>= fun _ => y) :=
  first.bind fun _ => next

theorem Keeps.rounds {round : DecodeInto σ Unit} (keeps : Keeps f round) (n : ℕ) : Keeps f (rounds round n) := by
  induction n with
  | zero => exact Keeps.pure ()
  | succ n ih => exact keeps.seq ih

theorem Keeps.readOr (spoil : σ → σ) (get : Decode α) : Keeps f (readOr spoil get) := by
  intro o pd a o' pd' run
  obtain ⟨-, rfl⟩ := readOr_eq_ok_iff.mp run
  rfl

theorem Keeps.update {g : σ → σ} (keeps : ∀ o, f (g o) = f o) : Keeps f (update g) := by
  intro o pd u o' pd' run
  obtain ⟨rfl, -⟩ := update_eq_ok_iff.mp run
  exact keeps o

theorem Keeps.fieldOr {set : α → σ → σ} (keeps : ∀ a o, f (set a o) = f o) : Keeps f (fieldOr spoil get set) :=
  (Keeps.readOr spoil get).bind fun a => Keeps.update (keeps a)

theorem Keeps.part {get : σ → υ} {set : υ → σ → σ} {x : DecodeInto υ α} (keeps : ∀ t o, f (set t o) = f o) :
    Keeps f (part get set x) := by
  intro o pd a o' pd' run
  obtain ⟨t, -, rfl⟩ := part_eq_ok_iff.mp run
  exact keeps t o

theorem Keeps.aside {x : DecodeInto υ Unit} {fresh : υ} {store : υ → σ → σ} (keeps : ∀ v o, f (store v o) = f o) :
    Keeps f (aside fresh x store) := by
  intro o pd a o' pd' run
  obtain ⟨v, -, rfl⟩ := aside_eq_ok_iff.mp run
  exact keeps v o

theorem Keeps.inVersions {versions : Prop} [Decidable versions] (keeps : Keeps f x) :
    Keeps f (inVersions versions x) := by
  unfold Kafka.inVersions
  split
  · exact keeps
  · exact Keeps.pure ()

/-- Where `x` succeeds, an object that `P` holds of becomes another one. -/
def Maintains (P : σ → Prop) (x : DecodeInto σ α) : Prop := ∀ o pd a o' pd', P o → x (o, pd) = .ok a (o', pd') → P o'

theorem Keeps.maintains {x : DecodeInto σ α} (keeps : Keeps f x) (P : τ → Prop) : Maintains (fun o => P (f o)) x := by
  intro o pd a o' pd' holds run
  rwa [keeps o pd a o' pd' run]

section Maintains

variable {P : σ → Prop}

theorem Maintains.of_all (all : ∀ o, P o) (x : DecodeInto σ α) : Maintains P x := fun _ _ _ o' _ _ _ => all o'

theorem Maintains.seq {x y : DecodeInto σ Unit} (first : Maintains P x) (next : Maintains P y) :
    Maintains P (x >>= fun _ => y) := by
  intro o pd b o' pd' holds run
  obtain ⟨a, ⟨o₁, pd₁⟩, head, tail⟩ := bind_eq_ok_iff.mp run
  exact next o₁ pd₁ b o' pd' (first o pd a o₁ pd₁ holds head) tail

theorem Maintains.failWith {x : DecodeInto σ α} (maintains : Maintains P x) (err : KError) :
    Maintains P (Kafka.failWith err x) := by
  intro o pd a o' pd' holds run
  exact maintains o pd a o' pd' holds (failWith_eq_ok_iff.mp run)

/-- The elements of a vector. -/
theorem Maintains.each {x : DecodeInto σ Unit} (maintains : Maintains P x) {os os' : List σ} {pd pd' : PacketDecoder}
    (holds : ∀ o ∈ os, P o) (run : DecodeInto.each x os pd = .ok () (os', pd')) : ∀ o ∈ os', P o := by
  induction os generalizing os' pd with
  | nil =>
    cases run
    exact holds
  | cons o os ih =>
    obtain ⟨head, tail⟩ := List.forall_mem_cons.mp holds
    rw [each_cons] at run
    obtain ⟨u, ⟨os₁, pd₁⟩, first, rest⟩ := bind_eq_ok_iff.mp run
    obtain ⟨o₁, one, rfl⟩ := part_eq_ok_iff.mp first
    obtain ⟨tail', others, rfl⟩ := part_eq_ok_iff.mp rest
    exact List.forall_mem_cons.mpr ⟨maintains o pd u o₁ pd₁ head one, ih tail others⟩

theorem Maintains.resized {fresh : σ} (maintains : Maintains P x) (start : P fresh) (count : Int32) :
    Maintains (fun os => ∀ o ∈ os, P o) (DecodeInto.resized fresh count x) := by
  intro os pd u os' pd' holds run
  rw [DecodeInto.resized] at run
  split at run
  · cases run
  · obtain ⟨u, ⟨os₁, pd₁⟩, sized, rest⟩ := bind_eq_ok_iff.mp run
    obtain ⟨rfl, rfl⟩ := update_eq_ok_iff.mp sized
    apply maintains.each _ rest
    intro o member
    rcases List.mem_append.mp member with old | new
    · exact holds o (List.mem_of_mem_take old)
    · rwa [List.eq_of_mem_replicate new]

/-- A member that is a vector and is resized. -/
theorem Maintains.vectorMember {P : υ → Prop} {x : DecodeInto υ Unit} {fresh : υ} {get : σ → List υ} {set : List υ → σ → σ}
    (maintains : Maintains P x) (start : P fresh) (getSet : ∀ os o, get (set os o) = os) :
    Maintains (fun o => ∀ v ∈ get o, P v)
      (read getArrayLength >>= fun n => DecodeInto.part get set (DecodeInto.resized fresh n x)) := by
  intro o pd u o' pd' holds run
  obtain ⟨n, ⟨o₁, pd₁⟩, head, tail⟩ := bind_eq_ok_iff.mp run
  obtain ⟨-, rfl⟩ := readOr_eq_ok_iff.mp head
  obtain ⟨os, inner, rfl⟩ := part_eq_ok_iff.mp tail
  rw [getSet]
  exact maintains.resized start n _ _ _ _ _ holds inner

end Maintains

end Keeps

/-- What follows leaves alone what matters of the object. -/
theorem Leaves.andThen {put put' : Encode Unit} {x y : DecodeInto σ Unit} {f : σ → τ} {P : τ → Prop} {m n : ℕ}
    (leaves : Leaves flexible put x o (fun o' _ => P (f o')) m) (sized : Sized flexible put' n) (keeps : Keeps f y) :
    Leaves flexible (put >>= fun _ => put') (x >>= fun _ => y) o (fun o' _ => P (f o')) (m + n) := by
  obtain ⟨p, writes, each⟩ := leaves
  obtain ⟨q, writes', each'⟩ := sized
  refine ⟨_, writes.bind writes', fun bytes member => ?_⟩
  obtain ⟨head, isHead, tail, isTail, rfl⟩ := append_of_mem member
  obtain ⟨least, holds⟩ := each head isHead
  rw [List.length_append]
  refine ⟨Nat.add_le_add least (each' tail isTail), fun small pd rest mode ahead o₂ pd₂ run => ?_⟩
  obtain ⟨_, ⟨o₁, pd₁⟩, first, next⟩ := bind_eq_ok_iff.mp run
  rw [List.append_assoc] at ahead
  rw [keeps o₁ pd₁ () o₂ pd₂ next]
  exact holds (by omega) pd _ mode ahead o₁ pd₁ first

/-! ## Whole bodies -/

/-- A body that was decoded left nothing behind. -/
theorem Leaves.of_decodeVersion {o o' : σ} {bytes : Bytes} (leaves : Leaves flexible put x o Q least)
    (positive : 0 < least) (encoded : encodeBody flexible put = .ok bytes)
    (decoded : decodeVersion flexible x bytes o = .ok () o') : Q o' [] := by
  obtain ⟨output, writes, each⟩ := leaves
  obtain ⟨rfl, small⟩ := (encodeBody_eq_ok_iff writes).mp encoded
  obtain ⟨long, holds⟩ := each bytes rfl
  have some_ : ¬ bytes.isEmpty := by
    rw [List.isEmpty_iff]
    rintro rfl
    exact absurd (positive.trans_le long) (Nat.lt_irrefl 0)
  rw [decodeVersion, if_neg some_] at decoded
  split at decoded
  · cases decoded
  · next o₁ pd run =>
    split at decoded
    · cases decoded
    · next none_ =>
      obtain rfl : o₁ = o' := by cases decoded; rfl
      have left := holds small _ [] (inMode_start flexible bytes) (List.append_nil _).symm o₁ pd run
      rw [not_not, remaining_eq, List.length_eq_zero_iff] at none_
      rwa [none_] at left

/-! ## Maps -/

section Maps

variable {κ ν ν' : Type} [Ord κ] [Std.TransOrd κ] [Std.LawfulEqOrd κ]
variable {m m' : ExtTreeMap κ ν} {pd pd' : PacketDecoder} {fresh : ν}

theorem grewBy_entry {k : κ} {value : DecodeInto ν Unit} (run : entry fresh k value (m, pd) = .ok () (m', pd')) :
    m.GrewBy m' 1 := by
  obtain ⟨v, -, rfl⟩ := part_eq_ok_iff.mp run
  exact .insert m k v

/-- An entry whose key and number of values are read before it. -/
theorem grewBy_countedEntry {name : Decode κ} {count : Decode Int32} {values : Int32 → DecodeInto ν Unit}
    (run : (read name >>= fun k => read count >>= fun n => entry fresh k (values n)) (m, pd) = .ok () (m', pd')) :
    m.GrewBy m' 1 := by
  obtain ⟨k, ⟨m₁, pd₁⟩, key, rest⟩ := bind_eq_ok_iff.mp run
  obtain ⟨-, rfl⟩ := read_eq_ok_iff.mp key
  obtain ⟨n, ⟨m₂, pd₂⟩, number, inserted⟩ := bind_eq_ok_iff.mp rest
  obtain ⟨-, rfl⟩ := read_eq_ok_iff.mp number
  exact grewBy_entry inserted

/-- So many entries are no more than so many keys. -/
theorem grewBy_entries {next : Decode (κ × DecodeInto ν Unit)} (run : entries fresh next n (m, pd) = .ok () (m', pd')) :
    m.GrewBy m' n := by
  induction n generalizing m pd with
  | zero =>
    cases run
    exact .same _ 0
  | succ n ih =>
    obtain ⟨_, ⟨m₁, pd₁⟩, first, rest⟩ := bind_eq_ok_iff.mp run
    obtain ⟨⟨k, value⟩, ⟨m₀, pd₀⟩, key, inserted⟩ := bind_eq_ok_iff.mp first
    obtain ⟨-, rfl⟩ := read_eq_ok_iff.mp key
    rw [Nat.add_comm]
    exact (grewBy_entry inserted).trans (ih rest)

/-- What is left of a map in which the entry at `k` was not read back. -/
def Misses (m m' : ExtTreeMap κ ν) (k : κ) (v : ν) (n : ℕ) : Prop :=
  ∃ m₁, ExtTreeMap.GrewBy m₁ m' n ∧ m₁.size ≤ m.size + 1 ∧ (m₁.size = m.size + 1 → ∃ v', m₁[k]? = some v' ∧ v' ≠ v)

omit [Std.LawfulEqOrd κ] in
/-- A map with so many new entries, `v` among them, misses nothing. -/
theorem Misses.false {k : κ} {v : ν} (misses : Misses m m' k v n) (size : m'.size = m.size + (n + 1))
    (found : m'[k]? = some v) : False := by
  obtain ⟨m₁, grew, few, other⟩ := misses
  have most := grew.size_le
  obtain ⟨v', found', differs⟩ := other (by omega)
  have kept := grew.keeps (by omega) k v' found'
  exact differs (Option.some.inj (kept.symm.trans found))

/-- One round of a loop that fills a map: either the entry is read back, or it is missed for good. -/
def RoundOf (flexible : Bool) (put : κ × ν' → Encode Unit) (loop : ℕ → DecodeInto (ExtTreeMap κ ν) Unit)
    (good : ν' → Prop)
    (g : ν' → ν) : Prop :=
  ∀ k v (m : ExtTreeMap κ ν), m[k]? = none →
    (good v ∧ ∀ put' Q n, Leaves flexible put' (loop n) (m.insert k (g v)) Q n →
      Leaves flexible (put (k, v) >>= fun _ => put') (loop (n + 1)) m Q (n + 1)) ∨
    ∀ put' n, Sized flexible put' n →
      Leaves flexible (put (k, v) >>= fun _ => put') (loop (n + 1)) m (fun m' _ => Misses m m' k (g v) n) (n + 1)

/-- A loop that read back all entries read back each of them. -/
theorem RoundOf.leaves {put : κ × ν' → Encode Unit} {loop : ℕ → DecodeInto (ExtTreeMap κ ν) Unit} {good : ν' → Prop}
    {g : ν' → ν}
    (round : RoundOf flexible put loop good g) (sized : ∀ entry, Sized flexible (put entry) 1) {xs : List (κ × ν')}
    (distinct : xs.Pairwise fun a b => a.1 ≠ b.1) {m : ExtTreeMap κ ν} (new : ∀ entry ∈ xs, m[entry.1]? = none) :
    Leaves flexible (xs.forM put) (loop xs.length) m
      (fun m' _ => m'.size = m.size + xs.length → (∀ entry ∈ xs, m'[entry.1]? = some (g entry.2)) →
        ∀ entry ∈ xs, good entry.2) xs.length := by
  induction xs generalizing m with
  | nil =>
    apply Sized.leaves (Sized.forM fun _ member => absurd member List.not_mem_nil)
    intro _ _ _ _ _ _ _ entry member
    exact absurd member List.not_mem_nil
  | cons entry xs ih =>
    obtain ⟨k, v⟩ := entry
    obtain ⟨others, distinct⟩ := List.pairwise_cons.mp distinct
    obtain ⟨newHead, newTail⟩ := List.forall_mem_cons.mp new
    rcases round k v m newHead with ⟨isGood, exactly⟩ | misses
    · have tail : ∀ entry ∈ xs, (m.insert k (g v))[entry.1]? = none := by
        intro entry member
        rw [ExtTreeMap.getElem?_insert, if_neg]
        · exact newTail entry member
        · intro same
          exact others entry member (Std.LawfulEqCmp.eq_of_compare same)
      apply (exactly _ _ _ (ih distinct tail)).weaken _ (Nat.le_refl _)
      intro m' _ holds size found
      rw [List.forall_mem_cons] at found ⊢
      have grown : (m.insert k (g v)).size = m.size + 1 := by
        rw [ExtTreeMap.size_insert, if_neg]
        intro member
        rw [ExtTreeMap.contains_eq_isSome_getElem?, newHead] at member
        cases member
      rw [List.length_cons] at size
      exact ⟨isGood, holds (by omega) found.2⟩
    · apply (misses _ _ (Sized.forM fun entry _ => sized entry)).weaken _ (Nat.le_refl _)
      intro m' _ missed size found
      exact (missed.false size (found (k, v) List.mem_cons_self)).elim

omit [Std.LawfulEqOrd κ] in
/-- A new key whose value nothing is read into. -/
theorem entry_of_skip {k : κ} (new : m[k]? = none) (run : entry fresh k (pure ()) (m, pd) = .ok () (m', pd')) :
    m.insert k fresh = m' := by
  obtain ⟨v, none_, rfl⟩ := part_eq_ok_iff.mp run
  rw [new] at none_
  cases none_
  rfl

omit [Std.LawfulEqOrd κ] in
/-- A value that was left fresh. -/
theorem misses_of_fresh {fresh v : ν} {k : κ} (differs : fresh ≠ v) (grew : (m.insert k fresh).GrewBy m' n) :
    Misses m m' k v n :=
  ⟨_, grew, ExtTreeMap.size_insert_le, fun _ => ⟨fresh, ExtTreeMap.getElem?_insert_self, differs⟩⟩

omit [Std.LawfulEqOrd κ] in
theorem map_ne_empty {source : ExtTreeMap κ ν'} (f : ν' → ν) (some_ : source.size ≠ 0) : ∅ ≠ source.map fun _ => f := by
  intro none_
  have size := congrArg ExtTreeMap.size none_
  rw [ExtTreeMap.size_map] at size
  exact some_ size.symm

theorem not_countReadable_size (unreadable : ¬ CountReadable (bigEndian 4 n)) : n ≠ 0 := by
  rintro rfl
  exact unreadable countReadable_zero

/-- The number of the entries can be read in the fixed mode, and each entry is good. -/
structure EntriesReadable (good : ν' → Prop) (source : ExtTreeMap κ ν') : Prop where
  count : CountReadable (bigEndian 4 source.size)
  each : ∀ (k : κ) (v : ν'), source[k]? = some v → good v

omit [Std.LawfulEqOrd κ] in
theorem entriesReadable_empty (good : ν' → Prop) : EntriesReadable good (∅ : ExtTreeMap κ ν') := by
  constructor
  · exact countReadable_zero
  · intro k v found
    rw [ExtTreeMap.getElem?_empty] at found
    cases found

/-- The entries of a map behind their number in the fixed mode: the map comes back only when the number and each entry can be
read. -/
theorem RoundOf.counted {put : κ × ν' → Encode Unit} {loop : ℕ → DecodeInto (ExtTreeMap κ ν) Unit}
    {good : ν' → Prop} {g : ν' → ν}
    (round : RoundOf false put loop good g) (done : loop 0 = pure ()) (sized : ∀ entry, Sized false (put entry) 1)
    {source : ExtTreeMap κ ν'} {order : List (κ × ν')} (perm : order.Perm source.toList) :
    ∃ rounds, (source.size ≤ maxRequestSize → (countSeen source.size).toInt.toNat = rounds) ∧
      Leaves false (order.forM put) (loop rounds) ∅
        (fun m' _ => m' = (source.map fun _ => g) → EntriesReadable good source) source.size := by
  have size : order.length = source.size := perm.length_eq.trans ExtTreeMap.length_toList
  by_cases readable : CountReadable (bigEndian 4 source.size)
  · refine ⟨source.size, fun small => by rw [countSeen_of_readable small readable, int32_ofNat_loop small], ?_⟩
    have leaves :=
      round.leaves sized (ExtTreeMap.pairwise_of_perm_toList perm) (m := ∅) fun _ _ => ExtTreeMap.getElem?_empty
    rw [size] at leaves
    apply leaves.weaken _ (Nat.le_refl _)
    rintro m' - holds rfl
    refine ⟨readable, fun k v found => ?_⟩
    have member (entry : κ × ν') : entry ∈ order ↔ source[entry.1]? = some entry.2 := by
      rw [perm.mem_iff, ExtTreeMap.mem_toList_iff_getElem?_eq_some]
    apply holds _ _ (k, v) ((member (k, v)).mpr found)
    · rw [ExtTreeMap.size_map, ExtTreeMap.size_empty, Nat.zero_add]
    · intro entry inside
      rw [ExtTreeMap.getElem?_map, (member entry).mp inside]
      rfl
  · refine ⟨0, fun small => loop_of_unreadable small readable, ?_⟩
    rw [done, ← size]
    apply Sized.leaves (Sized.forM fun entry _ => sized entry)
    rintro - pd m' pd' ⟨⟩ same
    exact absurd same (map_ne_empty g (not_countReadable_size readable))

end Maps

end Coev.Kafka
