import Coev.Model.Kafka.ProtocolBody
import Coev.ToMathlib.OrderedMap

/-! # Decoders and their shadows
How a decoder moves the reader never depends on the object it writes. A shadow makes the same reads on an object of
another kind, which only keeps of the bytes what a statement needs.
-/

namespace Coev.Kafka

open DecodeInto PacketDecoder EStateM

namespace DecodeInto

variable {σ τ ρ α β κ ν μ : Type} {S : σ → τ → Prop}

/-- Related objects, and the same reader. -/
structure Beside (S : σ → τ → Prop) (p : σ × PacketDecoder) (q : τ × PacketDecoder) : Prop where
  object : S p.1 q.1
  reader : p.2 = q.2

/-- From related objects the decoders make the same reads, and leave related objects. -/
def Mirrors (S : σ → τ → Prop) (x : DecodeInto σ α) (y : DecodeInto τ α) : Prop := Simulates (Beside S) x y

variable {y : DecodeInto τ α} {x : DecodeInto σ α}

theorem Mirrors.of_objects (alike : ∀ o t pd, S o t → (x (o, pd)).Alike (Beside S) (y (t, pd))) : Mirrors S x y := by
  rintro ⟨o, pd⟩ ⟨t, pd'⟩ ⟨related, same : pd = pd'⟩
  subst same
  exact alike o t pd related

theorem Mirrors.alike (mirrors : Mirrors S x y) {o : σ} {t : τ} (related : S o t) (pd : PacketDecoder) :
    (x (o, pd)).Alike (Beside S) (y (t, pd)) := mirrors _ _ ⟨related, rfl⟩

theorem Mirrors.pure (a : α) : Mirrors S (Pure.pure a) (Pure.pure a) := Simulates.pure a

theorem Mirrors.bind {f : α → DecodeInto σ β} {g : α → DecodeInto τ β} (head : Mirrors S x y)
    (tail : ∀ a, Mirrors S (f a) (g a)) : Mirrors S (x >>= f) (y >>= g) := Simulates.bind head tail

/-- Every decoder is its own shadow. -/
theorem Mirrors.refl (x : DecodeInto σ α) : Mirrors Eq x x := by
  refine .of_objects fun o t pd same => ?_
  subst same
  cases x (o, pd) with
  | ok a s => exact .ok a ⟨rfl, rfl⟩
  | error e s => exact .error e ⟨rfl, rfl⟩

theorem Mirrors.readOr {spoil : σ → σ} {spoil' : τ → τ} (spoils : ∀ o t, S o t → S (spoil o) (spoil' t)) (get : Decode α) :
    Mirrors S (readOr spoil get) (DecodeInto.readOr spoil' get) := by
  refine .of_objects fun o t pd related => ?_
  unfold DecodeInto.readOr
  dsimp only
  cases get pd with
  | ok a pd => exact .ok a ⟨related, rfl⟩
  | error e pd => exact .error e ⟨spoils o t related, rfl⟩

theorem Mirrors.read (get : Decode α) : Mirrors S (read get) (DecodeInto.read get) :=
  .readOr (fun _ _ related => related) get

theorem Mirrors.update {f : σ → σ} {g : τ → τ} (keeps : ∀ o t, S o t → S (f o) (g t)) :
    Mirrors S (update f) (DecodeInto.update g) :=
  .of_objects fun o t _ related => .ok () ⟨keeps o t related, rfl⟩

theorem Mirrors.fieldOr {spoil : σ → σ} {spoil' : τ → τ} {set : α → σ → σ} {set' : α → τ → τ} (get : Decode α)
    (spoils : ∀ o t, S o t → S (spoil o) (spoil' t)) (sets : ∀ a o t, S o t → S (set a o) (set' a t)) :
    Mirrors S (fieldOr spoil get set) (DecodeInto.fieldOr spoil' get set') :=
  (Mirrors.readOr spoils get).bind fun a => Mirrors.update (sets a)

theorem Mirrors.inVersions {versions : Prop} [Decidable versions] {x : DecodeInto σ Unit} {y : DecodeInto τ Unit}
    (mirrors : versions → Mirrors S x y) : Mirrors S (inVersions versions x) (inVersions versions y) := by
  unfold Kafka.inVersions
  split
  · next has => exact mirrors has
  · exact .pure ()

theorem alike_failWith {p : σ × PacketDecoder} {q : τ × PacketDecoder} (alike : (x p).Alike (Beside S) (y q))
    (err : KError) : (failWith err x p).Alike (Beside S) (failWith err y q) := by
  unfold Kafka.failWith
  generalize x p = ended, y q = ended' at alike
  cases alike with
  | ok a related => exact .ok a related
  | error e related =>
    cases e with
    | code _ => exact .error _ related
    | fault f => exact .error _ related

theorem Mirrors.failWith (mirrors : Mirrors S x y) (err : KError) :
    Mirrors S (failWith err x) (failWith err y) := fun p q related => alike_failWith (mirrors p q related) err

/-- A change that the shadow does not show. -/
theorem Mirrors.hidden {f : σ → σ} (mirrors : Mirrors S x y) (keeps : ∀ o t, S o t → S (f o) t) :
    Mirrors S (DecodeInto.update f >>= fun _ => x) y :=
  .of_objects fun o t pd related => mirrors.alike (keeps o t related) pd

theorem Mirrors.rounds {x : DecodeInto σ Unit} {y : DecodeInto τ Unit} (mirrors : Mirrors S x y) (n : ℕ) :
    Mirrors S (rounds x n) (DecodeInto.rounds y n) := by
  induction n with
  | zero => exact .pure ()
  | succ n ih => exact mirrors.bind fun _ => ih

/-- A part that is decoded apart. -/
theorem Mirrors.aside {R : ρ → μ → Prop} {fresh : ρ} {blank : μ} {x : DecodeInto ρ Unit} {y : DecodeInto μ Unit}
    {store : ρ → σ → σ} {store' : μ → τ → τ} (mirrors : Mirrors R x y) (start : R fresh blank)
    (stores : ∀ v w o t, R v w → S o t → S (store v o) (store' w t)) :
    Mirrors S (aside fresh x store) (DecodeInto.aside blank y store') := by
  refine .of_objects fun o t pd related => ?_
  have alike := mirrors.alike start pd
  unfold DecodeInto.aside
  dsimp only
  generalize x (fresh, pd) = ended, y (blank, pd) = ended' at alike
  cases alike with
  | ok _ inner => exact .ok () ⟨stores _ _ _ _ inner.object related, inner.reader⟩
  | error e inner => exact .error e ⟨related, inner.reader⟩

/-- A part of the object, and of its shadow. -/
theorem Mirrors.member {R : ρ → μ → Prop} {get : σ → ρ} {set : ρ → σ → σ} {get' : τ → μ} {set' : μ → τ → τ}
    {x : DecodeInto ρ α} {y : DecodeInto μ α} (mirrors : Mirrors R x y) (gets : ∀ o t, S o t → R (get o) (get' t))
    (sets : ∀ o t v w, S o t → R v w → S (set v o) (set' w t)) :
    Mirrors S (part get set x) (DecodeInto.part get' set' y) := by
  refine .of_objects fun o t pd related => ?_
  have alike := mirrors.alike (gets o t related) pd
  unfold DecodeInto.part
  dsimp only
  generalize x (get o, pd) = ended, y (get' t, pd) = ended' at alike
  cases alike with
  | ok a inner => exact .ok a ⟨sets _ _ _ _ related inner.object, inner.reader⟩
  | error e inner => exact .error e ⟨sets _ _ _ _ related inner.object, inner.reader⟩

theorem part_id (y : DecodeInto τ α) : DecodeInto.part id (fun w _ => w) y = y := by
  funext ⟨t, pd⟩
  unfold DecodeInto.part
  dsimp only [id]
  cases y (t, pd) <;> rfl

/-- A part of the object whose shadow is the whole one. -/
theorem Mirrors.part {R : ρ → τ → Prop} {get : σ → ρ} {set : ρ → σ → σ} {x : DecodeInto ρ α} (mirrors : Mirrors R x y)
    (gets : ∀ o t, S o t → R (get o) t) (sets : ∀ o t v w, S o t → R v w → S (set v o) w) :
    Mirrors S (part get set x) y := by
  rw [← part_id y]
  exact mirrors.member gets sets

section Maps

variable [Ord κ] [Std.TransOrd κ] [Std.LawfulEqOrd κ]

/-- An entry of a map that is laid over another one. -/
theorem Mirrors.entry {R : Option ν → μ → ν → Prop} {old : Std.ExtTreeMap κ ν} {fresh : ν} {blank : μ} {x : DecodeInto ν α}
    {y : DecodeInto μ α} (mirrors : ∀ before, Mirrors (fun v w => R before w v) x y)
    (unwritten : ∀ before : Option ν, R before blank (before.getD fresh)) (k : κ) :
    Mirrors (fun m written => Std.ExtTreeMap.LaidOver R old written m) (entry fresh k x) (DecodeInto.entry blank k y) := by
  exact (mirrors old[k]?).member (fun _ _ laid => laid.getD unwritten k) fun _ _ _ _ laid allowed => laid.insert allowed

end Maps

end DecodeInto

/-! ## Whole bodies -/

variable {σ τ : Type} {isFlexible : Bool} {bytes : Bytes}

/-- The reader that a body starts with. -/
def bodyReader (isFlexible : Bool) (bytes : Bytes) : PacketDecoder :=
  { raw := bytes, flexible := if isFlexible then 1 else 0 }

/-- Decoding the bytes gives the two objects the same result and the same members. -/
def SameDecoded (isFlexible : Bool) (decode : DecodeInto σ Unit) (bytes : Bytes) (target fresh : σ) : Prop :=
  decodeVersion isFlexible decode bytes target = decodeVersion isFlexible decode bytes fresh

variable {decode : DecodeInto σ Unit} {target fresh : σ}

theorem sameDecoded_nil : SameDecoded isFlexible decode [] target fresh ↔ target = fresh := by
  unfold SameDecoded decodeVersion
  simp

/-- Two decodings with the same shadow differ only in the objects. -/
theorem sameDecoded_iff {R : σ → τ → σ → Prop} {C : Prop} {shadow : EStateM.Result Failure (τ × PacketDecoder) Unit}
    (some_ : bytes ≠ []) (laid : ∀ o, (decode (o, bodyReader isFlexible bytes)).Alike (Beside fun o' t => R o t o') shadow)
    (same_iff : ∀ a b, R target shadow.state.1 a → R fresh shadow.state.1 b → (a = b ↔ C)) :
    SameDecoded isFlexible decode bytes target fresh ↔ C := by
  have notEmpty : bytes.isEmpty = false := by simp [some_]
  have first := laid target
  have second := laid fresh
  unfold SameDecoded decodeVersion
  unfold bodyReader at first second
  simp only [notEmpty, Bool.false_eq_true, if_false]
  generalize decode (target, _) = ended, decode (fresh, _) = ended' at first second
  cases first with
  | ok _ firstOf =>
    cases second with
    | ok _ secondOf =>
      dsimp only
      rw [firstOf.reader, secondOf.reader]
      split
      · rw [EStateM.Result.error.injEq, and_iff_right rfl]
        exact same_iff _ _ firstOf.object secondOf.object
      · rw [EStateM.Result.ok.injEq, and_iff_right rfl]
        exact same_iff _ _ firstOf.object secondOf.object
  | error e firstOf =>
    cases second with
    | error _ secondOf =>
      rw [EStateM.Result.error.injEq, and_iff_right rfl]
      exact same_iff _ _ firstOf.object secondOf.object

end Coev.Kafka
