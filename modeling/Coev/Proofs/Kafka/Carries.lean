import Coev.Proofs.Kafka.Refuses
import Coev.Proofs.Kafka.Writes
import Coev.ToMathlib.OrderedMap

/-! # What an encoder carries to a decoder

`Carries` pairs an operation of the encoder with the read that belongs to it: what comes of the one, the other reads back. It
composes field by field and round by round, so the round trip of a body is put together in the order of its text. A strict
reader refuses less than the whole, too.
-/

namespace Coev.Kafka

open Std (ExtTreeMap)
open ByteString DecodeInto PacketDecoder PacketEncoder

variable {α β σ τ δ : Type} {strict flexible : Bool}
variable {least : ℕ} {x : DecodeInto σ Unit} {o o' : σ} {get : Decode α} {n : ℕ} {bytes : Bytes} {a : α} {spoil : σ → σ}

/-- `get` reads `a` off the bytes, and when it is strict it refuses every proper prefix of them. -/
structure Takes (strict flexible : Bool) (get : Decode α) (bytes : Bytes) (a : α) : Prop where
  reads : Reads flexible get bytes a
  refuses : strict = true → Refuses flexible get bytes

/-- `x` reads the bytes into the object `o`, which is `o'` then. -/
structure TakesInto (strict flexible : Bool) (x : DecodeInto σ Unit) (bytes : Bytes) (o o' : σ) : Prop where
  reads : ReadsInto flexible x bytes o o' ()
  refuses : strict = true → RefusesInto flexible x bytes o

/-- Within the limit of a request, `get` reads `a` off what `put` writes, which is at least so many bytes. -/
def Carries (strict flexible : Bool) (put : Encode Unit) (get : Decode α) (a : α) (least : ℕ) : Prop :=
  ∃ output, Writes flexible put () output ∧
    ∀ bytes ∈ output, least ≤ bytes.length ∧ (bytes.length ≤ maxRequestSize → Takes strict flexible get bytes a)

/-- Within the limit of a request, `x` reads what `put` writes into the object `o`, which is `o'` then. -/
def CarriesInto (strict flexible : Bool) (put : Encode Unit) (x : DecodeInto σ Unit) (o o' : σ) (least : ℕ) : Prop :=
  ∃ output, Writes flexible put () output ∧
    ∀ bytes ∈ output, least ≤ bytes.length ∧ (bytes.length ≤ maxRequestSize → TakesInto strict flexible x bytes o o')

/-! ## Dropped codes -/

theorem extends_ignoreCode {ρ : Type} (spoiled : α) (x : EStateM Failure ρ α) : EStateM.Extends x (ignoreCode spoiled x) :=
  fun _ _ _ run => ignoreCode_of_ok run

theorem reads_of_extends {get get' : Decode α} (reads : Reads flexible get bytes a) (follows : EStateM.Extends get get') :
    Reads flexible get' bytes a :=
  fun pd rest mode ahead => follows pd a _ (reads pd rest mode ahead)

/-- What is read back is read back where codes are dropped; but nothing is refused there. -/
theorem CarriesInto.extended {put : Encode Unit} {x y : DecodeInto σ Unit}
    (carries : CarriesInto false flexible put x o o' least) (follows : EStateM.Extends x y) :
    CarriesInto false flexible put y o o' least := by
  obtain ⟨output, writes, each⟩ := carries
  refine ⟨output, writes, fun bytes member => ⟨(each bytes member).1, fun small => ?_⟩⟩
  constructor
  · intro pd rest mode ahead
    exact follows _ _ _ (((each bytes member).2 small).reads pd rest mode ahead)
  · intro isStrict
    cases isStrict

/-! ## Sequencing -/

theorem TakesInto.bind {x y : DecodeInto σ Unit} {bytes rest : Bytes} {o o' o'' : σ}
    (first : TakesInto strict flexible x bytes o o') (next : TakesInto strict flexible y rest o' o'') :
    TakesInto strict flexible (x >>= fun _ => y) (bytes ++ rest) o o'' where
  reads := first.reads.bind next.reads
  refuses isStrict := RefusesInto.bind first.reads (first.refuses isStrict) (next.refuses isStrict)

theorem Takes.bindInto {k : α → DecodeInto σ Unit} {bytes rest : Bytes} (first : Takes strict flexible get bytes a)
    (next : TakesInto strict flexible (k a) rest o o') :
    TakesInto strict flexible (readOr spoil get >>= k) (bytes ++ rest) o o' where
  reads := (first.reads.readOr spoil o).bind next.reads
  refuses isStrict :=
    RefusesInto.bind (first.reads.readOr spoil o) ((first.refuses isStrict).readOr spoil o) (next.refuses isStrict)

theorem Takes.bind {k : α → Decode β} {bytes rest : Bytes} {b : β} (first : Takes strict flexible get bytes a)
    (next : Takes strict flexible (k a) rest b) : Takes strict flexible (get >>= k) (bytes ++ rest) b where
  reads := first.reads.bind next.reads
  refuses isStrict := Refuses.bind first.reads (first.refuses isStrict) (next.refuses isStrict)

theorem Takes.pure (a : α) : Takes strict flexible (pure a) [] a := ⟨Reads.pure a, fun _ => Refuses.nil _⟩

theorem TakesInto.pure (o : σ) : TakesInto strict flexible (pure ()) [] o o :=
  ⟨ReadsInto.pure o (), fun _ => RefusesInto.nil _ o⟩

/-- The member is set behind the read. -/
theorem Takes.field (takes : Takes strict flexible get bytes a) (spoil : σ → σ) (set : α → σ → σ) (o : σ) :
    TakesInto strict flexible (fieldOr spoil get set) bytes o (set a o) where
  reads := (takes.reads.readOr spoil o).storeLast
  refuses isStrict := ((takes.refuses isStrict).readOr spoil o).andThen _

/-- Two outputs that follow each other. -/
theorem append_of_mem {p q : Option Bytes}
    (member : bytes ∈ (do let bytes ← p; let rest ← q; return bytes ++ rest : Option Bytes)) :
    ∃ head ∈ p, ∃ tail ∈ q, head ++ tail = bytes := by
  obtain ⟨head, isHead, rest⟩ := Option.bind_eq_some_iff.mp member
  obtain ⟨tail, isTail, same⟩ := Option.bind_eq_some_iff.mp rest
  exact ⟨head, isHead, tail, isTail, Option.some.inj same⟩

theorem CarriesInto.seq {put put' : Encode Unit} {x y : DecodeInto σ Unit} {o o' o'' : σ} {m n : ℕ}
    (first : CarriesInto strict flexible put x o o' m) (next : CarriesInto strict flexible put' y o' o'' n) :
    CarriesInto strict flexible (put >>= fun _ => put') (x >>= fun _ => y) o o'' (m + n) := by
  obtain ⟨p, writes, each⟩ := first
  obtain ⟨q, writes', each'⟩ := next
  refine ⟨_, writes.bind writes', fun bytes member => ?_⟩
  obtain ⟨head, isHead, tail, isTail, rfl⟩ := append_of_mem member
  obtain ⟨least, takes⟩ := each head isHead
  obtain ⟨least', takes'⟩ := each' tail isTail
  rw [List.length_append]
  exact ⟨Nat.add_le_add least least', fun small => (takes (by omega)).bind (takes' (by omega))⟩

/-- A value is read, and what follows goes by it. -/
theorem Carries.seqInto {put put' : Encode Unit} {k : α → DecodeInto σ Unit} {m n : ℕ}
    (first : Carries strict flexible put get a m) (next : CarriesInto strict flexible put' (k a) o o' n) :
    CarriesInto strict flexible (put >>= fun _ => put') (readOr spoil get >>= k) o o' (m + n) := by
  obtain ⟨p, writes, each⟩ := first
  obtain ⟨q, writes', each'⟩ := next
  refine ⟨_, writes.bind writes', fun bytes member => ?_⟩
  obtain ⟨head, isHead, tail, isTail, rfl⟩ := append_of_mem member
  obtain ⟨least, takes⟩ := each head isHead
  obtain ⟨least', takes'⟩ := each' tail isTail
  rw [List.length_append]
  exact ⟨Nat.add_le_add least least', fun small => (takes (by omega)).bindInto (takes' (by omega))⟩

theorem Carries.seq {put put' : Encode Unit} {k : α → Decode β} {b : β} {m n : ℕ}
    (first : Carries strict flexible put get a m) (next : Carries strict flexible put' (k a) b n) :
    Carries strict flexible (put >>= fun _ => put') (get >>= k) b (m + n) := by
  obtain ⟨p, writes, each⟩ := first
  obtain ⟨q, writes', each'⟩ := next
  refine ⟨_, writes.bind writes', fun bytes member => ?_⟩
  obtain ⟨head, isHead, tail, isTail, rfl⟩ := append_of_mem member
  obtain ⟨least, takes⟩ := each head isHead
  obtain ⟨least', takes'⟩ := each' tail isTail
  rw [List.length_append]
  exact ⟨Nat.add_le_add least least', fun small => (takes (by omega)).bind (takes' (by omega))⟩

theorem Carries.pure (a : α) : Carries strict flexible (Pure.pure ()) (Pure.pure a) a 0 :=
  ⟨_, Writes.pure (), by rintro bytes ⟨⟩; exact ⟨Nat.zero_le _, fun _ => Takes.pure a⟩⟩

theorem CarriesInto.pure (o : σ) : CarriesInto strict flexible (Pure.pure ()) (Pure.pure ()) o o 0 :=
  ⟨_, Writes.pure (), by rintro bytes ⟨⟩; exact ⟨Nat.zero_le _, fun _ => TakesInto.pure o⟩⟩

theorem CarriesInto.weaken {put : Encode Unit} {m n : ℕ} (carries : CarriesInto strict flexible put x o o' n)
    (le : m ≤ n) : CarriesInto strict flexible put x o o' m := by
  obtain ⟨output, writes, each⟩ := carries
  exact ⟨output, writes, fun bytes member => ⟨le.trans (each bytes member).1, (each bytes member).2⟩⟩

theorem Carries.weaken {put : Encode Unit} {m n : ℕ} (carries : Carries strict flexible put get a n) (le : m ≤ n) :
    Carries strict flexible put get a m := by
  obtain ⟨output, writes, each⟩ := carries
  exact ⟨output, writes, fun bytes member => ⟨le.trans (each bytes member).1, (each bytes member).2⟩⟩

/-- A chain of fields ends in an object that is known, and is no shorter than needed. -/
theorem CarriesInto.conclude {put : Encode Unit} {o o' o'' : σ} {m n : ℕ}
    (carries : CarriesInto strict flexible put x o o' n) (same : o' = o'') (le : m ≤ n) :
    CarriesInto strict flexible put x o o'' m := same ▸ carries.weaken le

/-- The value is stored in a member. -/
theorem Carries.field {put : Encode Unit} (carries : Carries strict flexible put get a least) (spoil : σ → σ)
    (set : α → σ → σ) (o : σ) : CarriesInto strict flexible put (fieldOr spoil get set) o (set a o) least := by
  obtain ⟨output, writes, each⟩ := carries
  exact ⟨output, writes, fun bytes member =>
    ⟨(each bytes member).1, fun small => ((each bytes member).2 small).field spoil set o⟩⟩

theorem Carries.returns {put : Encode Unit} (carries : Carries strict flexible put get a least) (f : α → β) :
    Carries strict flexible put (get >>= fun a => Pure.pure (f a)) (f a) least := by
  obtain ⟨output, writes, each⟩ := carries
  refine ⟨output, writes, fun bytes member => ⟨(each bytes member).1, fun small => ?_⟩⟩
  obtain ⟨reads, refuses⟩ := (each bytes member).2 small
  exact ⟨reads.map f, fun isStrict => (refuses isStrict).andThen _⟩

/-- Nothing is kept of what is read. -/
theorem Carries.skip {put : Encode Unit} {get : Decode Unit} (carries : Carries strict flexible put get () least)
    (o : σ) : CarriesInto strict flexible put (read get) o o least := by
  obtain ⟨output, writes, each⟩ := carries
  refine ⟨output, writes, fun bytes member => ⟨(each bytes member).1, fun small => ?_⟩⟩
  obtain ⟨reads, refuses⟩ := (each bytes member).2 small
  exact ⟨reads.read o, fun isStrict => (refuses isStrict).readOr id o⟩

/-- The object is changed before anything is read. -/
theorem CarriesInto.afterUpdate {put : Encode Unit} {f : σ → σ}
    (carries : CarriesInto strict flexible put x (f o) o' least) :
    CarriesInto strict flexible put (update f >>= fun _ => x) o o' least := by
  obtain ⟨output, writes, each⟩ := carries
  refine ⟨output, writes, fun bytes member => ⟨(each bytes member).1, fun small => ?_⟩⟩
  obtain ⟨reads, refuses⟩ := (each bytes member).2 small
  exact ⟨fun pd rest mode ahead => reads pd rest mode ahead, fun isStrict pd mode inside proper =>
    refuses isStrict pd mode inside proper⟩

theorem update_of_same {f : σ → σ} {o : σ} (same : f o = o) (pd : PacketDecoder) : update f (o, pd) = .ok () (o, pd) :=
  update_eq_ok_iff.mpr ⟨same, rfl⟩

/-- What is put where nothing is written. -/
theorem CarriesInto.updated (f : σ → σ) (o : σ) : CarriesInto strict flexible (Pure.pure ()) (update f) o (f o) 0 :=
  (CarriesInto.pure (f o)).afterUpdate

/-- What is read back is changed. -/
theorem CarriesInto.thenUpdate {put : Encode Unit} (carries : CarriesInto strict flexible put x o o' least) (f : σ → σ) :
    CarriesInto strict flexible put (x >>= fun _ => update f) o (f o') least := by
  obtain ⟨output, writes, each⟩ := carries
  refine ⟨output, writes, fun bytes member => ⟨(each bytes member).1, fun small => ?_⟩⟩
  have changed : TakesInto strict flexible (update f) [] o' (f o') := ⟨fun _ _ _ _ => rfl, fun _ => RefusesInto.nil _ _⟩
  have both := ((each bytes member).2 small).bind changed
  rwa [List.append_nil] at both

theorem inVersions_of {m : Type → Type} [Monad m] {versions : Prop} [Decidable versions] (present : versions)
    (part : m Unit) : Kafka.inVersions versions part = part := if_pos present

theorem CarriesInto.inVersions {put : Encode Unit} {versions : Prop} [Decidable versions]
    (part : versions → CarriesInto strict flexible put x o o' least) :
    CarriesInto strict flexible (inVersions versions put) (inVersions versions x) o (if versions then o' else o) 0 := by
  unfold Kafka.inVersions
  split
  · next present => exact (part present).weaken (Nat.zero_le _)
  · exact CarriesInto.pure o

theorem CarriesInto.part {put : Encode Unit} {x : DecodeInto τ Unit} {get : σ → τ} {set : τ → σ → σ} {o : σ} {t : τ}
    (carries : CarriesInto strict flexible put x (get o) t least) :
    CarriesInto strict flexible put (part get set x) o (set t o) least := by
  obtain ⟨output, writes, each⟩ := carries
  refine ⟨output, writes, fun bytes member => ⟨(each bytes member).1, fun small => ?_⟩⟩
  obtain ⟨reads, refuses⟩ := (each bytes member).2 small
  exact ⟨reads.part, fun isStrict => (refuses isStrict).part⟩

theorem aside_of_ok {x : DecodeInto τ Unit} {fresh t : τ} {store : τ → σ → σ} {o : σ} {pd pd' : PacketDecoder}
    (run : x (fresh, pd) = .ok () (t, pd')) : aside fresh x store (o, pd) = .ok () (store t o, pd') := by
  rw [aside, run]

theorem aside_eq_ok_iff {x : DecodeInto τ Unit} {fresh : τ} {store : τ → σ → σ} {pd pd' : PacketDecoder} {u : Unit} :
    aside fresh x store (o, pd) = .ok u (o', pd') ↔ ∃ t, x (fresh, pd) = .ok () (t, pd') ∧ store t o = o' := by
  constructor
  · intro run
    rw [aside] at run
    rcases inner : x (fresh, pd) with ⟨u, t, pd₁⟩ | ⟨e, t, pd₁⟩
    · rw [inner] at run
      cases run
      exact ⟨t, rfl, rfl⟩
    · rw [inner] at run
      cases run
  · rintro ⟨t, inner, rfl⟩
    exact aside_of_ok inner

/-- What is decoded apart is stored. -/
theorem CarriesInto.aside {put : Encode Unit} {x : DecodeInto τ Unit} {fresh t : τ}
    (carries : CarriesInto strict flexible put x fresh t least) (store : τ → σ → σ) (o : σ) :
    CarriesInto strict flexible put (aside fresh x store) o (store t o) least := by
  obtain ⟨output, writes, each⟩ := carries
  refine ⟨output, writes, fun bytes member => ⟨(each bytes member).1, fun small => ?_⟩⟩
  obtain ⟨reads, refuses⟩ := (each bytes member).2 small
  constructor
  · intro pd rest mode ahead
    exact aside_of_ok (reads pd rest mode ahead)
  · intro isStrict pd mode inside proper
    obtain ⟨err, ⟨t', pd'⟩, failed⟩ := refuses isStrict pd mode inside proper
    refine ⟨err, (o, pd'), ?_⟩
    rw [DecodeInto.aside, failed]

/-- A loop carries what its rounds carry, each from where the loop is then. -/
theorem CarriesInto.rounds {put : δ → Encode Unit} {round : DecodeInto σ Unit} {f : σ → δ → σ} {xs : List δ} {o : σ}
    (each : ∀ front x rest, xs = front ++ x :: rest →
      CarriesInto strict flexible (put x) round (front.foldl f o) (f (front.foldl f o) x) 1) :
    CarriesInto strict flexible (xs.forM put) (rounds round xs.length) o (xs.foldl f o) xs.length := by
  induction xs generalizing o with
  | nil => exact CarriesInto.pure o
  | cons x xs ih =>
    have first := each [] x xs rfl
    have others :
        CarriesInto strict flexible (xs.forM put) (DecodeInto.rounds round xs.length) (f o x)
          (xs.foldl f (f o x)) xs.length := by
      apply ih
      rintro front y rest rfl
      exact each (x :: front) y rest rfl
    exact (first.seq others).weaken (by rw [List.length_cons, Nat.add_comm])

theorem CarriesInto.of_run {put : Encode Unit} {x y : DecodeInto σ Unit}
    (carries : CarriesInto strict flexible put x o o' least) (same : ∀ pd, y (o, pd) = x (o, pd)) :
    CarriesInto strict flexible put y o o' least := by
  obtain ⟨output, writes, each⟩ := carries
  refine ⟨output, writes, fun bytes member => ⟨(each bytes member).1, fun small => ?_⟩⟩
  obtain ⟨reads, refuses⟩ := (each bytes member).2 small
  constructor
  · intro pd rest mode ahead
    rw [same]
    exact reads pd rest mode ahead
  · intro isStrict pd mode inside proper
    rw [same]
    exact refuses isStrict pd mode inside proper

/-- The first element is decoded, then the others. -/
theorem each_cons (x : DecodeInto σ Unit) (o : σ) (os : List σ) (pd : PacketDecoder) : each x (o :: os) pd =
    (part (fun os => os.headD o) (fun o os => o :: os.tail) x >>= fun _ =>
      part List.tail (fun tail os => os.headD o :: tail) fun (os, pd) => each x os pd) (o :: os, pd) := by
  rw [each, EStateM.bind_apply]
  simp only [DecodeInto.part, List.headD_cons, List.tail_cons]
  rcases x (o, pd) with ⟨u, o₁, pd₁⟩ | ⟨e, o₁, pd₁⟩
  · simp only [List.tail_cons, List.headD_cons]
    rcases DecodeInto.each x os pd₁ with ⟨u', os', pd₂⟩ | ⟨e, os', pd₂⟩ <;> rfl
  · rfl

/-- The elements of a vector that was resized. -/
theorem CarriesInto.each {put : δ → Encode Unit} {x : DecodeInto σ Unit} {fresh : σ} {g : δ → σ} {xs : List δ}
    (each : ∀ d ∈ xs, CarriesInto strict flexible (put d) x fresh (g d) 1) :
    CarriesInto strict flexible (xs.forM put) (fun (os, pd) => DecodeInto.each x os pd) (List.replicate xs.length fresh)
      (xs.map g) xs.length := by
  induction xs with
  | nil => exact (CarriesInto.pure []).of_run fun _ => rfl
  | cons d xs ih =>
    obtain ⟨head, tail⟩ := List.forall_mem_cons.mp each
    have first :
        CarriesInto strict flexible (put d) (DecodeInto.part (fun os => os.headD fresh) (fun o os => o :: os.tail) x)
        (List.replicate (xs.length + 1) fresh) (g d :: List.replicate xs.length fresh) 1 := CarriesInto.part head
    have others : CarriesInto strict flexible (xs.forM put)
        (DecodeInto.part List.tail (fun tail os => os.headD fresh :: tail) fun (os, pd) => DecodeInto.each x os pd)
        (g d :: List.replicate xs.length fresh) (g d :: xs.map g) xs.length := CarriesInto.part (ih tail)
    apply ((first.seq others).weaken (Nat.le_of_eq (Nat.add_comm _ _))).of_run
    intro pd
    exact each_cons x fresh (List.replicate xs.length fresh) pd

/-- A vector is resized from nothing, and its elements are read. -/
theorem CarriesInto.elements {put : δ → Encode Unit} {fresh : σ} {g : δ → σ} {xs : List δ}
    (each : ∀ d ∈ xs, CarriesInto strict flexible (put d) x fresh (g d) 1) :
    CarriesInto strict flexible (xs.forM put) (DecodeInto.elements fresh xs.length x) [] (xs.map g) xs.length := by
  apply CarriesInto.afterUpdate
  rw [resize, List.take_nil, List.nil_append, List.length_nil, Nat.sub_zero]
  exact CarriesInto.each each

/-! ## Values -/

theorem mem_accepted {amount : Except Failure ℕ} {output : Option Bytes} (member : bytes ∈ accepted amount output) :
    (∃ n, amount = .ok n) ∧ output = some bytes := by
  cases amount with
  | error e => cases member
  | ok n => exact ⟨⟨n, rfl⟩, member⟩

theorem carries_putInt8 (x : Int8) : Carries strict flexible (putInt8 x) getInt8 x 1 := by
  refine ⟨_, writes_putInt8 x, ?_⟩
  rintro bytes ⟨⟩
  exact ⟨(length_bigEndian 1 _).ge, fun _ => ⟨reads_getInt8 x, fun _ => refuses_getInt8 _⟩⟩

theorem carries_putInt16 (x : Int16) : Carries strict flexible (putInt16 x) getInt16 x 1 := by
  refine ⟨_, writes_putInt16 x, ?_⟩
  rintro bytes ⟨⟩
  rw [length_bigEndian]
  exact ⟨by omega, fun _ => ⟨reads_getInt16 x, fun _ => refuses_getInt16 _⟩⟩

theorem carries_putInt32 (x : Int32) : Carries strict flexible (putInt32 x) getInt32 x 1 := by
  refine ⟨_, writes_putInt32 x, ?_⟩
  rintro bytes ⟨⟩
  rw [length_bigEndian]
  exact ⟨by omega, fun _ => ⟨reads_getInt32 x, fun _ => refuses_getInt32 _⟩⟩

theorem carries_putInt64 (x : Int64) : Carries strict flexible (putInt64 x) getInt64 x 1 := by
  refine ⟨_, writes_putInt64 x, ?_⟩
  rintro bytes ⟨⟩
  rw [length_bigEndian]
  exact ⟨by omega, fun _ => ⟨reads_getInt64 x, fun _ => refuses_getInt64 _⟩⟩

theorem length_string_pos {s bytes : Bytes} (counts : stringReserve flexible s = .ok n)
    (stored : stringOutput flexible s = some bytes) : 1 ≤ bytes.length := by
  cases flexible with
  | false =>
    obtain ⟨-, rfl⟩ := string_written_fixed counts stored
    rw [List.length_append, length_bigEndian]
    omega
  | true =>
    obtain ⟨-, rfl⟩ := string_written_flexible counts stored
    rw [List.length_append, length_encodeUVariant]
    exact Nat.le_add_right_of_le (Leb128.size_pos _)

theorem carries_putString (s : Bytes) : Carries strict flexible (putString s) getString s 1 := by
  refine ⟨_, writes_putString s, fun bytes member => ?_⟩
  obtain ⟨⟨n, counts⟩, stored⟩ := mem_accepted member
  exact ⟨length_string_pos counts stored, fun _ => ⟨reads_getString counts stored, fun _ => refuses_getString counts stored⟩⟩

theorem carries_putNullableString (s : Bytes) : Carries strict flexible (putNullableString s) getNullableString s 0 := by
  refine ⟨_, writes_putNullableString s, fun bytes member => ?_⟩
  obtain ⟨⟨n, counts⟩, stored⟩ := mem_accepted member
  exact ⟨Nat.zero_le _, fun _ => ⟨reads_getNullableString counts stored, fun _ => refuses_getNullableString counts stored⟩⟩

theorem carries_ignored_putString (s : Bytes) : Carries strict flexible (ignoreCode () (putString s)) getString s 1 := by
  refine ⟨_, writes_ignored_putString s, fun bytes member => ?_⟩
  obtain ⟨⟨n, counts⟩, stored⟩ := mem_accepted member
  exact ⟨length_string_pos counts stored, fun _ => ⟨reads_getString counts stored, fun _ => refuses_getString counts stored⟩⟩

theorem carries_ignored_putNullableString (s : Bytes) :
    Carries strict flexible (ignoreCode () (putNullableString s)) getNullableString s 0 := by
  refine ⟨_, writes_ignored_putNullableString s, fun bytes member => ?_⟩
  obtain ⟨⟨n, counts⟩, stored⟩ := mem_accepted member
  exact ⟨Nat.zero_le _, fun _ => ⟨reads_getNullableString counts stored, fun _ => refuses_getNullableString counts stored⟩⟩

theorem carries_putBytes (s : Bytes) : Carries strict flexible (putBytes s) getBytes s 0 := by
  refine ⟨_, writes_putBytes s, fun bytes member => ⟨Nat.zero_le _, fun small => ?_⟩⟩
  obtain ⟨-, stored⟩ := mem_accepted member
  obtain rfl := Option.some.inj stored
  rw [List.length_append] at small
  have fits : s.length ≤ int32Max := by
    simp only [maxRequestSize] at small
    simp only [int32Max]
    omega
  exact ⟨reads_getBytes fits, fun _ => refuses_getBytes fits⟩

theorem carries_putEmptyTaggedFieldArray :
    Carries strict flexible putEmptyTaggedFieldArray getEmptyTaggedFieldArray () 0 := by
  refine ⟨_, writes_putEmptyTaggedFieldArray, ?_⟩
  rintro bytes ⟨⟩
  exact ⟨Nat.zero_le _, fun _ => ⟨reads_getEmptyTaggedFieldArray, fun _ => refuses_getEmptyTaggedFieldArray⟩⟩

/-- The fixed mode has no tagged fields. -/
theorem carries_noTaggedFields (o : σ) : CarriesInto strict false putEmptyTaggedFieldArray (pure ()) o o 0 := by
  refine ⟨_, writes_putEmptyTaggedFieldArray, ?_⟩
  rintro bytes ⟨⟩
  exact ⟨Nat.zero_le _, fun _ => TakesInto.pure o⟩

/-- A number of elements within the limit of a request is read back but for the counts of the fixed mode with a byte
that fills its top bit. -/
theorem takes_getArrayLength {n : ℕ} {bytes : Bytes} (small : n ≤ maxRequestSize)
    (fits : flexible = false → CountReadable (bigEndian 4 n))
    (stored : arrayLengthOutput flexible (Int32.ofNat n) = some bytes) :
    Takes strict flexible getArrayLength bytes (Int32.ofNat n) := by
  have within : n < int32Max := by
    simp only [maxRequestSize] at small
    simp only [int32Max]
    omega
  have countFits : CountFits flexible n := by
    cases flexible with
    | false => exact fits rfl
    | true => exact within
  exact ⟨reads_getArrayLength within.le countFits stored, fun _ => refuses_getArrayLength stored⟩

theorem carries_putNoElements :
    Carries strict flexible (putArrayLength (Int32.ofNat 0)) getArrayLength (Int32.ofNat 0) 0 := by
  refine ⟨_, writes_putArrayLength _, fun bytes member => ⟨Nat.zero_le _, fun _ => ?_⟩⟩
  obtain ⟨-, stored⟩ := mem_accepted member
  exact takes_getArrayLength (Nat.zero_le _) (fun _ => by decide) stored

/-- The number of elements stands in front of them. -/
theorem CarriesInto.counted {put : Encode Unit} {get : Int32 → DecodeInto σ Unit} {loop : DecodeInto σ Unit}
    (fits : flexible = false → CountReadable (bigEndian 4 n)) (rest : CarriesInto strict flexible put loop o o' n)
    (same : n ≤ maxRequestSize → get (Int32.ofNat n) = loop) :
    CarriesInto strict flexible (putArrayLength (Int32.ofNat n) >>= fun _ => put)
      (readOr spoil getArrayLength >>= get) o o' 0 := by
  obtain ⟨q, writes, each⟩ := rest
  refine ⟨_, (writes_putArrayLength _).bind writes, fun bytes member => ⟨Nat.zero_le _, fun small => ?_⟩⟩
  obtain ⟨head, isHead, tail, isTail, rfl⟩ := append_of_mem member
  obtain ⟨-, stored⟩ := mem_accepted isHead
  obtain ⟨least, takes⟩ := each tail isTail
  rw [List.length_append] at small
  have few : n ≤ maxRequestSize := by omega
  apply (takes_getArrayLength few fits stored).bindInto
  rw [same few]
  exact takes (by omega)

/-- The same where a failure to read the number would not matter. -/
theorem CarriesInto.countedBy {put : Encode Unit} {getCount : Decode Int32} {get : Int32 → DecodeInto σ Unit}
    {loop : DecodeInto σ Unit} {n least : ℕ} (follows : EStateM.Extends getArrayLength getCount)
    (fits : flexible = false → CountReadable (bigEndian 4 n)) (rest : CarriesInto false flexible put loop o o' least)
    (enough : n ≤ least) (same : n ≤ maxRequestSize → get (Int32.ofNat n) = loop) :
    CarriesInto false flexible (putArrayLength (Int32.ofNat n) >>= fun _ => put)
      (readOr spoil getCount >>= get) o o' least := by
  obtain ⟨q, writes, each⟩ := rest
  refine ⟨_, (writes_putArrayLength _).bind writes, fun bytes member => ?_⟩
  obtain ⟨head, isHead, tail, isTail, rfl⟩ := append_of_mem member
  obtain ⟨-, stored⟩ := mem_accepted isHead
  obtain ⟨long, takes⟩ := each tail isTail
  rw [List.length_append]
  refine ⟨Nat.le_add_left_of_le long, fun small => ?_⟩
  have few : n ≤ maxRequestSize := by omega
  have count := reads_of_extends (@takes_getArrayLength false _ _ _ few fits stored).reads follows
  constructor
  · apply (count.readOr spoil o).bind
    rw [same few]
    exact (takes (by omega)).reads
  · intro isStrict
    cases isStrict

/-- A number of elements within the limit of a request, as a loop counts. -/
theorem int32_ofNat_loop (small : n ≤ maxRequestSize) : (Int32.ofNat n).toInt.toNat = n := by
  rw [int32_ofNat_toInt (by simp only [maxRequestSize] at small; simp only [int32Max]; omega), Int.toNat_natCast]

theorem int32_ofNat_ne_zero (small : n ≤ maxRequestSize) (some_ : n ≠ 0) : Int32.ofNat n ≠ 0 := by
  intro zero
  have loop := int32_ofNat_loop small
  rw [zero] at loop
  exact some_ loop.symm

/-! ## Counts of the fixed mode -/

/-- What the fixed mode reads for a number of elements. -/
def countSeen (n : ℕ) : Int32 := signedWord (bigEndian 4 n)

theorem countSeen_of_readable (small : n ≤ maxRequestSize) (readable : CountReadable (bigEndian 4 n)) :
    countSeen n = Int32.ofNat n := by
  have within : n ≤ int32Max := by
    simp only [maxRequestSize] at small
    simp only [int32Max]
    omega
  have word := signedWord_of_countReadable (length_bigEndian 4 n) readable
  rw [value_bigEndian_of_lt (by simp only [int32Max] at within; omega)] at word
  exact Int32.toInt_inj.mp (word.trans (int32_ofNat_toInt within).symm)

/-- A count that cannot be read is read as a negative one. -/
theorem countSeen_of_unreadable (small : n ≤ maxRequestSize) (unreadable : ¬ CountReadable (bigEndian 4 n)) :
    countSeen n < 0 := by
  have within : value (bigEndian 4 n) ≤ maxResponseSize := by
    simp only [maxRequestSize] at small
    rw [value_bigEndian_of_lt (by omega)]
    simp only [maxResponseSize]
    omega
  obtain ⟨a, b, c, d, word⟩ := exists_quad (length_bigEndian 4 n)
  rw [countSeen]
  rw [word] at within unreadable ⊢
  apply signedWord_of_large
  by_contra small
  simp only [not_exists, not_and, not_le] at small
  exact unreadable ⟨within, small⟩

/-- The fixed mode reads every number of elements as some count. -/
theorem reads_count (small : n ≤ maxRequestSize) (stored : arrayLengthOutput false (Int32.ofNat n) = some bytes) :
    Reads false getArrayLength bytes (countSeen n) := by
  have within : n ≤ int32Max := by
    simp only [maxRequestSize] at small
    simp only [int32Max]
    omega
  obtain rfl : bigEndian 4 (Int32.ofNat n).toUInt32.toNat = bytes := Option.some.inj stored
  rw [int32_ofNat_toNat within]
  apply reads_getArrayLength_fixed (length_bigEndian 4 n) rfl
  have zero : (0 : Int32).toInt = 0 := rfl
  by_cases readable : CountReadable (bigEndian 4 n)
  · have seen := countSeen_of_readable small readable
    rw [countSeen] at seen
    rw [seen, int32_ofNat_toInt within]
    exact_mod_cast @countFits_le false _ within readable rfl
  · have seen := countSeen_of_unreadable small readable
    rw [countSeen, Int32.lt_iff_toInt_lt, zero] at seen
    omega

theorem loop_of_unreadable (small : n ≤ maxRequestSize) (unreadable : ¬ CountReadable (bigEndian 4 n)) :
    (countSeen n).toInt.toNat = 0 := by
  have seen := countSeen_of_unreadable small unreadable
  have zero : (0 : Int32).toInt = 0 := rfl
  rw [Int32.lt_iff_toInt_lt, zero] at seen
  omega

theorem countReadable_zero : CountReadable (bigEndian 4 0) := by decide

/-- Only the count zero is read as zero. -/
theorem countSeen_eq_zero_iff (small : n ≤ maxRequestSize) : countSeen n = 0 ↔ n = 0 := by
  have within : n ≤ int32Max := by
    simp only [maxRequestSize] at small
    simp only [int32Max]
    omega
  by_cases readable : CountReadable (bigEndian 4 n)
  · rw [countSeen_of_readable small readable, ← Int32.toInt_inj, int32_ofNat_toInt within]
    have zero : (0 : Int32).toInt = 0 := rfl
    omega
  · refine iff_of_false ?_ ?_
    · intro same
      have negative := countSeen_of_unreadable small readable
      rw [same] at negative
      exact absurd negative (by decide)
    · rintro rfl
      exact readable countReadable_zero

/-! ## Whole bodies -/

theorem inMode_start (flexible : Bool) (buf : Bytes) :
    InMode flexible { raw := buf, flexible := if flexible then 1 else 0 } := by
  cases flexible <;> simp [InMode]

/-- What a whole body carries is decoded, and nothing is left. -/
theorem CarriesInto.decodeVersion_eq_ok {put : Encode Unit} (carries : CarriesInto strict flexible put x o o' least)
    (positive : 0 < least) (encoded : encodeBody flexible put = .ok bytes) :
    decodeVersion flexible x bytes o = .ok () o' := by
  obtain ⟨output, writes, each⟩ := carries
  obtain ⟨rfl, small⟩ := (encodeBody_eq_ok_iff writes).mp encoded
  obtain ⟨long, takes⟩ := each bytes rfl
  have some_ : ¬ bytes.isEmpty := by
    rw [List.isEmpty_iff]
    rintro rfl
    exact absurd (positive.trans_le long) (Nat.lt_irrefl 0)
  have run := (takes small).reads _ [] (inMode_start flexible bytes) (List.append_nil _).symm
  have none_ :
      ¬ (PacketDecoder.advance { raw := bytes, flexible := if flexible then 1 else 0 } bytes.length).remaining ≠ 0 := by
    simp [PacketDecoder.remaining, PacketDecoder.advance]
  rw [decodeVersion, if_neg some_, run]
  exact if_neg none_

/-! ## Maps -/

section Maps

variable {κ ν ν' : Type} [Ord κ] [Std.TransOrd κ]

theorem read_bind (get : Decode α) (k : α → Decode β) :
    (read (get >>= k) : DecodeInto σ β) = read get >>= fun a => read (k a) := by
  funext ⟨o, pd⟩
  cases run : get pd with
  | ok a pd' =>
    have first : (read get : DecodeInto σ α) (o, pd) = .ok a (o, pd') := read_eq_ok_iff.mpr ⟨run, rfl⟩
    rw [EStateM.bind_of_ok first, DecodeInto.read, readOr, EStateM.bind_of_ok run]
    rfl
  | error e pd' =>
    have first : (read get : DecodeInto σ α) (o, pd) = .error e (o, pd') := read_of_error run
    rw [EStateM.bind_of_error first]
    exact read_of_error (EStateM.bind_of_error run k)

theorem entries_succ (fresh : ν) (next : Decode (κ × DecodeInto ν Unit)) (n : ℕ) :
    entries fresh next (n + 1) = nextEntry fresh next >>= fun _ => entries fresh next n := rfl

/-- An entry whose key stands in front of its value. -/
theorem nextEntry_eq (fresh : ν) (getKey : Decode κ) (value : κ → DecodeInto ν Unit) :
    nextEntry fresh (getKey >>= fun k => Pure.pure (k, value k)) = read getKey >>= fun k => entry fresh k (value k) := by
  rw [nextEntry, read_bind, bind_assoc]
  rfl

/-- An entry whose key and count stand in front of its value. -/
theorem nextEntry_counted_eq (fresh : ν) (getKey : Decode κ) (value : Int32 → DecodeInto ν Unit) :
    nextEntry fresh (getKey >>= fun k => getArrayLength >>= fun n => Pure.pure (k, value n)) =
      read getKey >>= fun k => read getArrayLength >>= fun n => entry fresh k (value n) := by
  rw [nextEntry, read_bind, bind_assoc]
  congr 1
  funext k
  rw [read_bind, bind_assoc]
  rfl

variable {fresh : ν} {k : κ} {m : ExtTreeMap κ ν} {v : ν} {keyPut put : Encode Unit} {getKey : Decode κ}

/-- The value of a new key is read in place. -/
theorem CarriesInto.entry {value : DecodeInto ν Unit} (carries : CarriesInto strict flexible put value fresh v least)
    (new : m[k]? = none) : CarriesInto strict flexible put (entry fresh k value) m (m.insert k v) least := by
  apply CarriesInto.part (t := v)
  rw [new]
  exact carries

theorem CarriesInto.nextEntry {value : κ → DecodeInto ν Unit} (key : Carries strict flexible keyPut getKey k 1)
    (carries : CarriesInto strict flexible put (value k) fresh v least) (new : m[k]? = none) :
    CarriesInto strict flexible (keyPut >>= fun _ => put)
      (DecodeInto.nextEntry fresh (getKey >>= fun k => Pure.pure (k, value k))) m (m.insert k v) 1 := by
  rw [nextEntry_eq]
  exact (key.seqInto (carries.entry new)).weaken (Nat.le_add_right _ _)

theorem CarriesInto.nextEntry_counted {value : Int32 → DecodeInto ν Unit} {loop : DecodeInto ν Unit}
    (key : Carries strict flexible keyPut getKey k 1) (fits : flexible = false → CountReadable (bigEndian 4 n))
    (carries : CarriesInto strict flexible put loop fresh v n)
    (same : n ≤ maxRequestSize → value (Int32.ofNat n) = loop) (new : m[k]? = none) :
    CarriesInto strict flexible (keyPut >>= fun _ => putArrayLength (Int32.ofNat n) >>= fun _ => put)
      (DecodeInto.nextEntry fresh (getKey >>= fun k => getArrayLength >>= fun n => Pure.pure (k, value n))) m
        (m.insert k v) 1 := by
  rw [nextEntry_counted_eq]
  have counted : CarriesInto strict flexible (putArrayLength (Int32.ofNat n) >>= fun _ => put)
      (read getArrayLength >>= fun n => DecodeInto.entry fresh k (value n)) m (m.insert k v) 0 := by
    apply CarriesInto.counted fits (carries.entry new)
    intro small
    rw [same small]
  exact (key.seqInto counted).weaken (Nat.le_refl _)

variable [Std.LawfulEqOrd κ]

/-- The entries of a map, in any order. -/
theorem CarriesInto.entries {source : ExtTreeMap κ ν'} {order : List (κ × ν')} (perm : order.Perm source.toList)
    {put : κ × ν' → Encode Unit} {next : Decode (κ × DecodeInto ν Unit)} {g : ν' → ν}
    (each : ∀ k v, source[k]? = some v → ∀ m : ExtTreeMap κ ν, m[k]? = none →
      CarriesInto strict flexible (put (k, v)) (DecodeInto.nextEntry fresh next) m (m.insert k (g v)) 1) :
    CarriesInto strict flexible (order.forM put) (DecodeInto.entries fresh next order.length) ∅ (source.map fun _ v => g v)
      order.length := by
  rw [← ExtTreeMap.foldl_order_eq_map perm]
  apply CarriesInto.rounds
  rintro front ⟨k, v⟩ rest split
  have new : (front.foldl (ExtTreeMap.insertSelected fun v => some (g v)) ∅)[k]? = none :=
    ExtTreeMap.getElem?_foldl_front perm split
  have inserted :
      ExtTreeMap.insertSelected (fun v => some (g v))
        (front.foldl (ExtTreeMap.insertSelected fun v => some (g v)) ∅)
      (k, v) = _ := ExtTreeMap.insertSelected_of_new new rfl
  rw [inserted]
  apply each k v _ _ new
  rw [← ExtTreeMap.mem_toList_iff_getElem?_eq_some, ← perm.mem_iff, split]
  exact List.mem_append_right _ List.mem_cons_self

end Maps

end Coev.Kafka
