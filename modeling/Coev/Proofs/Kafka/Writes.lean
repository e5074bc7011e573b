import Coev.Model.Kafka.ProtocolBody
import Coev.Proofs.Kafka.PassAgreement

/-! # What comes of an encoding

`Writes` puts the two passes together: the bytes on which they agree, or nothing. It composes along sequencing and loops, and
decides what `encode` returns.
-/

namespace Coev.Kafka.PacketEncoder

open ByteString

variable {α β δ : Type} {flexible : Bool}
variable {x : Encode α} {output : Option Bytes} {a : α} {p q : Option Bytes} {bytes : Bytes}

/-- What comes of the two passes of `x`, which return `a`: the bytes on which they agree, or no encoding, because the
counting pass fails or counts less than the storing pass needs. -/
def Writes (flexible : Bool) (x : Encode α) (a : α) : Option Bytes → Prop
  | some bytes => Prep flexible x a (.ok bytes.length) ∧ Real flexible x a (some bytes)
  | none => (∃ e, Prep flexible x a (.error e)) ∨
      ∃ n output, Prep flexible x a (.ok n) ∧ Real flexible x a output ∧ ∀ bytes ∈ output, n < bytes.length

theorem Writes.pure (a : α) : Writes flexible (pure a) a (some []) := ⟨Prep.pure a, Real.pure a⟩

theorem Writes.of_eq (writes : Writes flexible x a p) (eq : p = q) : Writes flexible x a q := eq ▸ writes

/-- Too little room for one part is too little room for both. -/
private theorem short_bind {m n : ℕ} (first : ∀ bytes ∈ p, m ≤ bytes.length) (next : ∀ bytes ∈ q, n ≤ bytes.length)
    (short : (∀ bytes ∈ p, m < bytes.length) ∨ ∀ bytes ∈ q, n < bytes.length) :
    ∀ bytes ∈ (do let bytes ← p; let rest ← q; return bytes ++ rest : Option Bytes), m + n < bytes.length := by
  intro bytes member
  obtain ⟨head, isHead, rest⟩ := Option.bind_eq_some_iff.mp member
  obtain ⟨tail, isTail, same⟩ := Option.bind_eq_some_iff.mp rest
  obtain rfl := Option.some.inj same
  have room := first head isHead
  have room' := next tail isTail
  rw [List.length_append]
  rcases short with less | less
  · have := less head isHead
    omega
  · have := less tail isTail
    omega

theorem Writes.bind {k : α → Encode β} {b : β} (first : Writes flexible x a p) (next : Writes flexible (k a) b q) :
    Writes flexible (x >>= k) b (do let bytes ← p; let rest ← q; return bytes ++ rest) := by
  cases p with
  | none =>
    rcases first with ⟨e, fails⟩ | ⟨m, output, counts, stores, short⟩
    · exact .inl ⟨e, fails.fail k b⟩
    · cases q with
      | none =>
        rcases next with ⟨e, fails⟩ | ⟨n, output', counts', stores', short'⟩
        · exact .inl ⟨e, counts.seq_fail fails⟩
        · exact .inr ⟨m + n, _, counts.seq counts', stores.bind stores',
            short_bind (fun bytes member => (short bytes member).le) (fun bytes member => (short' bytes member).le)
              (.inl short)⟩
      | some rest =>
        refine .inr ⟨m + rest.length, _, counts.seq next.1, stores.bind next.2, ?_⟩
        apply short_bind (fun bytes member => (short bytes member).le) _ (.inl short)
        rintro bytes ⟨⟩
        exact Nat.le_refl _
  | some bytes =>
    cases q with
    | none =>
      rcases next with ⟨e, fails⟩ | ⟨n, output, counts, stores, short⟩
      · exact .inl ⟨e, first.1.seq_fail fails⟩
      · refine .inr ⟨bytes.length + n, _, first.1.seq counts, first.2.bind stores, ?_⟩
        apply short_bind _ (fun bytes member => (short bytes member).le) (.inr short)
        rintro bytes ⟨⟩
        exact Nat.le_refl _
    | some rest => exact ⟨(first.1.seq next.1).of_eq (by rw [List.length_append]), first.2.seq next.2⟩

/-- What a loop writes, when each round does. -/
def writesAll (g : δ → Option Bytes) : List δ → Option Bytes
  | [] => some []
  | x :: xs => do
    let bytes ← g x
    let rest ← writesAll g xs
    return bytes ++ rest

theorem writesAll_replicate {g : δ → Option Bytes} {x : δ} {bytes : Bytes} (same : g x = some bytes) (n : ℕ) :
    writesAll g (List.replicate n x) = some (List.replicate n bytes).flatten := by
  induction n with
  | zero => rfl
  | succ n ih =>
    rw [List.replicate_succ, writesAll, same, ih, List.replicate_succ, List.flatten_cons]
    rfl

theorem Writes.forM {f : δ → Encode PUnit} {g : δ → Option Bytes} {xs : List δ}
    (each : ∀ x ∈ xs, Writes flexible (f x) () (g x)) : Writes flexible (xs.forM f) () (writesAll g xs) := by
  induction xs with
  | nil => exact Writes.pure ()
  | cons x xs ih =>
    obtain ⟨head, tail⟩ := List.forall_mem_cons.mp each
    exact head.bind (ih tail)

theorem Writes.inVersions {x : Encode Unit} {p : Option Bytes} {versions : Prop} [Decidable versions]
    (part : versions → Writes flexible x () p) :
    Writes flexible (inVersions versions x) () (if versions then p else some []) := by
  unfold Kafka.inVersions
  split
  · next present => exact part present
  · exact Writes.pure ()

/-! ## The operations -/

/-- What an operation writes whose counting pass refuses some of what the storing pass takes. -/
def accepted : Except Failure ℕ → Option Bytes → Option Bytes
  | .ok _, output => output
  | .error _, _ => none

theorem writes_of_passes {amount : Except Failure ℕ} (counts : Prep flexible x a amount)
    (stores : Real flexible x a output) (agree : ∀ n, amount = .ok n → output.map List.length = some n) :
    Writes flexible x a (accepted amount output) := by
  cases amount with
  | error e => exact .inl ⟨e, counts⟩
  | ok n =>
    obtain ⟨bytes, rfl, rfl⟩ := Option.map_eq_some_iff.mp (agree n rfl)
    exact ⟨counts, stores⟩

theorem agree_of_matches {amount : Except Failure ℕ} (agrees : Matches amount output) :
    ∀ n, amount = .ok n → output.map List.length = some n := by
  rintro n rfl
  exact agrees

theorem writes_putInt8 (x : Int8) : Writes flexible (putInt8 x) () (some (bigEndian 1 x.toUInt8.toNat)) :=
  ⟨(prep_putInt8 x).of_eq (by rw [length_bigEndian]), real_putInt8 x⟩

theorem writes_putInt16 (x : Int16) : Writes flexible (putInt16 x) () (some (bigEndian 2 x.toUInt16.toNat)) :=
  ⟨(prep_putInt16 x).of_eq (by rw [length_bigEndian]), real_putInt16 x⟩

theorem writes_putInt32 (x : Int32) : Writes flexible (putInt32 x) () (some (bigEndian 4 x.toUInt32.toNat)) :=
  ⟨(prep_putInt32 x).of_eq (by rw [length_bigEndian]), real_putInt32 x⟩

theorem writes_putInt64 (x : Int64) : Writes flexible (putInt64 x) () (some (bigEndian 8 x.toUInt64.toNat)) :=
  ⟨(prep_putInt64 x).of_eq (by rw [length_bigEndian]), real_putInt64 x⟩

theorem writes_putEmptyTaggedFieldArray :
    Writes flexible putEmptyTaggedFieldArray () (some (if flexible then encodeUVariant 0 else [])) := by
  refine ⟨prep_putEmptyTaggedFieldArray.of_eq ?_, real_putEmptyTaggedFieldArray⟩
  cases flexible with
  | false => rfl
  | true => rw [if_pos rfl, if_pos rfl, length_encodeUVariant, uvarintLen_eq]

theorem arrayLength_agrees (x : Int32) (n : ℕ) (counts : arrayLengthReserve flexible x = .ok n) :
    (arrayLengthOutput flexible x).map List.length = some n := by
  apply agree_of_matches _ n counts
  rw [matches_arrayLength]
  rintro rfl rfl
  cases counts

theorem writes_putArrayLength (x : Int32) :
    Writes flexible (putArrayLength x) () (accepted (arrayLengthReserve flexible x) (arrayLengthOutput flexible x)) :=
  writes_of_passes (prep_putArrayLength x) (real_putArrayLength x) (arrayLength_agrees x)

theorem writes_putBytes (s : Bytes) : Writes flexible (putBytes s) ()
    (accepted (do let n ← rawReserve s; return bytesLengthSize flexible s + n) (some (bytesLengthOutput flexible s ++ s))) :=
  writes_of_passes (prep_putBytes s) (real_putBytes s) (agree_of_matches (matches_bytes s))

theorem string_agrees (s : Bytes) (n : ℕ) (counts : stringReserve flexible s = .ok n) :
    (stringOutput flexible s).map List.length = some n := by
  apply agree_of_matches _ n counts
  rw [matches_string]
  intro isFlexible top
  subst isFlexible
  rw [stringReserve, if_pos rfl, arrayLengthReserve, if_pos rfl, if_pos top] at counts
  cases counts

theorem writes_putString (s : Bytes) :
    Writes flexible (putString s) () (accepted (stringReserve flexible s) (stringOutput flexible s)) :=
  writes_of_passes (prep_putString s) (real_putString s) (string_agrees s)

theorem nullableString_agrees (s : Bytes) (n : ℕ) (counts : nullableStringReserve flexible s = .ok n) :
    (nullableStringOutput flexible s).map List.length = some n := by
  cases s with
  | nil =>
    apply agree_of_matches _ n counts
    rw [matches_nullableString]
    intro _
    decide
  | cons b s => exact string_agrees (b :: s) n counts

theorem writes_putNullableString (s : Bytes) : Writes flexible (putNullableString s) ()
    (accepted (nullableStringReserve flexible s) (nullableStringOutput flexible s)) :=
  writes_of_passes (prep_putNullableString s) (real_putNullableString s) (nullableString_agrees s)

/-! ## Dropped codes -/

/-- `x` does not fail with a code. -/
def NoCode {ρ : Type} (x : EStateM Failure ρ α) : Prop := ∀ s err s', x s ≠ .error (.code err) s'

/-- Only the last of some steps fails with a code. -/
theorem NoCode.ignoreCode_bind {ρ : Type} {spoiled : β} {x : EStateM Failure ρ α} (noCode : NoCode x)
    (k : α → EStateM Failure ρ β) : ignoreCode spoiled (x >>= k) = x >>= fun a => ignoreCode spoiled (k a) := by
  funext s
  rw [EStateM.bind_apply, ignoreCode, EStateM.bind_apply]
  cases run : x s with
  | ok a s' => rfl
  | error e s' =>
    cases e with
    | code err => exact absurd run (noCode s err s')
    | fault f => rfl

theorem NoCode.ignoreCode_eq {ρ : Type} {spoiled : α} {x : EStateM Failure ρ α} (noCode : NoCode x) :
    ignoreCode spoiled x = x := by
  funext s
  rw [ignoreCode]
  split
  · next run => exact absurd run (noCode s _ _)
  · rfl

theorem NoCode.inVersions {x : Encode Unit} {versions : Prop} [Decidable versions] (noCode : NoCode x) :
    NoCode (Kafka.inVersions versions x) := by
  unfold Kafka.inVersions
  split
  · exact noCode
  · rintro s err s' ⟨⟩

theorem noCode_of_grow_store (n : ℕ) (bytes : Bytes) : NoCode (byPass (grow n) (store bytes)) := by
  intro pe err pe'
  cases pass : pe.type with
  | NONE => simp [byPass, pass]
  | PREP => simp [byPass, pass, grow]
  | REAL =>
    simp only [byPass, pass, store]
    split_ifs <;> simp

theorem noCode_putInt32 (x : Int32) : NoCode (putInt32 x) := noCode_of_grow_store 4 _

theorem noCode_putInt64 (x : Int64) : NoCode (putInt64 x) := noCode_of_grow_store 8 _

theorem noCode_putArrayLength (x : Int32) : NoCode (putArrayLength x) := by
  have plusOne : NoCode (putLengthPlusOne x) := by
    rw [putLengthPlusOne]
    split
    · rintro pe err pe' ⟨⟩
    · exact noCode_of_grow_store _ _
  intro pe err pe'
  rw [putArrayLength]
  cases pass : pe.type with
  | NONE => simp [byPass, pass]
  | PREP =>
    simp only [byPass, pass, byMode]
    split
    · simp [grow]
    · exact plusOne pe err pe'
  | REAL =>
    simp only [byPass, pass, byMode]
    split
    · exact noCode_putInt32 x pe err pe'
    · exact plusOne pe err pe'

theorem Writes.ignoreCode_some {x : Encode Unit} (writes : Writes flexible x () (some bytes)) :
    Writes flexible (ignoreCode () x) () (some bytes) := by
  obtain ⟨counts, stores⟩ := writes
  constructor
  · intro pe inPass
    exact ignoreCode_of_ok (counts pe inPass)
  · intro pe inPass inside
    obtain ⟨fits, short⟩ := stores pe inPass inside
    refine ⟨fun room => ignoreCode_of_ok (fits room), fun less => ?_⟩
    obtain ⟨f, s, run⟩ := short less
    exact ⟨f, s, ignoreCode_of_fault run⟩

/-- Storing a string does not fail with a code. -/
theorem real_ignored_putString (s : Bytes) : Real flexible (ignoreCode () (putString s)) () (stringOutput flexible s) := by
  intro pe inPass inside
  have stores := real_putString s pe inPass inside
  cases output : stringOutput flexible s with
  | some bytes =>
    rw [output] at stores
    refine ⟨fun room => ignoreCode_of_ok (stores.1 room), fun less => ?_⟩
    obtain ⟨f, t, run⟩ := stores.2 less
    exact ⟨f, t, ignoreCode_of_fault run⟩
  | none =>
    rw [output] at stores
    obtain ⟨f, t, run⟩ := stores
    exact ⟨f, t, ignoreCode_of_fault run⟩

/-- Of a string that is too long, counting goes on behind at most its length. -/
theorem prep_ignored_putString {s : Bytes} {c : KError} (refused : stringReserve flexible s = .error (.code c)) :
    ∃ n, Prep flexible (ignoreCode () (putString s)) () (.ok n) ∧ ∀ bytes ∈ stringOutput flexible s, n < bytes.length := by
  cases flexible with
  | false =>
    rw [stringReserve, if_neg Bool.false_ne_true] at refused
    split at refused
    · cases refused
    · next large =>
      refine ⟨0, ?_, ?_⟩
      · rintro pe ⟨pass, mode⟩
        have isFixed : pe.flexible = 0 := mode.mpr rfl
        have run : putString s pe = .error (.code (-1)) pe := by
          simp only [putString, byPass, pass, byMode, if_pos isFixed, if_pos (not_le.mp large)]
          rfl
        exact ignoreCode_of_code run
      · intro bytes member
        obtain rfl := Option.some.inj member
        rw [List.length_append, length_bigEndian]
        omega
  | true =>
    rw [stringReserve, if_pos rfl] at refused
    cases length : arrayLengthReserve true (Int32.ofNat s.length) with
    | error e =>
      rw [arrayLengthReserve, if_pos rfl] at length
      rw [arrayLengthReserve, if_pos rfl, length] at refused
      split at length
      · cases length
        cases refused
      · cases length
    | ok n =>
      have large : ¬ s.length ≤ int32Max := by
        intro small
        rw [length, rawReserve, if_pos small] at refused
        cases refused
      refine ⟨n, ?_, ?_⟩
      · rintro pe ⟨pass, mode⟩
        have isFlexible : pe.flexible ≠ 0 := fun zero => Bool.noConfusion (mode.mp zero)
        have counts := @prep_putArrayLength true (Int32.ofNat s.length) pe ⟨pass, mode⟩
        rw [length] at counts
        have run : putString s pe = .error (.code (-1)) { pe with offset := pe.offset + n } := by
          simp only [putString, byPass, pass, byMode, if_neg isFlexible]
          rw [EStateM.bind_of_ok counts]
          have refuses :
              putRawBytes s { pe with offset := pe.offset + n } =
                .error (.code (-1)) { pe with offset := pe.offset + n } := by
            simp only [putRawBytes, byPass, pass, if_pos (not_le.mp large)]
            rfl
          rw [refuses, pass]
        exact ignoreCode_of_code run
      · intro bytes member
        rw [stringOutput, if_pos rfl, Option.mem_def, Option.map_eq_some_iff] at member
        obtain ⟨head, stored, rfl⟩ := member
        have agrees := @arrayLength_agrees true (Int32.ofNat s.length) n length
        rw [stored] at agrees
        have long : head.length = n := Option.some.inj agrees
        rw [List.length_append]
        simp only [int32Max] at large
        omega

/-- A string that is too long for its length is not counted in full and then stored all the same. -/
theorem writes_ignored_putString (s : Bytes) : Writes flexible (ignoreCode () (putString s)) ()
    (accepted (stringReserve flexible s) (stringOutput flexible s)) := by
  have written := @writes_putString flexible s
  cases counts : stringReserve flexible s with
  | ok n =>
    rw [counts] at written
    obtain ⟨bytes, stored, -⟩ := Option.map_eq_some_iff.mp (string_agrees s n counts)
    rw [accepted, stored] at written ⊢
    exact written.ignoreCode_some
  | error e =>
    cases e with
    | code c =>
      obtain ⟨n, counted, short⟩ := prep_ignored_putString counts
      exact .inr ⟨n, _, counted, real_ignored_putString s, short⟩
    | fault f =>
      refine .inl ⟨.fault f, fun pe inPass => ?_⟩
      have fails := prep_putString s pe inPass
      rw [counts] at fails
      obtain ⟨t, run⟩ := fails
      exact ⟨t, ignoreCode_of_fault run⟩

theorem writes_ignored_putNullableString (s : Bytes) : Writes flexible (ignoreCode () (putNullableString s)) ()
    (accepted (nullableStringReserve flexible s) (nullableStringOutput flexible s)) := by
  cases s with
  | nil => exact (writes_putNullableString []).ignoreCode_some
  | cons b s =>
    have same : putNullableString (b :: s) = putString (b :: s) := by
      funext pe
      cases pass : pe.type <;> simp [putNullableString, putString, byPass, pass, byMode]
    rw [same]
    exact writes_ignored_putString (b :: s)

/-! ## The whole encoding -/

theorem prepareFlexible_prep {n : ℕ} (counts : Prep flexible x a (.ok n)) :
    prepareFlexible flexible x { type := .PREP } = .ok a { type := .PREP, offset := n } := by
  cases flexible with
  | false =>
    have run := counts { type := .PREP } ⟨rfl, iff_of_true rfl rfl⟩
    rw [prepareFlexible, if_neg Bool.false_ne_true]
    exact run.trans (by rw [Nat.zero_add])
  | true =>
    have run := counts { type := .PREP, flexible := 1 } ⟨rfl, iff_of_false Nat.one_ne_zero Bool.noConfusion⟩
    simp only [prepareFlexible, if_true, run, Nat.zero_add]

theorem prepareFlexible_prep_error {e : Failure} (fails : Prep flexible x a (.error e)) :
    ∃ s, prepareFlexible flexible x { type := .PREP } = .error e s := by
  cases flexible with
  | false =>
    obtain ⟨s, run⟩ := fails { type := .PREP } ⟨rfl, iff_of_true rfl rfl⟩
    exact ⟨s, run⟩
  | true =>
    obtain ⟨s, run⟩ := fails { type := .PREP, flexible := 1 } ⟨rfl, iff_of_false Nat.one_ne_zero Bool.noConfusion⟩
    refine ⟨{ s with flexible := s.flexible - 1 }, ?_⟩
    simp only [prepareFlexible, if_true, run, Nat.zero_add]

theorem prepareFlexible_real (stores : Real flexible x a (some bytes)) :
    prepareFlexible flexible x { type := .REAL, raw := List.replicate bytes.length 0 } =
      .ok a { type := .REAL, offset := bytes.length, raw := bytes } := by
  have whole := overlay_all (List.length_replicate (n := bytes.length) (a := (0 : UInt8)))
  cases flexible with
  | false =>
    have run := (stores { type := .REAL, raw := List.replicate bytes.length 0 } ⟨rfl, iff_of_true rfl rfl⟩ (Nat.zero_le _)).1
      (by rw [Nat.zero_add, List.length_replicate])
    rw [prepareFlexible, if_neg Bool.false_ne_true]
    exact run.trans (by rw [Nat.zero_add, whole])
  | true =>
    have run := (stores { type := .REAL, raw := List.replicate bytes.length 0, flexible := 1 }
      ⟨rfl, iff_of_false Nat.one_ne_zero Bool.noConfusion⟩ (Nat.zero_le _)).1 (by rw [Nat.zero_add, List.length_replicate])
    simp only [prepareFlexible, if_true, run, Nat.zero_add, whole]

theorem prepareFlexible_real_short {n : ℕ} (stores : Real flexible x a output)
    (short : ∀ bytes ∈ output, n < bytes.length) :
    ∃ f s, prepareFlexible flexible x { type := .REAL, raw := List.replicate n 0 } = .error (.fault f) s := by
  have fault (pe : PacketEncoder) (inPass : InPass .REAL flexible pe) (start : pe.offset = 0) (room : pe.raw.length = n) :
      ∃ f s, x pe = .error (.fault f) s := by
    have stored := stores pe inPass (by omega)
    cases output with
    | none => exact stored
    | some bytes =>
      have less := short bytes rfl
      exact stored.2 (by omega)
  cases flexible with
  | false =>
    exact fault { type := .REAL, raw := List.replicate n 0 } ⟨rfl, iff_of_true rfl rfl⟩ rfl (List.length_replicate ..)
  | true =>
    obtain ⟨f, s, run⟩ := fault { type := .REAL, raw := List.replicate n 0, flexible := 1 }
      ⟨rfl, iff_of_false Nat.one_ne_zero Bool.noConfusion⟩ rfl (List.length_replicate ..)
    refine ⟨f, { s with flexible := s.flexible - 1 }, ?_⟩
    simp only [prepareFlexible, if_true, run, Nat.zero_add]

/-- The encoding of a body is what its passes agree on, within the limit of a request. -/
theorem encodeBody_eq_ok_iff {body : Encode Unit} (writes : Writes flexible body () output) :
    encodeBody flexible body = .ok bytes ↔ output = some bytes ∧ bytes.length ≤ maxRequestSize := by
  cases output with
  | some stored =>
    obtain ⟨counts, stores⟩ := writes
    simp only [encodeBody, encode, prepareFlexible_prep counts, prepareFlexible_real stores]
    split_ifs with large
    · constructor
      · intro same
        cases same
      · rintro ⟨same, small⟩
        obtain rfl := Option.some.inj same
        omega
    · constructor
      · intro same
        obtain rfl : stored = bytes := Except.ok.inj same
        exact ⟨rfl, not_lt.mp large⟩
      · rintro ⟨same, -⟩
        obtain rfl := Option.some.inj same
        rfl
  | none =>
    refine iff_of_false ?_ (fun both => Option.some_ne_none bytes both.1.symm)
    rcases writes with ⟨e, fails⟩ | ⟨n, output, counts, stores, short⟩
    · obtain ⟨s, run⟩ := prepareFlexible_prep_error fails
      cases e with
      | code err => simp only [encodeBody, encode, run, Except.map, reduceCtorEq, not_false_eq_true]
      | fault f => simp only [encodeBody, encode, run, Except.map, reduceCtorEq, not_false_eq_true]
    · obtain ⟨f, s, run⟩ := prepareFlexible_real_short stores short
      simp only [encodeBody, encode, prepareFlexible_prep counts, run]
      split_ifs <;> simp only [Except.map, reduceCtorEq, not_false_eq_true]

end Coev.Kafka.PacketEncoder
