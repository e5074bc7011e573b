import Coev.Proofs.Kafka.Exact

/-! # Values that come back exactly under a condition

The operations of the encoder and the decoder that bodies are made of, beyond those that are read back in any case. A time is
written in 32 bits, and the number of the elements of an array is a count. Renaming the codes of a failure changes nothing of
this.
-/

namespace Coev.Kafka

open ByteString DecodeInto PacketDecoder PacketEncoder

variable {α σ : Type} {strict flexible : Bool} {put : Encode Unit} {least : ℕ}
variable {x : DecodeInto σ Unit} {o o' : σ} {get : Decode α}

/-! ## Renamed codes -/

theorem writes_failWith {x : Encode α} {a : α} {output : Option Bytes} (err : KError) (writes : Writes flexible x a output) :
    Writes flexible (failWith err x) a output := by
  have stored {output : Option Bytes} (stores : Real flexible x a output) : Real flexible (failWith err x) a output := by
    intro pe inPass inside
    have stores := stores pe inPass inside
    cases output with
    | some bytes =>
      refine ⟨fun room => failWith_of_ok (stores.1 room), fun short => ?_⟩
      obtain ⟨f, s, run⟩ := stores.2 short
      exact ⟨f, s, failWith_of_fault run⟩
    | none =>
      obtain ⟨f, s, run⟩ := stores
      exact ⟨f, s, failWith_of_fault run⟩
  cases output with
  | some bytes => exact ⟨fun pe inPass => failWith_of_ok (writes.1 pe inPass), stored writes.2⟩
  | none =>
    rcases writes with ⟨e, fails⟩ | ⟨n, output, counts, stores, short⟩
    · left
      cases e with
      | code c =>
        refine ⟨.code err, fun pe inPass => ?_⟩
        obtain ⟨s, run⟩ := fails pe inPass
        exact ⟨s, failWith_of_code run⟩
      | fault f =>
        refine ⟨.fault f, fun pe inPass => ?_⟩
        obtain ⟨s, run⟩ := fails pe inPass
        exact ⟨s, failWith_of_fault run⟩
    · exact .inr ⟨n, output, fun pe inPass => failWith_of_ok (counts pe inPass), stored stores, short⟩

theorem CarriesInto.encodeFailWith (carries : CarriesInto strict flexible put x o o' least) (err : KError) :
    CarriesInto strict flexible (Kafka.failWith err put) x o o' least := by
  obtain ⟨output, writes, each⟩ := carries
  exact ⟨output, writes_failWith err writes, each⟩

theorem CarriesInto.decodeFailWith (carries : CarriesInto strict flexible put x o o' least) (err : KError) :
    CarriesInto strict flexible put (Kafka.failWith err x) o o' least := by
  obtain ⟨output, writes, each⟩ := carries
  refine ⟨output, writes, fun bytes member => ⟨(each bytes member).1, fun small => ?_⟩⟩
  obtain ⟨reads, refuses⟩ := (each bytes member).2 small
  refine ⟨reads.failWith, fun isStrict pd mode inside proper => ?_⟩
  obtain ⟨c, s, run⟩ := refuses isStrict pd mode inside proper
  exact ⟨err, s, failWith_of_code run⟩

theorem Exact.encodeFailWith {bad : σ → Prop} {good : Prop} (exact_ : Exact strict flexible put x o o' bad good least)
    (err : KError) : Exact strict flexible (Kafka.failWith err put) x o o' bad good least where
  carries isGood := (exact_.carries isGood).encodeFailWith err
  spoils notGood := by
    obtain ⟨output, writes, each⟩ := exact_.spoils notGood
    exact ⟨output, writes_failWith err writes, each⟩
  right := exact_.right

theorem Exact.decodeFailWith {bad : σ → Prop} {good : Prop} (exact_ : Exact strict flexible put x o o' bad good least)
    (err : KError) : Exact strict flexible put (Kafka.failWith err x) o o' bad good least where
  carries isGood := (exact_.carries isGood).decodeFailWith err
  spoils notGood := by
    obtain ⟨output, writes, each⟩ := exact_.spoils notGood
    refine ⟨output, writes, fun bytes member => ⟨(each bytes member).1, ?_⟩⟩
    intro small pd rest mode ahead o' pd' run
    exact (each bytes member).2 small pd rest mode ahead o' pd' (failWith_eq_ok_iff.mp run)
  right := exact_.right

theorem Keeps.failWith {τ : Type} {f : σ → τ} {x : DecodeInto σ α} (keeps : Keeps f x) (err : KError) :
    Keeps f (Kafka.failWith err x) := by
  intro o pd a o' pd' run
  exact keeps o pd a o' pd' (failWith_eq_ok_iff.mp run)

/-! ## Single values -/

theorem carries_putBool (x : Bool) : Carries strict flexible (putBool x) getBool x 1 := by
  refine ⟨some (bigEndian 1 (if x then 1 else 0 : Int8).toUInt8.toNat), ⟨?_, (real_putInt8 _).byPass⟩, ?_⟩
  · exact ((prep_grow 1).byPass).of_eq (by rw [length_bigEndian])
  rintro bytes ⟨⟩
  refine ⟨(length_bigEndian 1 _).ge, fun _ => ⟨?_, fun _ => (refuses_getInt8 _).andThen _⟩⟩
  apply (reads_getInt8 (if x then 1 else 0)).next
  cases x with
  | false => exact Reads.pure false
  | true => exact Reads.pure true

/-- In the fixed mode nothing stands for tagged fields. -/
theorem carries_nothing : Carries strict false (pure ()) getEmptyTaggedFieldArray () 0 := by
  refine ⟨_, Writes.pure (), ?_⟩
  rintro bytes ⟨⟩
  refine ⟨Nat.zero_le _, fun _ => ⟨?_, fun _ => Refuses.nil _⟩⟩
  exact reads_fixed (Reads.pure ())

theorem writes_putKError (x : Int16) : Writes flexible (putKError x) () (some (bigEndian 2 x.toUInt16.toNat)) :=
  ⟨((prep_grow 2).byPass).of_eq (by rw [length_bigEndian]), (real_putInt16 _).byPass⟩

theorem carries_putKError (x : Int16) : Carries strict flexible (putKError x) getKError x.toInt 1 := by
  refine ⟨_, writes_putKError x, ?_⟩
  rintro bytes ⟨⟩
  rw [length_bigEndian]
  exact ⟨by omega, fun _ => ⟨(reads_getInt16 x).map _, fun _ => (refuses_getInt16 _).andThen _⟩⟩

/-- A code is stored in a member. -/
theorem carries_putKError_field (x : Int16) (spoil : σ → σ) (set : Int16 → σ → σ) (o : σ) :
    CarriesInto strict flexible (putKError x) (fieldOr spoil getKError fun err => set (Int16.ofInt err)) o (set x o) 1 := by
  have field := (@carries_putKError strict flexible x).field spoil (fun err => set (Int16.ofInt err)) o
  rwa [Int16.ofInt_toInt] at field

/-- A time fits in 32 bits. -/
def DurationFits (ms : Int64) : Prop := ms.toInt32.toInt64 = ms
deriving Decidable

theorem writes_putDurationMs (ms : Int64) :
    Writes flexible (putDurationMs ms) () (some (bigEndian 4 ms.toInt32.toUInt32.toNat)) :=
  ⟨((prep_grow 4).byPass).of_eq (by rw [length_bigEndian]), (real_putInt32 _).byPass⟩

theorem sized_putDurationMs (ms : Int64) : Sized flexible (putDurationMs ms) 4 := by
  refine ⟨_, writes_putDurationMs ms, ?_⟩
  rintro bytes ⟨⟩
  exact (length_bigEndian 4 _).ge

/-- A time comes back cut down to 32 bits. -/
theorem carries_putDurationMs (ms : Int64) :
    Carries strict flexible (putDurationMs ms) getDurationMs ms.toInt32.toInt64 1 := by
  refine ⟨_, writes_putDurationMs ms, ?_⟩
  rintro bytes ⟨⟩
  refine ⟨?_, fun _ => ⟨(reads_getInt32 _).map _, fun _ => (refuses_getInt32 _).andThen _⟩⟩
  rw [length_bigEndian]
  omega

theorem exact_putDurationMs (ms : Int64) :
    ExactValue strict flexible (putDurationMs ms) getDurationMs ms (DurationFits ms) 1 := by
  obtain ⟨output, writes, each⟩ := @carries_putDurationMs strict flexible ms
  constructor
  · intro fits
    have carries := @carries_putDurationMs strict flexible ms
    rwa [fits] at carries
  · intro differs
    refine ⟨output, writes, fun bytes member => ⟨(each bytes member).1, fun small pd rest mode ahead o' pd' run => ?_⟩⟩
    have value : DecodeInto.field getDurationMs (fun b _ => some b) ((none : Option Int64), pd) =
        .ok () (some ms.toInt32.toInt64, pd.advance bytes.length) :=
      (EStateM.bind_of_ok (readOr_eq_ok_iff.mpr ⟨((each bytes member).2 small).reads pd rest mode ahead, rfl⟩) _).trans rfl
    rw [value] at run
    cases run
    exact fun same => differs (Option.some.inj same)

/-- The time of a body, which stands in front of the rest. -/
theorem exact_durationField {ms : Int64} {set : Int64 → σ → σ} {o : σ} {get : σ → Int64}
    (getSet : ∀ ms, get (set ms o) = ms) :
    Exact strict flexible (putDurationMs ms) (durationField set) o (set ms o) (fun o => get o ≠ ms)
      (DurationFits ms) 1 := by
  apply (exact_putDurationMs ms).field
  · intro b differs
    rwa [getSet]
  · rw [getSet]
    exact fun differs => differs rfl

/-- The time of the versions that have one. -/
theorem exact_durationIn {ms : Int64} (get : σ → Int64) {set : Int64 → σ → σ} (versions : Prop) [Decidable versions] {o : σ}
    (getSet : ∀ ms, get (set ms o) = ms) (start : get o = 0) :
    Exact strict flexible (inVersions versions (putDurationMs ms)) (inVersions versions (durationField set)) o
      (if versions then set ms o else o) (fun o => get o ≠ if versions then ms else 0) (versions → DurationFits ms) 0 := by
  unfold inVersions
  split_ifs with present
  · exact (exact_durationField getSet).conclude rfl (imp_iff_right present).symm (Nat.zero_le 1)
  · apply ((CarriesInto.pure o).exact.imp (fun _ => False.elim) _).conclude rfl _ (Nat.le_refl 0)
    · exact fun differs => differs start
    · exact iff_of_true trivial fun present' => absurd present' present

theorem carries_errField (x : Int16) (set : Int16 → σ → σ) (o : σ) :
    CarriesInto strict flexible (putKError x) (errField set) o (set x o) 1 := carries_putKError_field x _ set o

theorem Keeps.errField {τ : Type} {f : σ → τ} {set : Int16 → σ → σ} (keeps : ∀ err o, f (set err o) = f o) :
    Keeps f (DecodeInto.errField set) := Keeps.fieldOr fun _ o => keeps _ o

/-! ## Dropped codes -/

/-- What is read back is read back where a failure would not matter. -/
theorem Carries.ignored {a spoiled : α} (carries : Carries strict flexible put get a least) :
    Carries false flexible put (ignoreCode spoiled get) a least := by
  obtain ⟨output, writes, each⟩ := carries
  refine ⟨output, writes, fun bytes member => ⟨(each bytes member).1, fun small => ?_⟩⟩
  constructor
  · exact reads_of_extends ((each bytes member).2 small).reads (extends_ignoreCode _ _)
  · rintro ⟨⟩

/-- A member whose value could not be read is as it was. -/
theorem field_of_error {set : α → σ → σ} {pd pd' : PacketDecoder} {e : Failure}
    (run : DecodeInto.field get set (o, pd) = .error e (o', pd')) : o' = o := by
  rw [DecodeInto.field, fieldOr, EStateM.bind_apply, readOr] at run
  rcases value : get pd with ⟨a, pd₁⟩ | ⟨e, pd₁⟩
  · rw [value] at run
    cases run
  · rw [value] at run
    cases run
    rfl

theorem Keeps.ignoredField {τ : Type} {f : σ → τ} {set : α → σ → σ} (keeps : ∀ a o, f (set a o) = f o) :
    Keeps f (ignoreCode () (DecodeInto.field get set)) := by
  intro o pd u o' pd' run
  rcases tried : DecodeInto.field get set (o, pd) with ⟨u₁, o₁, pd₁⟩ | ⟨e, o₁, pd₁⟩
  · rw [ignoreCode_of_ok tried] at run
    cases run
    exact Keeps.fieldOr keeps _ _ _ _ _ tried
  · cases e with
    | code err =>
      rw [ignoreCode_of_code tried] at run
      cases run
      rw [field_of_error tried]
    | fault f =>
      rw [ignoreCode_of_fault tried] at run
      cases run

theorem CarriesInto.ignored (carries : CarriesInto false flexible put x o o' least) :
    CarriesInto false flexible put (ignoreCode () x) o o' least := carries.extended (extends_ignoreCode _ _)

/-! ## Arrays -/

theorem int32Array_agrees (xs : List Int32) (n : ℕ) (counts : int32ArrayReserve flexible xs = .ok n) :
    (some (int32ArrayOutput flexible xs)).map List.length = some n := by
  apply agree_of_matches _ n counts
  rw [matches_int32Array]
  exact int32ArrayReserve_small counts

theorem writes_putInt32Array (xs : List Int32) : Writes flexible (putInt32Array xs) ()
    (accepted (int32ArrayReserve flexible xs) (some (int32ArrayOutput flexible xs))) :=
  writes_of_passes (prep_putInt32Array xs) (real_putInt32Array xs) (int32Array_agrees xs)

/-- The bytes of an array are as many as its elements, and more. -/
theorem length_int32ArrayOutput (xs : List Int32) : xs.length + 1 ≤ (int32ArrayOutput flexible xs).length := by
  have size := @length_flatMap_bigEndian Int32 (fun x => x.toUInt32.toNat) 4 xs
  rw [int32ArrayOutput, List.length_append, size]
  cases flexible with
  | false =>
    rw [if_neg Bool.false_ne_true, length_bigEndian]
    omega
  | true =>
    have positive := Leb128.size_pos (UInt64.ofNat xs.length + 1).toNat
    rw [if_pos rfl, length_encodeUVariant]
    omega

/-- In the flexible mode the elements are read past the end of a short buffer, so that mode is never strict. -/
theorem exact_putInt32Array (mode : strict = true → flexible = false) (xs : List Int32) :
    ExactValue strict flexible (putInt32Array xs) getInt32Array xs
      (flexible = false → CountReadable (bigEndian 4 xs.length)) 1 := by
  have few {bytes : Bytes}
      (member : bytes ∈ accepted (int32ArrayReserve flexible xs) (some (int32ArrayOutput flexible xs))) :
      bytes = int32ArrayOutput flexible xs := by
    obtain ⟨-, stored⟩ := mem_accepted member
    exact (Option.some.inj stored).symm
  constructor
  · intro readable
    refine ⟨_, writes_putInt32Array xs, fun bytes member => ?_⟩
    obtain rfl := few member
    have long := @length_int32ArrayOutput flexible xs
    refine ⟨by omega, fun small => ?_⟩
    have fits : 4 * xs.length ≤ int32Max := by
      simp only [maxRequestSize] at small
      simp only [int32Max]
      omega
    refine ⟨reads_getInt32Array fits readable, fun isStrict => ?_⟩
    obtain rfl := mode isStrict
    have count : xs.length ≤ int32Max := by omega
    have nat : (Int32.ofNat xs.length).toInt.toNat = xs.length := by rw [int32_ofNat_toInt count, Int.toNat_natCast]
    have size := @length_flatMap_bigEndian Int32 (fun x => x.toUInt32.toNat) 4 xs
    rw [getInt32Array]
    apply refuses_fixed
    apply Refuses.bind (@reads_getArrayLength false _ _ count (readable rfl) rfl) (@refuses_getArrayLength false _ _ rfl)
    by_cases empty : xs = []
    · subst empty
      exact Refuses.nil _
    · have some_ : ¬ Int32.ofNat xs.length ≤ 0 := by
        rw [positive_iff count]
        exact mt List.eq_nil_of_length_eq_zero empty
      rw [if_neg some_]
      exact refuses_checked (by rw [size, nat]) (by rw [size]; omega)
  · intro notReadable
    obtain ⟨rfl, unreadable⟩ := Classical.not_imp.mp notReadable
    refine ⟨_, writes_putInt32Array xs, fun bytes member => ?_⟩
    obtain rfl := few member
    have long := @length_int32ArrayOutput false xs
    refine ⟨by omega, fun small pd rest mode ahead o' pd' run => ?_⟩
    have within : xs.length ≤ maxRequestSize := by omega
    have negative : countSeen xs.length ≤ 0 := Int32.le_of_lt (countSeen_of_unreadable within unreadable)
    have head : Reads false getArrayLength (bigEndian 4 (Int32.ofNat xs.length).toUInt32.toNat) (countSeen xs.length) :=
      reads_count within rfl
    have isFixed : pd.flexible = 0 := mode.mpr rfl
    rw [int32ArrayOutput, if_neg Bool.false_ne_true, List.append_assoc] at ahead
    have none_ : getInt32Array pd = .ok [] (pd.advance (bigEndian 4 (Int32.ofNat xs.length).toUInt32.toNat).length) := by
      rw [getInt32Array, PacketDecoder.byMode, if_pos isFixed, EStateM.bind_of_ok (head pd _ mode ahead), if_pos negative]
      rfl
    have value : DecodeInto.field getInt32Array (fun b _ => some b) ((none : Option (List Int32)), pd) = .ok () (some [],
        pd.advance (bigEndian 4 (Int32.ofNat xs.length).toUInt32.toNat).length) :=
      (EStateM.bind_of_ok (readOr_eq_ok_iff.mpr ⟨none_, rfl⟩) _).trans rfl
    rw [value] at run
    cases run
    intro same
    obtain rfl := Option.some.inj same
    exact unreadable countReadable_zero

theorem writes_putInt64Array (xs : List Int64) : Writes flexible (putInt64Array xs) ()
    (accepted (int64ArrayReserve flexible xs) (int64ArrayOutput flexible xs)) := by
  apply writes_of_passes (prep_putInt64Array xs) (real_putInt64Array xs)
  intro n counts
  apply agree_of_matches _ n counts
  rw [matches_int64Array]
  exact int64ArrayReserve_small counts

theorem exact_putInt64Array (xs : List Int64) :
    ExactValue false false (putInt64Array xs) getInt64Array xs (CountReadable (bigEndian 4 xs.length)) 1 := by
  have output {bytes : Bytes} (member : bytes ∈ accepted (int64ArrayReserve false xs) (int64ArrayOutput false xs)) :
      8 * xs.length ≤ int32Max ∧ int64ArrayOutput false xs = some bytes := by
    obtain ⟨⟨n, counts⟩, stored⟩ := mem_accepted member
    exact ⟨int64ArrayReserve_small counts, stored⟩
  have long {bytes : Bytes} (stored : int64ArrayOutput false xs = some bytes) : xs.length + 1 ≤ bytes.length := by
    have size := @length_flatMap_bigEndian Int64 (fun x => x.toUInt64.toNat) 8 xs
    cases stored
    rw [List.length_append, length_bigEndian, size]
    omega
  constructor
  · intro readable
    refine ⟨_, writes_putInt64Array xs, fun bytes member => ?_⟩
    obtain ⟨small, stored⟩ := output member
    have enough := long stored
    refine ⟨by omega, fun _ => ⟨reads_getInt64Array small readable stored, ?_⟩⟩
    rintro ⟨⟩
  · intro unreadable
    refine ⟨_, writes_putInt64Array xs, fun bytes member => ?_⟩
    obtain ⟨small, stored⟩ := output member
    have enough := long stored
    refine ⟨by omega, fun few pd rest mode ahead o' pd' run => ?_⟩
    have within : xs.length ≤ maxRequestSize := by omega
    have negative : countSeen xs.length ≤ 0 := Int32.le_of_lt (countSeen_of_unreadable within unreadable)
    have head : Reads false getArrayLength (bigEndian 4 (Int32.ofNat xs.length).toUInt32.toNat) (countSeen xs.length) :=
      reads_count within rfl
    cases stored
    rw [List.append_assoc] at ahead
    have none_ : getInt64Array pd = .ok [] (pd.advance (bigEndian 4 (Int32.ofNat xs.length).toUInt32.toNat).length) := by
      rw [getInt64Array, EStateM.bind_of_ok (head pd _ mode ahead), if_pos negative]
      rfl
    have value : DecodeInto.field getInt64Array (fun b _ => some b) ((none : Option (List Int64)), pd) = .ok () (some [],
        pd.advance (bigEndian 4 (Int32.ofNat xs.length).toUInt32.toNat).length) :=
      (EStateM.bind_of_ok (readOr_eq_ok_iff.mpr ⟨none_, rfl⟩) _).trans rfl
    rw [value] at run
    cases run
    intro same
    obtain rfl := Option.some.inj same
    exact unreadable countReadable_zero

/-- The length of no array at all is an array without elements in the flexible mode. -/
theorem carries_putNullLength :
    Carries false flexible (putArrayLength (-1)) getArrayLength (if flexible then 0 else -1) 1 := by
  refine ⟨_, writes_putArrayLength (-1), fun bytes member => ?_⟩
  obtain ⟨-, stored⟩ := mem_accepted member
  cases flexible with
  | false =>
    obtain rfl := Option.some.inj stored
    refine ⟨(length_bigEndian 4 _).ge.trans' (by decide), fun _ => ⟨?_, ?_⟩⟩
    · exact reads_getArrayLength_fixed (length_bigEndian 4 _) (by decide) (by decide)
    · rintro ⟨⟩
  | true =>
    obtain rfl := Option.some.inj stored
    refine ⟨?_, fun _ => ⟨?_, ?_⟩⟩
    · rw [length_encodeUVariant]
      exact Leb128.size_pos _
    · apply reads_flexible
      exact (@reads_getUVariant true 0 (by decide)).map fun n => if n = 0 then (0 : Int32) else (n - 1).toInt64.toInt32
    · rintro ⟨⟩

/-! ## Failing writes -/

theorem writes_faultWith (f : Fault) : Writes flexible (faultWith f : Encode Unit) () none :=
  .inl ⟨.fault f, fun pe _ => ⟨pe, rfl⟩⟩

/-- Where nothing is written, nothing is read. -/
theorem CarriesInto.of_none (writes : Writes flexible put () none) : CarriesInto strict flexible put x o o' least := by
  refine ⟨none, writes, ?_⟩
  rintro bytes ⟨⟩

/-! ## Tagged fields -/

/-- The tagged fields of the versions that have them. -/
theorem carries_taggedFields {versions : Prop} [Decidable versions] (iff : flexible = true ↔ versions) :
    Carries strict flexible (inVersions versions putEmptyTaggedFieldArray) getEmptyTaggedFieldArray () 0 := by
  unfold inVersions
  split
  · exact carries_putEmptyTaggedFieldArray
  · next old =>
    rw [← iff, Bool.not_eq_true] at old
    rw [old]
    exact carries_nothing

/-! ## Prefixes -/

theorem Sized.le_length {bytes : Bytes} (sized : Sized flexible put least) (encoded : encodeBody flexible put = .ok bytes) :
    least ≤ bytes.length := by
  obtain ⟨output, writes, each⟩ := sized
  obtain ⟨rfl, -⟩ := (encodeBody_eq_ok_iff writes).mp encoded
  exact each bytes rfl

/-- A part of a body that is decoded is no part that is refused. -/
theorem not_refusesPrefixes {front rest : Bytes} (some_ : rest ≠ [])
    (decoded : decodeVersion flexible x front o = .ok () o') (begun : front ≠ []) :
    ¬ RefusesPrefixes flexible x o (front ++ rest) := by
  intro refuses
  obtain ⟨err, s, run⟩ := refuses front rest rfl some_
  rw [decodeVersion, if_neg (mt List.isEmpty_iff.mp begun), run] at decoded
  cases decoded

/-- What is carried to a strict reader is refused in any part. -/
theorem CarriesInto.refusesPrefixes {bytes : Bytes} (carries : CarriesInto true flexible put x o o' least)
    (encoded : encodeBody flexible put = .ok bytes) : RefusesPrefixes flexible x o bytes := by
  obtain ⟨output, writes, each⟩ := carries
  obtain ⟨rfl, small⟩ := (encodeBody_eq_ok_iff writes).mp encoded
  intro front rest split some_
  have refuses := ((each bytes rfl).2 small).refuses rfl
  apply refuses _ (inMode_start flexible front)
  · exact ⟨rest, split.symm⟩
  · intro whole
    have same : front = bytes := whole
    rw [same] at split
    exact some_ (List.self_eq_append_right.mp split)

end Coev.Kafka

/-! ## Topics and their partitions: what comes back

A topic comes back where the number of its partitions can be read and each of them comes back.
-/

namespace Coev.Kafka.TopicPartitions

open Std (ExtTreeMap)
open ByteString DecodeInto PacketDecoder PacketEncoder

variable {ν ν' : Type} {strict flexible : Bool} {fresh : ν} {g : ν' → ν} {good : ν' → Prop} {value : ν' → Encode Unit}
variable {x : DecodeInto ν Unit} {pd pd' : PacketDecoder}

theorem exact_partition {bad : ν → Prop} {isGood : Prop} {least : ℕ} (partition : Int32) {v : ν'} {v' : ν}
    (exact_ : Exact strict flexible (value v) x fresh v' bad isGood least) {m : ExtTreeMap Int32 ν}
    (new : m[partition]? = none) :
    Exact strict flexible (encodePartition value (partition, v)) (decodePartition fresh x) m (m.insert partition v')
      (Misread partition v') isGood 1 :=
  ((carries_putInt32 partition).seqExact (exact_.entry new)).weaken (Nat.le_add_right 1 _)

theorem grewBy_partition {m m' : ExtTreeMap Int32 ν} (run : decodePartition fresh x (m, pd) = .ok () (m', pd')) :
    m.GrewBy m' 1 := by
  obtain ⟨partition, ⟨m₁, pd₁⟩, number, inserted⟩ := EStateM.bind_eq_ok_iff.mp run
  obtain ⟨-, rfl⟩ := read_eq_ok_iff.mp number
  exact grewBy_entry inserted

theorem exact_newPartition {bad : ν → Prop} {isGood : Prop} {least : ℕ} (partition : Int32) {v : ν'} {v' : ν}
    (exact_ : Exact strict flexible (value v) x fresh v' bad isGood least) (m : ExtTreeMap Int32 ν) :
    Exact strict flexible (encodePartition value (partition, v)) (decodeNewPartition fresh x) m (m.insert partition v')
      (Misread partition v') isGood 1 :=
  ((carries_putInt32 partition).seqExact exact_.newEntry).weaken (Nat.le_add_right 1 _)

theorem grewBy_newPartition {m m' : ExtTreeMap Int32 ν}
    (run : decodeNewPartition fresh x (m, pd) = .ok () (m', pd')) : m.GrewBy m' 1 := by
  obtain ⟨partition, ⟨m₁, pd₁⟩, number, stored⟩ := EStateM.bind_eq_ok_iff.mp run
  obtain ⟨-, rfl⟩ := read_eq_ok_iff.mp number
  obtain ⟨v, -, rfl⟩ := aside_eq_ok_iff.mp stored
  exact .insert m partition v

section Topic

variable {round : DecodeInto (ExtTreeMap Int32 ν) Unit} {name : Bytes → Encode Unit} {putTrailer : Encode Unit}
  {getTrailer : Decode Unit} {orderOf : Bytes → ExtTreeMap Int32 ν' → List (Int32 × ν')}

theorem exact_topic (named : ∀ topic, Carries strict flexible (name topic) getString topic 1)
    (each : ∀ partition v (m : ExtTreeMap Int32 ν), m[partition]? = none → Exact strict flexible
      (encodePartition value (partition, v)) round m (m.insert partition (g v)) (Misread partition (g v)) (good v) 1)
    (grows : ∀ m pd m' pd', round (m, pd) = .ok () (m', pd') → ExtTreeMap.GrewBy m m' 1)
    (trailer : Carries strict flexible putTrailer getTrailer () 0) (topic : Bytes)
    {partitions : ExtTreeMap Int32 ν'}
    (perm : (orderOf topic partitions).Perm partitions.toList) {partitions' : ExtTreeMap Int32 ν}
    (same : (partitions.map fun _ => g) = partitions') {m : ExtTreeMap Bytes (ExtTreeMap Int32 ν)}
    (new : m[topic]? = none) : Exact strict flexible (encodeTopic name value putTrailer orderOf (topic, partitions))
      (decodeTopic round getTrailer) m
      (m.insert topic partitions') (Misread topic partitions') (MapReadable flexible good partitions) 1 := by
  subst same
  have loop := ((Exact.rounds perm each grows).entry new).seqSkip trailer
  rw [Nat.add_zero] at loop
  apply Exact.conclude
  · apply (named topic).seqExact
    apply loop.counted (Nat.le_refl _)
    · intro small
      rw [int32_ofNat_loop small]
    · intro count negative some_ pd m' pd' run
      obtain ⟨_, ⟨m₁, pd₁⟩, inserted, last⟩ := EStateM.bind_eq_ok_iff.mp run
      obtain ⟨-, rfl⟩ := read_eq_ok_iff.mp last
      rw [rounds_of_neg negative] at inserted
      rw [← entry_of_skip new inserted]
      exact misread_insert (map_ne_empty g some_)
  · rfl
  · exact Iff.rfl
  · exact Nat.le_add_left 1 1

/-- A topic whose partitions come back in any case. -/
theorem exact_countedTopic (named : ∀ topic, Carries strict flexible (name topic) getString topic 1)
    (each : ∀ partition v (m : ExtTreeMap Int32 ν), m[partition]? = none → Exact strict flexible
      (encodePartition value (partition, v)) round m (m.insert partition (g v)) (Misread partition (g v)) True 1)
    (grows : ∀ m pd m' pd', round (m, pd) = .ok () (m', pd') → ExtTreeMap.GrewBy m m' 1)
    (trailer : Carries strict flexible putTrailer getTrailer () 0) (topic : Bytes) {partitions : ExtTreeMap Int32 ν'}
    (perm : (orderOf topic partitions).Perm partitions.toList) {partitions' : ExtTreeMap Int32 ν}
    (same : (partitions.map fun _ => g) = partitions') {m : ExtTreeMap Bytes (ExtTreeMap Int32 ν)}
    (new : m[topic]? = none) :
    Exact strict flexible (encodeTopic name value putTrailer orderOf (topic, partitions)) (decodeTopic round getTrailer) m
      (m.insert topic partitions') (Misread topic partitions')
      (flexible = false → CountReadable (bigEndian 4 partitions.size)) 1 := by
  apply (exact_topic named each grows trailer topic perm same new).conclude rfl _ (Nat.le_refl _)
  exact and_iff_left fun _ _ _ => trivial

theorem grewBy_topic {m m' : ExtTreeMap Bytes (ExtTreeMap Int32 ν)}
    (run : decodeTopic round getTrailer (m, pd) = .ok () (m', pd')) : m.GrewBy m' 1 := by
  obtain ⟨topic, ⟨m₁, pd₁⟩, name, rest⟩ := EStateM.bind_eq_ok_iff.mp run
  obtain ⟨-, rfl⟩ := read_eq_ok_iff.mp name
  obtain ⟨count, ⟨m₂, pd₂⟩, number, others⟩ := EStateM.bind_eq_ok_iff.mp rest
  obtain ⟨-, rfl⟩ := read_eq_ok_iff.mp number
  obtain ⟨_, ⟨m₃, pd₃⟩, inserted, last⟩ := EStateM.bind_eq_ok_iff.mp others
  obtain ⟨-, rfl⟩ := read_eq_ok_iff.mp last
  exact grewBy_entry inserted

end Topic

end Coev.Kafka.TopicPartitions
