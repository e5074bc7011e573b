import Coev.Proofs.Kafka.CompositeReads

/-! # Composite values are read back

Every write of a composite value is paired with the read that the decoders use for it. A value that the write accepts is
read back from the bytes it stores, wherever they stand, but for the lengths that the read gives another meaning: the null
length of the flexible mode, and the lengths of the fixed mode above the maximum of a response or with a byte that fills
its top bit.
-/

namespace Coev.Kafka

open ByteString PacketEncoder PacketDecoder

/-- The composite values. -/
inductive Composite where
  | arrayLength
  | bytes
  | string
  | nullableString
  | stringArray
  | int32Array
  | int64Array
  | nullableInt32Array
deriving DecidableEq, Repr

namespace Composite

/-- The values of a kind; a null string is an empty one. -/
abbrev Value : Composite → Type
  | arrayLength => Int32
  | bytes | string | nullableString => Bytes
  | stringArray => List Bytes
  | int32Array | nullableInt32Array => List Int32
  | int64Array => List Int64

/-- The write of the encoder. -/
def put : (kind : Composite) → kind.Value → PutOp
  | arrayLength, x => .putArrayLength x
  | bytes, s => .putBytes s
  | string, s => .putString s
  | nullableString, s => .putNullableString s
  | stringArray, ss => .putStringArray ss
  | int32Array, xs => .putInt32Array xs
  | int64Array, xs => .putInt64Array xs
  | nullableInt32Array, xs => .putNullableInt32Array xs

/-- The read of the decoder; there is one for both kinds of arrays of 32-bit integers. -/
def get : (kind : Composite) → Decode kind.Value
  | arrayLength => getArrayLength
  | bytes => getBytes
  | string => getString
  | nullableString => getNullableString
  | stringArray => getStringArray
  | int32Array | nullableInt32Array => getInt32Array
  | int64Array => getInt64Array

/-- The lengths that are read as they were written. -/
def LengthAdmitted (flexible : Bool) (x : Int32) : Prop :=
  if flexible then 0 ≤ x.toInt else x = -1 ∨ 0 ≤ x.toInt ∧ CountReadable (bigEndian 4 x.toUInt32.toNat)

/-- The counts of elements that are read as they were written. -/
def CountAdmitted (flexible : Bool) (n : ℕ) : Prop := flexible = false → CountReadable (bigEndian 4 n)

/-- The values that are read as they were written. -/
def Admitted (flexible : Bool) : (kind : Composite) → kind.Value → Prop
  | arrayLength, x => LengthAdmitted flexible x
  | bytes, _ | string, _ | nullableString, _ => True
  | stringArray, ss => CountAdmitted flexible ss.length
  | int32Array, xs | nullableInt32Array, xs => CountAdmitted flexible xs.length
  | int64Array, xs => CountAdmitted flexible xs.length

end Composite

variable {α : Type} {flexible : Bool} {kind : Composite} {x : kind.Value} {bytes : Bytes} {n : ℕ}

/-- In front of the bytes, in a buffer whose offsets are `int`s, the read returns the value and moves past them. -/
def ReadsBack (flexible : Bool) (get : Decode α) (bytes : Bytes) (a : α) : Prop :=
  ∀ pd rest, InMode flexible pd → pd.raw.length ≤ int32Max → pd.unread = bytes ++ rest →
    get pd = .ok a (pd.advance bytes.length)

/-- It is enough to look at bytes that a buffer can hold. -/
private theorem readsBack_of_reads {get : Decode α} {a : α} (reads : bytes.length ≤ int32Max → Reads flexible get bytes a) :
    ReadsBack flexible get bytes a := by
  intro pd rest mode small ahead
  have inside : bytes.length ≤ pd.raw.length := by
    have length := congrArg List.length ahead
    rw [unread, List.length_drop, List.length_append] at length
    omega
  exact reads (le_trans inside small) pd rest mode ahead

namespace Composite

private theorem reads_arrayLength {x : Int32} (admitted : LengthAdmitted flexible x)
    (stored : arrayLengthOutput flexible x = some bytes) : Reads flexible getArrayLength bytes x := by
  by_cases null : x = -1
  · subst null
    cases flexible with
    | true =>
      have nonneg : 0 ≤ (-1 : Int32).toInt := admitted
      exact absurd nonneg (by decide)
    | false =>
      obtain rfl := Option.some.inj stored
      exact reads_getArrayLength_fixed (length_bigEndian 4 _) (by decide) (by decide)
  · have nonneg : 0 ≤ x.toInt := by
      cases flexible with
      | true => exact admitted
      | false => exact (admitted.resolve_left null).1
    have count : Int32.ofNat x.toInt.toNat = x := by
      have bound := x.toInt_lt
      apply Int32.toInt_inj.mp
      rw [Int32.toInt_ofNat_of_lt (by omega)]
      omega
    have small : x.toInt.toNat ≤ int32Max := by
      have bound := x.toInt_lt
      simp only [int32Max]
      omega
    have fits : CountFits flexible x.toInt.toNat := by
      cases flexible with
      | true =>
        have notTop : x ≠ Int32.maxValue := by
          rintro rfl
          cases stored
        have below : x.toInt.toNat ≠ int32Max := by
          intro top
          rw [top] at count
          exact notTop count.symm
        exact lt_of_le_of_ne small below
      | false =>
        have readable := (admitted.resolve_left null).2
        rw [← count, int32_ofNat_toNat small] at readable
        exact readable
    rw [← count] at stored ⊢
    exact reads_getArrayLength small fits stored

private theorem length_stringBytes_pos (s : Bytes) : 0 < (stringBytes flexible s).length := by
  unfold stringBytes
  split
  · rw [List.length_append, length_encodeUVariant]
    exact Nat.add_pos_left (Leb128.size_pos _) _
  · rw [List.length_append, length_bigEndian]
    omega

/-- Neither the number of the strings of an array nor any of their lengths is larger than the array. -/
private theorem length_le_strings (ss : List Bytes) : ss.length ≤ (ss.flatMap (stringBytes flexible)).length ∧
    ∀ s ∈ ss, s.length ≤ (ss.flatMap (stringBytes flexible)).length := by
  rw [List.length_flatMap]
  constructor
  · have each : ∀ i ∈ ss.map fun s => (stringBytes flexible s).length, 1 ≤ i := by
      intro i member
      obtain ⟨s, -, rfl⟩ := List.mem_map.mp member
      exact length_stringBytes_pos s
    have count := List.length_le_sum_of_one_le _ each
    rwa [List.length_map] at count
  · intro s member
    have part := List.single_le_sum (fun _ _ => Nat.zero_le _) _
      (List.mem_map_of_mem (f := fun s => (stringBytes flexible s).length) member)
    have length : s.length ≤ (stringBytes flexible s).length := by
      unfold stringBytes
      split <;> simp
    omega

private theorem reads_stringArray {ss : List Bytes} (accepted : stringArrayReserve flexible ss = .ok n)
    (admitted : CountAdmitted flexible ss.length) (stored : stringArrayOutput flexible ss = some bytes)
    (small : bytes.length ≤ int32Max) : Reads flexible getStringArray bytes ss := by
  obtain ⟨length, isLength, rest⟩ := Option.bind_eq_some_iff.mp stored
  obtain ⟨strings, isStrings, same⟩ := Option.bind_eq_some_iff.mp rest
  obtain rfl := Option.some.inj same
  rw [stringsOutput] at isStrings
  split at isStrings
  · next notTop =>
    obtain rfl := Option.some.inj isStrings
    rw [List.length_append] at small
    obtain ⟨count, each⟩ := @length_le_strings flexible ss
    have fits : CountFits flexible ss.length := by
      cases flexible with
      | false => exact admitted rfl
      | true =>
        refine lt_of_le_of_ne (by omega) fun top => ?_
        rw [top] at isLength
        cases isLength
    apply reads_getStringArray (by omega) fits _ stored
    intro s member
    have length := each s member
    cases flexible with
    | false =>
      by_cases short : ∀ s ∈ ss, s.length ≤ int16Max
      · exact ⟨_, by rw [stringReserve, if_neg Bool.false_ne_true, if_pos (short s member)]⟩
      · have refused : stringsReserve false ss = .error (.code (-1)) := by
          rw [stringsReserve, if_neg Bool.false_ne_true, if_neg short]
        rw [stringArrayReserve, refused] at accepted
        cases accepted
    | true =>
      have raw : rawReserve s = .ok s.length := if_pos (by omega)
      rw [stringReserve, if_pos rfl, raw, arrayLengthReserve, if_pos rfl, if_neg (notTop s member rfl)]
      exact ⟨_, rfl⟩
  · cases isStrings

private theorem reads_int64Array {xs : List Int64} (accepted : int64ArrayReserve flexible xs = .ok n)
    (admitted : CountAdmitted flexible xs.length) (stored : int64ArrayOutput flexible xs = some bytes) :
    Reads flexible getInt64Array bytes xs := by
  have small := int64ArrayReserve_small accepted
  apply reads_getInt64Array small _ stored
  cases flexible with
  | false => exact admitted rfl
  | true =>
    have fits : xs.length < int32Max := by
      simp only [int32Max] at small ⊢
      omega
    exact fits

private theorem reads_nullableInt32Array {xs : List Int32} (accepted : nullableInt32ArrayReserve flexible xs = .ok n)
    (admitted : CountAdmitted flexible xs.length) :
    Reads flexible getInt32Array (nullableInt32ArrayOutput flexible xs) xs := by
  cases xs with
  | nil => exact reads_getInt32Array_null
  | cons x xs => exact reads_getInt32Array (int32ArrayReserve_small accepted) admitted

/-- A value that its write accepts is read back when it is admitted. -/
theorem readsBack_of_admitted (accepted : Prep flexible (kind.put x).apply () (.ok n))
    (stored : Real flexible (kind.put x).apply () (some bytes)) (admitted : kind.Admitted flexible x) :
    ReadsBack flexible kind.get bytes x := by
  have reserve := (PutOp.prep_apply (kind.put x)).unique accepted
  have output := (PutOp.real_apply (kind.put x)).unique stored
  apply readsBack_of_reads
  intro small
  cases kind with
  | arrayLength => exact reads_arrayLength admitted output
  | bytes =>
    obtain rfl := Option.some.inj output
    rw [List.length_append] at small
    exact reads_getBytes (by omega)
  | string => exact reads_getString reserve output
  | nullableString => exact reads_getNullableString reserve output
  | stringArray => exact reads_stringArray reserve admitted output small
  | int32Array =>
    obtain rfl := Option.some.inj output
    exact reads_getInt32Array (int32ArrayReserve_small reserve) admitted
  | int64Array => exact reads_int64Array reserve admitted output
  | nullableInt32Array =>
    obtain rfl := Option.some.inj output
    exact reads_nullableInt32Array reserve admitted

/-- Three strings, one of them empty, in the flexible mode. -/
theorem readsBack_strings : ∃ bytes, ReadsBack true getStringArray bytes [[97], [], [98, 99]] := by
  have accepted := @PutOp.prep_apply true (stringArray.put [[97], [], [98, 99]])
  have stored := @PutOp.real_apply true (stringArray.put [[97], [], [98, 99]])
  exact ⟨_, @readsBack_of_admitted true stringArray [[97], [], [98, 99]] _ _ accepted stored fun fixed =>
    Bool.noConfusion fixed⟩

/-- The null length of the flexible mode is read as zero. -/
theorem not_readsBack_null : ¬ ∀ (flexible : Bool) (kind : Composite) (x : kind.Value) (bytes : Bytes) (n : ℕ),
    Prep flexible (kind.put x).apply () (.ok n) → Real flexible (kind.put x).apply () (some bytes) →
    ReadsBack flexible kind.get bytes x := by
  intro claim
  have accepted := @PutOp.prep_apply true (arrayLength.put (-1))
  have stored := @PutOp.real_apply true (arrayLength.put (-1))
  have bytes : (arrayLength.put (-1)).output true = some [0] := by
    have small : encodeUVariant 0 = [0] := by rw [encodeUVariant]; rfl
    exact congrArg some small
  rw [bytes] at stored
  have mode : InMode true { raw := [0], flexible := 1 } := by simp [InMode]
  have read := claim true arrayLength (-1) [0] _ accepted stored { raw := [0], flexible := 1 } [] mode (by decide) rfl
  have isZero : getArrayLength { raw := [0], flexible := 1 } = .ok 0 { raw := [0], flexible := 1, offset := 1 } := rfl
  have same := isZero.symm.trans read
  cases same

end Composite

end Coev.Kafka
