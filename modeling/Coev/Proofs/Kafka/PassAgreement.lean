import Coev.Proofs.Kafka.PutOperations

/-! # When the two passes of a put operation agree

An operation agrees when the PREP pass adds the number of bytes the REAL pass writes. That holds
exactly for the arguments singled out by `Exact`: the varints without the missing byte, the arrays
whose `int` size does not overflow, and the flexible string arrays that happen to take four bytes a
string.
-/

namespace Coev.Kafka.PacketEncoder

open ByteString

variable {n : ℕ}

/-- The put operations with their arguments. -/
inductive PutOp where
  | putInt8 (x : Int8)
  | putInt16 (x : Int16)
  | putInt32 (x : Int32)
  | putInt64 (x : Int64)
  | putVariant (x : Int64)
  | putUVarint (x : UInt64)
  | putFloat64 (bits : UInt64)
  | putBool (x : Bool)
  | putKError (x : Int16)
  | putDurationMs (ms : Int64)
  | putArrayLength (x : Int32)
  | putBytes (s : Bytes)
  | putVariantBytes (s : Bytes)
  | putRawBytes (s : Bytes)
  | putString (s : Bytes)
  | putNullableString (s : Bytes)
  | putStringArray (ss : List Bytes)
  | putInt32Array (xs : List Int32)
  | putInt64Array (xs : List Int64)
  | putNullableInt32Array (xs : List Int32)
  | putEmptyTaggedFieldArray
deriving DecidableEq, Repr

namespace PutOp

/-- The operation of the encoder. -/
def apply : PutOp → Encode Unit
  | putInt8 x => PacketEncoder.putInt8 x
  | putInt16 x => PacketEncoder.putInt16 x
  | putInt32 x => PacketEncoder.putInt32 x
  | putInt64 x => PacketEncoder.putInt64 x
  | putVariant x => PacketEncoder.putVariant x
  | putUVarint x => PacketEncoder.putUVarint x
  | putFloat64 bits => PacketEncoder.putFloat64 bits
  | putBool x => PacketEncoder.putBool x
  | putKError x => PacketEncoder.putKError x
  | putDurationMs ms => PacketEncoder.putDurationMs ms
  | putArrayLength x => PacketEncoder.putArrayLength x
  | putBytes s => PacketEncoder.putBytes s
  | putVariantBytes s => PacketEncoder.putVariantBytes s
  | putRawBytes s => PacketEncoder.putRawBytes s
  | putString s => PacketEncoder.putString s
  | putNullableString s => PacketEncoder.putNullableString s
  | putStringArray ss => PacketEncoder.putStringArray ss
  | putInt32Array xs => PacketEncoder.putInt32Array xs
  | putInt64Array xs => PacketEncoder.putInt64Array xs
  | putNullableInt32Array xs => PacketEncoder.putNullableInt32Array xs
  | putEmptyTaggedFieldArray => PacketEncoder.putEmptyTaggedFieldArray

/-- What the PREP pass counts. -/
def reserve (flexible : Bool) : PutOp → Except Failure ℕ
  | putInt8 _ => .ok 1
  | putInt16 _ => .ok 2
  | putInt32 _ => .ok 4
  | putInt64 _ => .ok 8
  | putVariant x => .ok (varintLen x)
  | putUVarint x => .ok (uvarintLen x)
  | putFloat64 _ => .ok 8
  | putBool _ => .ok 1
  | putKError _ => .ok 2
  | putDurationMs _ => .ok 4
  | putArrayLength x => arrayLengthReserve flexible x
  | putBytes s => do let n ← rawReserve s; return bytesLengthSize flexible s + n
  | putVariantBytes s => do let n ← rawReserve s; return varintLen (variantBytesLength s) + n
  | putRawBytes s => rawReserve s
  | putString s => stringReserve flexible s
  | putNullableString s => nullableStringReserve flexible s
  | putStringArray ss => stringArrayReserve flexible ss
  | putInt32Array xs => int32ArrayReserve flexible xs
  | putInt64Array xs => int64ArrayReserve flexible xs
  | putNullableInt32Array xs => nullableInt32ArrayReserve flexible xs
  | putEmptyTaggedFieldArray => .ok (if flexible then uvarintLen 0 else 0)

/-- What the REAL pass stores. -/
def output (flexible : Bool) : PutOp → Option Bytes
  | putInt8 x => some (bigEndian 1 x.toUInt8.toNat)
  | putInt16 x => some (bigEndian 2 x.toUInt16.toNat)
  | putInt32 x => some (bigEndian 4 x.toUInt32.toNat)
  | putInt64 x => some (bigEndian 8 x.toUInt64.toNat)
  | putVariant x => some (encodeVariant x)
  | putUVarint x => some (encodeUVariant x)
  | putFloat64 bits => some (bigEndian 8 bits.toInt64.toUInt64.toNat)
  | putBool x => some (bigEndian 1 (if x then 1 else 0 : Int8).toUInt8.toNat)
  | putKError x => some (bigEndian 2 x.toUInt16.toNat)
  | putDurationMs ms => some (bigEndian 4 ms.toInt32.toUInt32.toNat)
  | putArrayLength x => arrayLengthOutput flexible x
  | putBytes s => some (bytesLengthOutput flexible s ++ s)
  | putVariantBytes s => some (encodeVariant (variantBytesLength s) ++ s)
  | putRawBytes s => some s
  | putString s => stringOutput flexible s
  | putNullableString s => nullableStringOutput flexible s
  | putStringArray ss => stringArrayOutput flexible ss
  | putInt32Array xs => some (int32ArrayOutput flexible xs)
  | putInt64Array xs => int64ArrayOutput flexible xs
  | putNullableInt32Array xs => some (nullableInt32ArrayOutput flexible xs)
  | putEmptyTaggedFieldArray => some (if flexible then encodeUVariant 0 else [])

/-- The PREP pass does not refuse the argument for its size. -/
def Accepted (flexible : Bool) : PutOp → Prop
  | putBytes s | putVariantBytes s | putRawBytes s => s.length ≤ int32Max
  | putString s | putNullableString s => s.length ≤ if flexible then int32Max else int16Max
  | putStringArray ss => flexible = false → ∀ s ∈ ss, s.length ≤ int16Max
  | _ => True

/-- The arguments for which the two passes agree. -/
def Exact (flexible : Bool) : PutOp → Prop
  | putVariant x => VarintSafe x.toInt
  | putArrayLength x => flexible = true → x ≠ Int32.maxValue
  | putVariantBytes s => s.length ≤ int32Max → VarintSafe s.length
  | putString s | putNullableString s => flexible = true → Int32.ofNat s.length ≠ Int32.maxValue
  | putStringArray ss => flexible = true →
      4 * ss.length ≤ int32Max ∧ (ss.map fun s => Leb128.size (s.length + 1) + s.length).sum = 4 * ss.length
  | putInt32Array xs | putNullableInt32Array xs => 4 * xs.length ≤ int32Max
  | putInt64Array xs => 8 * xs.length ≤ int32Max
  | _ => True

variable {flexible : Bool}

theorem prep_apply (op : PutOp) : Prep flexible op.apply () (op.reserve flexible) := by
  cases op with
  | putInt8 x => exact prep_putInt8 x
  | putInt16 x => exact prep_putInt16 x
  | putInt32 x => exact prep_putInt32 x
  | putInt64 x => exact prep_putInt64 x
  | putVariant x => exact prep_putVariant x
  | putUVarint x => exact prep_putUVarint x
  | putFloat64 bits => exact (prep_grow 8).byPass
  | putBool x => exact (prep_grow 1).byPass
  | putKError x => exact (prep_grow 2).byPass
  | putDurationMs ms => exact (prep_grow 4).byPass
  | putArrayLength x => exact prep_putArrayLength x
  | putBytes s => exact prep_putBytes s
  | putVariantBytes s => exact prep_putVariantBytes s
  | putRawBytes s => exact prep_putRawBytes s
  | putString s => exact prep_putString s
  | putNullableString s => exact prep_putNullableString s
  | putStringArray ss => exact prep_putStringArray ss
  | putInt32Array xs => exact prep_putInt32Array xs
  | putInt64Array xs => exact prep_putInt64Array xs
  | putNullableInt32Array xs => exact prep_putNullableInt32Array xs
  | putEmptyTaggedFieldArray => exact prep_putEmptyTaggedFieldArray

theorem real_apply (op : PutOp) : Real flexible op.apply () (op.output flexible) := by
  cases op with
  | putInt8 x => exact real_putInt8 x
  | putInt16 x => exact real_putInt16 x
  | putInt32 x => exact real_putInt32 x
  | putInt64 x => exact real_putInt64 x
  | putVariant x => exact real_putVariant x
  | putUVarint x => exact real_putUVarint x
  | putFloat64 bits => exact (real_putInt64 _).byPass
  | putBool x => exact (real_putInt8 _).byPass
  | putKError x => exact (real_putInt16 x).byPass
  | putDurationMs ms => exact (real_putInt32 _).byPass
  | putArrayLength x => exact real_putArrayLength x
  | putBytes s => exact real_putBytes s
  | putVariantBytes s => exact real_putVariantBytes s
  | putRawBytes s => exact real_putRawBytes s
  | putString s => exact real_putString s
  | putNullableString s => exact real_putNullableString s
  | putStringArray ss => exact real_putStringArray ss
  | putInt32Array xs => exact real_putInt32Array xs
  | putInt64Array xs => exact real_putInt64Array xs
  | putNullableInt32Array xs => exact real_putNullableInt32Array xs
  | putEmptyTaggedFieldArray => exact real_putEmptyTaggedFieldArray

end PutOp

/-- The passes agree: PREP counts what REAL stores, or refuses, and never meets a fault. -/
def Matches : Except Failure ℕ → Option Bytes → Prop
  | .ok n, output => output.map List.length = some n
  | .error (.code _), _ => True
  | .error (.fault _), _ => False

variable {flexible : Bool}

theorem matches_ok_some {bytes : Bytes} : Matches (.ok n) (some bytes) ↔ bytes.length = n := by
  simp only [Matches, Option.map_some, Option.some.injEq]

theorem matches_arrayLength (x : Int32) : Matches (arrayLengthReserve flexible x) (arrayLengthOutput flexible x) ↔
      (flexible = true → x ≠ Int32.maxValue) := by
  cases flexible with
  | false => simp [arrayLengthReserve, arrayLengthOutput, matches_ok_some]
  | true =>
    by_cases top : x = Int32.maxValue
    · simp [arrayLengthReserve, top, Matches]
    · simp [arrayLengthReserve, arrayLengthOutput, top, matches_ok_some, uvarintLen_eq, length_encodeUVariant]

theorem length_encodeVariant_variantBytesLength {s : Bytes} (small : s.length ≤ int32Max) :
    (encodeVariant (variantBytesLength s)).length = varintLen (variantBytesLength s) ↔ VarintSafe s.length := by
  rw [eq_comm, varintLen_eq_iff]
  cases s with
  | nil => decide
  | cons b s =>
    have bound : (b :: s).length < 2 ^ 63 := by simp only [int32Max] at small; omega
    rw [variantBytesLength, List.isEmpty_cons, if_neg Bool.false_ne_true, Int64.toInt_ofNat_of_lt bound]

theorem matches_variantBytes (s : Bytes) :
    Matches (do let n ← rawReserve s; return varintLen (variantBytesLength s) + n)
      (some (encodeVariant (variantBytesLength s) ++ s)) ↔ (s.length ≤ int32Max → VarintSafe s.length) := by
  by_cases small : s.length ≤ int32Max
  · have reserved : rawReserve s = .ok s.length := if_pos small
    rw [reserved, imp_iff_right small, ← length_encodeVariant_variantBytesLength small]
    refine matches_ok_some.trans ?_
    rw [List.length_append, Nat.add_right_cancel_iff]
  · have reserved : rawReserve s = .error (.code (-1)) := if_neg small
    rw [reserved]
    exact iff_of_true trivial (fun le => absurd le small)

theorem matches_bytes (s : Bytes) : Matches (do let n ← rawReserve s; return bytesLengthSize flexible s + n)
    (some (bytesLengthOutput flexible s ++ s)) := by
  by_cases small : s.length ≤ int32Max
  · have reserved : rawReserve s = .ok s.length := if_pos small
    have length : (bytesLengthOutput flexible s).length = bytesLengthSize flexible s := by
      cases flexible <;> simp [bytesLengthOutput, bytesLengthSize, length_encodeUVariant, uvarintLen_eq]
    rw [reserved]
    refine matches_ok_some.mpr ?_
    rw [List.length_append, length]
  · have reserved : rawReserve s = .error (.code (-1)) := if_neg small
    rw [reserved]
    exact trivial

theorem matches_raw (s : Bytes) : Matches (rawReserve s) (some s) := by
  unfold rawReserve
  split
  · exact matches_ok_some.mpr rfl
  · exact trivial

theorem matches_string (s : Bytes) : Matches (stringReserve flexible s) (stringOutput flexible s) ↔
    (flexible = true → Int32.ofNat s.length ≠ Int32.maxValue) := by
  cases flexible with
  | false =>
    refine iff_of_true ?_ (fun absurd => Bool.noConfusion absurd)
    simp only [stringReserve, stringOutput, Bool.false_eq_true, if_false]
    split
    · rw [matches_ok_some, List.length_append, length_bigEndian]
    · exact trivial
  | true =>
    by_cases top : Int32.ofNat s.length = Int32.maxValue
    · simp only [stringReserve, arrayLengthReserve, top, if_true]
      exact iff_of_false id (fun ne => ne trivial rfl)
    · refine iff_of_true ?_ (fun _ => top)
      simp only [stringReserve, stringOutput, arrayLengthReserve, arrayLengthOutput, top, if_true, if_false, rawReserve]
      split
      · refine matches_ok_some.mpr ?_
        rw [List.length_append, length_encodeUVariant, uvarintLen_eq]
      · exact trivial

theorem matches_nullableString (s : Bytes) :
    Matches (nullableStringReserve flexible s) (nullableStringOutput flexible s) ↔
      (flexible = true → Int32.ofNat s.length ≠ Int32.maxValue) := by
  cases s with
  | nil =>
    refine iff_of_true ?_ (fun _ => by decide)
    refine matches_ok_some.mpr ?_
    cases flexible <;> simp [length_encodeUVariant, uvarintLen_eq]
  | cons b s => exact matches_string (b :: s)

theorem matches_int32Array (xs : List Int32) :
    Matches (int32ArrayReserve flexible xs) (some (int32ArrayOutput flexible xs)) ↔ 4 * xs.length ≤ int32Max := by
  unfold int32ArrayReserve productReserve
  split
  · next small =>
    refine iff_of_true (matches_ok_some.mpr ?_) small
    cases flexible <;>
      simp [int32ArrayOutput, length_encodeUVariant, uvarintLen_eq, Nat.mul_comm]
  · next large => exact iff_of_false id large

theorem matches_nullableInt32Array (xs : List Int32) :
    Matches (nullableInt32ArrayReserve flexible xs) (some (nullableInt32ArrayOutput flexible xs)) ↔
      4 * xs.length ≤ int32Max := by
  cases xs with
  | nil =>
    refine iff_of_true (matches_ok_some.mpr ?_) (by decide)
    cases flexible <;> simp [nullableInt32ArrayOutput, length_encodeUVariant, uvarintLen_eq]
  | cons x xs => exact matches_int32Array (x :: xs)

theorem ofNat_ne_maxValue (small : n < int32Max) : Int32.ofNat n ≠ Int32.maxValue := by
  intro top
  have value := congrArg Int32.toInt top
  rw [Int32.toInt_ofNat_of_lt (by simp only [int32Max] at small; omega)] at value
  simp only [int32Max] at small
  have : Int32.maxValue.toInt = 2147483647 := by decide
  omega

theorem matches_int64Array (xs : List Int64) :
    Matches (int64ArrayReserve flexible xs) (int64ArrayOutput flexible xs) ↔ 8 * xs.length ≤ int32Max := by
  by_cases small : 8 * xs.length ≤ int32Max
  · refine iff_of_true ?_ small
    have product : productReserve 8 xs.length = .ok (8 * xs.length) := if_pos small
    have below : Int32.ofNat xs.length ≠ Int32.maxValue :=
      ofNat_ne_maxValue (by simp only [int32Max] at small ⊢; omega)
    simp only [int64ArrayReserve, int64ArrayOutput, product, arrayLengthReserve, arrayLengthOutput, below, if_false]
    cases flexible <;>
      refine matches_ok_some.mpr ?_ <;>
      simp [length_encodeUVariant, uvarintLen_eq, Nat.mul_comm]
  · refine iff_of_false ?_ small
    have product : productReserve 8 xs.length = .error (.fault .overflow) := if_neg small
    unfold int64ArrayReserve arrayLengthReserve
    rw [product]
    split_ifs <;> exact id

/-- The compact length of a string as an `int` plus one is exact below the largest `int`. -/
theorem compactLength_toNat (small : n < int32Max) : (Int32.ofNat n + 1).toInt64.toUInt64.toNat = n + 1 := by
  simp only [int32Max] at small
  have sum : Int32.ofNat n + 1 = Int32.ofNat (n + 1) := by rw [Int32.ofNat_add]; rfl
  have wide : (Int32.ofNat (n + 1)).toInt64.toInt = (n + 1 : ℕ) := by
    rw [Int32.toInt_toInt64, Int32.toInt_ofNat_of_lt (by omega)]
  have cond := BitVec.toInt_eq_toNat_cond (Int32.ofNat (n + 1)).toInt64.toBitVec
  rw [Int64.toInt_toBitVec, wide] at cond
  have word : (Int32.ofNat (n + 1)).toInt64.toUInt64.toNat = (Int32.ofNat (n + 1)).toInt64.toBitVec.toNat := rfl
  have bound := (Int32.ofNat (n + 1)).toInt64.toBitVec.isLt
  rw [sum, word]
  split_ifs at cond <;> omega

theorem length_stringBytes {s : Bytes} (small : s.length < int32Max) :
    (stringBytes true s).length = Leb128.size (s.length + 1) + s.length := by
  rw [stringBytes, if_pos rfl, List.length_append, length_encodeUVariant, compactLength_toNat small]

/-- A string with its length in front, inside a total no larger than the largest `int`, is shorter. -/
theorem lt_int32Max_of_sum_le (prefixSize : Bytes → ℕ) (positive : ∀ s, 0 < prefixSize s) (ss : List Bytes)
    (le : (ss.map fun s => prefixSize s + s.length).sum ≤ int32Max) : ∀ s ∈ ss, s.length < int32Max := by
  intro s member
  have part := List.single_le_sum (fun _ _ => Nat.zero_le _) _
    (List.mem_map_of_mem (f := fun s : Bytes => prefixSize s + s.length) member)
  have := positive s
  omega

theorem length_flatMap_stringBytes (ss : List Bytes) : (ss.flatMap (stringBytes true)).length =
    (ss.map fun s => (encodeUVariant (Int32.ofNat s.length + 1).toInt64.toUInt64).length + s.length).sum := by
  rw [List.length_flatMap]
  refine congrArg List.sum (List.map_congr_left fun s _ => ?_)
  rw [stringBytes, if_pos rfl, List.length_append]

/-- In the flexible mode the strings have to take four bytes each on average. -/
theorem matches_stringArray (ss : List Bytes) :
    Matches (stringArrayReserve flexible ss) (stringArrayOutput flexible ss) ↔ (flexible = true →
      4 * ss.length ≤ int32Max ∧ (ss.map fun s => Leb128.size (s.length + 1) + s.length).sum = 4 * ss.length) := by
  cases flexible with
  | false =>
    refine iff_of_true ?_ (fun absurd => Bool.noConfusion absurd)
    have strings : stringsOutput false ss = some (ss.flatMap (stringBytes false)) :=
      if_pos fun _ _ absurd => Bool.noConfusion absurd
    have length : (ss.flatMap (stringBytes false)).length = (ss.map fun s => 2 + s.length).sum := by
      simp [List.length_flatMap, stringBytes]
    simp only [stringArrayReserve, stringArrayOutput, strings, stringsReserve, arrayLengthReserve,
      arrayLengthOutput, Bool.false_eq_true, if_false]
    split
    · refine matches_ok_some.mpr ?_
      rw [List.length_append, length, length_bigEndian]
    · exact trivial
  | true =>
    rw [imp_iff_right rfl]
    by_cases small : 4 * ss.length ≤ int32Max
    · have product : stringsReserve true ss = .ok (4 * ss.length) := if_pos small
      have below : Int32.ofNat ss.length ≠ Int32.maxValue :=
        ofNat_ne_maxValue (by simp only [int32Max] at small ⊢; omega)
      have reserved : stringArrayReserve true ss =
          .ok (uvarintLen (Int32.ofNat ss.length + 1).toInt64.toUInt64 + 4 * ss.length) := by
        simp only [stringArrayReserve, product, arrayLengthReserve, below, if_true, if_false]
        rfl
      have prefixed : stringArrayOutput true ss = (stringsOutput true ss).map
          (encodeUVariant (Int32.ofNat ss.length + 1).toInt64.toUInt64 ++ ·) := by
        simp only [stringArrayOutput, arrayLengthOutput, below, if_true, if_false]
        cases stringsOutput true ss <;> rfl
      have total (short : ∀ s ∈ ss, s.length < int32Max) : stringsOutput true ss = some (ss.flatMap (stringBytes true)) ∧
          (ss.flatMap (stringBytes true)).length = (ss.map fun s => Leb128.size (s.length + 1) + s.length).sum := by
        refine ⟨if_pos fun s member _ => ofNat_ne_maxValue (short s member), ?_⟩
        rw [List.length_flatMap]
        exact congrArg List.sum (List.map_congr_left fun s member => length_stringBytes (short s member))
      rw [reserved, prefixed, and_iff_right small]
      constructor
      · intro agree
        cases strings : stringsOutput true ss with
        | none => rw [strings] at agree; cases agree
        | some rest =>
          obtain rfl : ss.flatMap (stringBytes true) = rest := by
            unfold stringsOutput at strings
            split at strings
            · exact Option.some.inj strings
            · cases strings
          have count : (ss.flatMap (stringBytes true)).length = 4 * ss.length := by
            rw [strings] at agree
            have length := matches_ok_some.mp agree
            rw [List.length_append, length_encodeUVariant, uvarintLen_eq] at length
            omega
          have short := lt_int32Max_of_sum_le (fun s => (encodeUVariant (Int32.ofNat s.length + 1).toInt64.toUInt64).length)
            (fun s => by rw [length_encodeUVariant]; exact Leb128.size_pos _) ss
            (by rw [← length_flatMap_stringBytes, count]; exact small)
          rw [← (total short).2, count]
      · intro sum
        have short := lt_int32Max_of_sum_le (fun s => Leb128.size (s.length + 1)) (fun s => Leb128.size_pos _) ss
          (sum.trans_le small)
        rw [(total short).1]
        refine matches_ok_some.mpr ?_
        rw [List.length_append, (total short).2, sum, length_encodeUVariant, uvarintLen_eq]
    · refine iff_of_false ?_ (fun both => small both.1)
      have product : stringsReserve true ss = .error (.fault .overflow) := if_neg small
      unfold stringArrayReserve arrayLengthReserve
      rw [product]
      split_ifs <;> exact id

theorem matches_apply (op : PutOp) : Matches (op.reserve flexible) (op.output flexible) ↔ op.Exact flexible := by
  cases op with
  | putVariant x => exact matches_ok_some.trans (eq_comm.trans (varintLen_eq_iff x))
  | putUVarint x => exact iff_of_true (matches_ok_some.mpr (by rw [length_encodeUVariant, uvarintLen_eq])) trivial
  | putArrayLength x => exact matches_arrayLength x
  | putBytes s => exact iff_of_true (matches_bytes s) trivial
  | putVariantBytes s => exact matches_variantBytes s
  | putRawBytes s => exact iff_of_true (matches_raw s) trivial
  | putString s => exact matches_string s
  | putNullableString s => exact matches_nullableString s
  | putStringArray ss => exact matches_stringArray ss
  | putInt32Array xs => exact matches_int32Array xs
  | putInt64Array xs => exact matches_int64Array xs
  | putNullableInt32Array xs => exact matches_nullableInt32Array xs
  | putEmptyTaggedFieldArray =>
    refine iff_of_true (matches_ok_some.mpr ?_) trivial
    cases flexible <;> simp [length_encodeUVariant, uvarintLen_eq]
  | _ => exact iff_of_true (matches_ok_some.mpr (length_bigEndian _ _)) trivial

/-- The amount the PREP pass of `x` adds to `m_length` is the number of bytes the REAL pass stores,
wherever the passes stand: both leave everything else alone, and PREP may refuse. -/
def Agrees (flexible : Bool) (x : Encode Unit) : Prop :=
  ∀ prep real, InPass .PREP flexible prep → InPass .REAL flexible real → real.offset ≤ real.raw.length →
    match x prep with
    | .ok _ counted => ∃ n, counted = { prep with offset := prep.offset + n } ∧
        (real.offset + n ≤ real.raw.length → ∃ bytes, bytes.length = n ∧
          x real = .ok () { real with offset := real.offset + n, raw := overlay real.raw real.offset bytes })
    | .error (.code _) _ => True
    | .error (.fault _) _ => False

/-- An encoder about to run a pass. -/
def start (type : EncoderType) (flexible : Bool) (room : ℕ) : PacketEncoder :=
  { type, raw := List.replicate room 0, flexible := if flexible then 1 else 0 }

theorem inPass_start (type : EncoderType) (room : ℕ) : InPass type flexible (start type flexible room) :=
  ⟨rfl, by cases flexible <;> simp [start]⟩

theorem agrees_iff {x : Encode Unit} {amount : Except Failure ℕ} {output : Option Bytes}
    (counts : Prep flexible x () amount) (stores : Real flexible x () output) :
    Agrees flexible x ↔ Matches amount output := by
  constructor
  · intro agrees
    have counted := counts _ (inPass_start .PREP 0)
    cases amount with
    | error e =>
      obtain ⟨s, failed⟩ := counted
      have both := agrees _ _ (inPass_start .PREP 0) (inPass_start .REAL 0) (Nat.zero_le _)
      rw [failed] at both
      cases e with
      | code _ => trivial
      | fault _ => exact both
    | ok n =>
      have stored := stores _ (inPass_start .REAL (n + (output.getD []).length)) (Nat.zero_le _)
      have both := agrees _ _ (inPass_start .PREP 0) (inPass_start .REAL (n + (output.getD []).length)) (Nat.zero_le _)
      dsimp only at counted
      rw [counted] at both
      obtain ⟨m, same, ran⟩ := both
      obtain rfl : n = m := by simpa [start] using congrArg PacketEncoder.offset same
      obtain ⟨bytes, -, run⟩ := ran (by simp [start])
      cases output with
      | none =>
        obtain ⟨f, s, failed⟩ := stored
        rw [failed] at run
        cases run
      | some real =>
        have run' := stored.1 (by simp [start])
        rw [run] at run'
        refine matches_ok_some.mpr ?_
        have offsets := congrArg (fun r : EStateM.Result Failure PacketEncoder Unit =>
          match r with | .ok _ s => s.offset | .error _ s => s.offset) run'
        simpa [start] using offsets.symm
  · intro matched prep real prepPass realPass inside
    have counted := counts prep prepPass
    have stored := stores real realPass inside
    cases amount with
    | error e =>
      obtain ⟨s, failed⟩ := counted
      rw [failed]
      cases e with
      | code _ => trivial
      | fault _ => exact matched
    | ok n =>
      cases output with
      | none => cases matched
      | some bytes =>
        obtain rfl := matches_ok_some.mp matched
        dsimp only at counted
        rw [counted]
        exact ⟨bytes.length, rfl, fun room => ⟨bytes, rfl, stored.1 room⟩⟩

/-- The elements of an array whose write is accepted are counted in an `int`. -/
theorem productReserve_ok {size count n : ℕ} (counts : productReserve size count = .ok n) : size * count ≤ int32Max := by
  unfold productReserve at counts
  split at counts
  · next small => exact small
  · cases counts

theorem int32ArrayReserve_small {xs : List Int32} (counts : int32ArrayReserve flexible xs = .ok n) :
    4 * xs.length ≤ int32Max := by
  cases product : productReserve 4 xs.length with
  | error e =>
    rw [int32ArrayReserve, product] at counts
    cases counts
  | ok m => exact productReserve_ok product

theorem int64ArrayReserve_small {xs : List Int64} (counts : int64ArrayReserve flexible xs = .ok n) :
    8 * xs.length ≤ int32Max := by
  rw [int64ArrayReserve] at counts
  cases length : arrayLengthReserve flexible (Int32.ofNat xs.length) with
  | error e =>
    rw [length] at counts
    cases counts
  | ok l =>
    cases product : productReserve 8 xs.length with
    | error e =>
      rw [length, product] at counts
      cases counts
    | ok m => exact productReserve_ok product

end Coev.Kafka.PacketEncoder
