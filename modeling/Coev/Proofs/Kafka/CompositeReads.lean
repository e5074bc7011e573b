import Coev.Proofs.Kafka.ArrayLength
import Coev.Proofs.Kafka.PassAgreement

/-! # Reads of strings, byte strings and arrays

The lengths that stand in front of strings and arrays are read back in the flexible mode below the largest `int`.
In the fixed mode an array length is read back up to the maximum of a response when no byte of it fills its top bit.
-/

namespace Coev.Kafka.PacketDecoder

open ByteString DecodeInto Leb128 PacketEncoder

variable {α σ : Type} {flexible : Bool}
variable {bytes : Bytes} {n : ℕ} {s : Bytes} {a : α}

/-! ## Unsigned varints -/

theorem zigzagDecode_injective : Function.Injective zigzagDecode := by
  intro x y same
  apply UInt64.toNat_inj.mp
  rw [← zigzag_zigzagDecode, ← zigzag_zigzagDecode, same]

/-- A signed varint that is read is read as an unsigned one, too: that loop refuses no more. -/
theorem getUVariantLoop_of_getVariantLoop {fuel : ℕ} {acc : UInt64} {pd pd' : PacketDecoder} {x : Int64}
    (run : getVariantLoop fuel acc pd = .ok x pd') :
    ∃ ux, getUVariantLoop fuel acc pd = .ok ux pd' ∧ zigzagDecode ux = x := by
  induction fuel generalizing acc pd with
  | zero => cases run
  | succ fuel ih =>
    cases ahead : pd.unread with
    | nil =>
      simp only [getVariantLoop, ahead, insufficient] at run
      cases run
    | cons b tail =>
      simp only [getVariantLoop, ahead] at run
      simp only [getUVariantLoop, ahead]
      split at run
      · next last =>
        rw [if_pos last]
        split at run
        · cases run
        · next fits =>
          injection run with same moved
          have shift : ¬ (fuel = 0 ∧ (acc ||| (b &&& 0x7F).toUInt64 <<< UInt64.ofNat (7 * (9 - fuel))) >>> 63 ≠ 0) := by
            rintro ⟨none_, overflow⟩
            refine fits ⟨none_, .inl (and_overflow_ne_zero ?_)⟩
            by_contra below
            apply overflow
            apply UInt64.toNat_inj.mp
            rw [UInt64.toNat_shiftRight, Nat.shiftRight_eq_div_pow]
            exact Nat.div_eq_of_lt (not_le.mp below)
          rw [if_neg shift]
          exact ⟨_, by rw [moved], same⟩
      · next more =>
        rw [if_neg more]
        exact ih run

/-- An unsigned varint of at most nine bytes is read back. -/
theorem reads_getUVariant {x : UInt64} (small : x.toNat < 2 ^ 63) : Reads flexible getUVariant (encodeUVariant x) x := by
  intro pd rest mode ahead
  have same : encodeVariant (zigzagDecode x) = encodeUVariant x := by
    rw [encodeVariant_eq, zigzag_zigzagDecode, encodeUVariant_eq]
  have readable : VarintReadable (zigzagDecode x).toInt := by
    rw [varintReadable_iff, zigzag_zigzagDecode]
    exact small
  rw [← same] at ahead ⊢
  have read := @reads_getVariant flexible _ readable pd rest mode ahead
  obtain ⟨ux, run, value⟩ := getUVariantLoop_of_getVariantLoop read
  rwa [zigzagDecode_injective value] at run

/-! ## Lengths -/

/-- The counts that are read back: in the fixed mode no byte of them may fill its top bit. -/
def CountFits (flexible : Bool) (n : ℕ) : Prop := if flexible then n < int32Max else CountReadable (bigEndian 4 n)
deriving Decidable

theorem reads_fixed {fixed flex : Decode α} (reads : Reads false fixed bytes a) :
    Reads false (byMode fixed flex) bytes a := by
  intro pd rest mode ahead
  have isFixed : pd.flexible = 0 := mode.mpr rfl
  rw [byMode, if_pos isFixed]
  exact reads pd rest mode ahead

theorem reads_flexible {fixed flex : Decode α} (reads : Reads true flex bytes a) :
    Reads true (byMode fixed flex) bytes a := by
  intro pd rest mode ahead
  have notFixed : ¬ pd.flexible = 0 := fun zero => Bool.noConfusion (mode.mp zero)
  rw [byMode, if_neg notFixed]
  exact reads pd rest mode ahead

theorem Reads.of_eq {get : Decode α} {bytes bytes' : Bytes} (reads : Reads flexible get bytes a) (eq : bytes = bytes') :
    Reads flexible get bytes' a := eq ▸ reads

/-- Read a length and go on. -/
theorem Reads.next {β : Type} {x : Decode α} {k : α → Decode β} {b : β} (first : Reads flexible x bytes a)
    (next : Reads flexible (k a) [] b) : Reads flexible (x >>= k) bytes b :=
  (first.bind next).of_eq (List.append_nil _)

theorem int32_ofNat_toInt (small : n ≤ int32Max) : (Int32.ofNat n).toInt = n :=
  Int32.toInt_ofNat_of_lt (by simp only [int32Max] at small; omega)

theorem int32_ofNat_ne_minusOne (small : n ≤ int32Max) : Int32.ofNat n ≠ -1 := by
  intro same
  have value := congrArg Int32.toInt same
  rw [int32_ofNat_toInt small] at value
  have minusOne : (-1 : Int32).toInt = -1 := rfl
  omega

theorem int32_ofNat_toNat (small : n ≤ int32Max) : (Int32.ofNat n).toUInt32.toNat = n := by
  have bound : n < 2 ^ 32 := by simp only [int32Max] at small; omega
  have word : (Int32.ofNat n).toUInt32.toNat = n % 2 ^ 32 := by
    have bits : (Int32.ofNat n).toBitVec = BitVec.ofNat 32 n := rfl
    change (Int32.ofNat n).toBitVec.toNat = _
    rw [bits, BitVec.toNat_ofNat]
  rw [word, Nat.mod_eq_of_lt bound]

/-- A length plus one, as it stands in front of a compact string. -/
theorem uint64_ofNat_toNat (small : n ≤ int32Max) : (UInt64.ofNat (n + 1)).toNat = n + 1 :=
  UInt64.toNat_ofNat_of_lt (by simp only [int32Max] at small; simp only [UInt64.size]; omega)

/-- One less than a compact length, cut down to an `int`. -/
theorem compact_pred {x : UInt64} (value : x.toNat = n + 1) : (x - 1).toInt64.toInt32 = Int32.ofNat n := by
  have eq : x = UInt64.ofNat n + 1 := by
    apply UInt64.toNat_inj.mp
    have bound := x.toNat_lt
    rw [UInt64.toNat_add, UInt64.toNat_ofNat', value]
    have one : (1 : UInt64).toNat = 1 := rfl
    rw [one]
    omega
  rw [eq, UInt64.add_sub_cancel]
  exact Int64.toInt32_ofNat' 

/-- The flexible mode reads a compact length. -/
theorem reads_compactLength {x : UInt64} (value : x.toNat = n + 1) (small : n ≤ int32Max) :
    Reads true getArrayLength (encodeUVariant x) (Int32.ofNat n) := by
  have fits : x.toNat < 2 ^ 63 := by simp only [int32Max] at small; omega
  have positive : x ≠ 0 := by
    rintro rfl
    cases value
  apply reads_flexible
  have mapped := (@reads_getUVariant true _ fits).map fun n => if n = 0 then (0 : Int32) else (n - 1).toInt64.toInt32
  rwa [if_neg positive, compact_pred value] at mapped

theorem reads_getArrayLength_fixed {n : Int32} (four : bytes.length = 4) (word : signedWord bytes = n)
    (small : n.toInt ≤ maxResponseSize) : Reads false getArrayLength bytes n := by
  apply reads_fixed
  have taken : Reads false (take 4) bytes bytes := by
    rw [← four]
    exact reads_take bytes
  apply taken.next
  dsimp only
  rw [word, if_neg (not_lt.mpr small)]
  exact Reads.pure n

theorem signedWord_of_countReadable (four : bytes.length = 4) (readable : CountReadable bytes) :
    (signedWord bytes).toInt = value bytes := by
  obtain ⟨a, b, c, d, rfl⟩ := exists_quad four
  exact signedWord_of_small readable.2

theorem countFits_le {n : ℕ} (small : n ≤ int32Max) (fits : CountFits flexible n) :
    flexible = false → n ≤ maxResponseSize := by
  rintro rfl
  have within := fits.1
  rwa [value_bigEndian_of_lt (by simp only [int32Max] at small; omega)] at within

/-- What is stored for a count is read back as the count. -/
theorem reads_getArrayLength {n : ℕ} {bytes : Bytes} (small : n ≤ int32Max) (fits : CountFits flexible n)
    (stored : arrayLengthOutput flexible (Int32.ofNat n) = some bytes) :
    Reads flexible getArrayLength bytes (Int32.ofNat n) := by
  cases flexible with
  | false =>
    obtain rfl : bigEndian 4 (Int32.ofNat n).toUInt32.toNat = bytes := Option.some.inj stored
    rw [int32_ofNat_toNat small]
    have bound : n < 256 ^ 4 := by simp only [int32Max] at small; omega
    have word := signedWord_of_countReadable (length_bigEndian 4 n) fits
    rw [value_bigEndian_of_lt bound] at word
    apply reads_getArrayLength_fixed (length_bigEndian 4 n)
    · exact Int32.toInt_inj.mp (word.trans (int32_ofNat_toInt small).symm)
    · rw [int32_ofNat_toInt small]
      exact_mod_cast countFits_le small fits rfl
  | true =>
    have below : n < int32Max := fits
    have notTop := ofNat_ne_maxValue below
    rw [arrayLengthOutput, if_pos rfl, if_neg notTop] at stored
    obtain rfl := Option.some.inj stored
    exact reads_compactLength (compactLength_toNat below) small


/-! ## Strings -/

theorem byMode_bind {β : Type} (fixed flex : Decode α) (k : α → Decode β) :
    byMode fixed flex >>= k = byMode (fixed >>= k) (flex >>= k) := by
  funext pd
  by_cases isFixed : pd.flexible = 0
  · simp only [bind, EStateM.bind, byMode, if_pos isFixed]
  · simp only [bind, EStateM.bind, byMode, if_neg isFixed]

/-- What `getString` does with the length that stands in front. -/
def stringOf (length : Int32) : Decode Bytes := do
  let length ← checkStringLength length
  if length = -1 then return [] else take length.toInt.toNat

theorem reads_stringOf (small : s.length ≤ int32Max) : Reads flexible (stringOf (Int32.ofNat s.length)) s s := by
  intro pd rest mode ahead
  have length := int32_ofNat_toInt small
  have notNegative : ¬ Int32.ofNat s.length < -1 := by
    rw [Int32.lt_iff_toInt_lt, length]
    have minusOne : (-1 : Int32).toInt = -1 := rfl
    omega
  have present := int32_ofNat_ne_minusOne small
  have enough : ¬ (pd.remaining : ℤ) < (Int32.ofNat s.length).toInt := by
    rw [remaining_eq, ahead, List.length_append, length]
    omega
  have checked : checkStringLength (Int32.ofNat s.length) pd = .ok (Int32.ofNat s.length) pd := by
    rw [checkStringLength, if_neg notNegative, if_neg enough]
  rw [stringOf, EStateM.bind_of_ok checked, if_neg present, length, Int.toNat_natCast]
  exact reads_take s pd rest mode ahead

/-- The length `-1` stands for a null string. -/
theorem reads_stringOf_null : Reads flexible (stringOf (-1)) [] [] := by
  intro pd rest mode ahead
  have notNegative : ¬ (-1 : Int32) < -1 := by decide
  have enough : ¬ (pd.remaining : ℤ) < (-1 : Int32).toInt := by
    have minusOne : (-1 : Int32).toInt = -1 := rfl
    omega
  have checked : checkStringLength (-1) pd = .ok (-1) pd := by
    rw [checkStringLength, if_neg notNegative, if_neg enough]
  rw [stringOf, EStateM.bind_of_ok checked, if_pos rfl]
  rfl

theorem getString_eq : getString = byMode (getInt16 >>= fun length => stringOf length.toInt32)
    (getUVariant >>= fun length => stringOf (if length = 0 then -1 else (length - 1).toInt64.toInt32)) := by
  rw [getString, getStringLength, byMode_bind, bind_assoc, bind_assoc]
  rfl

theorem int16_ofNat_toInt32 (small : n ≤ int16Max) : (Int16.ofNat n).toInt32 = Int32.ofNat n := by
  apply Int32.toInt_inj.mp
  simp only [int16Max] at small
  rw [Int16.toInt_toInt32, Int16.toInt_ofNat_of_lt (by omega), Int32.toInt_ofNat_of_lt (by omega)]

/-- What is stored for a string that is accepted in the fixed mode. -/
theorem string_written_fixed (accepted : stringReserve false s = .ok n) (stored : stringOutput false s = some bytes) :
    s.length ≤ int16Max ∧ bigEndian 2 (Int16.ofNat s.length).toUInt16.toNat ++ s = bytes := by
  refine ⟨?_, Option.some.inj stored⟩
  by_contra large
  rw [stringReserve, if_neg Bool.false_ne_true, if_neg large] at accepted
  cases accepted

/-- What is stored for a string that is accepted in the flexible mode. -/
theorem string_written_flexible (accepted : stringReserve true s = .ok n) (stored : stringOutput true s = some bytes) :
    s.length < int32Max ∧ encodeUVariant (Int32.ofNat s.length + 1).toInt64.toUInt64 ++ s = bytes := by
  rw [stringOutput, if_pos rfl] at stored
  obtain ⟨length, isLength, rfl⟩ := Option.map_eq_some_iff.mp stored
  have small : s.length ≤ int32Max := by
    by_contra large
    have refused : rawReserve s = .error (.code (-1)) := if_neg large
    rw [stringReserve, if_pos rfl, refused] at accepted
    cases prefix_ : arrayLengthReserve true (Int32.ofNat s.length) with
    | error e =>
      rw [prefix_] at accepted
      cases accepted
    | ok m =>
      rw [prefix_] at accepted
      cases accepted
  rw [arrayLengthOutput, if_pos rfl] at isLength
  split at isLength
  · cases isLength
  · next notTop =>
    obtain rfl := Option.some.inj isLength
    refine ⟨lt_of_le_of_ne small fun same => notTop ?_, rfl⟩
    rw [same]
    rfl

/-- The compact length of a string that is there. -/
theorem compactLength_ne_zero (small : n < int32Max) : (Int32.ofNat n + 1).toInt64.toUInt64 ≠ 0 := by
  intro zero
  have value := compactLength_toNat small
  rw [zero] at value
  cases value

/-- A string is read back. -/
theorem reads_getString (accepted : stringReserve flexible s = .ok n) (stored : stringOutput flexible s = some bytes) :
    Reads flexible getString bytes s := by
  rw [getString_eq]
  cases flexible with
  | false =>
    obtain ⟨small, rfl⟩ := string_written_fixed accepted stored
    apply reads_fixed
    apply (reads_getInt16 _).bind
    rw [int16_ofNat_toInt32 small]
    exact reads_stringOf (le_trans small (by decide))
  | true =>
    obtain ⟨small, rfl⟩ := string_written_flexible accepted stored
    have value := compactLength_toNat small
    apply reads_flexible
    apply (reads_getUVariant (by simp only [int32Max] at small; omega)).bind
    rw [if_neg (compactLength_ne_zero small), compact_pred value]
    exact reads_stringOf small.le

/-- An empty nullable string is stored as null, and null is read as an empty one. -/
theorem reads_getNullableString (accepted : nullableStringReserve flexible s = .ok n)
    (stored : nullableStringOutput flexible s = some bytes) : Reads flexible getNullableString bytes s := by
  cases s with
  | cons b s => exact reads_getString accepted stored
  | nil =>
    obtain rfl := Option.some.inj stored
    rw [getNullableString, getString_eq]
    cases flexible with
    | false =>
      apply reads_fixed
      apply (reads_getInt16 (-1)).next
      exact reads_stringOf_null
    | true =>
      apply reads_flexible
      have zero : (0 : UInt64).toNat < 2 ^ 63 := by decide
      apply (reads_getUVariant zero).next
      rw [if_pos rfl]
      exact reads_stringOf_null

/-! ## Byte strings -/

theorem reads_getBytes (small : s.length ≤ int32Max) :
    Reads flexible getBytes (bytesLengthOutput flexible s ++ s) s := by
  cases flexible with
  | true =>
    have value := uint64_ofNat_toNat small
    apply reads_flexible
    apply (reads_getUVariant (by rw [value]; simp only [int32Max] at small; omega)).bind
    rw [compact_pred value]
    exact reads_getRawBytes small
  | false =>
    apply reads_fixed
    cases s with
    | nil =>
      have length := @reads_getInt32 false (-1)
      apply length.bind
      rw [if_pos rfl]
      exact Reads.pure []
    | cons b s =>
      have length := @reads_getInt32 false (Int32.ofNat (b :: s).length)
      apply length.bind
      rw [if_neg (int32_ofNat_ne_minusOne small)]
      exact reads_getRawBytes small

/-! ## Arrays -/

/-- Elements are read one after the other. -/
theorem reads_repeatRead {get : Decode α} {f : α → Bytes} {xs : List α} (each : ∀ x ∈ xs, Reads flexible get (f x) x) :
    Reads flexible (repeatRead get xs.length) (xs.flatMap f) xs := by
  induction xs with
  | nil => exact Reads.pure []
  | cons x xs ih =>
    obtain ⟨head, tail⟩ := List.forall_mem_cons.mp each
    rw [List.flatMap_cons]
    apply head.bind
    apply (ih tail).next
    exact Reads.pure (x :: xs)

theorem Reads.unchecked {get : Decode α} (reads : Reads flexible get bytes a) :
    Reads flexible (unchecked get) bytes a := by
  intro pd rest mode ahead
  rw [PacketDecoder.unchecked, reads pd rest mode ahead]

/-- Enough bytes remain for the elements that follow. -/
theorem Reads.checked {k : Decode α} {size : ℕ} {n : Int32} (reads : Reads flexible k bytes a)
    (length : bytes.length = size * n.toInt.toNat) (small : bytes.length ≤ int32Max) :
    Reads flexible (checkRemaining size n >>= fun _ => k) bytes a := by
  intro pd rest mode ahead
  have enough : ¬ pd.remaining < size * n.toInt.toNat := by
    rw [remaining_eq, ahead, List.length_append, ← length]
    omega
  have checked : checkRemaining size n pd = .ok () pd := by
    rw [checkRemaining, if_neg (by omega), if_neg enough]
  rw [EStateM.bind_of_ok checked]
  exact reads pd rest mode ahead

/-- A count that is not positive ends the read of an array. -/
theorem positive_iff (small : n ≤ int32Max) : Int32.ofNat n ≤ 0 ↔ n = 0 := by
  rw [Int32.le_iff_toInt_le, int32_ofNat_toInt small]
  have zero : (0 : Int32).toInt = 0 := rfl
  omega

theorem length_flatMap_bigEndian {f : α → ℕ} (w : ℕ) (xs : List α) :
    (xs.flatMap fun x => bigEndian w (f x)).length = w * xs.length := by
  rw [List.length_flatMap]
  simp [Nat.mul_comm]

theorem reads_getStringArray {ss : List Bytes} (small : ss.length ≤ int32Max) (fits : CountFits flexible ss.length)
    (each : ∀ s ∈ ss, ∃ n, stringReserve flexible s = .ok n) (stored : stringArrayOutput flexible ss = some bytes) :
    Reads flexible getStringArray bytes ss := by
  obtain ⟨length, isLength, rest⟩ := Option.bind_eq_some_iff.mp stored
  obtain ⟨strings, isStrings, same⟩ := Option.bind_eq_some_iff.mp rest
  obtain rfl := Option.some.inj same
  rw [stringsOutput] at isStrings
  split at isStrings
  · next notTop =>
    obtain rfl := Option.some.inj isStrings
    apply (reads_getArrayLength small fits isLength).bind
    by_cases empty : ss = []
    · subst empty
      exact Reads.pure []
    · have some_ : ¬ Int32.ofNat ss.length ≤ 0 := by
        rw [positive_iff small]
        exact mt List.eq_nil_of_length_eq_zero empty
      rw [if_neg some_, int32_ofNat_toInt small, Int.toNat_natCast]
      apply reads_repeatRead
      intro s member
      obtain ⟨n, accepted⟩ := each s member
      apply reads_getString accepted
      rw [stringOutput_eq, if_pos (notTop s member)]
  · cases isStrings

theorem reads_getInt64Array {xs : List Int64} (small : 8 * xs.length ≤ int32Max) (fits : CountFits flexible xs.length)
    (stored : int64ArrayOutput flexible xs = some bytes) : Reads flexible getInt64Array bytes xs := by
  have count : xs.length ≤ int32Max := by omega
  obtain ⟨length, isLength, same⟩ := Option.bind_eq_some_iff.mp stored
  obtain rfl := Option.some.inj same
  apply (reads_getArrayLength count fits isLength).bind
  by_cases empty : xs = []
  · subst empty
    exact Reads.pure []
  · have some_ : ¬ Int32.ofNat xs.length ≤ 0 := by
      rw [positive_iff count]
      exact mt List.eq_nil_of_length_eq_zero empty
    have size := @length_flatMap_bigEndian Int64 (fun x => x.toUInt64.toNat) 8 xs
    have nat : (Int32.ofNat xs.length).toInt.toNat = xs.length := by rw [int32_ofNat_toInt count, Int.toNat_natCast]
    have elements :=
      @reads_repeatRead _ flexible getInt64 (fun x => bigEndian 8 x.toUInt64.toNat) xs fun x _ => reads_getInt64 x
    rw [if_neg some_]
    apply Reads.checked
    · rwa [nat]
    · rw [size, nat]
    · omega

/-- What an array of 32-bit integers and its nullable form leave is read back by the one reader that there is. -/
theorem reads_getInt32Array {xs : List Int32} (small : 4 * xs.length ≤ int32Max)
    (fits : flexible = false → CountReadable (bigEndian 4 xs.length)) :
    Reads flexible getInt32Array (int32ArrayOutput flexible xs) xs := by
  have count : xs.length ≤ int32Max := by omega
  have nat : (Int32.ofNat xs.length).toInt.toNat = xs.length := by rw [int32_ofNat_toInt count, Int.toNat_natCast]
  have size := @length_flatMap_bigEndian Int32 (fun x => x.toUInt32.toNat) 4 xs
  cases flexible with
  | false =>
    have length := @reads_getArrayLength false xs.length _ count (fits rfl) rfl
    rw [getInt32Array]
    apply reads_fixed
    have fixedLength :
        Reads false getArrayLength (bigEndian 4 (Int32.ofNat xs.length).toUInt32.toNat) (Int32.ofNat xs.length) :=
      length
    apply fixedLength.bind
    by_cases empty : xs = []
    · subst empty
      exact Reads.pure []
    · have some_ : ¬ Int32.ofNat xs.length ≤ 0 := by
        rw [positive_iff count]
        exact mt List.eq_nil_of_length_eq_zero empty
      have elements :=
        @reads_repeatRead _ false getInt32 (fun x => bigEndian 4 x.toUInt32.toNat) xs fun x _ => reads_getInt32 x
      rw [if_neg some_]
      apply Reads.checked
      · rwa [nat]
      · rw [size, nat]
      · omega
  | true =>
    have value : (UInt64.ofNat xs.length + 1).toNat = xs.length + 1 := by
      have sum : UInt64.ofNat xs.length + 1 = UInt64.ofNat (xs.length + 1) := by rw [UInt64.ofNat_add]; rfl
      rw [sum, uint64_ofNat_toNat count]
    have positive : ¬ UInt64.ofNat xs.length + 1 = 0 := by
      intro zero
      rw [zero] at value
      cases value
    have sized : checkSize (Int32.ofNat xs.length) = pure () := by
      have nonneg : ¬ Int32.ofNat xs.length < 0 := by
        rw [Int32.lt_iff_toInt_lt, int32_ofNat_toInt count]
        have zero : (0 : Int32).toInt = 0 := rfl
        omega
      rw [checkSize, if_neg nonneg]
    rw [getInt32Array]
    apply reads_flexible
    have length : Reads true getUVariant (encodeUVariant (UInt64.ofNat xs.length + 1)) (UInt64.ofNat xs.length + 1) :=
      reads_getUVariant (by rw [value]; simp only [int32Max] at count; omega)
    apply length.bind
    rw [if_neg positive]
    dsimp only
    rw [compact_pred value, sized, pure_bind, nat]
    exact reads_repeatRead fun x _ => (reads_getInt32 x).unchecked

theorem reads_getInt32Array_null :
    Reads flexible getInt32Array (if flexible then encodeUVariant 0 else bigEndian 4 (-1 : Int32).toUInt32.toNat) [] := by
  cases flexible with
  | false =>
    have word : signedWord (bigEndian 4 (-1 : Int32).toUInt32.toNat) = -1 := by decide
    rw [getInt32Array]
    apply reads_fixed
    apply (reads_getArrayLength_fixed (length_bigEndian 4 _) word (by decide)).next
    exact Reads.pure []
  | true =>
    have zero : (0 : UInt64).toNat < 2 ^ 63 := by decide
    rw [getInt32Array]
    apply reads_flexible
    apply (reads_getUVariant zero).next
    exact Reads.pure []

end Coev.Kafka.PacketDecoder
