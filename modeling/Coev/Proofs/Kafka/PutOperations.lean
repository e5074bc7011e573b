import Coev.Proofs.Kafka.Passes

/-! # The put operations, pass by pass

What each `put` of the encoder counts in PREP and stores in REAL, in both modes. The lengths are
kept as the code computes them (a cast size, a sum modulo `2 ^ 32`); a refusal is an error code of
the PREP pass, and `int` overflow is a fault of whichever pass meets it.
-/

namespace Coev.Kafka.PacketEncoder

open ByteString

variable {flexible : Bool}

/-! ## Fixed-size values and varints -/

theorem prep_putInt8 (x : Int8) : Prep flexible (putInt8 x) () (.ok 1) := (prep_grow 1).byPass

theorem prep_putInt16 (x : Int16) : Prep flexible (putInt16 x) () (.ok 2) := (prep_grow 2).byPass

theorem prep_putInt32 (x : Int32) : Prep flexible (putInt32 x) () (.ok 4) := (prep_grow 4).byPass

theorem prep_putInt64 (x : Int64) : Prep flexible (putInt64 x) () (.ok 8) := (prep_grow 8).byPass

theorem prep_putVariant (x : Int64) : Prep flexible (putVariant x) () (.ok (varintLen x)) :=
  (prep_grow _).byPass

theorem prep_putUVarint (x : UInt64) : Prep flexible (putUVarint x) () (.ok (uvarintLen x)) :=
  (prep_grow _).byPass

theorem real_putInt8 (x : Int8) : Real flexible (putInt8 x) () (some (bigEndian 1 x.toUInt8.toNat)) :=
  (real_store _).byPass

theorem real_putInt16 (x : Int16) : Real flexible (putInt16 x) () (some (bigEndian 2 x.toUInt16.toNat)) :=
  (real_store _).byPass

theorem real_putInt32 (x : Int32) : Real flexible (putInt32 x) () (some (bigEndian 4 x.toUInt32.toNat)) :=
  (real_store _).byPass

theorem real_putInt64 (x : Int64) : Real flexible (putInt64 x) () (some (bigEndian 8 x.toUInt64.toNat)) :=
  (real_store _).byPass

theorem real_putVariant (x : Int64) : Real flexible (putVariant x) () (some (encodeVariant x)) :=
  (real_store _).byPass

theorem real_putUVarint (x : UInt64) : Real flexible (putUVarint x) () (some (encodeUVariant x)) :=
  (real_store _).byPass

/-! ## Array lengths -/

/-- What PREP counts for an array length. -/
def arrayLengthReserve (flexible : Bool) (x : Int32) : Except Failure ℕ :=
  if flexible then
    if x = Int32.maxValue then .error (.fault .overflow) else .ok (uvarintLen (x + 1).toInt64.toUInt64)
  else .ok 4

/-- What REAL stores for an array length. -/
def arrayLengthOutput (flexible : Bool) (x : Int32) : Option Bytes :=
  if flexible then
    if x = Int32.maxValue then none else some (encodeUVariant (x + 1).toInt64.toUInt64)
  else some (bigEndian 4 x.toUInt32.toNat)

theorem prep_putArrayLength (x : Int32) : Prep flexible (putArrayLength x) () (arrayLengthReserve flexible x) := by
  refine Prep.byPass (Prep.byMode ?_)
  cases flexible with
  | false => exact prep_grow 4
  | true =>
    simp only [if_true, arrayLengthReserve, putLengthPlusOne]
    split
    · exact prep_faultWith _
    · exact prep_putUVarint _

theorem real_putArrayLength (x : Int32) : Real flexible (putArrayLength x) () (arrayLengthOutput flexible x) := by
  refine Real.byPass (Real.byMode ?_)
  cases flexible with
  | false => exact real_putInt32 x
  | true =>
    simp only [if_true, arrayLengthOutput, putLengthPlusOne]
    split
    · exact real_faultWith _
    · exact real_putUVarint _

/-! ## Byte strings -/

/-- What PREP counts for raw bytes. -/
def rawReserve (s : Bytes) : Except Failure ℕ :=
  if s.length ≤ int32Max then .ok s.length else .error (.code (-1))

theorem prep_putRawBytes (s : Bytes) : Prep flexible (putRawBytes s) () (rawReserve s) := by
  refine Prep.byPass ?_
  unfold rawReserve
  by_cases small : s.length ≤ int32Max
  · rw [if_pos small, if_neg (by omega)]
    exact prep_grow _
  · rw [if_neg small, if_pos (by omega)]
    exact prep_failCode _

theorem real_putRawBytes (s : Bytes) : Real flexible (putRawBytes s) () (some s) := (real_store s).byPass

/-- The length `putVariantBytes` writes: `-1` stands for an empty string. -/
def variantBytesLength (s : Bytes) : Int64 := if s.isEmpty then -1 else Int64.ofNat s.length

theorem prep_putVariantBytes (s : Bytes) : Prep flexible (putVariantBytes s) ()
    (do let n ← rawReserve s; return varintLen (variantBytesLength s) + n) := by
  unfold putVariantBytes variantBytesLength
  cases s with
  | nil => exact prep_putVariant (-1)
  | cons b s => exact (prep_putVariant _).bind (prep_putRawBytes _)

theorem real_putVariantBytes (s : Bytes) :
    Real flexible (putVariantBytes s) () (some (encodeVariant (variantBytesLength s) ++ s)) := by
  unfold putVariantBytes variantBytesLength
  cases s with
  | nil => exact (real_putVariant (-1)).of_eq (by rw [List.append_nil]; rfl)
  | cons b s => exact (real_putVariant _).seq (real_putRawBytes _)

/-- What PREP counts for the length in front of `putBytes`. -/
def bytesLengthSize (flexible : Bool) (s : Bytes) : ℕ :=
  if flexible then uvarintLen (UInt64.ofNat (s.length + 1)) else 4

/-- What REAL stores for the length in front of `putBytes`. -/
def bytesLengthOutput (flexible : Bool) (s : Bytes) : Bytes :=
  if flexible then encodeUVariant (UInt64.ofNat (s.length + 1))
  else bigEndian 4 (if s.isEmpty then -1 else Int32.ofNat s.length).toUInt32.toNat

theorem prep_putBytes (s : Bytes) : Prep flexible (putBytes s) ()
    (do let n ← rawReserve s; return bytesLengthSize flexible s + n) := by
  refine Prep.byPass (Prep.byMode ?_)
  cases flexible with
  | true => exact (prep_putUVarint _).bind (prep_putRawBytes s)
  | false =>
    refine (prep_grow 4).bind (n := rawReserve s) ?_
    cases s with
    | nil => exact Prep.pure ()
    | cons b s =>
      simp only [List.isEmpty_cons, Bool.false_eq_true, if_false]
      split
      · next large => exact (prep_failCode _).of_eq (by rw [rawReserve, if_neg (by omega)])
      · exact prep_putRawBytes _

theorem real_putBytes (s : Bytes) : Real flexible (putBytes s) () (some (bytesLengthOutput flexible s ++ s)) := by
  refine Real.byPass (Real.byMode ?_)
  cases flexible with
  | true => exact (real_putUVarint _).seq (real_putRawBytes s)
  | false =>
    cases s with
    | nil => exact (real_putInt32 (-1)).of_eq (by rw [List.append_nil]; rfl)
    | cons b s => exact (real_putInt32 _).seq (real_putRawBytes _)

/-- What PREP counts for a string. -/
def stringReserve (flexible : Bool) (s : Bytes) : Except Failure ℕ :=
  if flexible then do
    let n ← arrayLengthReserve true (Int32.ofNat s.length)
    let m ← rawReserve s
    return n + m
  else if s.length ≤ int16Max then .ok (2 + s.length) else .error (.code (-1))

/-- What REAL stores for a string. -/
def stringOutput (flexible : Bool) (s : Bytes) : Option Bytes :=
  if flexible then (arrayLengthOutput true (Int32.ofNat s.length)).map (· ++ s)
  else some (bigEndian 2 (Int16.ofNat s.length).toUInt16.toNat ++ s)

theorem prep_putString (s : Bytes) : Prep flexible (putString s) () (stringReserve flexible s) := by
  refine Prep.byPass (Prep.byMode ?_)
  cases flexible with
  | true => exact (prep_putArrayLength _).bind (prep_putRawBytes s)
  | false =>
    simp only [Bool.false_eq_true, if_false, stringReserve]
    by_cases small : s.length ≤ int16Max
    · rw [if_pos small, if_neg (by omega)]
      exact (prep_grow 2).seq (prep_grow _)
    · rw [if_neg small, if_pos (by omega)]
      exact prep_failCode _

theorem real_putString (s : Bytes) : Real flexible (putString s) () (stringOutput flexible s) := by
  refine Real.byPass (Real.byMode ?_)
  cases flexible with
  | true =>
    refine ((real_putArrayLength _).bind (real_putRawBytes s)).of_eq ?_
    simp only [stringOutput, if_true]
    cases arrayLengthOutput true (Int32.ofNat s.length) <;> rfl
  | false => exact (real_putInt16 _).seq (real_store s)

/-- What PREP counts for a string that may be absent. -/
def nullableStringReserve (flexible : Bool) (s : Bytes) : Except Failure ℕ :=
  if s.isEmpty then .ok (if flexible then uvarintLen 0 else 2) else stringReserve flexible s

/-- What REAL stores for a string that may be absent. -/
def nullableStringOutput (flexible : Bool) (s : Bytes) : Option Bytes :=
  if s.isEmpty then some (if flexible then encodeUVariant 0 else bigEndian 2 (-1 : Int16).toUInt16.toNat)
  else stringOutput flexible s

theorem prep_putNullableString (s : Bytes) :
    Prep flexible (putNullableString s) () (nullableStringReserve flexible s) := by
  refine Prep.byPass (Prep.byMode ?_)
  cases s with
  | nil =>
    cases flexible with
    | true => exact prep_putUVarint 0
    | false => exact prep_grow 2
  | cons b s =>
    simp only [List.isEmpty_cons, Bool.false_eq_true, if_false, ite_self, nullableStringReserve]
    exact prep_putString _

theorem real_putNullableString (s : Bytes) :
    Real flexible (putNullableString s) () (nullableStringOutput flexible s) := by
  refine Real.byPass (Real.byMode ?_)
  cases s with
  | nil =>
    cases flexible with
    | true => exact real_putUVarint 0
    | false => exact real_putInt16 (-1)
  | cons b s =>
    simp only [List.isEmpty_cons, Bool.false_eq_true, if_false, ite_self, nullableStringOutput]
    exact real_putString _

/-! ## Arrays -/

/-- What PREP counts for an `int` product. -/
def productReserve (size count : ℕ) : Except Failure ℕ :=
  if size * count ≤ int32Max then .ok (size * count) else .error (.fault .overflow)

/-- What PREP counts for the strings of an array: in the flexible mode four bytes each. -/
def stringsReserve (flexible : Bool) (ss : List Bytes) : Except Failure ℕ :=
  if flexible then productReserve 4 ss.length
  else if ∀ s ∈ ss, s.length ≤ int16Max then .ok (ss.map fun s => 2 + s.length).sum
  else .error (.code (-1))

def stringArrayReserve (flexible : Bool) (ss : List Bytes) : Except Failure ℕ := do
  let n ← arrayLengthReserve flexible (Int32.ofNat ss.length)
  let m ← stringsReserve flexible ss
  return n + m

/-- What REAL stores for a string whose length did not overflow. -/
def stringBytes (flexible : Bool) (s : Bytes) : Bytes :=
  if flexible then encodeUVariant (Int32.ofNat s.length + 1).toInt64.toUInt64 ++ s
  else bigEndian 2 (Int16.ofNat s.length).toUInt16.toNat ++ s

/-- What REAL stores for the strings of an array. -/
def stringsOutput (flexible : Bool) (ss : List Bytes) : Option Bytes :=
  if ∀ s ∈ ss, flexible = true → Int32.ofNat s.length ≠ Int32.maxValue then some (ss.flatMap (stringBytes flexible))
  else none

def stringArrayOutput (flexible : Bool) (ss : List Bytes) : Option Bytes := do
  let length ← arrayLengthOutput flexible (Int32.ofNat ss.length)
  let strings ← stringsOutput flexible ss
  return length ++ strings

theorem stringOutput_eq (s : Bytes) : stringOutput flexible s =
    if flexible = true → Int32.ofNat s.length ≠ Int32.maxValue then some (stringBytes flexible s) else none := by
  cases flexible with
  | false => simp [stringOutput, stringBytes]
  | true => by_cases top : Int32.ofNat s.length = Int32.maxValue <;> simp [stringOutput, stringBytes, arrayLengthOutput, top]

theorem prep_putStringArray (ss : List Bytes) :
    Prep flexible (putStringArray ss) () (stringArrayReserve flexible ss) := by
  refine Prep.byPass (Prep.byMode ?_)
  cases flexible with
  | true => exact (prep_putArrayLength _).bind (prep_growBy 4 ss.length)
  | false =>
    have strings : Prep false (ss.forM putString) () (stringsReserve false ss) := Prep.forM prep_putString ss
    exact (prep_putArrayLength _).bind strings

theorem real_putStringArray (ss : List Bytes) :
    Real flexible (putStringArray ss) () (stringArrayOutput flexible ss) := by
  have strings : Real flexible (ss.forM putString) () (stringsOutput flexible ss) :=
    Real.forM (fun s => (real_putString s).of_eq (stringOutput_eq s)) ss
  exact Real.byPass ((real_putArrayLength _).bind strings)

theorem real_forM_putInt32 (xs : List Int32) : Real flexible (xs.forM putInt32) ()
    (some (xs.flatMap fun x => bigEndian 4 x.toUInt32.toNat)) :=
  (Real.forM (p := fun _ => True) (fun x => (real_putInt32 x).of_eq (by rw [if_pos trivial])) xs).of_eq
    (by simp)

theorem real_forM_putInt64 (xs : List Int64) : Real flexible (xs.forM putInt64) ()
    (some (xs.flatMap fun x => bigEndian 8 x.toUInt64.toNat)) :=
  (Real.forM (p := fun _ => True) (fun x => (real_putInt64 x).of_eq (by rw [if_pos trivial])) xs).of_eq
    (by simp)

def int32ArrayReserve (flexible : Bool) (xs : List Int32) : Except Failure ℕ := do
  let m ← productReserve 4 xs.length
  return (if flexible then uvarintLen (UInt64.ofNat xs.length + 1) else 4) + m

def int32ArrayOutput (flexible : Bool) (xs : List Int32) : Bytes :=
  (if flexible then encodeUVariant (UInt64.ofNat xs.length + 1)
    else bigEndian 4 (Int32.ofNat xs.length).toUInt32.toNat) ++
    xs.flatMap fun x => bigEndian 4 x.toUInt32.toNat

theorem prep_putInt32Array (xs : List Int32) : Prep flexible (putInt32Array xs) () (int32ArrayReserve flexible xs) := by
  refine Prep.byPass (Prep.byMode ?_)
  cases flexible with
  | true => exact (prep_putUVarint _).bind (prep_growBy 4 xs.length)
  | false => exact (prep_grow 4).bind (prep_growBy 4 xs.length)

theorem real_putInt32Array (xs : List Int32) :
    Real flexible (putInt32Array xs) () (some (int32ArrayOutput flexible xs)) := by
  refine Real.byPass (Real.byMode ?_)
  cases flexible with
  | true => exact (real_putUVarint _).seq (real_forM_putInt32 xs)
  | false => exact (real_putArrayLength _).seq (real_forM_putInt32 xs)

def int64ArrayReserve (flexible : Bool) (xs : List Int64) : Except Failure ℕ := do
  let n ← arrayLengthReserve flexible (Int32.ofNat xs.length)
  let m ← productReserve 8 xs.length
  return n + m

def int64ArrayOutput (flexible : Bool) (xs : List Int64) : Option Bytes := do
  let length ← arrayLengthOutput flexible (Int32.ofNat xs.length)
  return length ++ xs.flatMap fun x => bigEndian 8 x.toUInt64.toNat

theorem prep_putInt64Array (xs : List Int64) : Prep flexible (putInt64Array xs) () (int64ArrayReserve flexible xs) :=
  Prep.byPass ((prep_putArrayLength _).bind (prep_growBy 8 xs.length))

theorem real_putInt64Array (xs : List Int64) : Real flexible (putInt64Array xs) () (int64ArrayOutput flexible xs) := by
  have length := @real_putArrayLength flexible (Int32.ofNat xs.length)
  exact Real.byPass (Real.bind (k := fun _ => xs.forM putInt64) length (real_forM_putInt64 xs))

def nullableInt32ArrayReserve (flexible : Bool) (xs : List Int32) : Except Failure ℕ :=
  if xs.isEmpty then .ok (if flexible then uvarintLen 0 else 4) else int32ArrayReserve flexible xs

def nullableInt32ArrayOutput (flexible : Bool) (xs : List Int32) : Bytes :=
  if xs.isEmpty then if flexible then encodeUVariant 0 else bigEndian 4 (-1 : Int32).toUInt32.toNat
  else int32ArrayOutput flexible xs

theorem prep_putNullableInt32Array (xs : List Int32) :
    Prep flexible (putNullableInt32Array xs) () (nullableInt32ArrayReserve flexible xs) := by
  refine Prep.byPass (Prep.byMode ?_)
  cases flexible with
  | true =>
    cases xs with
    | nil => exact prep_putUVarint 0
    | cons x xs => exact (prep_putUVarint _).bind (prep_growBy 4 (x :: xs).length)
  | false =>
    cases xs with
    | nil => exact prep_grow 4
    | cons x xs => exact (prep_putArrayLength _).bind (prep_growBy 4 (x :: xs).length)

theorem real_putNullableInt32Array (xs : List Int32) :
    Real flexible (putNullableInt32Array xs) () (some (nullableInt32ArrayOutput flexible xs)) := by
  refine Real.byPass (Real.byMode ?_)
  cases flexible with
  | true =>
    cases xs with
    | nil => exact real_putUVarint 0
    | cons x xs => exact (real_putUVarint _).seq (real_forM_putInt32 _)
  | false =>
    cases xs with
    | nil => exact real_putInt32 (-1)
    | cons x xs => exact (real_putArrayLength _).seq (real_forM_putInt32 _)

/-! ## Tagged fields -/

theorem prep_putEmptyTaggedFieldArray : Prep flexible putEmptyTaggedFieldArray ()
    (.ok (if flexible then uvarintLen 0 else 0)) := by
  refine Prep.byPass (Prep.byMode ?_)
  cases flexible with
  | true => exact prep_putUVarint 0
  | false => exact Prep.pure ()

theorem real_putEmptyTaggedFieldArray : Real flexible putEmptyTaggedFieldArray ()
    (some (if flexible then encodeUVariant 0 else [])) := by
  refine Real.byPass (Real.byMode ?_)
  cases flexible with
  | true => exact real_putUVarint 0
  | false => exact Real.pure ()

end Coev.Kafka.PacketEncoder
