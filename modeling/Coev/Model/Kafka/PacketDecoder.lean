import Coev.Model.Kafka.PushField
import Coev.ToMathlib.EStateM

/-! # `packet_decoder`

A reader moves one offset over an immutable buffer. Most failures leave the offset at the end of the
buffer, a variable-length integer that is too long puts it back. Objects are decoded in place and
keep what was read into them before a failure, so the decoder of an object runs on the object and the
reader together.
-/

namespace Coev.Kafka

open ByteString

/-- The members of `packet_decoder`. -/
structure PacketDecoder where
  offset : ℕ := 0
  raw : Bytes
  stack : List Pushed := []
  flexible : ℕ := 0
deriving DecidableEq, Repr

abbrev Decode (α : Type) := EStateM Failure PacketDecoder α

namespace PacketDecoder

def remaining (pd : PacketDecoder) : ℕ := pd.raw.length - pd.offset

/-- The bytes not yet read. -/
def unread (pd : PacketDecoder) : Bytes := pd.raw.drop pd.offset

/-- `m_offset += n`. -/
def advance (pd : PacketDecoder) (n : ℕ) : PacketDecoder := { pd with offset := pd.offset + n }

/-- The failure of a read past the end: the offset goes to the end. -/
def insufficient {α : Type} : Decode α := fun pd =>
  .error (.code ErrInsufficientData) { pd with offset := pd.raw.length }

/-- The branch on `__is_fixed()` and `__is_flexible()`. -/
def byMode {α : Type} (fixed flexible : Decode α) : Decode α := fun pd =>
  if pd.flexible = 0 then fixed pd else flexible pd

/-- `__push_flexible`. -/
def pushFlexible : Decode Unit := fun pd => .ok () { pd with flexible := pd.flexible + 1 }

/-- `__pop_flexible`, with its assertion. -/
def popFlexible : Decode Unit := fun pd =>
  if pd.flexible = 0 then .error (.fault .assertion) pd else .ok () { pd with flexible := pd.flexible - 1 }

/-- Take `n` bytes if that many remain. -/
def take (n : ℕ) : Decode Bytes := fun pd =>
  if pd.remaining < n then insufficient pd
  else .ok (pd.unread.take n) (pd.advance n)

def getInt8 : Decode Int8 := do return Int8.ofNat (value (← take 1))

def getInt16 : Decode Int16 := do return Int16.ofNat (value (← take 2))

def getInt32 : Decode Int32 := do return Int32.ofNat (value (← take 4))

def getInt64 : Decode Int64 := do return Int64.ofNat (value (← take 8))

/-- The loop of `getVariant` with `fuel` rounds left of ten. -/
def getVariantLoop : ℕ → UInt64 → Decode Int64
  | 0, _ => fun pd => .error (.code ErrVariantOverflow) { pd with offset := pd.offset - 10 }
  | fuel + 1, ux => fun pd =>
    match pd.unread with
    | [] => insufficient pd
    | b :: _ =>
      let pd := pd.advance 1
      let ux := ux ||| (b &&& 0x7F).toUInt64 <<< (UInt64.ofNat (7 * (9 - fuel)))
      if b &&& 0x80 = 0 then
        if fuel = 0 ∧ (ux &&& 0xFE00000000000000 ≠ 0 ∨ 1 < b &&& 0x7F) then
          .error (.code ErrVariantOverflow) { pd with offset := pd.offset - 10 }
        else .ok (zigzagDecode ux) pd
      else getVariantLoop fuel ux pd

def getVariant : Decode Int64 := getVariantLoop 10 0

/-- The loop of `getUVariant` with `fuel` rounds left of ten. -/
def getUVariantLoop : ℕ → UInt64 → Decode UInt64
  | 0, _ => fun pd => .error (.code ErrUVariantOverflow) { pd with offset := pd.offset - 10 }
  | fuel + 1, ux => fun pd =>
    match pd.unread with
    | [] => insufficient pd
    | b :: _ =>
      let pd := pd.advance 1
      let ux := ux ||| (b &&& 0x7F).toUInt64 <<< (UInt64.ofNat (7 * (9 - fuel)))
      if b &&& 0x80 = 0 then
        if fuel = 0 ∧ ux >>> 63 ≠ 0 then
          .error (.code ErrUVariantOverflow) { pd with offset := pd.offset - 10 }
        else .ok ux pd
      else getUVariantLoop fuel ux pd

def getUVariant : Decode UInt64 := getUVariantLoop 10 0

/-- The fixed-mode array length: each byte is a signed `char` when it is shifted into place. -/
def signedWord (bytes : Bytes) : Int32 :=
  let char (k : ℕ) : Int32 := (bytes.getD k 0).toInt8.toInt32
  char 0 <<< 24 ||| char 1 <<< 16 ||| char 2 <<< 8 ||| char 3

def getArrayLength : Decode Int32 :=
  byMode
    (do
      let result := signedWord (← take 4)
      if result.toInt > maxResponseSize then failCode ErrInvalidArrayLength
      return result)
    (do
      let n ← getUVariant
      return if n = 0 then 0 else (n - 1).toInt64.toInt32)

/-- `getRawBytes`, which `getSubset` only renames. -/
def getRawBytes (length : Int32) : Decode Bytes :=
  if length < 0 then failCode ErrValidByteSliceLength else take length.toInt.toNat

def getBytes : Decode Bytes :=
  byMode
    (do
      let tmp ← getInt32
      if tmp = -1 then return []
      getRawBytes tmp)
    (do
      let n ← getUVariant
      getRawBytes (n - 1).toInt64.toInt32)

def getVariantBytes : Decode Bytes := do
  let tmp ← getVariant
  if tmp = -1 then return []
  getRawBytes tmp.toInt32

def getBool : Decode Bool := do
  let b ← getInt8
  if b = 0 then return false
  else if b ≠ 1 then failCode ErrInvalidBool
  else return true

/-- The code is a `KError`, whatever its sign. -/
def getKError : Decode KError := do return (← getInt16).toInt

/-- `getDurationMs`; the result is `count()` of the milliseconds. -/
def getDurationMs : Decode Int64 := do return (← getInt32).toInt64

/-- A string length is refused below `-1` and where fewer bytes remain. -/
def checkStringLength (n : Int32) : Decode Int32 := fun pd =>
  if n < -1 then .error (.code ErrInvalidStringLength) pd
  else if (pd.remaining : ℤ) < n.toInt then insufficient pd
  else .ok n pd

def getStringLength : Decode Int32 :=
  byMode
    (do
      let length ← getInt16
      checkStringLength length.toInt32)
    (do
      let length ← getUVariant
      checkStringLength (if length = 0 then -1 else (length - 1).toInt64.toInt32))

/-- The text of `getString` is the same in the two modes, and a null string is an empty one. -/
def getString : Decode Bytes := do
  let length ← getStringLength
  if length = -1 then return [] else take length.toInt.toNat

/-- The text of `getNullableString` is that of `getString`. -/
def getNullableString : Decode Bytes := getString

/-- Read so many elements. -/
def repeatRead {α : Type} (get : Decode α) : ℕ → Decode (List α)
  | 0 => return []
  | n + 1 => do
    let a ← get
    let as ← repeatRead get n
    return a :: as

/-- `remaining() < size * n`, with an `int` product. -/
def checkRemaining (size : ℕ) (n : Int32) : Decode Unit := fun pd =>
  if int32Max < size * n.toInt.toNat then .error (.fault .overflow) pd
  else if pd.remaining < size * n.toInt.toNat then insufficient pd
  else .ok () pd

/-- The bytes are read without a check that they are there. -/
def unchecked {α : Type} (get : Decode α) : Decode α := fun pd =>
  match get pd with
  | .error (.code _) pd => .error (.fault .outOfBounds) pd
  | result => result

/-- `resize` of a vector to an `int`, which `size_t` makes huge when it is negative. -/
def checkSize (n : Int32) : Decode Unit :=
  if n < 0 then faultWith (.thrown .lengthError) else return ()

/-- In the flexible mode the elements are read past the end of a short buffer. -/
def getInt32Array : Decode (List Int32) :=
  byMode
    (do
      let n ← getArrayLength
      if n ≤ 0 then return []
      checkRemaining 4 n
      repeatRead getInt32 n.toInt.toNat)
    (do
      let n ← getUVariant
      if n = 0 then return []
      let length := (n - 1).toInt64.toInt32
      checkSize length
      repeatRead (unchecked getInt32) length.toInt.toNat)

def getInt64Array : Decode (List Int64) := do
  let n ← getArrayLength
  if n ≤ 0 then return []
  checkRemaining 8 n
  repeatRead getInt64 n.toInt.toNat

/-- The text of `getStringArray` is the same in the two modes. -/
def getStringArray : Decode (List Bytes) := do
  let n ← getArrayLength
  if n ≤ 0 then return []
  repeatRead getString n.toInt.toNat

/-- A tagged field that is skipped. -/
def skipTaggedField : Decode Unit := do
  let _ ← getUVariant
  let length ← getUVariant
  let _ ← getRawBytes length.toInt64.toInt32

/-- `getEmptyTaggedFieldArray`: the tagged fields are skipped. -/
def getEmptyTaggedFieldArray : Decode Unit :=
  byMode (pure ())
    (do
      let count ← getUVariant
      let _ ← repeatRead skipTaggedField count.toNat)

/-- `m_stack.push_back`, for a field that saved its offset. -/
def enter (startOffset : ℕ) (field : PushField) : Decode PushField := fun pd =>
  .ok field { pd with stack := ⟨startOffset, field⟩ :: pd.stack }

/-- `push`: a dynamic field reads itself, any other is skipped; the object comes back as read. -/
def push (field : PushField) : Decode PushField := fun pd =>
  match field with
  | .variantLength _ => (getVariant >>= fun length => enter pd.offset (.variantLength ⟨length⟩)) pd
  | .length _ | .crc32 _ =>
    if pd.remaining < 4 then insufficient pd else enter pd.offset field (pd.advance 4)

/-- `pop`: the last pushed field is checked against what was read since. -/
def pop : Decode Unit := fun pd =>
  match pd.stack with
  | [] => .error (.fault .emptyStack) pd
  | entry :: stack =>
    let pd := { pd with stack }
    match entry.check pd.offset pd.raw with
    | none => .error (.fault .divergence) pd
    | some err => if err = 0 then .ok () pd else .error (.code err) pd

end PacketDecoder

/-- A decoder of an object in place. -/
abbrev DecodeInto (σ α : Type) := EStateM Failure (σ × PacketDecoder) α

namespace DecodeInto

variable {σ τ α : Type}

/-- Read a value; `spoil` is what a failing call leaves in the out-parameter. -/
def readOr (spoil : σ → σ) (get : Decode α) : DecodeInto σ α := fun (o, pd) =>
  match get pd with
  | .ok a pd => .ok a (o, pd)
  | .error e pd => .error e (spoil o, pd)

/-- Read a value whose out-parameter keeps its contents, or is local, when the call fails. -/
def read (get : Decode α) : DecodeInto σ α := readOr id get

/-- Change the object. -/
def update (f : σ → σ) : DecodeInto σ Unit := fun (o, pd) => .ok () (f o, pd)

/-- A computation on the object that reads nothing. -/
def onObject (x : EStateM Failure σ α) : DecodeInto σ α := fun (o, pd) =>
  match x o with
  | .ok a o => .ok a (o, pd)
  | .error e o => .error e (o, pd)

/-- Decode a part of the object in place. -/
def part (get : σ → τ) (set : τ → σ → σ) (x : DecodeInto τ α) : DecodeInto σ α := fun (o, pd) =>
  match x (get o, pd) with
  | .ok a (t, pd) => .ok a (set t o, pd)
  | .error e (t, pd) => .error e (set t o, pd)

/-- Decode the elements of a vector in place, in order, up to the first failure. -/
def each (x : DecodeInto σ Unit) : List σ → PacketDecoder → EStateM.Result Failure (List σ × PacketDecoder) Unit
  | [], pd => .ok () ([], pd)
  | o :: os, pd =>
    match x (o, pd) with
    | .error e (o, pd) => .error e (o :: os, pd)
    | .ok () (o, pd) =>
      match each x os pd with
      | .error e (os, pd) => .error e (o :: os, pd)
      | .ok () (os, pd) => .ok () (o :: os, pd)

/-- `resize` of a vector. -/
def resize (n : ℕ) (default : σ) (xs : List σ) : List σ :=
  xs.take n ++ List.replicate (n - xs.length) default

end DecodeInto

end Coev.Kafka
