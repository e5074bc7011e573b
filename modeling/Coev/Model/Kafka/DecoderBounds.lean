import Coev.Model.Kafka.PacketDecoder

/-! # `packet_decoder`, with its offset as an index

`PacketDecoder` says what a reader returns where all goes well; here is what it does to memory. The offset and the sizes are
`int`: an access outside of the buffer and an overflow are faults, and it is noted when a length is too large for its type.
-/

namespace Coev.Kafka

open ByteString

/-- An entry of `m_stack`, with the `int` that `save_offset` kept. -/
structure SavedField where
  startOffset : ℤ
  field : PushField
deriving DecidableEq, Repr

/-- The members of `packet_decoder`. `narrowed` records that a length was changed when it was converted. -/
structure DecoderBounds where
  offset : ℤ := 0
  raw : Bytes
  stack : List SavedField := []
  flexible : ℕ := 0
  narrowed : Bool := false
deriving DecidableEq, Repr

abbrev Indexed (α : Type) := EStateM Failure DecoderBounds α

namespace DecoderBounds

/-! ## Integers and accesses -/

/-- The values of `int`. -/
def IsInt (x : ℤ) : Prop := -2 ^ 31 ≤ x ∧ x < 2 ^ 31
deriving Decidable

/-- The result of an `int` operation. -/
def int (x : ℤ) : Indexed ℤ := if IsInt x then return x else faultWith .overflow

/-- `static_cast<int>` of a length. -/
def narrow (x : ℤ) : Indexed ℤ := fun s =>
  let y := (Int32.ofInt x).toInt
  .ok y { s with narrowed := s.narrowed || y ≠ x }

/-- An `int` as it is compared with a `size_t`. -/
def sizeT (x : ℤ) : ℤ := x % 2 ^ 64

/-- The bytes from `start` on, which the caller reads or is given to read. -/
def access (start length : ℤ) : Indexed Bytes := fun s =>
  if 0 ≤ start ∧ 0 ≤ length ∧ start + length ≤ s.raw.length then
    .ok ((s.raw.drop start.toNat).take length.toNat) s
  else .error (.fault .outOfBounds) s

/-- `m_offset += n`. -/
def advance (n : ℤ) : Indexed Unit := do
  let offset ← int ((← get).offset + n)
  modify ({ · with offset })

def remaining : Indexed ℤ := do
  let size ← narrow (← get).raw.length
  int (size - (← get).offset)

/-- The offset goes to the end. -/
def insufficient {α : Type} : Indexed α := do
  let offset ← narrow (← get).raw.length
  modify ({ · with offset })
  failCode ErrInsufficientData

/-- `resize` of a container to an `int`. -/
def resize (n : ℤ) : Indexed Unit := if n < 0 then faultWith (.thrown .lengthError) else return ()

/-- The branch on `__is_fixed()` and `__is_flexible()`. -/
def byMode {α : Type} (fixed flexible : Indexed α) : Indexed α := fun s => if s.flexible = 0 then fixed s else flexible s

/-! ## Numbers -/

/-- The next `n` bytes, without a check that they are there. -/
def next (n : ℤ) : Indexed Bytes := do
  let bytes ← access (← get).offset n
  advance n
  return bytes

/-- The next `n` bytes, if `remaining()` says so. -/
def word (n : ℤ) : Indexed Bytes := do
  if (← remaining) < n then insufficient
  next n

def getInt8 : Indexed Int8 := do return Int8.ofNat (value (← word 1))

def getInt16 : Indexed Int16 := do return Int16.ofNat (value (← word 2))

def getInt32 : Indexed Int32 := do return Int32.ofNat (value (← word 4))

def getInt64 : Indexed Int64 := do return Int64.ofNat (value (← word 8))

/-- `getFloat64`; the result is the bits of the `double`. -/
def getFloat64 : Indexed UInt64 := do return UInt64.ofNat (value (← word 8))

/-- A byte of a varint, which is compared with the size and not with `remaining()`. -/
def varintByte : Indexed UInt8 := do
  if (← get).raw.length ≤ sizeT (← get).offset then insufficient
  return (← next 1).headD 0

/-- Ten bytes were read, and the offset goes back over them. -/
def tooLong {α : Type} (err : KError) : Indexed α := do
  advance (-10)
  failCode err

/-- The loop of `getVariant` with `fuel` rounds left of ten. -/
def getVariantLoop : ℕ → UInt64 → Indexed Int64
  | 0, _ => tooLong ErrVariantOverflow
  | fuel + 1, ux => do
    let b ← varintByte
    let ux := ux ||| (b &&& 0x7F).toUInt64 <<< (UInt64.ofNat (7 * (9 - fuel)))
    if b &&& 0x80 = 0 then
      if fuel = 0 ∧ (ux &&& 0xFE00000000000000 ≠ 0 ∨ 1 < b &&& 0x7F) then tooLong ErrVariantOverflow
      else return zigzagDecode ux
    else getVariantLoop fuel ux

def getVariant : Indexed Int64 := getVariantLoop 10 0

/-- The loop of `getUVariant` with `fuel` rounds left of ten. -/
def getUVariantLoop : ℕ → UInt64 → Indexed UInt64
  | 0, _ => tooLong ErrUVariantOverflow
  | fuel + 1, ux => do
    let b ← varintByte
    let ux := ux ||| (b &&& 0x7F).toUInt64 <<< (UInt64.ofNat (7 * (9 - fuel)))
    if b &&& 0x80 = 0 then
      if fuel = 0 ∧ ux >>> 63 ≠ 0 then tooLong ErrUVariantOverflow
      else return ux
    else getUVariantLoop fuel ux

def getUVariant : Indexed UInt64 := getUVariantLoop 10 0

def getBool : Indexed Bool := do
  let b ← getInt8
  if b = 0 then return false
  else if b ≠ 1 then failCode ErrInvalidBool
  else return true

def getKError : Indexed KError := do return (← getInt16).toInt

def getDurationMs : Indexed Int64 := do return (← getInt32).toInt64

/-! ## Lengths and bytes -/

/-- `static_cast<int>(n - 1)`, where 0 stands for nothing. -/
def compactLength (nothing : ℤ) : Indexed ℤ := do
  let n ← getUVariant
  if n = 0 then return nothing else narrow (n.toNat - 1)

def getArrayLength : Indexed ℤ :=
  byMode
    (do
      let result := (PacketDecoder.signedWord (← word 4)).toInt
      if result > maxResponseSize then failCode ErrInvalidArrayLength
      return result)
    (compactLength 0)

def getRawBytes (length : ℤ) : Indexed Bytes := do
  if length < 0 then failCode ErrValidByteSliceLength
  else if (← remaining) < length then insufficient
  else next length

def getSubset (length : ℤ) : Indexed Bytes := getRawBytes length

def getBytes : Indexed Bytes :=
  byMode
    (do
      let tmp ← getInt32
      if tmp = -1 then return [] else getRawBytes tmp.toInt)
    (do getRawBytes (← compactLength (-1)))

def getVariantBytes : Indexed Bytes := do
  let tmp ← getVariant
  if tmp = -1 then return [] else getRawBytes (← narrow tmp.toInt)

/-- A string length is refused below `-1` and where fewer bytes remain. -/
def checkStringLength (n : ℤ) : Indexed ℤ := do
  if n < -1 then failCode ErrInvalidStringLength
  else if (← remaining) < n then insufficient
  else return n

def getStringLength : Indexed ℤ :=
  byMode (do checkStringLength (← getInt16).toInt) (do checkStringLength (← compactLength (-1)))

/-- The text of `getString` is the same in the two modes. -/
def getString : Indexed Bytes := do
  let length ← getStringLength
  if length = -1 then return [] else next length

/-- The text of `getNullableString` is that of `getString`. -/
def getNullableString : Indexed Bytes := getString

/-! ## Arrays -/

/-- So many rounds of a loop. -/
def rounds {α : Type} (body : Indexed α) : ℕ → Indexed (List α)
  | 0 => return []
  | n + 1 => do
    let a ← body
    let as ← rounds body n
    return a :: as

/-- The elements of an array, which are read without a check. -/
def elements (size n : ℤ) : Indexed (List Bytes) := do
  resize n
  rounds (next size) n.toNat

/-- The check of an array: `remaining() < size * n`. -/
def checked (size n : ℤ) : Indexed (List Bytes) := do
  if n ≤ 0 then return []
  let needed ← int (size * n)
  if (← remaining) < needed then insufficient
  elements size n

def getInt32Array : Indexed (List Int32) := do
  let words ← byMode
    (do checked 4 (← getArrayLength))
    (do
      let n ← getUVariant
      if n = 0 then return [] else elements 4 (← narrow (n.toNat - 1)))
  return words.map fun bytes => Int32.ofNat (value bytes)

def getInt64Array : Indexed (List Int64) := do
  return (← checked 8 (← getArrayLength)).map fun bytes => Int64.ofNat (value bytes)

/-- The text of `getStringArray` is the same in the two modes. -/
def getStringArray : Indexed (List Bytes) := do
  let n ← getArrayLength
  if n ≤ 0 then return []
  resize n
  rounds getString n.toNat

/-! ## Tagged fields -/

/-- The id of a tagged field and its bytes, up to the call of `getRawBytes`. -/
def taggedLength : Indexed (UInt64 × ℤ) := do
  let id ← getUVariant
  let length ← getUVariant
  return (id, ← narrow length.toNat)

/-- A tagged field that is skipped. -/
def skipTaggedField : Indexed Unit := do
  let (_, length) ← taggedLength
  let _ ← getRawBytes length

def getEmptyTaggedFieldArray : Indexed Unit :=
  byMode (return ())
    (do
      let count ← getUVariant
      let _ ← rounds skipTaggedField count.toNat)

/-- What a decoder does between `__push_flexible` and `__pop_flexible`. -/
def inFlexible (decoder : Indexed Unit) : Indexed Unit :=
  finally_ (modify fun s => { s with flexible := s.flexible - 1 }) (do
    modify fun s => { s with flexible := s.flexible + 1 }
    decoder)

/-- A tagged field; a decoder runs on the reader itself, behind the bytes of its field. -/
def taggedField (decoders : List (UInt64 × Indexed Unit)) : Indexed Unit := do
  let (id, length) ← taggedLength
  let _ ← getRawBytes length
  match decoders.lookup id with
  | none => return ()
  | some decoder => inFlexible decoder

def getTaggedFieldArray (decoders : List (UInt64 × Indexed Unit)) : Indexed Unit :=
  byMode (failCode ErrTaggedFieldsInNonFlexibleContext)
    (do
      if decoders.isEmpty then getEmptyTaggedFieldArray
      else
        let count ← getUVariant
        let _ ← rounds (taggedField decoders) count.toNat)

/-! ## Looking ahead, and fields that are checked later -/

def peek (offset length : ℤ) : Indexed Bytes := do
  let needed ← int (offset + length)
  if (← remaining) < needed then failCode ErrInsufficientData
  let start ← int ((← get).offset + offset)
  access start length

def peekInt8 (offset : ℤ) : Indexed Int8 := do
  let i ← int ((← get).offset + offset)
  if (← get).raw.length ≤ sizeT i then failCode ErrInsufficientData
  return ((← access i 1).headD 0).toInt8

/-- `m_stack.push_back`. -/
def enter (startOffset : ℤ) (field : PushField) : Indexed Unit :=
  modify fun s => { s with stack := ⟨startOffset, field⟩ :: s.stack }

def push (field : PushField) : Indexed Unit := do
  let startOffset := (← get).offset
  match field with
  | .variantLength _ => do
    let length ← getVariant
    enter startOffset (.variantLength ⟨length⟩)
  | field => do
    if (← remaining) < 4 then insufficient
    enter startOffset field
    advance 4

/-- `check` of a field. -/
def check (entry : SavedField) : Indexed Unit := do
  let curOffset := (← get).offset
  match entry.field with
  | .length field => do
    let length ← int (curOffset - entry.startOffset - 4)
    if length ≠ field.length.toInt then failCode ErrPacketDecodingError
  | .crc32 field => do
    let start ← int (entry.startOffset + 4)
    let covered ← access start (max 0 (curOffset - start))
    let expected ← access entry.startOffset 4
    if crc32 field.polynomial covered ≠ UInt32.ofNat (value expected) then failCode ErrCRCMismatch
  | .variantLength field => do
    match variantSize field.length with
    | none => faultWith .overflow
    | some reserve =>
      let length ← int (curOffset - entry.startOffset - reserve)
      if length ≠ field.length.toInt then failCode (-1)

def pop : Indexed Unit := do
  match (← get).stack with
  | [] => faultWith .emptyStack
  | entry :: stack => do
    modify ({ · with stack })
    check entry

/-! ## Operations in any order -/

/-- A call of an operation, with its arguments, or a change of the mode. -/
inductive Operation where
  | getInt8
  | getInt16
  | getInt32
  | getInt64
  | getVariant
  | getUVariant
  | getFloat64
  | getArrayLength
  | getBool
  | getKError
  | getDurationMs
  | getTaggedFieldArray (decoders : List (UInt64 × Indexed Unit))
  | getEmptyTaggedFieldArray
  | getStringLength
  | getBytes
  | getVariantBytes
  | getString
  | getNullableString
  | getInt32Array
  | getInt64Array
  | getStringArray
  | remaining
  | getRawBytes (length : Int32)
  | getSubset (length : Int32)
  | peek (offset length : Int32)
  | peekInt8 (offset : Int32)
  | push (field : PushField)
  | pop
  | mode (flexible : ℕ)

/-- A call whose result is of no interest. -/
def drop {α : Type} (x : Indexed α) : Indexed Unit := do let _ ← x

def Operation.run : Operation → Indexed Unit
  | .getInt8 => drop DecoderBounds.getInt8
  | .getInt16 => drop DecoderBounds.getInt16
  | .getInt32 => drop DecoderBounds.getInt32
  | .getInt64 => drop DecoderBounds.getInt64
  | .getVariant => drop DecoderBounds.getVariant
  | .getUVariant => drop DecoderBounds.getUVariant
  | .getFloat64 => drop DecoderBounds.getFloat64
  | .getArrayLength => drop DecoderBounds.getArrayLength
  | .getBool => drop DecoderBounds.getBool
  | .getKError => drop DecoderBounds.getKError
  | .getDurationMs => drop DecoderBounds.getDurationMs
  | .getTaggedFieldArray decoders => DecoderBounds.getTaggedFieldArray decoders
  | .getEmptyTaggedFieldArray => DecoderBounds.getEmptyTaggedFieldArray
  | .getStringLength => drop DecoderBounds.getStringLength
  | .getBytes => drop DecoderBounds.getBytes
  | .getVariantBytes => drop DecoderBounds.getVariantBytes
  | .getString => drop DecoderBounds.getString
  | .getNullableString => drop DecoderBounds.getNullableString
  | .getInt32Array => drop DecoderBounds.getInt32Array
  | .getInt64Array => drop DecoderBounds.getInt64Array
  | .getStringArray => drop DecoderBounds.getStringArray
  | .remaining => drop DecoderBounds.remaining
  | .getRawBytes length => drop (DecoderBounds.getRawBytes length.toInt)
  | .getSubset length => drop (DecoderBounds.getSubset length.toInt)
  | .peek offset length => drop (DecoderBounds.peek offset.toInt length.toInt)
  | .peekInt8 offset => drop (DecoderBounds.peekInt8 offset.toInt)
  | .push field => DecoderBounds.push field
  | .pop => DecoderBounds.pop
  | .mode flexible => modify ({ · with flexible })

end DecoderBounds

/-- A reader in use, and the fault that ended its use. -/
structure DecoderUse where
  reader : DecoderBounds
  fault : Option Fault := none
deriving DecidableEq, Repr

namespace DecoderUse

/-- One operation; an error code does not end the use. -/
def call (u : DecoderUse) (operation : DecoderBounds.Operation) : Option DecoderUse :=
  if u.fault.isSome then none
  else some <|
    match operation.run u.reader with
    | .ok _ reader => { reader }
    | .error (.code _) reader => { reader }
    | .error (.fault f) reader => { reader, fault := some f }

/-- The operations, one after another in any order. -/
def Step (u : DecoderUse) (operation : DecoderBounds.Operation) (u' : DecoderUse) : Prop := u.call operation = some u'

end DecoderUse

end Coev.Kafka
