import Coev.Model.Kafka.Varint
import Coev.ToMathlib.ByteString

/-! # Fields that are filled in after the section they describe

`push` saves where a field starts and reserves room for it; `pop` of the encoder runs the field over
the bytes written since, and `pop` of the decoder checks it. Only `VariantLengthField` derives from
the dynamic interfaces: its room depends on the length it holds, and only it reads itself when a
decoder pushes it. Offsets handed to a field are `int`, so a length it computes is taken modulo
`2 ^ 32`.
-/

namespace Coev.Kafka

open ByteString

inductive CrcPolynomial where
  | CrcIEEE
  | CrcCastagnoli
deriving DecidableEq, Repr

/-- One bit of the reflected division by `polynomial`. -/
def crcBit (polynomial crc : UInt32) : UInt32 :=
  if crc &&& 1 = 1 then (crc >>> 1) ^^^ polynomial else crc >>> 1

/-- An entry of `castagnoliTable`. -/
def castagnoliTable (i : UInt8) : UInt32 := (crcBit 0x82F63B78)^[8] i.toUInt32

/-- One byte of the table-driven Castagnoli branch of `Crc32Field::crc`. -/
def crcCastagnoliByte (crc : UInt32) (byte : UInt8) : UInt32 :=
  (crc >>> 8) ^^^ castagnoliTable ((crc &&& 0xFF).toUInt8 ^^^ byte)

/-- One byte of the bitwise IEEE branch of `Crc32Field::crc`. -/
def crcIEEEByte (crc : UInt32) (byte : UInt8) : UInt32 :=
  (crcBit 0xEDB88320)^[8] (crc ^^^ byte.toUInt32)

/-- The checksum of a section. -/
def crc32 (polynomial : CrcPolynomial) (section_ : Bytes) : UInt32 :=
  let crc := match polynomial with
    | .CrcCastagnoli => section_.foldl crcCastagnoliByte 0xFFFFFFFF
    | .CrcIEEE => section_.foldl crcIEEEByte 0xFFFFFFFF
  crc ^^^ 0xFFFFFFFF

structure LengthField where
  length : Int32 := 0
deriving DecidableEq, Repr, Inhabited

structure Crc32Field where
  polynomial : CrcPolynomial
deriving DecidableEq, Repr

structure VariantLengthField where
  length : Int64 := 0
deriving DecidableEq, Repr, Inhabited

/-- The objects a `push_encoder *` or `push_decoder *` can point to. -/
inductive PushField where
  | length (field : LengthField)
  | crc32 (field : Crc32Field)
  | variantLength (field : VariantLengthField)
deriving DecidableEq, Repr

/-- An entry of `m_stack`: `m_start_offset` is written by every push before anything reads it, so it
is kept with the entry and not in the object. -/
structure Pushed where
  startOffset : ℕ
  field : PushField
deriving DecidableEq, Repr

namespace PushField

/-- `reserve_length`, `none` when it never returns. -/
def reserveLength : PushField → Option ℕ
  | .length _ => some 4
  | .crc32 _ => some 4
  | .variantLength field => variantSize field.length

end PushField

/-- `adjust_length` of the dynamic field: the new length, and the change of the room it needs. -/
def VariantLengthField.adjustLength (field : VariantLengthField) (startOffset currOffset : ℕ) :
    Option (VariantLengthField × ℤ) := do
  let oldSize ← variantSize field.length
  let length := (Int32.ofInt (currOffset - startOffset - oldSize)).toInt64
  let newSize ← variantSize length
  return ({ field with length }, newSize - oldSize)

namespace Pushed

/-- The bytes covered by a CRC field when the encoder or decoder stands at `curOffset`. -/
def covered (entry : Pushed) (curOffset : ℕ) (buf : Bytes) : Bytes :=
  (buf.take curOffset).drop (entry.startOffset + 4)

/-- What `run` stores at the start offset of the field. -/
def header (curOffset : ℕ) (buf : Bytes) (entry : Pushed) : Bytes :=
  match entry.field with
  | .length _ => bigEndian 4 (((curOffset : ℤ) - entry.startOffset - 4) % 2 ^ 32).toNat
  | .crc32 field => bigEndian 4 (Kafka.crc32 field.polynomial (entry.covered curOffset buf)).toNat
  | .variantLength field => encodeVariant field.length

/-- `run`; `none` when it stores past the end of the buffer. -/
def run (curOffset : ℕ) (buf : Bytes) (entry : Pushed) : Option Bytes :=
  let bytes := entry.header curOffset buf
  if entry.startOffset + bytes.length ≤ buf.length then some (overlay buf entry.startOffset bytes) else none

/-- `check`: an error code, and `none` when it never returns. -/
def check (curOffset : ℕ) (buf : Bytes) (entry : Pushed) : Option KError :=
  match entry.field with
  | .length field =>
    if Int32.ofInt ((curOffset : ℤ) - entry.startOffset - 4) ≠ field.length then some ErrPacketDecodingError
    else some 0
  | .crc32 field =>
    let crc := Kafka.crc32 field.polynomial (entry.covered curOffset buf)
    let expected := UInt32.ofNat (value ((buf.drop entry.startOffset).take 4))
    if crc ≠ expected then some ErrCRCMismatch else some ErrNoError
  | .variantLength field =>
    (variantSize field.length).map fun reserve : ℕ =>
      if (Int32.ofInt ((curOffset : ℤ) - entry.startOffset - reserve)).toInt64 ≠ field.length then -1 else 0

end Pushed

end Coev.Kafka
