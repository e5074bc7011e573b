import Coev.Model.Kafka.PushField
import Coev.ToMathlib.EStateM

/-! # `packet_encoder` and the two-pass `encode`

One encoder type serves both passes: PREP only counts, REAL stores into a buffer of the counted
size, and every operation branches on the pass first. The stack holds the pushed fields; the code
keeps pointers to the caller's objects, so `pop` gives the object back with what the encoder wrote
into it. A REAL store past the end of the buffer is the failure of the `assert` next to it.
-/

namespace Coev.Kafka

open ByteString

/-- `packet_encoder::Type`. -/
inductive EncoderType where
  | NONE
  | PREP
  | REAL
deriving DecidableEq, Repr

/-- The members of `packet_encoder`; `m_offset` and `m_length` are one union. -/
structure PacketEncoder where
  type : EncoderType
  offset : ℕ := 0
  stack : List Pushed := []
  raw : Bytes := []
  flexible : ℕ := 0
deriving DecidableEq, Repr

abbrev Encode (α : Type) := EStateM Failure PacketEncoder α

namespace PacketEncoder

/-- The branch on `m_type` every operation starts with. -/
def byPass {α : Type} (prep real : Encode α) : Encode α := fun pe =>
  match pe.type with
  | .PREP => prep pe
  | .REAL => real pe
  | .NONE => .error (.fault .assertion) pe

/-- The branch on `__is_fixed()` and `__is_flexible()`. -/
def byMode {α : Type} (fixed flexible : Encode α) : Encode α := fun pe =>
  if pe.flexible = 0 then fixed pe else flexible pe

/-- `m_length += n`. -/
def grow (n : ℕ) : Encode Unit := fun pe => .ok () { pe with offset := pe.offset + n }

/-- `m_length += size * static_cast<int>(in.size())`, an `int` product; a count that is no `int`
counts as its overflow. -/
def growBy (size count : ℕ) : Encode Unit :=
  if size * count ≤ int32Max then grow (size * count) else faultWith .overflow

/-- Store bytes at `m_offset` and advance; the end is asserted to lie inside `m_raw`. -/
def store (bytes : Bytes) : Encode Unit := fun pe =>
  if pe.offset + bytes.length ≤ pe.raw.length then
    .ok () { pe with offset := pe.offset + bytes.length, raw := overlay pe.raw pe.offset bytes }
  else .error (.fault .assertion) pe

def putInt8 (x : Int8) : Encode Unit := byPass (grow 1) (store (bigEndian 1 x.toUInt8.toNat))

def putInt16 (x : Int16) : Encode Unit := byPass (grow 2) (store (bigEndian 2 x.toUInt16.toNat))

def putInt32 (x : Int32) : Encode Unit := byPass (grow 4) (store (bigEndian 4 x.toUInt32.toNat))

def putInt64 (x : Int64) : Encode Unit := byPass (grow 8) (store (bigEndian 8 x.toUInt64.toNat))

def putVariant (x : Int64) : Encode Unit := byPass (grow (varintLen x)) (store (encodeVariant x))

def putUVarint (x : UInt64) : Encode Unit := byPass (grow (uvarintLen x)) (store (encodeUVariant x))

/-- `putFloat64`, given the bits of the `double`. -/
def putFloat64 (bits : UInt64) : Encode Unit := byPass (grow 8) (putInt64 bits.toInt64)

/-- `putUVarint(static_cast<uint64_t>(in + 1))`: the sum is an `int`. -/
def putLengthPlusOne (x : Int32) : Encode Unit :=
  if x = Int32.maxValue then faultWith .overflow else putUVarint (x + 1).toInt64.toUInt64

/-- The PREP branch also tests `in` against the largest `int32_t`, which no `int32_t` exceeds. -/
def putArrayLength (x : Int32) : Encode Unit :=
  byPass
    (byMode (grow 4) (putLengthPlusOne x))
    (byMode (putInt32 x) (putLengthPlusOne x))

def putBool (x : Bool) : Encode Unit := byPass (grow 1) (putInt8 (if x then 1 else 0))

def putKError (x : Int16) : Encode Unit := byPass (grow 2) (putInt16 x)

/-- `putDurationMs`, given `ms.count()`. -/
def putDurationMs (ms : Int64) : Encode Unit := byPass (grow 4) (putInt32 ms.toInt32)

def putRawBytes (s : Bytes) : Encode Unit :=
  byPass (if s.length > int32Max then failCode (-1) else grow s.length) (store s)

def putBytes (s : Bytes) : Encode Unit :=
  byPass
    (byMode
      (do
        grow 4
        if s.isEmpty then pure () else if s.length > int32Max then failCode (-1) else putRawBytes s)
      (do putUVarint (UInt64.ofNat (s.length + 1)); putRawBytes s))
    (byMode
      (if s.isEmpty then putInt32 (-1) else do putInt32 (Int32.ofNat s.length); putRawBytes s)
      (do putUVarint (UInt64.ofNat (s.length + 1)); putRawBytes s))

/-- The two passes of `putVariantBytes` are the same text. -/
def putVariantBytes (s : Bytes) : Encode Unit :=
  if s.isEmpty then putVariant (-1) else do putVariant (Int64.ofNat s.length); putRawBytes s

def putString (s : Bytes) : Encode Unit :=
  byPass
    (byMode
      (if s.length > int16Max then failCode (-1) else do grow 2; grow s.length)
      (do putArrayLength (Int32.ofNat s.length); putRawBytes s))
    (byMode
      (do putInt16 (Int16.ofNat s.length); store s)
      (do putArrayLength (Int32.ofNat s.length); putRawBytes s))

def putNullableString (s : Bytes) : Encode Unit :=
  byPass
    (byMode
      (if s.isEmpty then grow 2 else putString s)
      (if s.isEmpty then putUVarint 0 else putString s))
    (byMode
      (if s.isEmpty then putInt16 (-1) else putString s)
      (if s.isEmpty then putUVarint 0 else putString s))

/-- In the flexible mode the PREP pass counts four bytes a string instead of calling `putString`. -/
def putStringArray (ss : List Bytes) : Encode Unit :=
  byPass
    (byMode
      (do putArrayLength (Int32.ofNat ss.length); ss.forM putString)
      (do putArrayLength (Int32.ofNat ss.length); growBy 4 ss.length))
    (do putArrayLength (Int32.ofNat ss.length); ss.forM putString)

def putInt32Array (xs : List Int32) : Encode Unit :=
  byPass
    (byMode
      (do grow 4; growBy 4 xs.length)
      (do putUVarint (UInt64.ofNat xs.length + 1); growBy 4 xs.length))
    (byMode
      (do putArrayLength (Int32.ofNat xs.length); xs.forM putInt32)
      (do putUVarint (UInt64.ofNat xs.length + 1); xs.forM putInt32))

def putInt64Array (xs : List Int64) : Encode Unit :=
  byPass
    (do putArrayLength (Int32.ofNat xs.length); growBy 8 xs.length)
    (do putArrayLength (Int32.ofNat xs.length); xs.forM putInt64)

def putNullableInt32Array (xs : List Int32) : Encode Unit :=
  byPass
    (byMode
      (if xs.isEmpty then grow 4 else do putArrayLength (Int32.ofNat xs.length); growBy 4 xs.length)
      (if xs.isEmpty then putUVarint 0
        else do putUVarint (UInt64.ofNat xs.length + 1); growBy 4 xs.length))
    (byMode
      (if xs.isEmpty then putInt32 (-1)
        else do putArrayLength (Int32.ofNat xs.length); xs.forM putInt32)
      (if xs.isEmpty then putUVarint 0
        else do putUVarint (UInt64.ofNat xs.length + 1); xs.forM putInt32))

def putEmptyTaggedFieldArray : Encode Unit :=
  byPass (byMode (pure ()) (putUVarint 0)) (byMode (pure ()) (putUVarint 0))

/-- `push`: the field saves its start and the encoder skips the room it asks for. -/
def push (field : PushField) : Encode Unit := fun pe =>
  let entry : Pushed := ⟨pe.offset, field⟩
  match pe.type, field.reserveLength with
  | .NONE, _ => .error (.fault .assertion) pe
  | _, none => .error (.fault .divergence) pe
  | .PREP, some reserve => .ok () { pe with offset := pe.offset + reserve, stack := entry :: pe.stack }
  | .REAL, some reserve =>
    if pe.offset + reserve ≤ pe.raw.length then
      .ok () { pe with offset := pe.offset + reserve, stack := entry :: pe.stack }
    else .error (.fault .assertion) pe

/-- `pop`: PREP adjusts a dynamic field, REAL runs the field over the buffer. The popped object is
returned; an empty stack is an error in PREP only. -/
def pop : Encode (Option PushField) := fun pe =>
  match pe.type, pe.stack with
  | .NONE, _ => .error (.fault .assertion) pe
  | .PREP, [] => .error (.code (-1)) pe
  | .PREP, ⟨startOffset, .variantLength field⟩ :: stack =>
    match field.adjustLength startOffset pe.offset with
    | none => .error (.fault .divergence) { pe with stack }
    | some (field, change) =>
      .ok (some (.variantLength field)) { pe with offset := (pe.offset + change).toNat, stack }
  | .PREP, entry :: stack => .ok (some entry.field) { pe with stack }
  | .REAL, [] => .ok none pe
  | .REAL, entry :: stack =>
    match entry.run pe.offset pe.raw with
    | none => .error (.fault .outOfBounds) { pe with stack }
    | some raw => .ok (some entry.field) { pe with raw, stack }

/-- `push(field)`, a section, `pop()`: the object comes back with what the encoder wrote into it. -/
def enclose {α : Type} (field : PushField) (body : Encode α) : Encode (PushField × α) := do
  push field
  let a ← body
  let popped ← pop
  return (popped.getD field, a)

/-- `prepare_flexible_encoder`: the body runs with the flexible count one higher. -/
def prepareFlexible {α : Type} (isFlexible : Bool) (body : Encode α) : Encode α := fun pe =>
  if isFlexible then
    match body { pe with flexible := pe.flexible + 1 } with
    | .ok a pe => .ok a { pe with flexible := pe.flexible - 1 }
    | .error e pe => .error e { pe with flexible := pe.flexible - 1 }
  else body pe

end PacketEncoder

open PacketEncoder

/-- `encode`: size the buffer with a PREP pass, then fill it. The object is returned with what the
passes wrote into its mutable members; the bytes are those appended to `out`. -/
def encode {α : Type} (isFlexible : Bool) (body : α → Encode α) (e : α) : Except Failure (Bytes × α) :=
  match prepareFlexible isFlexible (body e) { type := .PREP } with
  | .error (.code _) _ => .error (.code ErrEncodeError)
  | .error (.fault f) _ => .error (.fault f)
  | .ok e pe =>
    if pe.offset > maxRequestSize then .error (.code ErrEncodeError)
    else
      match prepareFlexible isFlexible (body e)
          { type := .REAL, raw := List.replicate pe.offset 0 } with
      | .error (.code _) _ => .error (.code ErrEncodeError)
      | .error (.fault f) _ => .error (.fault f)
      | .ok e real => .ok (real.raw, e)

end Coev.Kafka
