import Coev.ToMathlib.ByteString

/-! # Archives: how records are written and read

`oarchive` appends to a buffer and `iarchive` reads from the front of a view. What both do with a record follows from the
kinds of its fields, which each of them lists for itself.
-/

namespace Coev.Zookeeper

open ByteString

abbrev Bytes := List UInt8

/-- A negative return code, or the exception of `resize` with a size that is too large. -/
inductive Failure where
  | code (rc : Int32)
  | lengthError
deriving DecidableEq, Repr

def E2BIG : Int32 := 7
def EINVAL : Int32 := 22

/-! ## Primitives -/

/-- A word as the machine loads it from memory. -/
def load (bytes : Bytes) : ℕ := value bytes.reverse

/-- `ntohl`, whose argument has 32 bits. -/
def ntohl (n : ℕ) : ℕ := value (bigEndian 4 n).reverse

def serializeInt (d : Int32) : Bytes := bigEndian 4 d.toUInt32.toNat

/-- `serialize_log`. -/
def serializeLong (d : Int64) : Bytes := bigEndian 8 d.toUInt64.toNat

def serializeBool (d : Int32) : Bytes := [if d ≠ 0 then 1 else 0]

/-- `serialize_string`, and `serialize_buffer`, which calls it. -/
def serializeString (s : Bytes) : Bytes :=
  if s = [] then serializeInt (-1) else serializeInt (Int32.ofNat s.length) ++ s

/-- A reader takes what it reads off the view. -/
abbrev Deserialize (α : Type) := StateT Bytes (Except Failure) α

/-- A failure. -/
def refuse {α : Type} (failure : Failure) : Deserialize α := fun _ => .error failure

/-- The first `n` bytes of the view, if it has as many. -/
def takeBytes (n : ℕ) : Deserialize Bytes := fun view =>
  if view.length < n then .error (.code (-E2BIG)) else .ok (view.take n, view.drop n)

def deserializeInt : Deserialize Int32 := do return Int32.ofNat (ntohl (load (← takeBytes 4)))

/-- `deserialize_long`, which gives all eight bytes to `ntohl`. -/
def deserializeLong : Deserialize Int64 := do return Int64.ofNat (ntohl (load (← takeBytes 8)))

def deserializeBool : Deserialize Int32 := do return if load (← takeBytes 1) ≠ 0 then 1 else 0

/-- The check of `deserialize_string`, which compares the size of the view as an `int32_t`. -/
def takeString (len : Int32) : Deserialize Bytes := fun view =>
  if Int32.ofNat view.length < len then .error (.code (-E2BIG))
  else .ok (view.take len.toInt.toNat, view.drop len.toInt.toNat)

/-- `deserialize_string`, and `deserialize_buffer`, which calls it. -/
def deserializeString : Deserialize Bytes := do
  let len ← deserializeInt
  if len < 0 then refuse (.code (-EINVAL))
  takeString len

/-! ## Records -/

/-- The kinds of fields, and how fields follow one another. `aclVec` is a vector whose writer leaves the count at 0. -/
inductive Kind where
  | int
  | long
  | bool
  | string
  | vec (kind : Kind)
  | aclVec (kind : Kind)
  | done
  | field (name : String) (kind rest : Kind)
deriving DecidableEq, Repr

namespace Kind

/-- A buffer is written and read as a string. -/
def buffer : Kind := .string

/-- The fields of a record, in their order. -/
def record (fields : List (String × Kind)) : Kind := fields.foldr (fun f rest => .field f.1 f.2 rest) .done

/-- The values of a kind. -/
def Value : Kind → Type
  | .int => Int32
  | .long => Int64
  | .bool => Int32
  | .string => Bytes
  | .vec kind => List kind.Value
  | .aclVec kind => List kind.Value
  | .done => Unit
  | .field _ kind rest => kind.Value × rest.Value

/-- The loops of the vectors run up to their size as an `int32_t`. -/
def serialize : (kind : Kind) → kind.Value → Bytes
  | .int, d => serializeInt d
  | .long, d => serializeLong d
  | .bool, d => serializeBool d
  | .string, s => serializeString s
  | .vec kind, vs =>
    let count := Int32.ofNat vs.length
    serializeInt count ++ (vs.take count.toInt.toNat).flatMap kind.serialize
  | .aclVec _, _ => serializeInt 0
  | .done, _ => []
  | .field _ kind rest, v => kind.serialize v.1 ++ rest.serialize v.2

/-- `n` elements. -/
def times {α : Type} (read : Deserialize α) : ℕ → Deserialize (List α)
  | 0 => return []
  | n + 1 => do
    let v ← read
    let vs ← times read n
    return v :: vs

/-- `resize` with what was read as the count, and then the elements. -/
def elements {α : Type} (read : Deserialize α) : Deserialize (List α) := do
  let count ← deserializeInt
  if count < 0 then refuse .lengthError
  times read count.toInt.toNat

def deserialize : (kind : Kind) → Deserialize kind.Value
  | .int => deserializeInt
  | .long => deserializeLong
  | .bool => deserializeBool
  | .string => deserializeString
  | .vec kind => elements kind.deserialize
  | .aclVec kind => elements kind.deserialize
  | .done => return ()
  | .field _ kind rest => do
    let v ← kind.deserialize
    let w ← rest.deserialize
    return (v, w)

end Kind

/-- A type of records: what `oarchive` writes of it, and what `iarchive` reads, which are the same fields. -/
structure RecordType where
  oarchive : Kind
  iarchive : Kind
  agree : iarchive = oarchive := by rfl

namespace RecordType

abbrev Value (r : RecordType) : Type := r.oarchive.Value

def serialize (r : RecordType) (v : r.Value) : Bytes := r.oarchive.serialize v

def deserialize (r : RecordType) : Deserialize r.Value :=
  (r.agree ▸ r.iarchive.deserialize : Deserialize r.oarchive.Value)

end RecordType

end Coev.Zookeeper
