import Coev.ToMathlib.ByteString

/-! # Hashes of 128 bits
A hash is two words. It is multiplied by a prime of which only the low factor and the distance of the high bit are kept,
one word at a time.
-/

namespace Coev.Fnv

abbrev Bytes := List UInt8

def offset128Lower : UInt64 := 0x62b821756295c58d

def offset128Higher : UInt64 := 0x6c62272e07bb0142

def prime128Lower : UInt64 := 0x13b

def prime128Shift : UInt32 := 24

/-- What `multiply128` leaves in `higher` and `lower`. -/
def multiply128 (higher lower primeLower : UInt64) (primeShift : UInt32) : UInt64 × UInt64 :=
  let s0 := lower * primeLower
  let s1 := (lower >>> 32) * primeLower
  let s1 := s1 + (s0 >>> 32)
  let shift_part := lower <<< primeShift.toUInt64
  let s0 := s0 + shift_part
  let s1 := s1 + (shift_part >>> 32)
  let s0 := s0 + higher * primeLower
  let s1 := s1 + ((higher * primeLower) >>> 32)
  (s1, s0)

/-- `m_hash`, of `FNV128` and of `FNV128a`: the higher word first. -/
abbrev Hash := UInt64 × UInt64

/-- `Reset` of both. -/
def Reset : Hash := (offset128Higher, offset128Lower)

namespace FNV128

/-- A byte in `Update`. -/
def next (m_hash : Hash) (byte : UInt8) : Hash :=
  let (higher, lower) := multiply128 m_hash.1 m_hash.2 prime128Lower prime128Shift
  (higher, lower ^^^ byte.toUInt64)

def Update (m_hash : Hash) (data : Bytes) : Hash := data.foldl next m_hash

end FNV128

namespace FNV128a

/-- A byte in `Update`. -/
def next (m_hash : Hash) (byte : UInt8) : Hash :=
  multiply128 m_hash.1 (m_hash.2 ^^^ byte.toUInt64) prime128Lower prime128Shift

def Update (m_hash : Hash) (data : Bytes) : Hash := data.foldl next m_hash

end FNV128a

end Coev.Fnv

/-! # Cyclic redundancy checks by table
A table has one entry for every byte. The tables of three polynomials are built once; every other polynomial is built
into one table that all its users share, so what an object reads there is what was built last.
-/

namespace Coev.Crc32

open ByteString

abbrev Bytes := List UInt8

abbrev Polynomial := UInt32

def IEEE : Polynomial := 0xedb88320

def Castagnoli : Polynomial := 0x82f63b78

def Koopman : Polynomial := 0xeb31d82e

/-- What a `Handle` points to. It is only read under an index of one byte. -/
abbrev Table := UInt8 → UInt32

/-- One round of the inner loop of `SimpleMakeHandle`. -/
def divide (poly crc : UInt32) : UInt32 := if crc &&& 1 ≠ 0 then (crc >>> 1) ^^^ poly else crc >>> 1

/-- The table that `SimpleMakeHandle` fills. -/
def SimpleMakeHandle (poly : Polynomial) : Table := fun i => (divide poly)^[8] i.toUInt32

/-- A `char` is signed, so it is extended by its sign before it meets the register. -/
def SimpleUpdate (crc : UInt32) (data : Bytes) (tab : Table) : UInt32 :=
  ~~~data.foldl (fun crc byte => tab ((crc ^^^ byte.toInt8.toInt32.toUInt32) &&& 0xFF).toUInt8 ^^^ (crc >>> 8)) (~~~crc)

def Update (crc : UInt32) (data : Bytes) (handle : Table) : UInt32 := SimpleUpdate crc data handle

def Checksum (data : Bytes) (handle : Table) : UInt32 := Update 0 data handle

def ChecksumIEEE (data : Bytes) : UInt32 := Checksum data (SimpleMakeHandle IEEE)

/-- The tables in static storage. -/
inductive Handle where
  | ieee
  | castagnoli
  | koopman
  | default_handle
deriving DecidableEq, Repr

/-- What is read through a handle, for the present contents of the shared table. -/
def Handle.table (default_handle : Table) : Handle → Table
  | .ieee => SimpleMakeHandle IEEE
  | .castagnoli => SimpleMakeHandle Castagnoli
  | .koopman => SimpleMakeHandle Koopman
  | .default_handle => default_handle

/-- The handle, and the contents of the shared table after the call. -/
def MakeHandle (poly : Polynomial) (default_handle : Table) : Handle × Table :=
  if poly = IEEE then (.ieee, default_handle)
  else if poly = Castagnoli then (.castagnoli, default_handle)
  else if poly = Koopman then (.koopman, default_handle)
  else (.default_handle, SimpleMakeHandle poly)

/-! ## Objects -/

structure Digest where
  crc : UInt32
  hdl : Handle
deriving DecidableEq, Repr

structure CRC32 where
  m_digest : Digest
deriving DecidableEq, Repr

namespace CRC32

/-- The constructor from a polynomial. -/
def make (poly : Polynomial) (default_handle : Table) : CRC32 × Table :=
  let (hdl, default_handle) := MakeHandle poly default_handle
  (⟨⟨0, hdl⟩⟩, default_handle)

def Reset (c : CRC32) : CRC32 := ⟨{ c.m_digest with crc := 0 }⟩

def Update (default_handle : Table) (c : CRC32) (data : Bytes) : CRC32 :=
  ⟨{ c.m_digest with crc := Crc32.Update c.m_digest.crc data (c.m_digest.hdl.table default_handle) }⟩

def Final (c : CRC32) : UInt32 := c.m_digest.crc

end CRC32

def BEAppendUint32 (str : Bytes) (value : UInt32) : Bytes := str ++ bigEndian 4 value.toNat

def BEUint32 (str : Bytes) (offset : ℕ) : UInt32 := UInt32.ofNat (value ((str.drop offset).take 4))

def magic : Bytes := [99, 114, 99, 1]

def marshaled_size : ℕ := 4 + 4 + 4

/-- A word as it lies in memory. -/
def inMemory (word : UInt32) : Bytes := [word.toUInt8, (word >>> 8).toUInt8, (word >>> 16).toUInt8, (word >>> 24).toUInt8]

/-- `tableSum` and `expectedTableSum`. A `Handle` is a pointer, so `sizeof(Handle)` bytes are the first two entries. No
handle of a polynomial is null. -/
def tableSum (table : Table) : UInt32 := ChecksumIEEE (inMemory (table 0) ++ inMemory (table 1))

namespace CRC32

def MarshalBinary (default_handle : Table) (c : CRC32) : Bytes :=
  BEAppendUint32 (BEAppendUint32 magic (tableSum (c.m_digest.hdl.table default_handle))) c.m_digest.crc

def UnmarshalBinary (default_handle : Table) (c : CRC32) (b : Bytes) : Bool × CRC32 :=
  if b.length < 4 ∨ b.take 4 ≠ magic then (false, c)
  else if b.length ≠ marshaled_size then (false, c)
  else if tableSum (c.m_digest.hdl.table default_handle) ≠ BEUint32 b 4 then (false, c)
  else (true, ⟨{ c.m_digest with crc := BEUint32 b 8 }⟩)

end CRC32

/-! ## A program with several objects -/

/-- The calls a program makes. Objects are numbered as they are made, and messages as they are marshalled. -/
inductive Event where
  | create (poly : Polynomial)
  | update (i : ℕ) (data : Bytes)
  | reset (i : ℕ)
  | marshal (i : ℕ)
  | unmarshal (i k : ℕ)
deriving DecidableEq, Repr

structure World where
  default_handle : Table := fun _ => 0
  objects : List CRC32 := []
  /-- What `MarshalBinary` returned. -/
  messages : List Bytes := []
  /-- What `UnmarshalBinary` returned. -/
  accepted : List Bool := []

/-- One call; `none` where the object or the message does not exist. -/
def World.step (w : World) : Event → Option World
  | .create poly =>
    let (object, default_handle) := CRC32.make poly w.default_handle
    some { w with objects := w.objects ++ [object], default_handle }
  | .update i data => do
    let object ← w.objects[i]?
    return { w with objects := w.objects.set i (object.Update w.default_handle data) }
  | .reset i => do
    let object ← w.objects[i]?
    return { w with objects := w.objects.set i object.Reset }
  | .marshal i => do
    let object ← w.objects[i]?
    return { w with messages := w.messages ++ [object.MarshalBinary w.default_handle] }
  | .unmarshal i k => do
    let object ← w.objects[i]?
    let b ← w.messages[k]?
    let (answer, object) := object.UnmarshalBinary w.default_handle b
    return { w with objects := w.objects.set i object, accepted := w.accepted ++ [answer] }

end Coev.Crc32
