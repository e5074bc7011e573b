import Coev.Model.Kafka.AdminMessages

/-! # Requests and their frames

A request that is decoded into does not own what it refers to: its client id is a view of a string and its body a pointer,
both to locals of `decode`. Objects have addresses here, and an object that is gone cannot be read.
-/

namespace Coev.Kafka

open PacketDecoder PacketEncoder

variable {σ α : Type}

/-! ## Memory -/

/-- An object with an address. -/
inductive MemoryObject (σ : Type) where
  | text (s : Bytes)
  | body (b : σ)
deriving DecidableEq

/-- The objects by their addresses, which are not used twice. -/
structure Memory (σ : Type) where
  objects : List (Option (MemoryObject σ)) := []
deriving DecidableEq

namespace Memory

/-- The address of the next object. -/
def next (m : Memory σ) : ℕ := m.objects.length

def allocate (m : Memory σ) (object : MemoryObject σ) : Memory σ := ⟨m.objects ++ [some object]⟩

def store (m : Memory σ) (address : ℕ) (object : MemoryObject σ) : Memory σ := ⟨m.objects.set address (some object)⟩

/-- The end of the lifetime of an object. -/
def free (m : Memory σ) (address : ℕ) : Memory σ := ⟨m.objects.set address none⟩

def text? (m : Memory σ) (address : ℕ) : Option Bytes :=
  match m.objects[address]? with
  | some (some (.text s)) => some s
  | _ => none

def body? (m : Memory σ) (address : ℕ) : Option σ :=
  match m.objects[address]? with
  | some (some (.body b)) => some b
  | _ => none

end Memory

/-! ## Requests -/

/-- What the types of request bodies override, and `std::make_shared` of the type with a key, for a version. -/
structure ProtocolBodies (σ : Type) where
  key : σ → Int16
  version : σ → Int16
  headerVersion : σ → Int16
  isFlexibleVersion : σ → Int16 → Bool
  /-- The body comes back with what encoding writes into it. -/
  encode : σ → Encode σ
  decode : Int16 → DecodeInto σ Unit
  make : Int16 → Int16 → σ

/-- The keys with a case in `request_allocate`. -/
def requestKeys : List Int16 :=
  [0, 1, 2, 3, 8, 9, 10, 11, 12, 13, 14, 15, 16, 17, 18, 19, 20, 21, 22, 24, 25, 26, 28, 29, 30, 31, 32, 33, 35, 36, 37,
    42, 43, 44, 45, 46, 47, 48, 49, 50, 51]

/-- `Request`; a view of no characters has no address. -/
structure Request where
  correlationId : Int32 := 0
  clientId : Option ℕ := none
  body : Option ℕ := none
deriving DecidableEq, Repr

/-- What a request refers to. -/
structure RequestContents (σ : Type) where
  correlationId : Int32 := 0
  clientId : Bytes := []
  body : σ
deriving DecidableEq

/-- Memory and a request in it. -/
structure Scene (σ : Type) where
  memory : Memory σ := {}
  request : Request := {}

/-- The contents of the request, where they are still there. -/
def Scene.contents (scene : Scene σ) : Option (RequestContents σ) := do
  let clientId ← match scene.request.clientId with
    | none => some []
    | some address => scene.memory.text? address
  let body ← scene.memory.body? (← scene.request.body)
  return { correlationId := scene.request.correlationId, clientId, body }

variable (bodies : ProtocolBodies σ)

def requestAllocate (key version : Int16) : Option σ := if key ∈ requestKeys then some (bodies.make key version) else none

namespace RequestContents

def encodeHeader (r : RequestContents σ) : Encode Unit := do
  putInt16 (bodies.key r.body)
  putInt16 (bodies.version r.body)
  putInt32 r.correlationId
  inVersions (1 ≤ bodies.headerVersion r.body) do
    putInt16 (Int16.ofNat r.clientId.length)
    ignoreCode () (putRawBytes r.clientId)
  inVersions (2 ≤ bodies.headerVersion r.body) (putUVarint 0)

/-- `Request::encode`. -/
def encode (r : RequestContents σ) : Encode (RequestContents σ) := do
  let (_, body) ← enclose (.length {}) do
    r.encodeHeader bodies
    prepareFlexible (bodies.isFlexibleVersion r.body (bodies.version r.body)) (bodies.encode r.body)
  return { r with body }

/-- The frame of a request. -/
def frame (r : RequestContents σ) : Except Failure Bytes := (Kafka.encode false (encode bodies) r).map Prod.fst

end RequestContents

/-! ## Decoding -/

open DecodeInto

/-- An object lives while a computation runs. -/
def withLocal (object : MemoryObject σ) (use : ℕ → DecodeInto (Scene σ) α) : DecodeInto (Scene σ) α := fun (scene, pd) =>
  match use scene.memory.next ({ scene with memory := scene.memory.allocate object }, pd) with
  | .ok a (scene', pd) => .ok a ({ scene' with memory := scene'.memory.free scene.memory.next }, pd)
  | .error e (scene', pd) => .error e ({ scene' with memory := scene'.memory.free scene.memory.next }, pd)

/-- Decode the body at an address. -/
def onBody (address : ℕ) (x : DecodeInto σ Unit) : DecodeInto (Scene σ) Unit := fun (scene, pd) =>
  match scene.memory.body? address with
  | none => .error (.fault .nullPointer) (scene, pd)
  | some body =>
    match x (body, pd) with
    | .ok () (body, pd) => .ok () ({ scene with memory := scene.memory.store address (.body body) }, pd)
    | .error e (body, pd) => .error e ({ scene with memory := scene.memory.store address (.body body) }, pd)

namespace Request

/-- `decode`, from where the body is there. -/
def decodeBody (version : Int16) (body : σ) (address : ℕ) : DecodeInto (Scene σ) Unit := do
  update fun scene => { scene with request := { scene.request with body := some address } }
  inVersions (2 ≤ bodies.headerVersion body) do
    let _ ← read getUVariant
  if bodies.isFlexibleVersion body version then inFlexible (onBody address (bodies.decode version))
  else onBody address (bodies.decode version)

/-- `decode`, from where the body was asked for. -/
def decodeAllocated (version : Int16) : Option σ → DecodeInto (Scene σ) Unit
  | none => do
    update fun scene => { scene with request := { scene.request with body := none } }
    failCode (-1)
  | some body => withLocal (.body body) (decodeBody bodies version body)

/-- `decode`; `clientID` and the shared pointer to the body are local. -/
def decode : DecodeInto (Scene σ) Unit :=
  withLocal (.text []) fun clientID => do
    let key ← read getInt16
    let version ← read getInt16
    field getInt32 fun id scene => { scene with request := { scene.request with correlationId := id } }
    field getString fun s scene =>
      { memory := scene.memory.store clientID (.text s), request := { scene.request with clientId := some clientID } }
    decodeAllocated bodies version (requestAllocate bodies key version)

end Request

/-- `decode` of a whole buffer into a request. -/
def decodeRequest (buf : Bytes) : EStateM Failure (Scene σ) Unit := fun scene =>
  if buf.isEmpty then .ok () scene
  else
    match Request.decode bodies (scene, { raw := buf }) with
    | .error (.code _) (scene, _) => .error (.code ErrDecodeError) scene
    | .error (.fault f) (scene, _) => .error (.fault f) scene
    | .ok () (scene, pd) => if pd.offset = buf.length then .ok () scene else .error (.fault (.thrown .packetError)) scene

/-! ## Frames -/

/-- What `request_decode` works on: the bytes that arrive, the request, and the size it reports. -/
structure Arrival (σ : Type) where
  stream : Bytes
  scene : Scene σ := {}
  size : ℕ := 0

/-- `ReadFull`: so many bytes, or `INVALID` where the stream ends before. -/
def readFull (n : ℕ) : EStateM Failure (Arrival σ) Bytes := fun s =>
  if s.stream.length < n then .error (.code (-1)) { s with stream := [] }
  else .ok (s.stream.take n) { s with stream := s.stream.drop n }

/-- The size that goes with an error. -/
def reporting (size : ℕ) (x : EStateM Failure (Arrival σ) α) : EStateM Failure (Arrival σ) α := fun s =>
  match x s with
  | .error (.code err) s => .error (.code err) { s with size }
  | result => result

/-- The length in front of a request; each byte is a signed `char` when it is shifted into place. -/
def frameLength (header : Bytes) : ℕ := (signedWord header).toUInt32.toNat

def onScene (x : EStateM Failure (Scene σ) α) : EStateM Failure (Arrival σ) α := fun s =>
  match x s.scene with
  | .ok a scene => .ok a { s with scene }
  | .error e scene => .error e { s with scene }

def requestDecode : EStateM Failure (Arrival σ) Unit := do
  let length := frameLength (← reporting 4 (readFull 4))
  if length ≤ 4 ∨ maxRequestSize < length then reporting 4 (failCode (-1))
  let requestEncoded ← reporting (4 + length) (readFull length)
  reporting (4 + length) (onScene (decodeRequest bodies requestEncoded))
  modify fun s => { s with size := 4 + length }

end Coev.Kafka
