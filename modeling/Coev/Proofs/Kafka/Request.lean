import Coev.Model.Kafka.Request
import Coev.Proofs.Kafka.Costs
import Coev.Proofs.Kafka.RecordBatch

/-! # Requests

What decoding a request leaves behind: its body and its client id are gone with the locals they belonged to. The bytes of a
request, and how a body is read behind its header.
-/

namespace Coev.Kafka

open EStateM (bind_eq_ok_iff)
open ByteString PacketDecoder PacketEncoder DecodeInto

variable {σ : Type} {bodies : ProtocolBodies σ} {r : RequestContents σ} {bytes : Bytes} {scene scene' : Scene σ}
  {pd pd' : PacketDecoder}
variable {x : DecodeInto σ Unit} {address : ℕ} {flexible : Bool}

/-! ## What a request refers to -/

theorem Memory.body?_free_self (m : Memory σ) (address : ℕ) : (m.free address).body? address = none := by
  rw [body?, free, List.getElem?_set_self']
  cases m.objects[address]? <;> rfl

/-- What is gone stays gone. -/
theorem Memory.body?_free {m : Memory σ} (gone : m.body? address = none) (other : ℕ) :
    (m.free other).body? address = none := by
  by_cases same : other = address
  · rw [same, body?_free_self]
  · rw [body?, free, List.getElem?_set_ne same]
    exact gone

theorem Scene.contents_of_gone (points : scene.request.body = some address) (gone : scene.memory.body? address = none) :
    scene.contents = none := by
  simp only [contents, points, gone, Option.bind_eq_bind, Option.bind_some, Option.bind_none]
  cases scene.request.clientId with
  | none => rfl
  | some address => exact Option.bind_fun_none _

theorem withLocal_eq_ok_iff {α : Type} {object : MemoryObject σ} {use : ℕ → DecodeInto (Scene σ) α} {a : α} :
    withLocal object use (scene, pd) = .ok a (scene', pd') ↔
      ∃ inner, use scene.memory.next ({ scene with memory := scene.memory.allocate object }, pd) = .ok a (inner, pd') ∧
        scene' = { inner with memory := inner.memory.free scene.memory.next } := by
  rw [withLocal]
  cases use scene.memory.next ({ scene with memory := scene.memory.allocate object }, pd) with
  | ok b s =>
    simp only [EStateM.Result.ok.injEq, Prod.mk.injEq]
    constructor
    · rintro ⟨rfl, rfl, rfl⟩
      exact ⟨s.1, ⟨rfl, rfl⟩, rfl⟩
    · rintro ⟨inner, ⟨rfl, rfl⟩, rfl⟩
      exact ⟨rfl, rfl, rfl⟩
  | error e s => simp only [reduceCtorEq, false_and, exists_false]

/-- Decoding a body leaves the request alone. -/
theorem onBody_request (run : onBody address x (scene, pd) = .ok () (scene', pd')) :
    scene'.request = scene.request := by
  rw [onBody] at run
  split at run
  · cases run
  · split at run
    · cases run
      rfl
    · cases run

theorem inFlexible_eq_ok {o o' : σ} (run : inFlexible x (o, pd) = .ok () (o', pd')) :
    ∃ before behind, x (o, before) = .ok () (o', behind) := by
  rw [inFlexible] at run
  split at run
  next o₁ pd₁ inner =>
    cases run
    exact ⟨_, _, inner⟩
  next => cases run

theorem Request.decodeBody_request {version : Int16} {body : σ}
    (run : Request.decodeBody bodies version body address (scene, pd) = .ok () (scene', pd')) :
    scene'.request.body = some address := by
  obtain ⟨_, ⟨scene₁, pd₁⟩, set, behind⟩ := bind_eq_ok_iff.mp run
  obtain ⟨_, ⟨scene₂, pd₂⟩, tags, decoded⟩ := bind_eq_ok_iff.mp behind
  have points : scene₁.request.body = some address := by
    cases set
    rfl
  have kept : scene₂ = scene₁ := by
    rw [inVersions] at tags
    split at tags
    · obtain ⟨_, ⟨scene₃, pd₃⟩, count, done⟩ := bind_eq_ok_iff.mp tags
      cases done
      exact (read_eq_ok_iff.mp count).2.symm
    · cases tags
      rfl
  rw [← points, ← kept]
  split at decoded
  · obtain ⟨before, last, inner⟩ := inFlexible_eq_ok decoded
    rw [onBody_request inner]
  · rw [onBody_request decoded]

/-- The body that a decoded request points to is gone. -/
theorem Request.decode_dangles (run : Request.decode bodies (scene, pd) = .ok () (scene', pd')) :
    scene'.contents = none := by
  obtain ⟨inner, fields, rfl⟩ := withLocal_eq_ok_iff.mp run
  obtain ⟨key, ⟨scene₁, pd₁⟩, -, fields⟩ := bind_eq_ok_iff.mp fields
  obtain ⟨version, ⟨scene₂, pd₂⟩, -, fields⟩ := bind_eq_ok_iff.mp fields
  obtain ⟨_, ⟨scene₃, pd₃⟩, -, fields⟩ := bind_eq_ok_iff.mp fields
  obtain ⟨_, ⟨scene₄, pd₄⟩, -, fields⟩ := bind_eq_ok_iff.mp fields
  generalize requestAllocate bodies key version = allocated at fields
  cases allocated with
  | none =>
    obtain ⟨_, _, -, failed⟩ := bind_eq_ok_iff.mp fields
    cases failed
  | some body =>
    obtain ⟨last, decoded, rfl⟩ := withLocal_eq_ok_iff.mp fields
    have points := decodeBody_request decoded
    have gone := Memory.body?_free (last.memory.body?_free_self scene₄.memory.next) scene.memory.next
    exact Scene.contents_of_gone points gone

/-! ## The bytes of a request -/

/-- The header of a request whose client id is short. -/
def RequestContents.headerBytes (bodies : ProtocolBodies σ) (r : RequestContents σ) : Bytes :=
  bigEndian 2 (bodies.key r.body).toUInt16.toNat ++ (bigEndian 2 (bodies.version r.body).toUInt16.toNat ++
    (bigEndian 4 r.correlationId.toUInt32.toNat ++
      (bigEndian 2 (Int16.ofNat r.clientId.length).toUInt16.toNat ++ r.clientId ++
        if 2 ≤ bodies.headerVersion r.body then encodeUVariant 0 else [])))

/-- The encoding of a body, which decoding reads back into a body of its type that was made for its version. -/
structure ReadsBackBody (bodies : ProtocolBodies σ) (body : σ) (section_ : Bytes) : Prop where
  writes : Writes (bodies.isFlexibleVersion body (bodies.version body)) (bodies.encode body) body (some section_)
  reads : ReadsInto (bodies.isFlexibleVersion body (bodies.version body)) (bodies.decode (bodies.version body)) section_
    (bodies.make (bodies.key body) (bodies.version body)) body ()
  header : bodies.headerVersion (bodies.make (bodies.key body) (bodies.version body)) = bodies.headerVersion body
  mode : bodies.isFlexibleVersion (bodies.make (bodies.key body) (bodies.version body)) (bodies.version body) =
    bodies.isFlexibleVersion body (bodies.version body)

theorem writes_putRawBytes {s : Bytes} (small : s.length ≤ int32Max) : Writes flexible (putRawBytes s) () (some s) :=
  ⟨(prep_putRawBytes s).of_eq (if_pos small), real_putRawBytes s⟩

theorem writes_encodeHeader (headed : 1 ≤ bodies.headerVersion r.body) (short : r.clientId.length ≤ int16Max) :
    Writes false (r.encodeHeader bodies) () (some (r.headerBytes bodies)) := by
  have small : r.clientId.length ≤ int32Max := short.trans (by decide)
  have clientId : Writes false (inVersions (1 ≤ bodies.headerVersion r.body) do
      putInt16 (Int16.ofNat r.clientId.length)
      ignoreCode () (putRawBytes r.clientId)) ()
      (if 1 ≤ bodies.headerVersion r.body then
        some (bigEndian 2 (Int16.ofNat r.clientId.length).toUInt16.toNat ++ r.clientId) else some []) :=
    Writes.inVersions fun _ => Writes.of_eq (Writes.bind (writes_putInt16 _) (writes_putRawBytes small).ignoreCode_some) rfl
  have tags : Writes false (inVersions (2 ≤ bodies.headerVersion r.body) (putUVarint 0)) ()
      (if 2 ≤ bodies.headerVersion r.body then some (encodeUVariant 0) else some []) :=
    Writes.inVersions fun _ => ⟨(prep_putUVarint 0).of_eq (by rw [uvarintLen_eq, length_encodeUVariant]), real_putUVarint 0⟩
  refine Writes.of_eq (Writes.bind (writes_putInt16 _) (Writes.bind (writes_putInt16 _) (Writes.bind (writes_putInt32 _)
    (Writes.bind clientId tags)))) ?_
  rw [if_pos headed, RequestContents.headerBytes]
  split <;> rfl

/-- A part in its own mode. -/
theorem writes_prepareFlexible {α : Type} {isFlexible : Bool} {x : Encode α} {a : α} {bytes : Bytes}
    (writes : Writes isFlexible x a (some bytes)) : Writes false (prepareFlexible isFlexible x) a (some bytes) := by
  cases isFlexible with
  | false => exact writes
  | true =>
    obtain ⟨counts, stores⟩ := writes
    constructor
    · intro pe inPass
      have run := counts { pe with flexible := pe.flexible + 1 }
        ⟨inPass.pass, iff_of_false (Nat.succ_ne_zero _) Bool.noConfusion⟩
      simp only [prepareFlexible, if_true, run, Nat.add_sub_cancel]
    · intro pe inPass inside
      obtain ⟨fits, short⟩ := stores { pe with flexible := pe.flexible + 1 }
        ⟨inPass.pass, iff_of_false (Nat.succ_ne_zero _) Bool.noConfusion⟩ inside
      refine ⟨fun room => ?_, fun less => ?_⟩
      · simp only [prepareFlexible, if_true, fits room, Nat.add_sub_cancel]
      · obtain ⟨f, s, run⟩ := short less
        exact ⟨f, { s with flexible := s.flexible - 1 }, by simp only [prepareFlexible, if_true, run]⟩

/-- Behind its length, a frame is the header and the body of the request. -/
theorem RequestContents.frame_eq {section_ : Bytes} (carried : ReadsBackBody bodies r.body section_)
    (headed : 1 ≤ bodies.headerVersion r.body) (short : r.clientId.length ≤ int16Max) (framed : r.frame bodies = .ok bytes) :
    4 + (r.headerBytes bodies ++ section_).length ≤ maxRequestSize ∧
      bytes = bigEndian 4 (r.headerBytes bodies ++ section_).length ++ (r.headerBytes bodies ++ section_) := by
  have content : Writes false (do
      r.encodeHeader bodies
      prepareFlexible (bodies.isFlexibleVersion r.body (bodies.version r.body)) (bodies.encode r.body)) r.body
      (some (r.headerBytes bodies ++ section_)) :=
    Writes.of_eq (Writes.bind (writes_encodeHeader headed short) (writes_prepareFlexible carried.writes)) rfl
  have fixed : ∀ f, PushField.length {} ≠ .variantLength f := fun _ => PushField.noConfusion
  have counts : Prep false (r.encode bodies) r (.ok (4 + (r.headerBytes bodies ++ section_).length)) :=
    Prep.of_eq (Prep.seq (Prep.enclose_fixed fixed content.1) (Prep.pure _)) (by rw [Nat.add_zero])
  have stores : Real false (r.encode bodies) r (some (sectionHeader (r.headerBytes bodies ++ section_) (.length {}) ++
      (r.headerBytes bodies ++ section_))) :=
    Real.of_eq (Real.seq (Real.enclose_fixed fixed content.2) (Real.pure _)) (by rw [List.append_nil])
  have size : (sectionHeader (r.headerBytes bodies ++ section_) (.length {}) ++ (r.headerBytes bodies ++ section_)).length =
      4 + (r.headerBytes bodies ++ section_).length := by
    rw [List.length_append, sectionHeader, length_bigEndian]
  rw [frame] at framed
  rcases Nat.lt_or_ge maxRequestSize (4 + (r.headerBytes bodies ++ section_).length) with large | small
  · rw [encode_of_large counts large] at framed
    cases framed
  · rw [encode_eq_ok (counts.of_eq (by rw [size])) stores (size ▸ small)] at framed
    cases framed
    refine ⟨small, ?_⟩
    simp only [maxRequestSize] at small
    rw [sectionHeader, Nat.mod_eq_of_lt (by omega)]

/-! ## Reading it -/

theorem Memory.body?_allocate (m : Memory σ) (body : σ) : (m.allocate (.body body)).body? m.next = some body := by
  simp only [body?, allocate, next, List.getElem?_concat_length]

theorem ReadsInto.withLocal {α : Type} {object : MemoryObject σ} {use : ℕ → DecodeInto (Scene σ) α} {inner : Scene σ}
    {a : α}
    (reads : ReadsInto flexible (use scene.memory.next) bytes { scene with memory := scene.memory.allocate object } inner a)
    : ReadsInto flexible (withLocal object use) bytes scene
      { inner with memory := inner.memory.free scene.memory.next } a := by
  intro pd rest mode ahead
  rw [withLocal_eq_ok_iff]
  exact ⟨inner, reads pd rest mode ahead, rfl⟩

theorem ReadsInto.onBody {body body' : σ} (there : scene.memory.body? address = some body)
    (reads : ReadsInto flexible x bytes body body' ()) : ReadsInto flexible (onBody address x) bytes scene
      { scene with memory := scene.memory.store address (.body body') } () := by
  intro pd rest mode ahead
  simp only [Kafka.onBody, there, reads pd rest mode ahead]

theorem ReadsInto.inFlexible {o o' : σ} (reads : ReadsInto true x bytes o o' ()) :
    ReadsInto false (inFlexible x) bytes o o' () := by
  intro pd rest mode ahead
  have run := reads { pd with flexible := pd.flexible + 1 } rest
    ⟨fun isFixed => absurd isFixed (Nat.succ_ne_zero _), Bool.noConfusion⟩ ahead
  simp only [DecodeInto.inFlexible, run, PacketDecoder.advance, Nat.add_sub_cancel]

theorem Request.reads_decodeBody {section_ tags : Bytes} {fresh body' : σ} {version : Int16}
    (there : scene.memory.body? address = some fresh)
    (tagged : tags = if 2 ≤ bodies.headerVersion fresh then encodeUVariant 0 else [])
    (reads : ReadsInto (bodies.isFlexibleVersion fresh version) (bodies.decode version) section_ fresh body' ()) :
    ReadsInto false (Request.decodeBody bodies version fresh address) (tags ++ section_) scene
      { memory := scene.memory.store address (.body body'), request := { scene.request with body := some address } } () := by
  have skipped : ReadsInto false (inVersions (2 ≤ bodies.headerVersion fresh) do
      let _ ← read getUVariant : DecodeInto (Scene σ) Unit) tags
      { scene with request := { scene.request with body := some address } }
      { scene with request := { scene.request with body := some address } } () := by
    rw [tagged, inVersions]
    split
    · exact ReadsInto.of_eq (ReadsInto.bind ((reads_getUVariant (x := 0) (by decide)).read _) (ReadsInto.pure _ _))
        (List.append_nil _)
    · exact ReadsInto.pure _ _
  refine ReadsInto.of_eq (ReadsInto.bind (readsInto_update _ scene) (ReadsInto.bind skipped ?_)) rfl
  cases mode : bodies.isFlexibleVersion fresh version with
  | false =>
    rw [mode] at reads
    exact ReadsInto.onBody there reads
  | true =>
    rw [mode] at reads
    exact ReadsInto.inFlexible (ReadsInto.onBody there reads)

theorem reads_clientId {s : Bytes} (short : s.length ≤ int16Max) :
    Reads false getString (bigEndian 2 (Int16.ofNat s.length).toUInt16.toNat ++ s) s :=
  reads_getString (n := 2 + s.length) (by rw [stringReserve, if_neg Bool.false_ne_true, if_pos short]) rfl

/-- The header and the body of a request are read. -/
theorem Request.reads_decode {section_ : Bytes} (carried : ReadsBackBody bodies r.body section_)
    (known : bodies.key r.body ∈ requestKeys) (short : r.clientId.length ≤ int16Max) (scene : Scene σ) :
    ∃ scene', ReadsInto false (Request.decode bodies) (r.headerBytes bodies ++ section_) scene scene' () ∧
      scene'.request.correlationId = r.correlationId := by
  have allocated : requestAllocate bodies (bodies.key r.body) (bodies.version r.body) =
      some (bodies.make (bodies.key r.body) (bodies.version r.body)) := if_pos known
  have mode := carried.mode
  have there := fun s : Scene σ => s.memory.body?_allocate (bodies.make (bodies.key r.body) (bodies.version r.body))
  have header : (if 2 ≤ bodies.headerVersion (bodies.make (bodies.key r.body) (bodies.version r.body)) then encodeUVariant 0
      else []) = if 2 ≤ bodies.headerVersion r.body then encodeUVariant 0 else [] := by rw [carried.header]
  let named : Scene σ :=
    { memory := (scene.memory.allocate (.text [])).store scene.memory.next (.text r.clientId)
      request := { correlationId := r.correlationId, clientId := some scene.memory.next, body := scene.request.body } }
  obtain ⟨last, body, same⟩ : ∃ last, ReadsInto false (Request.decodeAllocated bodies (bodies.version r.body)
      (requestAllocate bodies (bodies.key r.body) (bodies.version r.body)))
      ((if 2 ≤ bodies.headerVersion r.body then encodeUVariant 0 else []) ++ section_) named last () ∧
      last.request.correlationId = r.correlationId := by
    rw [allocated, ← header]
    exact ⟨_, ReadsInto.withLocal (Request.reads_decodeBody (there named) rfl (mode ▸ carried.reads)), rfl⟩
  refine ⟨{ last with memory := last.memory.free scene.memory.next }, ReadsInto.withLocal ?_, same⟩
  refine ReadsInto.of_eq (ReadsInto.bind ((reads_getInt16 (bodies.key r.body)).read _)
    (ReadsInto.bind ((reads_getInt16 (bodies.version r.body)).read _)
      (ReadsInto.bind ((reads_getInt32 r.correlationId).read _).storeLast
      (ReadsInto.bind ((reads_clientId short).read _).storeLast body)))) ?_
  rw [RequestContents.headerBytes]
  simp only [List.append_assoc]

end Coev.Kafka
