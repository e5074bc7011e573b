import Coev.Proofs.Kafka.GroupRequests
import Coev.Proofs.Kafka.Request

/-! # Frames of requests

A frame is taken off a stream exactly where no byte of its length is `128` or more. What is read from it is gone when the
decoder returns: the body and the client id belonged to its locals.
-/

namespace Coev.Kafka

open ByteString PacketDecoder PacketEncoder DecodeInto

variable {σ : Type} {bodies : ProtocolBodies σ} {r : RequestContents σ} {bytes : Bytes}

/-- Whatever stands behind it, the frame is taken off the stream, and the request has its correlation id. -/
def FrameTaken (bodies : ProtocolBodies σ) (r : RequestContents σ) (bytes : Bytes) : Prop :=
  ∀ rest scene, ∃ scene', requestDecode bodies { stream := bytes ++ rest, scene } =
    .ok () { stream := rest, scene := scene', size := bytes.length } ∧ scene'.request.correlationId = r.correlationId

/-- The frame is taken off the stream, and the request has the contents that were encoded. -/
def FrameReadBack (bodies : ProtocolBodies σ) (r : RequestContents σ) (bytes : Bytes) : Prop :=
  ∀ rest scene, ∃ scene', requestDecode bodies { stream := bytes ++ rest, scene } =
    .ok () { stream := rest, scene := scene', size := bytes.length } ∧ scene'.contents = some r

/-- No byte of the length in front is negative as a `char`. -/
def LengthReadable (bytes : Bytes) : Prop := ∀ byte ∈ bytes.take 4, byte.toNat < 128

instance (bytes : Bytes) : Decidable (LengthReadable bytes) := List.decidableBAll (fun byte : UInt8 => byte.toNat < 128) _

/-! ## Lengths -/

private theorem frameLength_of_readable {n : ℕ} (small : n ≤ maxRequestSize)
    (readable : ∀ byte ∈ bigEndian 4 n, byte.toNat < 128) :
    frameLength (bigEndian 4 n) = n := by
  have value : value (bigEndian 4 n) = n := value_bigEndian_of_lt (by simp only [maxRequestSize] at small; omega)
  obtain ⟨a, b, c, d, word⟩ := exists_quad (length_bigEndian 4 n)
  rw [word] at value readable ⊢
  have read := signedWord_of_small readable
  have cond := BitVec.toInt_eq_toNat_cond (signedWord [a, b, c, d]).toBitVec
  rw [value] at read
  have same : (signedWord [a, b, c, d]).toInt = (signedWord [a, b, c, d]).toBitVec.toInt := rfl
  have nat : frameLength [a, b, c, d] = (signedWord [a, b, c, d]).toBitVec.toNat := rfl
  have bound := (signedWord [a, b, c, d]).toBitVec.isLt
  rw [nat]
  split at cond <;> omega

/-- A length with a negative byte exceeds every limit. -/
theorem frameLength_of_unreadable {n : ℕ} (unreadable : ¬ ∀ byte ∈ bigEndian 4 n, byte.toNat < 128) :
    maxRequestSize < frameLength (bigEndian 4 n) := by
  obtain ⟨a, b, c, d, word⟩ := exists_quad (length_bigEndian 4 n)
  rw [word] at unreadable ⊢
  simp only [not_forall, not_lt, exists_prop] at unreadable
  have negative := Int32.lt_iff_toInt_lt.mp (signedWord_of_large unreadable)
  have cond := BitVec.toInt_eq_toNat_cond (signedWord [a, b, c, d]).toBitVec
  have same : (signedWord [a, b, c, d]).toInt = (signedWord [a, b, c, d]).toBitVec.toInt := rfl
  have nat : frameLength [a, b, c, d] = (signedWord [a, b, c, d]).toBitVec.toNat := rfl
  have zero : (0 : Int32).toInt = 0 := rfl
  rw [nat, maxRequestSize]
  split at cond <;> omega

/-! ## Streams -/

variable {s t : Arrival σ}

private theorem reporting_eq_ok_iff {α : Type} {size : ℕ} {x : EStateM Failure (Arrival σ) α} {a : α} :
    reporting size x s = .ok a t ↔ x s = .ok a t := by
  rw [reporting]
  split
  next run => simp only [run, reduceCtorEq]
  next => exact Iff.rfl

private theorem readFull_append (front rest : Bytes) (scene : Scene σ) (size : ℕ) :
    readFull front.length { stream := front ++ rest, scene, size } = .ok front { stream := rest, scene, size } := by
  have enough : ¬ (front ++ rest).length < front.length := by
    rw [List.length_append]
    omega
  simp only [readFull, if_neg enough, List.take_left, List.drop_left]

private theorem length_of_readFull {n : ℕ} {front : Bytes} (run : readFull n s = .ok front t) : front.length = n := by
  rw [readFull] at run
  split at run
  · cases run
  · next enough =>
    cases run
    exact List.length_take_of_le (Nat.not_lt.mp enough)

/-- A whole buffer that is decoded leaves nothing to refer to. -/
theorem decodeRequest_dangles {buf : Bytes} {scene scene' : Scene σ} (some_ : buf ≠ [])
    (run : decodeRequest bodies buf scene = .ok () scene') : scene'.contents = none := by
  rw [decodeRequest, if_neg (fun empty => some_ (List.isEmpty_iff.mp empty))] at run
  split at run
  · cases run
  · cases run
  next scene₁ pd decoded =>
    split at run
    · cases run
      exact Request.decode_dangles decoded
    · cases run

/-- What a request that was decoded from a stream refers to is gone. -/
theorem requestDecode_dangles (run : requestDecode bodies s = .ok () t) : t.scene.contents = none := by
  obtain ⟨header, s₁, -, run⟩ := EStateM.bind_eq_ok_iff.mp run
  split at run
  · obtain ⟨_, _, refused, -⟩ := EStateM.bind_eq_ok_iff.mp run
    cases reporting_eq_ok_iff.mp refused
  next long =>
  obtain ⟨encoded, s₃, taken, run⟩ := EStateM.bind_eq_ok_iff.mp run
  obtain ⟨_, s₄, decoded, run⟩ := EStateM.bind_eq_ok_iff.mp run
  cases run
  have size := length_of_readFull (reporting_eq_ok_iff.mp taken)
  have some_ : encoded ≠ [] := by
    rintro rfl
    rw [List.length_nil] at size
    omega
  have run := reporting_eq_ok_iff.mp decoded
  rw [onScene] at run
  split at run
  next scene done =>
    cases run
    exact decodeRequest_dangles some_ done
  next => cases run

/-! ## Frames -/

/-- The content of a frame is decoded where its length is read. -/
theorem requestDecode_of_readable {content rest : Bytes} {scene scene' : Scene σ} (long : 4 < content.length)
    (small : content.length ≤ maxRequestSize) (readable : ∀ byte ∈ bigEndian 4 content.length, byte.toNat < 128)
    (reads : ReadsInto false (Request.decode bodies) content scene scene' ()) :
    requestDecode bodies { stream := bigEndian 4 content.length ++ content ++ rest, scene } =
      .ok () { stream := rest, scene := scene', size := 4 + content.length } := by
  have length := frameLength_of_readable small readable
  have header := readFull_append (bigEndian 4 content.length) (content ++ rest) scene 0
  rw [length_bigEndian, ← List.append_assoc] at header
  have taken := readFull_append content rest scene 0
  have ahead : ({ raw := content } : PacketDecoder).unread = content ++ [] := (List.append_nil _).symm
  have decoded := reads { raw := content } [] ⟨fun _ => rfl, fun _ => rfl⟩ ahead
  have whole : decodeRequest bodies content scene = .ok () scene' := by
    have some_ : ¬ content.isEmpty = true := by
      intro empty
      rw [List.isEmpty_iff.mp empty, List.length_nil] at long
      omega
    simp only [decodeRequest, if_neg some_, decoded, PacketDecoder.advance, Nat.zero_add, if_true]
  have placed : onScene (decodeRequest bodies content) { stream := rest, scene } =
      .ok () { stream := rest, scene := scene' } := by
    simp only [onScene, whole]
  have inside : ¬ (content.length ≤ 4 ∨ maxRequestSize < content.length) := by omega
  rw [requestDecode, EStateM.bind_of_ok (reporting_eq_ok_iff.mpr header)]
  simp only [length, if_neg inside]
  rw [EStateM.bind_of_ok (reporting_eq_ok_iff.mpr taken), EStateM.bind_of_ok (reporting_eq_ok_iff.mpr placed)]
  rfl

/-- A length that is read as another one is refused. -/
theorem requestDecode_of_unreadable {content rest : Bytes} {scene : Scene σ}
    (unreadable : ¬ ∀ byte ∈ bigEndian 4 content.length, byte.toNat < 128) :
    requestDecode bodies { stream := bigEndian 4 content.length ++ content ++ rest, scene } =
      .error (.code (-1)) { stream := content ++ rest, scene, size := 4 } := by
  have large := frameLength_of_unreadable unreadable
  have header := readFull_append (bigEndian 4 content.length) (content ++ rest) scene 0
  rw [length_bigEndian, ← List.append_assoc] at header
  rw [requestDecode, EStateM.bind_of_ok (reporting_eq_ok_iff.mpr header)]
  simp only [if_pos (Or.inr large)]
  rfl

private theorem lengthReadable_iff (content : Bytes) :
    LengthReadable (bigEndian 4 content.length ++ content) ↔ ∀ byte ∈ bigEndian 4 content.length, byte.toNat < 128 := by
  rw [LengthReadable, List.take_left' (length_bigEndian 4 _)]

private theorem four_lt_length_headerBytes (bodies : ProtocolBodies σ) (r : RequestContents σ) :
    4 < (r.headerBytes bodies).length := by
  simp only [RequestContents.headerBytes, List.length_append, length_bigEndian]
  omega

/-- A decoded request never has the contents that were encoded: they are gone. Where its body reads back, its frame is
taken off the stream exactly where its length is read. -/
theorem requestFraming (framed : r.frame bodies = .ok bytes) : ¬ FrameReadBack bodies r bytes ∧
      ∀ section_, ReadsBackBody bodies r.body section_ → bodies.key r.body ∈ requestKeys → 1 ≤ bodies.headerVersion r.body →
        r.clientId.length ≤ int16Max → (FrameTaken bodies r bytes ↔ LengthReadable bytes) := by
  constructor
  · intro readBack
    obtain ⟨scene', run, same⟩ := readBack [] {}
    rw [requestDecode_dangles run] at same
    cases same
  · intro section_ carried known headed short
    obtain ⟨small, rfl⟩ := RequestContents.frame_eq carried headed short framed
    rw [lengthReadable_iff]
    constructor
    · intro taken
      by_contra unreadable
      obtain ⟨scene', run, -⟩ := taken [] {}
      rw [requestDecode_of_unreadable unreadable] at run
      cases run
    · intro readable rest scene
      obtain ⟨scene', reads, same⟩ := Request.reads_decode carried known short scene
      have long := four_lt_length_headerBytes bodies r
      refine ⟨scene', ?_, same⟩
      have total : (bigEndian 4 (r.headerBytes bodies ++ section_).length ++ (r.headerBytes bodies ++ section_)).length =
          4 + (r.headerBytes bodies ++ section_).length := by
        rw [List.length_append, length_bigEndian]
      rw [requestDecode_of_readable (by rw [List.length_append]; omega) (by omega) readable reads, total]

/-- The bodies of requests to leave a group. -/
def leaveGroupBodies : ProtocolBodies LeaveGroupRequest where
  key _ := 13
  version r := r.version
  headerVersion r := if 4 ≤ r.version then 2 else 1
  isFlexibleVersion _ := LeaveGroupRequest.isFlexibleVersion
  encode r := do
    r.encode
    return r
  decode := LeaveGroupRequest.decode
  make _ version := { version }

def leaveContents (clientId : Bytes) : RequestContents LeaveGroupRequest where
  correlationId := 7
  clientId := clientId
  body := { groupId := [103], memberId := [109] }

def leaveFrame : Bytes := [0, 0, 0, 17, 0, 13, 0, 0, 0, 0, 0, 7, 0, 1, 99, 0, 1, 103, 0, 1, 109]

private theorem leaveGroup_readsBack : ReadsBackBody leaveGroupBodies (leaveContents [99]).body [0, 1, 103, 0, 1, 109] := by
  have readable : (leaveContents [99]).body.Readable := fun later => absurd later (by decide)
  obtain ⟨output, writes, each⟩ := (@LeaveGroupRequest.exact false (leaveContents [99]).body).carries readable
  have encoded : encodeBody false (leaveContents [99]).body.encode = .ok [0, 1, 103, 0, 1, 109] := by decide +kernel
  obtain ⟨rfl, -⟩ := (encodeBody_eq_ok_iff writes).mp encoded
  obtain ⟨-, takes⟩ := each _ rfl
  have reads := (takes (by decide)).1
  have returns := Writes.bind (k := fun _ => pure (leaveContents [99]).body) writes (Writes.pure _)
  exact ⟨returns, reads, rfl, rfl⟩

theorem requestFraming_leave : ¬ FrameReadBack leaveGroupBodies (leaveContents [99]) leaveFrame ∧
      FrameTaken leaveGroupBodies (leaveContents [99]) leaveFrame := by
  have framed : (leaveContents [99]).frame leaveGroupBodies = .ok leaveFrame := by decide +kernel
  have both := requestFraming framed
  exact ⟨both.1, (both.2 _ leaveGroup_readsBack (by decide) (by decide) (by decide)).mpr (by decide)⟩

/-- A request to leave a group is not read back, and one with a long client id is refused. -/
theorem leave_not_read_back : (leaveContents [99]).frame leaveGroupBodies = .ok leaveFrame ∧
      ¬ FrameReadBack leaveGroupBodies (leaveContents [99]) leaveFrame ∧
      ∃ bytes, (leaveContents (List.replicate 112 99)).frame leaveGroupBodies = .ok bytes ∧
        (requestDecode leaveGroupBodies { stream := bytes }).returned = none := by
  refine ⟨by decide +kernel, ?_, ?_⟩
  · intro readBack
    obtain ⟨scene', run, same⟩ := readBack [] {}
    rw [requestDecode_dangles run] at same
    cases same
  · exact ⟨[0, 0, 0, 128, 0, 13, 0, 0, 0, 0, 0, 7, 0, 112] ++ List.replicate 112 99 ++ [0, 1, 103, 0, 1, 109],
      by decide +kernel, by decide +kernel⟩

end Coev.Kafka
