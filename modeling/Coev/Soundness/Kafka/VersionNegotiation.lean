import Coev.Model.Kafka.ApiVersions
import Coev.Proofs.Kafka.ExactValues

/-! # Negotiating the version
The answer that tells the versions is opened in the mode of the version that was asked for. One that does not support
that version is read as one of version 0 from its code on, and its decoder leaves the flexible mode itself; the wrapper
leaves it once more.
-/

namespace Coev.Kafka

open ByteString DecodeInto PacketDecoder PacketEncoder

variable {σ : Type} {flexible : Bool} {bytes : Bytes}

/-! ## Entering and leaving the mode -/

private theorem failWith_congr {ρ α : Type} {err : KError} {x : EStateM Failure ρ α} {y : EStateM Failure ρ α} {s t : ρ}
    (same : x s = y t) : failWith err x s = failWith err y t := by
  rw [failWith, failWith, same]

private theorem decodeVersionReader_iff {isFlexible : Bool} {decode : DecodeInto σ Unit} {o : σ} {ended : σ × PacketDecoder}
    (some_ : bytes ≠ []) : decodeVersionReader isFlexible decode bytes o = .ok () ended ↔
      prepareFlexibleDecoder isFlexible decode (o, { raw := bytes }) = .ok () ended ∧ ended.2.remaining = 0 := by
  have notEmpty : bytes.isEmpty = false := by simp [some_]
  simp only [decodeVersionReader, notEmpty, Bool.false_eq_true, if_false]
  cases prepareFlexibleDecoder isFlexible decode (o, { raw := bytes }) with
  | error e reached => simp
  | ok _ reached =>
    dsimp only
    split
    · next left =>
      constructor
      · nofun
      · rintro ⟨⟨⟩, none_⟩
        exact absurd none_ left
    · next none_ =>
      constructor
      · rintro ⟨⟩
        exact ⟨rfl, not_not.mp none_⟩
      · exact And.left

private theorem ignoreCode_popFlexible (o : σ) (pd : PacketDecoder) :
    ignoreCode () (DecodeInto.read popFlexible) (o, pd) = if pd.flexible = 0 then .error (.fault .assertion) (o, pd)
      else .ok () (o, { pd with flexible := pd.flexible - 1 }) := by
  obtain fixed | inside := Decidable.em (pd.flexible = 0)
  · simp only [ignoreCode, DecodeInto.read, readOr, popFlexible, if_pos fixed, id]
  · simp only [ignoreCode, DecodeInto.read, readOr, popFlexible, if_neg inside]

/-- The mode is left behind what returns, which is asserted to be in it still. -/
theorem finally_popFlexible_iff {x : DecodeInto σ Unit} {s : σ × PacketDecoder} {o : σ} {pd : PacketDecoder} :
    finally_ (DecodeInto.read popFlexible) x s = .ok () (o, pd) ↔
      ∃ inner, x s = .ok () (o, inner) ∧ inner.flexible ≠ 0 ∧ { inner with flexible := inner.flexible - 1 } = pd := by
  unfold finally_
  cases x s with
  | error e ended =>
    obtain ⟨o₁, pd₁⟩ := ended
    cases e with
    | code err =>
      dsimp only
      rw [ignoreCode_popFlexible]
      split <;> simp
    | fault f => simp
  | ok _ ended =>
    obtain ⟨o₁, pd₁⟩ := ended
    dsimp only
    rw [ignoreCode_popFlexible]
    obtain fixed | inside := Decidable.em (pd₁.flexible = 0)
    · rw [if_pos fixed]
      constructor
      · nofun
      · rintro ⟨_, ⟨⟩, inside, -⟩
        exact absurd fixed inside
    · rw [if_neg inside]
      constructor
      · rintro ⟨⟩
        exact ⟨pd₁, rfl, inside, rfl⟩
      · rintro ⟨_, ⟨⟩, -, rfl⟩
        rfl

/-- A flexible body is decoded one mode up, and the mode is left behind it. -/
theorem prepareFlexibleDecoder_flexible_iff {decode : DecodeInto σ Unit} {o o' : σ} {pd : PacketDecoder} :
    prepareFlexibleDecoder true decode (o, { raw := bytes }) = .ok () (o', pd) ↔
      ∃ inner, decode (o, { raw := bytes, flexible := 1 }) = .ok () (o', inner) ∧ inner.flexible ≠ 0 ∧
        { inner with flexible := inner.flexible - 1 } = pd := by
  have pushed : DecodeInto.read pushFlexible (o, { raw := bytes }) = .ok () (o, { raw := bytes, flexible := 1 }) := rfl
  rw [prepareFlexibleDecoder, if_pos rfl, EStateM.bind_of_ok pushed, finally_popFlexible_iff]

end Coev.Kafka

namespace Coev.Kafka.ApiVersionsResponse

open ByteString DecodeInto PacketDecoder PacketEncoder

variable {strict flexible : Bool} {r o : ApiVersionsResponse}
variable {o' : ApiVersionsResponse}

/-! ## The parts of the body -/

private theorem carries_key (version : Int16) (block : ApiVersionsResponseKey) :
    CarriesInto strict flexible (block.encode version) (ApiVersionsResponseKey.decode version) {} block 1 := by
  apply CarriesInto.decodeFailWith
  apply CarriesInto.conclude
  · apply CarriesInto.seq
    · exact (carries_putInt16 block.apiKey).field _ _ _
    apply CarriesInto.seq
    · exact (carries_putInt16 block.minVersion).field _ _ _
    apply CarriesInto.seq
    · exact (carries_putInt16 block.maxVersion).field _ _ _
    · exact CarriesInto.inVersions fun _ => carries_putEmptyTaggedFieldArray.skip _
  · dsimp only
    split <;> rfl
  · omega

/-- The number of the ranges can be read. -/
def Readable (flexible : Bool) (r : ApiVersionsResponse) : Prop :=
  flexible = false → CountReadable (bigEndian 4 r.apiKeys.length)

private theorem exact_keys (r : ApiVersionsResponse) {version : Int16} (same : 3 ≤ r.version ↔ 3 ≤ version)
    (start : o.apiKeys = []) : Exact strict flexible r.encodeKeys (decodeKeys version) o { o with apiKeys := r.apiKeys }
      (fun o => o.apiKeys ≠ r.apiKeys) (r.Readable flexible) 1 := by
  have decodes : ApiVersionsResponseKey.decode version = ApiVersionsResponseKey.decode r.version := by
    simp only [ApiVersionsResponseKey.decode, inVersions, same]
  have exact_ : Exact strict flexible r.encodeKeys (decodeKeys version) o { o with apiKeys := r.apiKeys }
      (fun o => o.apiKeys ≠ r.apiKeys.map fun block => block) (ListReadable flexible (fun _ => True) r.apiKeys) 1 := by
    unfold decodeKeys
    rw [decodes]
    exact Exact.vectorMember (fun block _ => (carries_key r.version block).exact) (fun _ => rfl) (by rw [List.map_id']) start
  rw [List.map_id'] at exact_
  exact exact_.conclude rfl (and_iff_left fun _ _ => trivial) (Nat.le_refl _)

/-- The time, as far as the version has one. -/
def withThrottleTime (r o : ApiVersionsResponse) : ApiVersionsResponse :=
  if 1 ≤ r.version then { o with throttleTime := r.throttleTime.toInt32.toInt64 } else o

theorem carries_tail (r o : ApiVersionsResponse) :
    CarriesInto strict flexible r.encodeTail (decodeTail r.version) o (r.withThrottleTime o) 0 := by
  apply CarriesInto.conclude
  · apply CarriesInto.seq
    · exact CarriesInto.inVersions fun _ => (carries_putDurationMs r.throttleTime).field _ _ _
    · exact CarriesInto.inVersions fun _ => carries_putEmptyTaggedFieldArray.skip _
  · unfold withThrottleTime
    split <;> split <;> rfl
  · omega

/-- The ranges and what stands behind them. -/
def decodeRest (version : Int16) : DecodeInto ApiVersionsResponse Unit := do
  decodeKeys version
  decodeTail version

private theorem exact_rest (r : ApiVersionsResponse) (start : o.apiKeys = []) :
    Exact strict flexible (r.encodeKeys >>= fun _ => r.encodeTail) (decodeRest r.version) o
      (r.withThrottleTime { o with apiKeys := r.apiKeys }) (fun o => o.apiKeys ≠ r.apiKeys) (r.Readable flexible) 1 := by
  apply (exact_keys r Iff.rfl start).seqCarries (carries_tail r _)
  · apply Keeps.seq
    · exact Keeps.inVersions (Keeps.fieldOr fun _ _ => rfl)
    · exact Keeps.inVersions (Keeps.readOr _ _)
  · unfold withThrottleTime
    split <;> exact not_not_intro rfl

/-! ## The code -/

variable {version : Int16} {bytes rest : Bytes} {pd : PacketDecoder}

/-- The bytes are the code with the rest behind it. -/
theorem split_encoded {output : Option Bytes} (writes : Writes flexible (r.encodeKeys >>= fun _ => r.encodeTail) () output)
    (encoded : encodeBody flexible r.encode = .ok bytes) :
    ∃ rest ∈ output, bytes = bigEndian 2 r.code.toUInt16.toNat ++ rest ∧ bytes.length ≤ maxRequestSize := by
  have whole :=
    writes_failWith ErrEncodeError
      ((writes_putInt16 r.code).bind (k := fun _ => r.encodeKeys >>= fun _ => r.encodeTail) writes)
  obtain ⟨stored, small⟩ := (encodeBody_eq_ok_iff whole).mp encoded
  obtain ⟨_, ⟨⟩, rest, member, same⟩ := append_of_mem stored
  exact ⟨rest, member, same.symm, small⟩

/-- The code is read, and everything behind goes by it. -/
theorem decode_code (o : ApiVersionsResponse) (mode : InMode flexible pd)
    (ahead : pd.unread = bigEndian 2 r.code.toUInt16.toNat ++ rest) : decode version (o, pd) =
      failWith ErrDecodeError (downgrade >>= fun _ => decodeBody) ({ o with version, code := r.code }, pd.advance 2) := by
  unfold decode
  apply failWith_congr
  have read :=
    ((reads_getInt16 r.code).readOr (fun o : ApiVersionsResponse => { o with code := -1 }) { o with version }).storeLast
    (f := fun code o => { o with code }) pd rest mode ahead
  rw [length_bigEndian] at read
  exact EStateM.bind_of_ok read _

private theorem get_object (o : ApiVersionsResponse) (pd : PacketDecoder) : onObject get (o, pd) = .ok o (o, pd) := rfl

private theorem body_supported (supported : o.code.toInt ≠ ErrUnsupportedVersion) :
    (downgrade >>= fun _ => decodeBody) (o, pd) = decodeRest o.version (o, pd) := by
  have nothing : downgrade (o, pd) = .ok () (o, pd) := by
    unfold downgrade
    rw [EStateM.bind_of_ok (get_object o pd), if_neg supported]
    rfl
  rw [EStateM.bind_of_ok nothing]
  exact EStateM.bind_of_ok (get_object o pd) _

/-- The reader behind the code of an answer that does not support the version. -/
def downgraded (pd : PacketDecoder) : PacketDecoder := { pd with flexible := pd.flexible - 1 }

private theorem body_unsupported (o : ApiVersionsResponse) (pd : PacketDecoder)
    (unsupported : o.code.toInt = ErrUnsupportedVersion) :
    (downgrade >>= fun _ => decodeBody) (o, pd) = decodeRest 0 ({ o with version := 0 }, downgraded pd) := by
  have left : downgradeFlexibleDecoder pd = .ok () (downgraded pd) := by
    unfold downgradeFlexibleDecoder popFlexible downgraded
    split
    · next fixed => rw [fixed]; exact congrArg (EStateM.Result.ok ()) (by cases pd; simp_all)
    · rfl
  have leaves : downgrade (o, pd) = .ok () ({ o with version := 0 }, downgraded pd) := by
    unfold downgrade
    rw [EStateM.bind_of_ok (get_object o pd), if_pos unsupported]
    exact read_eq_ok_iff.mpr ⟨left, rfl⟩
  rw [EStateM.bind_of_ok leaves]
  exact EStateM.bind_of_ok (get_object _ _) _

/-! ## Whole answers -/

/-- Decoding the bytes at the version ends well with the code and the ranges of the answer, all bytes are consumed, and
the reader is in no mode. -/
def Decoded (version : Int16) (bytes : Bytes) (r o o' : ApiVersionsResponse) : Prop :=
  ∃ pd, decodeVersionReader (isFlexibleVersion version) (decode version) bytes o = .ok () (o', pd) ∧
    o'.code = r.code ∧ o'.apiKeys = r.apiKeys ∧ pd.remaining = 0 ∧ pd.flexible = 0

/-- The reader that the decoder of the body starts with. -/
def opened (flexible : Bool) (bytes : Bytes) : PacketDecoder := { raw := bytes, flexible := if flexible then 1 else 0 }

private theorem inMode_opened (flexible : Bool) (bytes : Bytes) : InMode flexible (opened flexible bytes) :=
  inMode_start flexible bytes

/-- The wrapper succeeds where the decoder stays in the mode it was opened in. -/
theorem decoded_iff (some_ : bytes ≠ []) : Decoded version bytes r o o' ↔
    ∃ pd, decode version (o, opened (isFlexibleVersion version) bytes) = .ok () (o', pd) ∧
      o'.code = r.code ∧ o'.apiKeys = r.apiKeys ∧ pd.remaining = 0 ∧
        pd.flexible = if isFlexibleVersion version then 1 else 0 := by
  unfold Decoded
  cases isFlexibleVersion version with
  | false =>
    constructor
    · rintro ⟨pd, run, sameCode, sameKeys, consumed, depth⟩
      exact ⟨pd, ((decodeVersionReader_iff some_).mp run).1, sameCode, sameKeys, consumed, depth⟩
    · rintro ⟨pd, run, sameCode, sameKeys, consumed, depth⟩
      exact ⟨pd, (decodeVersionReader_iff some_).mpr ⟨run, consumed⟩, sameCode, sameKeys, consumed, depth⟩
  | true =>
    constructor
    · rintro ⟨pd, run, sameCode, sameKeys, consumed, depth⟩
      obtain ⟨ran, -⟩ := (decodeVersionReader_iff some_).mp run
      obtain ⟨inner, inside, deep, rfl⟩ := prepareFlexibleDecoder_flexible_iff.mp ran
      refine ⟨inner, inside, sameCode, sameKeys, consumed, ?_⟩
      dsimp only at depth
      rw [if_pos rfl]
      omega
    · rintro ⟨inner, inside, sameCode, sameKeys, consumed, depth⟩
      rw [if_pos rfl] at depth
      have ran := prepareFlexibleDecoder_flexible_iff.mpr ⟨inner, inside, by omega, rfl⟩
      refine ⟨_, (decodeVersionReader_iff some_).mpr ⟨ran, consumed⟩, sameCode, sameKeys, consumed, ?_⟩
      dsimp only
      omega

/-! ## In the mode that was opened -/

private theorem withThrottleTime_eq (r o : ApiVersionsResponse) : (r.withThrottleTime o).version = o.version ∧
    (r.withThrottleTime o).code = o.code ∧ (r.withThrottleTime o).apiKeys = o.apiKeys := by
  unfold withThrottleTime
  split <;> exact ⟨rfl, rfl, rfl⟩

/-- The decoder of the answer behind its code goes by the version of the encoder and by the mode that it was opened in. -/
def GoesOnAt (version w : Int16) (flexible : Bool) (bytes : Bytes) (r o : ApiVersionsResponse) : Prop :=
  (downgrade >>= fun _ => decodeBody) ({ o with version, code := r.code }, (opened flexible bytes).advance 2) =
    decodeRest r.version ({ o with version := w, code := r.code }, (opened flexible bytes).advance 2)

private theorem decode_opened (mode : isFlexibleVersion version = flexible)
    (stored : bytes = bigEndian 2 r.code.toUInt16.toNat ++ rest)
    {w : Int16} (goes : GoesOnAt version w flexible bytes r o) :
    decode version (o, opened (isFlexibleVersion version) bytes) = failWith ErrDecodeError (decodeRest r.version)
        ({ o with version := w, code := r.code }, (opened flexible bytes).advance 2) := by
  rw [mode]
  exact (decode_code o (inMode_opened flexible bytes) stored).trans (failWith_congr goes)

private theorem unread_opened (stored : bytes = bigEndian 2 r.code.toUInt16.toNat ++ rest) :
    ((opened flexible bytes).advance 2).unread = rest := by
  have behind : ((opened flexible bytes).advance (bigEndian 2 r.code.toUInt16.toNat).length).unread = rest :=
    unread_advance stored
  rwa [length_bigEndian] at behind

private theorem append_ne_nil (stored : bytes = bigEndian 2 r.code.toUInt16.toNat ++ rest) : bytes ≠ [] := by
  rintro rfl
  have none_ := congrArg List.length stored
  rw [List.length_append, length_bigEndian, List.length_nil] at none_
  omega

private theorem decoded_of_readable (encoded : encodeBody flexible r.encode = .ok bytes)
    (mode : isFlexibleVersion version = flexible)
    (start : o.apiKeys = []) {w : Int16} (goes : GoesOnAt version w flexible bytes r o)
    (readable : r.Readable flexible) : ∃ o', Decoded version bytes r o o' ∧ o'.version = w := by
  obtain ⟨output, writes, each⟩ :=
    (@exact_rest true flexible { o with version := w, code := r.code } r start).carries readable
  obtain ⟨rest, member, stored, small⟩ := split_encoded writes encoded
  have length_ : bytes.length = 2 + rest.length := by rw [stored, List.length_append, length_bigEndian]
  have run := ((each rest member).2 (by omega)).reads _ [] ((inMode_opened flexible bytes).advance 2)
    ((unread_opened stored).trans (List.append_nil rest).symm)
  obtain ⟨sameVersion, sameCode, sameKeys⟩ :=
    r.withThrottleTime_eq { o with version := w, code := r.code, apiKeys := r.apiKeys }
  refine ⟨_, (decoded_iff (append_ne_nil stored)).mpr
    ⟨((opened flexible bytes).advance 2).advance rest.length, ?_, sameCode, sameKeys, ?_, ?_⟩, sameVersion⟩
  · rw [decode_opened mode stored goes]
    exact failWith_eq_ok_iff.mpr run
  · simp only [PacketDecoder.remaining, PacketDecoder.advance, opened]
    omega
  · rw [mode]
    rfl

private theorem readable_of_decoded (encoded : encodeBody flexible r.encode = .ok bytes)
    (mode : isFlexibleVersion version = flexible) (start : o.apiKeys = []) {w : Int16}
    (goes : GoesOnAt version w flexible bytes r o) (decoded : Decoded version bytes r o o') : r.Readable flexible := by
  by_contra unreadable
  obtain ⟨output, writes, each⟩ :=
    (@exact_rest true flexible { o with version := w, code := r.code } r start).spoils unreadable
  obtain ⟨rest, member, stored, small⟩ := split_encoded writes encoded
  have length_ : bytes.length = 2 + rest.length := by rw [stored, List.length_append, length_bigEndian]
  obtain ⟨pd, run, -, sameKeys, -, -⟩ := (decoded_iff (append_ne_nil stored)).mp decoded
  rw [decode_opened mode stored goes, failWith_eq_ok_iff] at run
  exact (each rest member).2 (by omega) _ [] ((inMode_opened flexible bytes).advance 2)
    ((unread_opened stored).trans (List.append_nil rest).symm) o' pd run sameKeys

/-! ## An answer that does not support the version -/

private theorem goesOn_supported (supported : r.code.toInt ≠ ErrUnsupportedVersion) (same : r.version = version) :
    GoesOnAt version version flexible bytes r o := by
  obtain rfl := same
  exact body_supported supported

private theorem goesOn_downgraded (unsupported : r.code.toInt = ErrUnsupportedVersion)
    (rest : decodeRest r.version = decodeRest 0) :
    GoesOnAt version 0 false bytes r o := by
  unfold GoesOnAt
  rw [rest]
  exact body_unsupported { o with version, code := r.code } ((opened false bytes).advance 2) unsupported

private theorem decodeRest_of_lt (older : ¬ 1 ≤ version) : decodeRest version = decodeRest 0 := by
  have notFlexible : ¬ 3 ≤ version := fun flexible_ => older (Int16.le_trans (by decide) flexible_)
  simp only [decodeRest, decodeKeys, decodeTail, ApiVersionsResponseKey.decode, inVersions, if_neg older, if_neg notFlexible]
  rfl

private theorem sized_encodeTail (timed : 1 ≤ r.version) : Sized flexible r.encodeTail 1 := by
  unfold encodeTail
  rw [inVersions_of timed]
  have tagged : Sized flexible (inVersions (3 ≤ r.version) putEmptyTaggedFieldArray) 0 :=
    (CarriesInto.inVersions fun _ => (@carries_putEmptyTaggedFieldArray true flexible).skip ()).sized
  exact (@carries_putDurationMs true flexible r.throttleTime).sized.bind tagged

/-- The time of a later version is left over by the reader of the first one. -/
theorem leaves_time (timed : 1 ≤ r.version) (fixed : ¬ 3 ≤ r.version) (start : o.apiKeys = []) :
    Leaves flexible (r.encodeKeys >>= fun _ => r.encodeTail) (decodeRest 0) o
      (fun o' unread => o'.apiKeys = r.apiKeys → unread ≠ []) 2 := by
  have same : 3 ≤ r.version ↔ 3 ≤ (0 : Int16) := iff_of_false fixed (by decide)
  have keys := @exact_keys true flexible o r 0 same start
  obtain readable | unreadable := Classical.em (r.Readable flexible)
  · have behind := (@sized_encodeTail flexible r timed).leavesUnread (by decide) { o with apiKeys := r.apiKeys }
    exact ((keys.carries readable).leaves behind).weaken (fun _ _ left _ => left) (Nat.le_refl _)
  · have nothing : Keeps ApiVersionsResponse.apiKeys (decodeTail 0) := Keeps.pure ()
    have spoilt :=
      Leaves.andThen (P := fun keys => keys ≠ r.apiKeys) (keys.spoils unreadable) (sized_encodeTail timed) nothing
    exact spoilt.weaken (fun _ _ differ same => absurd same differ) (Nat.le_refl _)

private theorem not_decoded_timed (encoded : encodeBody false r.encode = .ok bytes)
    (unsupported : r.code.toInt = ErrUnsupportedVersion) (timed : 1 ≤ r.version)
    (fixed : isFlexibleVersion r.version = false) (start : o.apiKeys = []) : ¬ Decoded r.version bytes r o o' := by
  intro decoded
  have notFlexible : ¬ 3 ≤ r.version := of_decide_eq_false fixed
  obtain ⟨output, writes, each⟩ :=
    @leaves_time false r { o with version := 0, code := r.code } timed notFlexible start
  obtain ⟨rest, member, stored, small⟩ := split_encoded writes encoded
  have length_ : bytes.length = 2 + rest.length := by rw [stored, List.length_append, length_bigEndian]
  obtain ⟨pd, run, -, sameKeys, consumed, -⟩ := (decoded_iff (append_ne_nil stored)).mp decoded
  have goes := body_unsupported { o with version := r.version, code := r.code } ((opened false bytes).advance 2) unsupported
  rw [fixed] at run
  have ran := failWith_eq_ok_iff.mp ((decode_code o (inMode_opened false bytes) stored).symm.trans run)
  rw [goes] at ran
  have left := (each rest member).2 (by omega) _ [] ((inMode_opened false bytes).advance 2)
    ((unread_opened stored).trans (List.append_nil rest).symm) o' pd ran sameKeys
  rw [PacketDecoder.remaining_eq, List.length_eq_zero_iff] at consumed
  exact left consumed

/-! ## The mode that is left twice -/

/-- A reader that is in no mode stays so. -/
def StaysFixed (pd pd' : PacketDecoder) : Prop := pd.flexible = 0 → pd'.flexible = 0

instance : IsPreorder PacketDecoder StaysFixed where
  refl _ := id
  trans _ _ _ first next fixed := next (first fixed)

/-- The same beside an object. -/
def ReaderStaysFixed {σ : Type} (s t : σ × PacketDecoder) : Prop := StaysFixed s.2 t.2

instance {σ : Type} : IsPreorder (σ × PacketDecoder) ReaderStaysFixed where
  refl _ := id
  trans _ _ _ first next fixed := next (first fixed)

section Moves

open EStateM

variable {α τ σ : Type}

theorem moves_take (n : ℕ) : Moves StaysFixed (take n) := by
  intro pd fixed
  unfold take
  split <;> exact fixed

private theorem moves_getInt16 : Moves StaysFixed getInt16 := (moves_take 2).bind fun _ => .pure _

/-- What is done in the flexible mode does not matter. -/
theorem moves_byMode {fixed flexible : Decode α} (moves : Moves StaysFixed fixed) :
    Moves StaysFixed (PacketDecoder.byMode fixed flexible) := by
  intro pd isFixed
  unfold PacketDecoder.byMode
  rw [if_pos isFixed]
  exact moves pd isFixed

private theorem moves_getArrayLength : Moves StaysFixed getArrayLength := by
  apply moves_byMode
  apply (moves_take 4).bind
  intro bytes
  apply Moves.ite
  · exact fun _ => .bind (fun _ fixed => fixed) fun _ => .pure _
  · exact fun _ => .pure _

private theorem moves_readOr {get : Decode α} (moves : Moves StaysFixed get) (spoil : σ → σ) :
    Moves ReaderStaysFixed (DecodeInto.readOr spoil get) := by
  rintro ⟨o, pd⟩ fixed
  have moved := moves pd fixed
  unfold DecodeInto.readOr
  dsimp only
  cases run : get pd with
  | ok a pd' => rw [run] at moved; exact moved
  | error e pd' => rw [run] at moved; exact moved

private theorem moves_intField {set : Int16 → σ → σ} : Moves ReaderStaysFixed (intField getInt16 set) :=
  (moves_readOr moves_getInt16 _).bind fun _ _ fixed => fixed

private theorem moves_failWith {ρ : Type} {r : ρ → ρ → Prop} {err : KError} {x : EStateM Failure ρ α} (moves : Moves r x) :
    Moves r (failWith err x) := by
  intro s
  have moved := moves s
  unfold failWith
  rcases run : x s with ⟨a, s'⟩ | ⟨_ | f, s'⟩ <;> (rw [run] at moved; exact moved)

private theorem moves_key : Moves ReaderStaysFixed (ApiVersionsResponseKey.decode 0) :=
  moves_failWith (moves_intField.bind fun _ => moves_intField.bind fun _ => moves_intField.bind fun _ => .pure _)

private theorem moves_part {get : σ → τ} {set : τ → σ → σ} {x : DecodeInto τ α} (moves : Moves ReaderStaysFixed x) :
    Moves ReaderStaysFixed (DecodeInto.part get set x) := by
  rintro ⟨o, pd⟩ fixed
  have moved := moves (get o, pd) fixed
  unfold DecodeInto.part
  dsimp only
  rcases run : x (get o, pd) with ⟨a, t, pd'⟩ | ⟨e, t, pd'⟩ <;> (rw [run] at moved; exact moved)

private theorem moves_each {x : DecodeInto σ Unit} (moves : Moves ReaderStaysFixed x) :
    Moves ReaderStaysFixed fun (os, pd) => DecodeInto.each x os pd := by
  rintro ⟨os, pd⟩ fixed
  induction os generalizing pd with
  | nil => exact fixed
  | cons o os ih =>
    have moved := moves (o, pd) fixed
    dsimp only
    unfold DecodeInto.each
    rcases run : x (o, pd) with ⟨⟨⟩, o', pd'⟩ | ⟨e, o', pd'⟩
    · rw [run] at moved
      have others := ih pd' moved
      dsimp only
      rcases rest :
        DecodeInto.each x os pd' with ⟨⟨⟩, os', pd''⟩ | ⟨e, os', pd''⟩ <;> (simp only [rest] at others; exact others)
    · rw [run] at moved
      exact moved

private theorem moves_resized {fresh : σ} {x : DecodeInto σ Unit} (moves : Moves ReaderStaysFixed x) (n : Int32) :
    Moves ReaderStaysFixed (DecodeInto.resized fresh n x) := by
  apply Moves.ite
  · exact fun _ _ fixed => fixed
  · exact fun _ => .bind (fun _ fixed => fixed) fun _ => moves_each moves

private theorem moves_decodeRest : Moves ReaderStaysFixed (decodeRest 0) := by
  apply Moves.bind
  · exact (moves_readOr moves_getArrayLength _).bind fun n => moves_part (moves_resized moves_key n)
  · exact fun _ => .pure _

end Moves

/-- The mode of a later answer is left by the decoder and then by the wrapper, which asserts that it is in it. -/
theorem not_decoded_flexible (unsupported : r.code.toInt = ErrUnsupportedVersion)
    (flexible_ : isFlexibleVersion version = true) (stored : bytes = bigEndian 2 r.code.toUInt16.toNat ++ rest) :
    ¬ Decoded version bytes r o o' := by
  intro decoded
  obtain ⟨pd, run, -, -, -, depth⟩ := (decoded_iff (append_ne_nil stored)).mp decoded
  rw [flexible_] at run depth
  have ran := failWith_eq_ok_iff.mp ((decode_code o (inMode_opened true bytes) stored).symm.trans run)
  have goes := body_unsupported { o with version, code := r.code } ((opened true bytes).advance 2) unsupported
  rw [goes] at ran
  have fixed := moves_decodeRest ({ o with version := 0, code := r.code }, downgraded ((opened true bytes).advance 2)) rfl
  rw [ran] at fixed
  rw [if_pos rfl] at depth
  have none_ : pd.flexible = 0 := fixed
  omega

/-! ## Negotiation -/

/-- What the encoder writes begins with the code. -/
theorem exists_stored (encoded : encodeBody flexible r.encode = .ok bytes) :
    ∃ rest, bytes = bigEndian 2 r.code.toUInt16.toNat ++ rest := by
  obtain ⟨output, writes, -⟩ := (@exact_rest true flexible {} r rfl).sized
  obtain ⟨rest, -, stored, -⟩ := split_encoded writes encoded
  exact ⟨rest, stored⟩

/-- An answer comes back at its own version unless it has the downgrading code at a later version than the first one,
and where the fixed mode can read the number of its ranges. -/
theorem decoded_own_iff (encoded : encodeBody (isFlexibleVersion r.version) r.encode = .ok bytes) (start : o.apiKeys = []) :
    (∃ o', Decoded r.version bytes r o o') ↔
      (r.code.toInt = ErrUnsupportedVersion → ¬ 1 ≤ r.version) ∧ r.Readable (isFlexibleVersion r.version) := by
  obtain unsupported | supported := Decidable.em (r.code.toInt = ErrUnsupportedVersion)
  · obtain timed | older := Decidable.em (1 ≤ r.version)
    · refine iff_of_false ?_ fun both => both.1 unsupported timed
      rintro ⟨o', decoded⟩
      cases mode : isFlexibleVersion r.version with
      | false =>
        rw [mode] at encoded
        exact not_decoded_timed encoded unsupported timed mode start decoded
      | true =>
        obtain ⟨rest, stored⟩ := exists_stored encoded
        exact not_decoded_flexible unsupported mode stored decoded
    · have mode : isFlexibleVersion r.version = false :=
        decide_eq_false fun flexible_ => older (Int16.le_trans (by decide) flexible_)
      have goes : GoesOnAt r.version 0 false bytes r o := goesOn_downgraded unsupported (decodeRest_of_lt older)
      rw [mode] at encoded ⊢
      constructor
      · rintro ⟨o', decoded⟩
        exact ⟨fun _ => older, readable_of_decoded encoded mode start goes decoded⟩
      · rintro ⟨-, readable⟩
        obtain ⟨o', decoded, -⟩ := decoded_of_readable encoded mode start goes readable
        exact ⟨o', decoded⟩
  · have goes : GoesOnAt r.version r.version (isFlexibleVersion r.version) bytes r o := goesOn_supported supported rfl
    constructor
    · rintro ⟨o', decoded⟩
      exact ⟨fun unsupported => absurd unsupported supported, readable_of_decoded encoded rfl start goes decoded⟩
    · rintro ⟨-, readable⟩
      obtain ⟨o', decoded, -⟩ := decoded_of_readable encoded rfl start goes readable
      exact ⟨o', decoded⟩

/-- An answer of the first version that does not support the version comes back where the version that was asked for has the
fixed mode, which can read the number of its ranges. -/
theorem decoded_downgraded_iff (version : Int16) (unsupported : r.code.toInt = ErrUnsupportedVersion) (first : r.version = 0)
    (encoded : encodeBody false r.encode = .ok bytes) (start : o.apiKeys = []) :
    (∃ o', Decoded version bytes r o o' ∧ o'.version = 0) ↔ isFlexibleVersion version = false ∧ r.Readable false := by
  cases mode : isFlexibleVersion version with
  | false =>
    have goes : GoesOnAt version 0 false bytes r o := goesOn_downgraded unsupported (congrArg decodeRest first)
    constructor
    · rintro ⟨o', decoded, -⟩
      exact ⟨rfl, readable_of_decoded encoded mode start goes decoded⟩
    · rintro ⟨-, readable⟩
      exact decoded_of_readable encoded mode start goes readable
  | true =>
    obtain ⟨rest, stored⟩ := exists_stored encoded
    refine iff_of_false ?_ fun both => absurd both.1 (by decide)
    rintro ⟨o', decoded, -⟩
    exact not_decoded_flexible unsupported mode stored decoded

private theorem decoded_withVersion (w : Int16) (o' : ApiVersionsResponse) :
    Decoded version bytes { r with version := w } o o' = Decoded version bytes r o o' := rfl

private theorem readable_withVersion (w : Int16) :
    ({ r with version := w } : ApiVersionsResponse).Readable flexible = r.Readable flexible := rfl

/-- An answer is decoded again at the version of its encoding where that version is the first one or the code is not the
one that downgrades, and at a version of the fixed mode from its first encoding with that code. The fixed mode must be
able to read the number of the ranges. -/
theorem negotiated_iff (r : ApiVersionsResponse) (version : Int16) (bytes : Bytes) (initial code : Int16)
    (throttleTime : Int64) : (encodeBody (isFlexibleVersion version) { r with version }.encode = .ok bytes →
      ((∃ o', Decoded version bytes r { version := initial, code, throttleTime } o') ↔
        (r.code.toInt = ErrUnsupportedVersion → ¬ 1 ≤ version) ∧ r.Readable (isFlexibleVersion version))) ∧
      (r.code.toInt = ErrUnsupportedVersion → encodeBody false { r with version := 0 }.encode = .ok bytes →
        ((∃ o', Decoded version bytes r { version := initial, code, throttleTime } o' ∧ o'.version = 0) ↔
          isFlexibleVersion version = false ∧ r.Readable false)) := by
  constructor
  · intro encoded
    have own := decoded_own_iff (o := { version := initial, code, throttleTime }) (r := { r with version }) encoded rfl
    simp only [decoded_withVersion, readable_withVersion] at own
    exact own
  · intro unsupported encoded
    have first :=
      decoded_downgraded_iff (o := { version := initial, code, throttleTime }) (r := { r with version := 0 }) version
      unsupported rfl encoded rfl
    simp only [decoded_withVersion, readable_withVersion] at first
    exact first

/-- One range at the latest version. -/
theorem negotiated_latest : ∃ o', Decoded 3 [0, 0, 2, 0, 18, 0, 0, 0, 3, 0, 0, 0, 0, 7, 0]
    { code := 0, apiKeys := [{ apiKey := 18, minVersion := 0, maxVersion := 3 }], throttleTime := 7 } {} o' :=
  ((negotiated_iff { code := 0, apiKeys := [{ apiKey := 18, minVersion := 0, maxVersion := 3 }], throttleTime := 7 } 3
    [0, 0, 2, 0, 18, 0, 0, 0, 3, 0, 0, 0, 0, 7, 0] 0 0 0).1 (by decide +kernel)).mpr ⟨by decide, by nofun⟩

/-- The first encoding of an answer that does not support the latest version ends in the assertion of the wrapper. -/
theorem unsupported_version_asserts :
    encodeBody false { code := 35, version := 0 : ApiVersionsResponse }.encode = .ok [0, 35, 0, 0, 0, 0] ∧
      ∃ ended, decodeVersionReader (isFlexibleVersion 3) (decode 3) [0, 35, 0, 0, 0, 0] {} =
        .error (.fault .assertion) ended :=
  ⟨by decide +kernel, _, rfl⟩

end Coev.Kafka.ApiVersionsResponse
