import Coev.Proofs.Kafka.RecordBatchDecode

/-! # A record batch in arbitrary bytes

The reads under the checksum ignore their error codes, so that part of a header never fails: each read
moves past its bytes or to the end of the buffer. What decides how a decode goes on is the length, the
version, the attributes and the count at their places in the bytes.
-/

namespace Coev.Kafka

open EStateM (bind_of_ok bind_of_error)
open ByteString DecodeInto PacketDecoder

variable {σ τ α β : Type} {library : CompressionLibrary}

namespace PacketDecoder

variable {x : DecodeInto σ α} {pd : PacketDecoder} {k : α → DecodeInto σ β} {m n : ℕ}

/-- Past `n` bytes, or at the end. -/
def skip (pd : PacketDecoder) (n : ℕ) : PacketDecoder := { pd with offset := min (pd.offset + n) pd.raw.length }

theorem skip_of_le {n : ℕ} (inside : pd.offset ≤ pd.raw.length) (enough : n ≤ pd.remaining) :
    pd.skip n = pd.advance n := by
  simp only [remaining] at enough
  rw [skip, advance, Nat.min_eq_left (by omega)]

theorem skip_of_lt {n : ℕ} (short : pd.remaining < n) : pd.skip n = pd.atEnd := by
  simp only [remaining] at short
  rw [skip, atEnd, Nat.min_eq_right (by omega)]

theorem skip_skip (pd : PacketDecoder) (m n : ℕ) : (pd.skip m).skip n = pd.skip (m + n) := by
  simp only [skip]
  congr 1
  omega

theorem skip_inside (pd : PacketDecoder) (n : ℕ) : (pd.skip n).offset ≤ (pd.skip n).raw.length := Nat.min_le_right _ _

theorem remaining_skip (pd : PacketDecoder) (n : ℕ) : (pd.skip n).remaining = pd.remaining - n := by
  simp only [remaining, skip]
  omega

theorem unread_skip {n : ℕ} (inside : pd.offset ≤ pd.raw.length) (enough : n ≤ pd.remaining) :
    (pd.skip n).unread = pd.unread.drop n := by
  rw [skip_of_le inside enough, unread, unread, advance, List.drop_drop]

/-- From any object, `x` succeeds past `n` bytes or at the end; it keeps a view of the object, and what
it returns is related to where it started. -/
def Skims (view : σ → τ) (n : ℕ) (x : DecodeInto σ α) (post : PacketDecoder → α → Prop) : Prop :=
  ∀ o pd, pd.offset ≤ pd.raw.length → pd.flexible = 0 →
    ∃ a o', x (o, pd) = .ok a (o', pd.skip n) ∧ view o' = view o ∧ post pd a

variable {view : σ → τ}

theorem Skims.bind {first : PacketDecoder → α → Prop} {next : PacketDecoder → β → Prop} (head : Skims view m x first)
    (tail : ∀ a, Skims view n (k a) next) : Skims view (m + n) (x >>= k) fun pd b => next (pd.skip m) b := by
  intro o pd inside mode
  obtain ⟨a, o', run, kept, -⟩ := head o pd inside mode
  obtain ⟨b, o'', rest, kept', holds⟩ := tail a o' (pd.skip m) (pd.skip_inside m) mode
  exact ⟨b, o'', by rw [bind_of_ok run, rest, skip_skip], kept'.trans kept, holds⟩

/-- Storing in the object a member outside the view. -/
theorem Skims.store {f : α → σ → σ} {first : PacketDecoder → α → Prop} {next : PacketDecoder → β → Prop}
    (head : Skims view m x first) (tail : ∀ a, Skims view n (k a) next) (keeps : ∀ a o, view (f a o) = view o) :
    Skims view (m + n) (x >>= fun a => update (f a) >>= fun _ => k a) fun pd b => next (pd.skip m) b := by
  intro o pd inside mode
  obtain ⟨a, o', run, kept, -⟩ := head o pd inside mode
  obtain ⟨b, o'', rest, kept', holds⟩ := tail a (f a o') (pd.skip m) (pd.skip_inside m) mode
  refine ⟨b, o'', ?_, kept'.trans ((keeps a o').trans kept), holds⟩
  rw [bind_of_ok run, ← skip_skip]
  exact rest

theorem Skims.imp {post post' : PacketDecoder → α → Prop} (skims : Skims view m x post) (size : m = n)
    (weaken : ∀ pd a, pd.offset ≤ pd.raw.length → post pd a → post' pd a) : Skims view n x post' := by
  intro o pd inside mode
  obtain ⟨a, o', run, kept, holds⟩ := skims o pd inside mode
  exact ⟨a, o', size ▸ run, kept, weaken pd a inside holds⟩

theorem word_of_short {w : ℕ} (f : ℕ → α) (short : pd.remaining < w) :
    (do return f (value (← take w)) : Decode α) pd = .error (.code ErrInsufficientData) pd.atEnd := by
  refine bind_of_error ?_ _
  simp only [take, if_pos short, insufficient, atEnd]

theorem word_of_enough {w : ℕ} (f : ℕ → α) (enough : w ≤ pd.remaining) :
    (do return f (value (← take w)) : Decode α) pd = .ok (f (value (pd.unread.take w))) (pd.advance w) := by
  have taken : take w pd = .ok (pd.unread.take w) (pd.advance w) := by
    simp only [take, if_neg (Nat.not_lt.mpr enough)]
  exact bind_of_ok taken _

/-- With `n` bytes left `x` succeeds and returns a result of them, keeping a view of the object; with fewer it
fails at the end. -/
def Demands (view : σ → τ) (n : ℕ) (x : DecodeInto σ α) (result : Bytes → α) : Prop :=
  ∀ o pd, (n ≤ pd.remaining → ∃ o', x (o, pd) = .ok (result pd.unread) (o', pd.advance n) ∧ view o' = view o) ∧
    (pd.remaining < n → ∃ o', x (o, pd) = .error (.code ErrInsufficientData) (o', pd.atEnd))

theorem demands_word (w : ℕ) (f : ℕ → α) (spoil : σ → σ) :
    Demands view w (readOr spoil (do return f (value (← take w)))) fun bytes => f (value (bytes.take w)) :=
  fun o _ => ⟨fun enough => ⟨o, readOr_eq_ok_iff.mpr ⟨word_of_enough f enough, rfl⟩, rfl⟩,
    fun short => ⟨spoil o, readOr_of_error (word_of_short f short)⟩⟩

theorem unread_advance_eq (pd : PacketDecoder) (n : ℕ) : (pd.advance n).unread = pd.unread.drop n := by
  rw [unread, unread, advance, List.drop_drop]

theorem Demands.bind {first : Bytes → α} {next : α → Bytes → β} (head : Demands view m x first)
    (tail : ∀ a, Demands view n (k a) (next a)) :
    Demands view (m + n) (x >>= k) fun bytes => next (first bytes) (bytes.drop m) := by
  intro o pd
  rcases Nat.lt_or_ge pd.remaining m with none | some
  · obtain ⟨o', failed⟩ := (head o pd).2 none
    exact ⟨fun enough => absurd enough (by omega), fun _ => ⟨o', bind_of_error failed k⟩⟩
  · obtain ⟨o', run, kept⟩ := (head o pd).1 some
    obtain ⟨long, short⟩ := tail (first pd.unread) o' (pd.advance m)
    rw [remaining_advance, unread_advance_eq, advance_advance] at long
    rw [remaining_advance] at short
    refine ⟨fun enough => ?_, fun less => ?_⟩
    · obtain ⟨o'', rest, kept'⟩ := long (by omega)
      exact ⟨o'', (bind_of_ok run k).trans rest, kept'.trans kept⟩
    · obtain ⟨o'', failed⟩ := short (by omega)
      exact ⟨o'', (bind_of_ok run k).trans failed⟩

theorem demands_update (f : σ → σ) (keeps : ∀ o, view (f o) = view o) : Demands view 0 (update f) fun _ => () :=
  fun o _ => ⟨fun _ => ⟨f o, rfl, keeps o⟩, fun less => absurd less (Nat.not_lt_zero _)⟩

theorem demands_pure (a : α) : Demands view 0 (pure a) fun _ => a :=
  fun o _ => ⟨fun _ => ⟨o, rfl, rfl⟩, fun less => absurd less (Nat.not_lt_zero _)⟩

theorem Demands.of_eq {result result' : Bytes → α} (demands : Demands view m x result) (size : m = n)
    (same : ∀ bytes, result bytes = result' bytes) : Demands view n x result' := by
  obtain rfl := size
  obtain rfl := funext same
  exact demands

/-- A word whose error code is ignored. -/
theorem skims_word (w : ℕ) (f : ℕ → α) (spoiled : α) : Skims view w
    (ignoreCode spoiled (read (do return f (value (← take w))) : DecodeInto σ α))
    fun pd a => w ≤ pd.remaining → a = f (value (pd.unread.take w)) := by
  intro o pd inside _
  rcases Nat.lt_or_ge pd.remaining w with short | enough
  · refine ⟨spoiled, o, ?_, rfl, fun enough => absurd enough (Nat.not_le.mpr short)⟩
    rw [skip_of_lt short]
    exact ignoreCode_of_code (read_of_error (word_of_short f short))
  · refine ⟨f (value (pd.unread.take w)), o, ?_, rfl, fun _ => rfl⟩
    rw [skip_of_le inside enough]
    exact ignoreCode_of_ok (read_eq_ok_iff.mpr ⟨word_of_enough f enough, rfl⟩)

/-- An array length in the fixed mode whose error code is ignored. -/
theorem skims_getArrayLength : Skims view 4
    (fun (o, pd) => ignoreCode (if pd.flexible = 0 then -1 else 0) (read getArrayLength) (o, pd) : DecodeInto σ Int32)
    fun pd n => n = if 4 ≤ pd.remaining then countRead (pd.unread.take 4) else -1 := by
  intro o pd inside mode
  rcases Nat.lt_or_ge pd.remaining 4 with short | enough
  · refine ⟨-1, o, ?_, rfl, (if_neg (Nat.not_le.mpr short)).symm⟩
    have failed : getArrayLength pd = .error (.code ErrInsufficientData) pd.atEnd := by
      rw [getArrayLength, byMode, if_pos mode]
      refine bind_of_error ?_ _
      simp only [take, if_pos short, insufficient, atEnd]
    dsimp only
    rw [skip_of_lt short, if_pos mode]
    exact ignoreCode_of_code (read_of_error failed)
  · refine ⟨countRead (pd.unread.take 4), o, ?_, rfl, (if_pos enough).symm⟩
    have width : (pd.unread.take 4).length = 4 := by
      rw [List.length_take, ← remaining_eq]
      omega
    have reads := readsInto_getArrayLength width o pd (pd.unread.drop 4) (iff_of_true mode rfl)
      (List.take_append_drop 4 pd.unread).symm
    rw [width] at reads
    rw [skip_of_le inside enough]
    exact reads

end PacketDecoder

namespace RecordBatch

theorem skims_timestamp {view : RecordBatch → τ} (get : RecordBatch → Timestamp) :
    Skims view 8 (ignoreCode () (part get (fun _ b => b) Timestamp.decode)) fun _ _ => True := by
  intro o pd inside mode
  rcases Nat.lt_or_ge pd.remaining 8 with short | enough
  · have decoded : Timestamp.decode (get o, pd) = .error (.code ErrInsufficientData) (get o, pd.atEnd) :=
      bind_of_error (read_of_error (word_of_short _ short)) _
    refine ⟨(), o, ?_, rfl, trivial⟩
    rw [skip_of_lt short]
    have parted : part get (fun _ b => b) Timestamp.decode (o, pd) = .error (.code ErrInsufficientData) (o, pd.atEnd) := by
      simp only [part, decoded]
    exact ignoreCode_of_code parted
  · have decoded : Timestamp.decode (get o, pd) = .ok ()
        (Timestamp.ofMillis (Int64.ofNat (value (pd.unread.take 8))), pd.advance 8) :=
      bind_of_ok (read_eq_ok_iff.mpr ⟨word_of_enough _ enough, rfl⟩) _
    refine ⟨(), o, ?_, rfl, trivial⟩
    rw [skip_of_le inside enough]
    refine ignoreCode_of_ok ?_
    simp only [part, decoded]

/-- Behind the attributes nothing fails, and the count is read where it stands or given up. -/
theorem skims_decodeNumRecord : Skims (fun b : RecordBatch => (b.records, b.codec)) 38 decodeNumRecord
    fun pd n => n = if 38 ≤ pd.remaining then countRead ((pd.unread.drop 34).take 4) else -1 := by
  unfold decodeNumRecord
  refine Skims.imp ((skims_word 4 Int32.ofNat (-1 : Int32)).store (fun _ =>
    (skims_timestamp _).bind fun _ => (skims_timestamp _).bind fun _ =>
      (skims_word 8 Int64.ofNat (-1 : Int64)).store (fun _ => (skims_word 2 Int16.ofNat (-1 : Int16)).store (fun _ =>
        (skims_word 4 Int32.ofNat (-1 : Int32)).store (fun _ => skims_getArrayLength) fun _ _ => rfl)
        fun _ _ => rfl) fun _ _ => rfl) fun _ _ => rfl) rfl ?_
  intro pd n inside count
  simp only [skip_skip, remaining_skip] at count
  rw [count]
  by_cases enough : 38 ≤ pd.remaining
  · rw [if_pos (by omega), if_pos enough, unread_skip inside (by omega)]
  · rw [if_neg (by omega), if_neg enough]

/-- The codec in the bytes under the checksum. -/
def codecOf (covered : Bytes) : CompressionCodec := .ofAttributes (Int16.ofNat (value (covered.take 2)))

/-- The count of the records in the bytes under the checksum. -/
def countOf (covered : Bytes) : Bytes := (covered.drop 36).take 4

/-- Under the checksum nothing fails: a header that is cut short has no records. -/
theorem decodeCovered_run (o : RecordBatch) {pd : PacketDecoder} (inside : pd.offset ≤ pd.raw.length)
    (mode : pd.flexible = 0) : ∃ o', decodeCovered (o, pd) =
        .ok (if 40 ≤ pd.remaining then countRead (countOf pd.unread) else -1) (o', pd.skip 40) ∧
      o'.records = o.records ∧ (2 ≤ pd.remaining → o'.codec = codecOf pd.unread) := by
  obtain ⟨attributes, o₁, first, kept, word⟩ := @skims_word _ _ _ id 2 Int16.ofNat (-1) o pd inside mode
  obtain rfl : o₁ = o := kept
  obtain ⟨n, o', rest, same, count⟩ := skims_decodeNumRecord
    { o₁ with
      codec := .ofAttributes attributes, control := attributes &&& 0x20 ≠ 0, logAppendTime := attributes &&& 0x08 ≠ 0,
      isTransactional := attributes &&& 0x10 ≠ 0 } (pd.skip 2) (pd.skip_inside 2) mode
  rw [Prod.mk.injEq] at same
  rw [skip_skip] at rest
  refine ⟨o', ?_, same.1, fun enough => ?_⟩
  · refine (bind_of_ok first _).trans (rest.trans ?_)
    rw [count, remaining_skip]
    congr 1
    by_cases enough : 40 ≤ pd.remaining
    · rw [if_pos (by omega), if_pos enough, unread_skip inside (by omega), List.drop_drop, countOf]
    · rw [if_neg (by omega), if_neg enough]
  · rw [same.2, codecOf, ← word enough]

/-- The length in the bytes of a batch. -/
def lengthOf (bytes : Bytes) : Int32 := Int32.ofNat (value ((bytes.drop 8).take 4))

/-- The version in the bytes of a batch. -/
def versionOf (bytes : Bytes) : Int8 := Int8.ofNat (value ((bytes.drop 16).take 1))

/-- In front of the version a decode fails on fewer than 17 bytes only. -/
theorem demands_decodeFrame :
    Demands (fun b : RecordBatch => b.records) 17 decodeFrame fun bytes => (lengthOf bytes, versionOf bytes) := by
  unfold decodeFrame
  refine Demands.of_eq ((demands_word 8 Int64.ofNat _).bind fun _ => (demands_update _ fun _ => ?_).bind fun _ =>
    (demands_word 4 Int32.ofNat id).bind fun batchLen => (demands_word 4 Int32.ofNat _).bind fun _ =>
      (demands_update _ fun _ => ?_).bind fun _ => (demands_word 1 Int8.ofNat _).bind fun version =>
        (demands_update _ fun _ => ?_).bind fun _ => demands_pure (batchLen, version)) rfl ?_
  · rfl
  · rfl
  · rfl
  intro bytes
  simp only [lengthOf, versionOf, List.drop_drop]

/-! ## A decode in arbitrary bytes -/

variable {o : RecordBatch} {pd : PacketDecoder}

/-- What a decode makes of the count of the records: a header that is cut short has none. -/
def numRecordOf (bytes : Bytes) : Int32 := if 61 ≤ bytes.length then countRead (countOf (bytes.drop 21)) else -1

theorem decode_of_short (short : pd.remaining < 17) :
    ∃ o', decode library (o, pd) = .error (.code ErrInsufficientData) (o', pd.atEnd) := by
  obtain ⟨o', failed⟩ := (demands_decodeFrame o pd).2 short
  exact ⟨o', bind_of_error failed _⟩

theorem decode_of_version (long : 17 ≤ pd.remaining) (version : versionOf pd.unread ≠ 2) :
    ∃ o', decode library (o, pd) =
      .error (.fault (.thrown (.runtimeError "unsupported record batch version"))) (o', pd.advance 17) := by
  obtain ⟨o', run, -⟩ := (demands_decodeFrame o pd).1 long
  exact ⟨o', by rw [decode_of_frame run, if_neg version]⟩

theorem remaining_pushed (pd : PacketDecoder) : (pushed pd).remaining = pd.remaining - 4 := by
  unfold pushed
  split_ifs with room
  · simp only [checking, advance, remaining]
    omega
  · simp only [atEnd, remaining] at room ⊢
    omega

theorem pushed_inside {pd : PacketDecoder} (inside : pd.offset ≤ pd.raw.length) :
    (pushed pd).offset ≤ (pushed pd).raw.length := by
  unfold pushed
  split_ifs with room
  · simp only [checking, advance, remaining] at room ⊢
    omega
  · exact le_rfl

/-- Behind the version every decode gets to the record section. -/
theorem decode_of_long (inside : pd.offset ≤ pd.raw.length) (mode : pd.flexible = 0) (long : 17 ≤ pd.remaining)
    (version : versionOf pd.unread = 2) :
    ∃ o', decode library (o, pd) = decodeRecordSection library (lengthOf pd.unread) (numRecordOf pd.unread)
        (withRoom (numRecordOf pd.unread) o', (pushed (pd.advance 17)).skip 40) ∧
      o'.records = o.records ∧ (61 ≤ pd.remaining → o'.codec = codecOf (pd.unread.drop 21)) := by
  obtain ⟨o₁, frame, kept⟩ := (demands_decodeFrame o pd).1 long
  have behind : (pushed (pd.advance 17)).offset ≤ (pushed (pd.advance 17)).raw.length := by
    refine pushed_inside ?_
    simp only [advance, remaining] at long ⊢
    omega
  have fixed : (pushed (pd.advance 17)).flexible = 0 := by
    unfold pushed
    split_ifs <;> exact mode
  have left : (pushed (pd.advance 17)).remaining = pd.remaining - 21 := by
    rw [remaining_pushed, remaining_advance]
    omega
  obtain ⟨o', covered, same, codec⟩ := decodeCovered_run o₁ behind fixed
  have ahead (whole : 61 ≤ pd.remaining) : (pushed (pd.advance 17)).unread = pd.unread.drop 21 := by
    have room : 4 ≤ (pd.advance 17).remaining := by
      rw [remaining_advance]
      omega
    rw [pushed, if_pos room]
    exact (unread_advance_eq (pd.advance 17) 4).trans (by rw [unread_advance_eq, List.drop_drop])
  have number : (if 40 ≤ (pushed (pd.advance 17)).remaining then countRead (countOf (pushed (pd.advance 17)).unread)
      else -1) = numRecordOf pd.unread := by
    rw [left, numRecordOf, ← remaining_eq]
    by_cases whole : 61 ≤ pd.remaining
    · rw [if_pos (by omega), if_pos whole, ahead whole]
    · rw [if_neg (by omega), if_neg whole]
  rw [number] at covered
  refine ⟨o', ?_, same.trans kept, fun whole => ?_⟩
  · rw [decode_of_frame frame, if_pos version]
    exact decodeChecked_of_covered covered
  · rw [codec (by omega), ahead whole]

theorem getRecordSection_of_overflow {batchLen : Int32} (low : batchLen.toInt - 49 < -2 ^ 31) :
    getRecordSection batchLen pd = .error (.fault .overflow) pd := by
  have overhead : recordBatchOverhead.toInt = 49 := rfl
  rw [getRecordSection, overhead, if_pos low]
  rfl

theorem getRecordSection_of_noOverflow {batchLen : Int32} (noOverflow : -2 ^ 31 ≤ batchLen.toInt - 49) :
    getRecordSection batchLen = getRawBytes (batchLen - recordBatchOverhead) ∧
      (batchLen - recordBatchOverhead).toInt = batchLen.toInt - 49 := by
  have overhead : recordBatchOverhead.toInt = 49 := rfl
  have bound := batchLen.toInt_lt
  refine ⟨?_, ?_⟩
  · rw [getRecordSection, overhead, if_neg (not_lt.mpr noOverflow)]
  · rw [Int32.toInt_sub, overhead]
    exact Int.bmod_eq_of_le (by omega) (by omega)

/-- A length that is too small or larger than what is left is refused. -/
theorem getRecordSection_of_refused {batchLen : Int32} (noOverflow : -2 ^ 31 ≤ batchLen.toInt - 49)
    (refused : batchLen.toInt < 49 ∨ (pd.remaining : ℤ) < batchLen.toInt - 49) :
    ∃ err pd', getRecordSection batchLen pd = .error (.code err) pd' := by
  obtain ⟨same, size⟩ := getRecordSection_of_noOverflow noOverflow
  have zero : (0 : Int32).toInt = 0 := rfl
  rw [same, getRawBytes]
  split_ifs with negative
  · exact ⟨_, _, rfl⟩
  · rw [Int32.lt_iff_toInt_lt, size, zero] at negative
    refine ⟨ErrInsufficientData, pd.atEnd, ?_⟩
    rw [take, size, if_pos (by omega)]
    rfl

theorem getRecordSection_of_fits {batchLen : Int32} (nonneg : 49 ≤ batchLen.toInt)
    (fits : batchLen.toInt - 49 ≤ pd.remaining) : getRecordSection batchLen pd =
      .ok (pd.unread.take (batchLen.toInt - 49).toNat) (pd.advance (batchLen.toInt - 49).toNat) := by
  obtain ⟨same, size⟩ := getRecordSection_of_noOverflow (by omega : -2 ^ 31 ≤ batchLen.toInt - 49)
  have zero : (0 : Int32).toInt = 0 := rfl
  have taken : ¬ batchLen - recordBatchOverhead < 0 := by
    rw [Int32.lt_iff_toInt_lt, size, zero]
    omega
  rw [same, getRawBytes, if_neg taken, take, size, if_neg (by omega)]

end RecordBatch

end Coev.Kafka
