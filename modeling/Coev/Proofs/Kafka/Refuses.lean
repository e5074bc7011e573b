import Coev.Proofs.Kafka.CompositeReads

/-! # What a decoder refuses

`Refuses` says that a decoder that finds no more than a proper prefix of given bytes fails with a code; `RefusesInto` says it
of the decoder of an object in place. Together with what is read in front, both compose along sequencing.
-/

namespace Coev.Kafka.PacketDecoder

open ByteString DecodeInto Leb128 PacketEncoder

variable {α β σ τ : Type} {flexible : Bool}
variable {bytes : Bytes} {s : Bytes}

/-- In front of a proper prefix of `bytes` and nothing else, `get` fails with a code. -/
def Refuses (flexible : Bool) (get : Decode α) (bytes : Bytes) : Prop :=
  ∀ pd, InMode flexible pd → pd.unread <+: bytes → pd.unread ≠ bytes → ∃ err s, get pd = .error (.code err) s

/-- In front of a proper prefix of `bytes` and nothing else, `x` fails on the object with a code. -/
def RefusesInto (flexible : Bool) (x : DecodeInto σ α) (bytes : Bytes) (o : σ) : Prop :=
  ∀ pd, InMode flexible pd → pd.unread <+: bytes → pd.unread ≠ bytes → ∃ err s, x (o, pd) = .error (.code err) s

/-! ## Sequencing -/

theorem Refuses.nil (get : Decode α) : Refuses flexible get [] :=
  fun _ _ front proper => absurd (List.prefix_nil.mp front) proper

theorem RefusesInto.nil (x : DecodeInto σ α) (o : σ) : RefusesInto flexible x [] o :=
  fun _ _ front proper => absurd (List.prefix_nil.mp front) proper

/-- A prefix of two parts is one of the first, or the first with one of the second. -/
theorem prefix_append_cases {front head tail : Bytes} (inside : front <+: head ++ tail) (proper : front ≠ head ++ tail) :
    front <+: head ∧ front ≠ head ∨ ∃ rest, front = head ++ rest ∧ rest <+: tail ∧ rest ≠ tail := by
  rcases List.prefix_or_prefix_of_prefix inside (List.prefix_append head tail) with first | ⟨rest, rfl⟩
  · by_cases whole : front = head
    · subst whole
      refine .inr ⟨[], (List.append_nil _).symm, List.nil_prefix, ?_⟩
      rintro rfl
      exact proper (List.append_nil _).symm
    · exact .inl ⟨first, whole⟩
  · rw [List.prefix_append_right_inj] at inside
    exact .inr ⟨rest, rfl, inside, fun same => proper (congrArg _ same)⟩

theorem Refuses.bind {x : Decode α} {k : α → Decode β} {bytes rest : Bytes} {a : α} (reads : Reads flexible x bytes a)
    (first : Refuses flexible x bytes) (next : Refuses flexible (k a) rest) :
    Refuses flexible (x >>= k) (bytes ++ rest) := by
  intro pd mode inside proper
  rcases prefix_append_cases inside proper with ⟨short, cut⟩ | ⟨front, ahead, short, cut⟩
  · obtain ⟨err, s, failed⟩ := first pd mode short cut
    exact ⟨err, s, EStateM.bind_of_error failed k⟩
  · have behind := unread_advance ahead
    rw [← behind] at short cut
    obtain ⟨err, s, failed⟩ := next _ (mode.advance _) short cut
    exact ⟨err, s, (EStateM.bind_of_ok (reads pd front mode ahead) k).trans failed⟩

theorem RefusesInto.bind {x : DecodeInto σ α} {k : α → DecodeInto σ β} {bytes rest : Bytes} {o o' : σ} {a : α}
    (reads : ReadsInto flexible x bytes o o' a) (first : RefusesInto flexible x bytes o)
    (next : RefusesInto flexible (k a) rest o') : RefusesInto flexible (x >>= k) (bytes ++ rest) o := by
  intro pd mode inside proper
  rcases prefix_append_cases inside proper with ⟨short, cut⟩ | ⟨front, ahead, short, cut⟩
  · obtain ⟨err, s, failed⟩ := first pd mode short cut
    exact ⟨err, s, EStateM.bind_of_error failed k⟩
  · have behind := unread_advance ahead
    rw [← behind] at short cut
    obtain ⟨err, s, failed⟩ := next _ (mode.advance _) short cut
    exact ⟨err, s, (EStateM.bind_of_ok (reads pd front mode ahead) k).trans failed⟩

/-- What follows reads nothing more. -/
theorem Refuses.andThen {x : Decode α} (refuses : Refuses flexible x bytes) (k : α → Decode β) :
    Refuses flexible (x >>= k) bytes := by
  intro pd mode inside proper
  obtain ⟨err, s, failed⟩ := refuses pd mode inside proper
  exact ⟨err, s, EStateM.bind_of_error failed k⟩

theorem RefusesInto.andThen {x : DecodeInto σ α} {o : σ} (refuses : RefusesInto flexible x bytes o)
    (k : α → DecodeInto σ β) : RefusesInto flexible (x >>= k) bytes o := by
  intro pd mode inside proper
  obtain ⟨err, s, failed⟩ := refuses pd mode inside proper
  exact ⟨err, s, EStateM.bind_of_error failed k⟩

theorem Refuses.readOr {get : Decode α} (refuses : Refuses flexible get bytes) (spoil : σ → σ) (o : σ) :
    RefusesInto flexible (readOr spoil get) bytes o := by
  intro pd mode inside proper
  obtain ⟨err, s, failed⟩ := refuses pd mode inside proper
  exact ⟨err, _, readOr_of_error failed⟩

theorem RefusesInto.part {x : DecodeInto τ α} {get : σ → τ} {set : τ → σ → σ} {o : σ}
    (refuses : RefusesInto flexible x bytes (get o)) : RefusesInto flexible (part get set x) bytes o := by
  intro pd mode inside proper
  obtain ⟨err, s, failed⟩ := refuses pd mode inside proper
  refine ⟨err, (set s.1 o, s.2), ?_⟩
  simp only [DecodeInto.part, failed]

theorem refuses_fixed {fixed flex : Decode α} (refuses : Refuses false fixed bytes) :
    Refuses false (byMode fixed flex) bytes := by
  intro pd mode inside proper
  have isFixed : pd.flexible = 0 := mode.mpr rfl
  rw [byMode, if_pos isFixed]
  exact refuses pd mode inside proper

theorem refuses_flexible {fixed flex : Decode α} (refuses : Refuses true flex bytes) :
    Refuses true (byMode fixed flex) bytes := by
  intro pd mode inside proper
  have notFixed : ¬ pd.flexible = 0 := fun zero => Bool.noConfusion (mode.mp zero)
  rw [byMode, if_neg notFixed]
  exact refuses pd mode inside proper

/-! ## Numbers -/

theorem length_lt_of_proper {front bytes : Bytes} (inside : front <+: bytes) (proper : front ≠ bytes) :
    front.length < bytes.length := by
  rcases Nat.lt_or_ge front.length bytes.length with less | ge
  · exact less
  · exact absurd (inside.eq_of_length_le ge) proper

theorem refuses_take {n : ℕ} (length : bytes.length = n) : Refuses flexible (take n) bytes := by
  intro pd _ inside proper
  have short := length_lt_of_proper inside proper
  rw [← remaining_eq, length] at short
  refine ⟨ErrInsufficientData, { pd with offset := pd.raw.length }, ?_⟩
  rw [take, if_pos short]
  rfl

theorem refuses_getInt8 (n : ℕ) : Refuses flexible getInt8 (bigEndian 1 n) := (refuses_take (length_bigEndian 1 n)).andThen _

theorem refuses_getInt16 (n : ℕ) : Refuses flexible getInt16 (bigEndian 2 n) :=
  (refuses_take (length_bigEndian 2 n)).andThen _

theorem refuses_getInt32 (n : ℕ) : Refuses flexible getInt32 (bigEndian 4 n) :=
  (refuses_take (length_bigEndian 4 n)).andThen _

theorem refuses_getInt64 (n : ℕ) : Refuses flexible getInt64 (bigEndian 8 n) :=
  (refuses_take (length_bigEndian 8 n)).andThen _

/-- A varint that does not end is refused. -/
theorem getUVariantLoop_of_endless {fuel : ℕ} {acc : UInt64} {pd : PacketDecoder}
    (endless : ∀ b ∈ pd.unread, b &&& 0x80 ≠ 0) : ∃ err s, getUVariantLoop fuel acc pd = .error (.code err) s := by
  induction fuel generalizing acc pd with
  | zero => exact ⟨ErrUVariantOverflow, _, rfl⟩
  | succ fuel ih =>
    cases ahead : pd.unread with
    | nil =>
      refine ⟨ErrInsufficientData, { pd with offset := pd.raw.length }, ?_⟩
      simp only [getUVariantLoop, ahead]
      rfl
    | cons b rest =>
      rw [ahead] at endless
      obtain ⟨more, others⟩ := List.forall_mem_cons.mp endless
      have behind : (pd.advance 1).unread = rest := @unread_advance pd [b] rest ahead
      rw [← behind] at others
      simp only [getUVariantLoop, ahead, more, if_false]
      exact ih others

/-- Only the last byte of a varint ends it. -/
theorem endless_of_proper {n : ℕ} {front : Bytes} (inside : front <+: Leb128.encode n) (proper : front ≠ Leb128.encode n) :
    ∀ b ∈ front, b &&& 0x80 ≠ 0 := by
  induction n using Nat.strongRecOn generalizing front with
  | ind n ih =>
    cases front with
    | nil => exact fun b member => absurd member List.not_mem_nil
    | cons b front =>
      rcases Nat.lt_or_ge n 128 with small | large
      · rw [encode_of_lt small] at inside proper
        have short := length_lt_of_proper inside proper
        rw [List.length_cons, List.length_singleton] at short
        omega
      · rw [encode_of_le large] at inside proper
        obtain ⟨rfl, rest⟩ := List.cons_prefix_cons.mp inside
        rw [List.forall_mem_cons]
        constructor
        · have value : (UInt8.ofNat (n % 128 + 128)).toNat = n % 128 + 128 := by simp; omega
          rw [Ne, and_top_eq_zero_iff]
          omega
        · exact ih (n / 128) (by omega) rest fun same => proper (congrArg _ same)

theorem refuses_getUVariant (x : UInt64) : Refuses flexible getUVariant (encodeUVariant x) := by
  intro pd _ inside proper
  rw [encodeUVariant_eq] at inside proper
  exact getUVariantLoop_of_endless (endless_of_proper inside proper)

theorem refuses_getArrayLength {x : Int32} {bytes : Bytes} (stored : arrayLengthOutput flexible x = some bytes) :
    Refuses flexible getArrayLength bytes := by
  cases flexible with
  | false =>
    obtain rfl := Option.some.inj stored
    apply refuses_fixed
    exact (refuses_take (length_bigEndian 4 _)).andThen _
  | true =>
    rw [arrayLengthOutput, if_pos rfl] at stored
    split at stored
    · cases stored
    · obtain rfl := Option.some.inj stored
      apply refuses_flexible
      exact (refuses_getUVariant _).andThen _

/-! ## Strings -/

theorem refuses_getRawBytes (small : s.length ≤ int32Max) :
    Refuses flexible (getRawBytes (Int32.ofNat s.length)) s := by
  have nonneg : ¬ Int32.ofNat s.length < 0 := by
    rw [Int32.lt_iff_toInt_lt, int32_ofNat_toInt small]
    exact not_lt.mpr (Int.natCast_nonneg _)
  rw [getRawBytes, if_neg nonneg, int32_ofNat_toInt small, Int.toNat_natCast]
  exact refuses_take rfl

theorem refuses_stringOf (small : s.length ≤ int32Max) : Refuses flexible (stringOf (Int32.ofNat s.length)) s := by
  intro pd _ inside proper
  have length := int32_ofNat_toInt small
  have notNegative : ¬ Int32.ofNat s.length < -1 := by
    rw [Int32.lt_iff_toInt_lt, length]
    have minusOne : (-1 : Int32).toInt = -1 := rfl
    omega
  have short : (pd.remaining : ℤ) < (Int32.ofNat s.length).toInt := by
    have less := length_lt_of_proper inside proper
    rw [remaining_eq, length]
    omega
  refine ⟨ErrInsufficientData, { pd with offset := pd.raw.length }, EStateM.bind_of_error ?_ _⟩
  rw [checkStringLength, if_neg notNegative, if_pos short]
  rfl

theorem refuses_getString {n : ℕ} (accepted : stringReserve flexible s = .ok n)
    (stored : stringOutput flexible s = some bytes) : Refuses flexible getString bytes := by
  rw [getString_eq]
  cases flexible with
  | false =>
    obtain ⟨small, rfl⟩ := string_written_fixed accepted stored
    apply refuses_fixed
    apply Refuses.bind (reads_getInt16 _) (refuses_getInt16 _)
    rw [int16_ofNat_toInt32 small]
    exact refuses_stringOf (le_trans small (by decide))
  | true =>
    obtain ⟨small, rfl⟩ := string_written_flexible accepted stored
    have value := compactLength_toNat small
    have read :=
      @reads_getUVariant true (Int32.ofNat s.length + 1).toInt64.toUInt64 (by simp only [int32Max] at small; omega)
    apply refuses_flexible
    apply Refuses.bind read (refuses_getUVariant _)
    rw [if_neg (compactLength_ne_zero small), compact_pred value]
    exact refuses_stringOf small.le

theorem refuses_getNullableString {n : ℕ} (accepted : nullableStringReserve flexible s = .ok n)
    (stored : nullableStringOutput flexible s = some bytes) : Refuses flexible getNullableString bytes := by
  cases s with
  | cons b s => exact refuses_getString accepted stored
  | nil =>
    obtain rfl := Option.some.inj stored
    rw [getNullableString, getString_eq]
    cases flexible with
    | false =>
      apply refuses_fixed
      exact (refuses_getInt16 _).andThen _
    | true =>
      apply refuses_flexible
      exact (refuses_getUVariant 0).andThen _

theorem refuses_getBytes (small : s.length ≤ int32Max) :
    Refuses flexible getBytes (bytesLengthOutput flexible s ++ s) := by
  cases flexible with
  | true =>
    have value := uint64_ofNat_toNat small
    have read := @reads_getUVariant true (UInt64.ofNat (s.length + 1)) (by rw [value]; simp only [int32Max] at small; omega)
    apply refuses_flexible
    apply Refuses.bind read (refuses_getUVariant _)
    rw [compact_pred value]
    exact refuses_getRawBytes small
  | false =>
    apply refuses_fixed
    cases s with
    | nil =>
      rw [List.append_nil]
      exact (refuses_getInt32 _).andThen _
    | cons b s =>
      have length := @reads_getInt32 false (Int32.ofNat (b :: s).length)
      apply Refuses.bind length (refuses_getInt32 _)
      rw [if_neg (int32_ofNat_ne_minusOne small)]
      exact refuses_getRawBytes small

/-! ## Arrays and tagged fields -/

/-- Too few bytes are refused before the first element is read. -/
theorem refuses_checked {k : Decode α} {size : ℕ} {n : Int32} (length : bytes.length = size * n.toInt.toNat)
    (small : bytes.length ≤ int32Max) : Refuses flexible (checkRemaining size n >>= fun _ => k) bytes := by
  intro pd _ inside proper
  have short := length_lt_of_proper inside proper
  rw [← remaining_eq, length] at short
  refine ⟨ErrInsufficientData, { pd with offset := pd.raw.length }, EStateM.bind_of_error ?_ _⟩
  rw [checkRemaining, if_neg (by omega), if_pos short]
  rfl

theorem refuses_getEmptyTaggedFieldArray :
    Refuses flexible getEmptyTaggedFieldArray (if flexible then encodeUVariant 0 else []) := by
  cases flexible with
  | false => exact Refuses.nil _
  | true =>
    apply refuses_flexible
    exact (refuses_getUVariant 0).andThen _

theorem reads_getEmptyTaggedFieldArray :
    Reads flexible getEmptyTaggedFieldArray (if flexible then encodeUVariant 0 else []) () := by
  cases flexible with
  | false =>
    apply reads_fixed
    exact Reads.pure ()
  | true =>
    have zero : (0 : UInt64).toNat < 2 ^ 63 := by decide
    apply reads_flexible
    apply (reads_getUVariant zero).next
    exact Reads.pure ()

end Coev.Kafka.PacketDecoder
