import Coev.Model.Kafka.RecordBatch
import Coev.Proofs.Kafka.PassAgreement
import Coev.Proofs.Kafka.Reads

/-! # A record in the two passes, and read back

The PREP pass of a record counts its body with `varintLen`, the REAL pass stores varints that may be
one byte longer. The body is read back exactly when the two deltas are in the window of nine-byte
varints, and any successful decode has moved past at least the body of the record it returns.
-/

namespace Coev.Kafka

open EStateM (bind_of_ok bind_eq_ok_iff pure_eq_ok_iff)
open ByteString Leb128 DecodeInto

variable {r : Record}

namespace PacketEncoder

variable {α β δ : Type} {flexible : Bool}
variable {x : Encode α} {a : α}

/-- Count `n`, or refuse with `-1`. -/
def guarded (p : Prop) [Decidable p] (n : ℕ) : Except Failure ℕ := if p then .ok n else .error (.code (-1))

theorem Prep.seq_guarded {k : α → Encode β} {b : β} {p q : Prop} [Decidable p] [Decidable q] {m n : ℕ}
    (first : Prep flexible x a (guarded p m)) (next : Prep flexible (k a) b (guarded q n)) :
    Prep flexible (x >>= k) b (guarded (p ∧ q) (m + n)) := by
  refine (first.bind next).of_eq ?_
  unfold guarded
  by_cases left : p
  · by_cases right : q
    · rw [if_pos left, if_pos right, if_pos ⟨left, right⟩]
      rfl
    · rw [if_pos left, if_neg right, if_neg fun both => right both.2]
      rfl
  · have whole : ¬(p ∧ q) := fun both => left both.1
    rw [if_neg left, if_neg whole]
    rfl

theorem Prep.guarded {n : ℕ} (counts : Prep flexible x a (.ok n)) : Prep flexible x a (guarded True n) := counts

theorem Prep.guarded_congr {p q : Prop} [Decidable p] [Decidable q] {m n : ℕ}
    (counts : Prep flexible x a (PacketEncoder.guarded p m)) (iff : p ↔ q) (eq : m = n) :
    Prep flexible x a (PacketEncoder.guarded q n) := by
  refine counts.of_eq ?_
  subst eq
  unfold PacketEncoder.guarded
  simp only [iff]

theorem Prep.failWith_guarded {p : Prop} [Decidable p] {n : ℕ} (counts : Prep flexible x a (PacketEncoder.guarded p n)) :
    Prep flexible (failWith (-1) x) a (PacketEncoder.guarded p n) := by
  intro pe inPass
  have ran := counts pe inPass
  unfold PacketEncoder.guarded at *
  by_cases holds : p
  · rw [if_pos holds] at *
    exact failWith_of_ok ran
  · rw [if_neg holds] at *
    obtain ⟨s, failed⟩ := ran
    exact ⟨s, failWith_of_code failed⟩

theorem Real.failWith {bytes : Bytes} {err : KError} (stores : Real flexible x a (some bytes)) :
    Real flexible (failWith err x) a (some bytes) := by
  intro pe inPass inside
  obtain ⟨stored, failed⟩ := stores pe inPass inside
  refine ⟨fun room => failWith_of_ok (stored room), fun short => ?_⟩
  obtain ⟨f, s, run⟩ := failed short
  exact ⟨f, s, failWith_of_fault run⟩

/-- What PREP counts for a byte string behind a varint length. -/
def variantBytesCount (s : Bytes) : ℕ := varintLen (variantBytesLength s) + s.length

/-- What REAL stores for a byte string behind a varint length. -/
def variantBytesOutput (s : Bytes) : Bytes := encodeVariant (variantBytesLength s) ++ s

theorem prep_variantBytes (s : Bytes) : Prep flexible (failWith (-1) (putVariantBytes s)) ()
    (guarded (s.length ≤ int32Max) (variantBytesCount s)) := by
  refine Prep.failWith_guarded ((prep_putVariantBytes s).of_eq ?_)
  unfold rawReserve guarded
  split <;> rfl

theorem real_variantBytes (s : Bytes) :
    Real flexible (failWith (-1) (putVariantBytes s)) () (some (variantBytesOutput s)) :=
  (real_putVariantBytes s).failWith

end PacketEncoder

open PacketEncoder PacketDecoder

variable {flexible : Bool}

namespace RecordHeader

def Accepted (h : RecordHeader) : Prop := h.key.length ≤ int32Max ∧ h.value.length ≤ int32Max
deriving Decidable

def count (h : RecordHeader) : ℕ := variantBytesCount h.key + variantBytesCount h.value

/-- The bytes of a header. -/
def bytes (h : RecordHeader) : Bytes := variantBytesOutput h.key ++ variantBytesOutput h.value

theorem prep_encode (h : RecordHeader) : Prep flexible h.encode () (guarded h.Accepted h.count) :=
  (prep_variantBytes h.key).seq_guarded (prep_variantBytes h.value)

theorem real_encode (h : RecordHeader) : Real flexible h.encode () (some h.bytes) :=
  (real_variantBytes h.key).seq (real_variantBytes h.value)

end RecordHeader

namespace Record

/-- No string of the record is too long for the PREP pass. -/
def Accepted (r : Record) : Prop :=
  r.key.length ≤ int32Max ∧ r.value.length ≤ int32Max ∧ ∀ h ∈ r.headers, h.Accepted
deriving Decidable

/-- What PREP counts for the body. -/
def bodyCount (r : Record) : ℕ :=
  1 + (varintLen r.timestampDelta + (varintLen r.offsetDelta + (variantBytesCount r.key +
    (variantBytesCount r.value + (varintLen (Int64.ofNat r.headers.length) + (r.headers.map RecordHeader.count).sum)))))

/-- What REAL stores for the body. -/
def body (r : Record) : Bytes :=
  bigEndian 1 r.attributes.toUInt8.toNat ++ (encodeVariant r.timestampDelta ++ (encodeVariant r.offsetDelta ++
    (variantBytesOutput r.key ++ (variantBytesOutput r.value ++
      (encodeVariant (Int64.ofNat r.headers.length) ++ r.headers.flatMap RecordHeader.bytes)))))

theorem prep_encodeBody (r : Record) : Prep flexible r.encodeBody () (guarded r.Accepted r.bodyCount) := by
  have headers : Prep flexible (r.headers.forM fun h => failWith (-1) h.encode) ()
      (guarded (∀ h ∈ r.headers, h.Accepted) (r.headers.map RecordHeader.count).sum) :=
    Prep.forM (fun h => (RecordHeader.prep_encode h).failWith_guarded) r.headers
  have counts : Prep flexible r.encodeBody () (guarded (True ∧ True ∧ True ∧ r.key.length ≤ int32Max ∧
      r.value.length ≤ int32Max ∧ True ∧ ∀ h ∈ r.headers, h.Accepted) r.bodyCount) :=
    (prep_putInt8 r.attributes).guarded.seq_guarded ((prep_putVariant r.timestampDelta).guarded.seq_guarded
      ((prep_putVariant r.offsetDelta).guarded.seq_guarded ((prep_variantBytes r.key).seq_guarded
        ((prep_variantBytes r.value).seq_guarded ((prep_putVariant _).guarded.seq_guarded headers)))))
  exact counts.guarded_congr (by simp only [Accepted, true_and]) rfl

theorem real_encodeBody (r : Record) : Real flexible r.encodeBody () (some r.body) := by
  have headers : Real flexible (r.headers.forM fun h => failWith (-1) h.encode) ()
      (some (r.headers.flatMap RecordHeader.bytes)) :=
    (Real.forM (p := fun _ => True) (fun h => (RecordHeader.real_encode h).failWith.of_eq (by rw [if_pos trivial]))
      r.headers).of_eq (by simp)
  exact (real_putInt8 r.attributes).seq ((real_putVariant r.timestampDelta).seq
    ((real_putVariant r.offsetDelta).seq ((real_variantBytes r.key).seq
      ((real_variantBytes r.value).seq ((real_putVariant _).seq headers)))))

/-! ## Which records the two passes agree on -/

end Record

theorem varintLen_le (x : Int64) : varintLen x ≤ (encodeVariant x).length := by
  rw [length_encodeVariant_eq]
  split <;> omega

theorem variantBytesCount_le {s : Bytes} (small : s.length ≤ int32Max) :
    variantBytesCount s ≤ (variantBytesOutput s).length ∧
      (variantBytesCount s = (variantBytesOutput s).length ↔ VarintSafe s.length) := by
  have le := varintLen_le (variantBytesLength s)
  rw [← length_encodeVariant_variantBytesLength small, variantBytesCount, variantBytesOutput, List.length_append]
  omega

namespace RecordHeader

/-- The lengths of the header avoid the missing byte. -/
def Safe (h : RecordHeader) : Prop := VarintSafe h.key.length ∧ VarintSafe h.value.length
deriving Decidable

theorem count_le {h : RecordHeader} (accepted : h.Accepted) :
    h.count ≤ h.bytes.length ∧ (h.count = h.bytes.length ↔ h.Safe) := by
  obtain ⟨keyLe, keyEq⟩ := variantBytesCount_le accepted.1
  obtain ⟨valueLe, valueEq⟩ := variantBytesCount_le accepted.2
  rw [Safe, ← keyEq, ← valueEq, count, bytes, List.length_append]
  omega

theorem sum_count_le {headers : List RecordHeader} (accepted : ∀ h ∈ headers, h.Accepted) :
    (headers.map count).sum ≤ (headers.flatMap bytes).length ∧
      ((headers.map count).sum = (headers.flatMap bytes).length ↔ ∀ h ∈ headers, h.Safe) := by
  induction headers with
  | nil => simp
  | cons h rest ih =>
    obtain ⟨head, tail⟩ := List.forall_mem_cons.mp accepted
    obtain ⟨le, eq⟩ := count_le head
    obtain ⟨restLe, restEq⟩ := ih tail
    rw [List.forall_mem_cons, ← eq, ← restEq, List.map_cons, List.sum_cons, List.flatMap_cons, List.length_append]
    omega

end RecordHeader

namespace Record

/-- The varints of the body avoid the missing byte. -/
def Safe (r : Record) : Prop :=
  VarintSafe r.timestampDelta.toInt ∧ VarintSafe r.offsetDelta.toInt ∧ VarintSafe r.key.length ∧
    VarintSafe r.value.length ∧ VarintSafe (Int64.ofNat r.headers.length).toInt ∧ ∀ h ∈ r.headers, h.Safe
deriving Decidable

/-- PREP never counts more than the body, and counts it exactly when the varints are safe. -/
theorem bodyCount_le (accepted : r.Accepted) :
    r.bodyCount ≤ r.body.length ∧ (r.bodyCount = r.body.length ↔ r.Safe) := by
  obtain ⟨keySmall, valueSmall, headersSmall⟩ := accepted
  obtain ⟨keyLe, keyEq⟩ := variantBytesCount_le keySmall
  obtain ⟨valueLe, valueEq⟩ := variantBytesCount_le valueSmall
  obtain ⟨headersLe, headersEq⟩ := RecordHeader.sum_count_le headersSmall
  have timestampLe := varintLen_le r.timestampDelta
  have offsetLe := varintLen_le r.offsetDelta
  have numLe := varintLen_le (Int64.ofNat r.headers.length)
  simp only [Safe, ← keyEq, ← valueEq, ← headersEq, ← varintLen_eq_iff, bodyCount, body, List.length_append,
    length_bigEndian]
  omega

theorem body_pos (r : Record) : 0 < r.body.length := by
  simp only [body, List.length_append, length_bigEndian]
  omega

/-- What `encode` leaves in `m_length`. -/
def measured (r : Record) : Record := { r with length := ⟨sectionLength r.bodyCount⟩ }

/-- The length field in front of a body of the counted size. -/
def header (r : Record) : Bytes := encodeVariant (sectionLength r.bodyCount)

theorem sectionLength_toInt {n : ℕ} (small : n ≤ int32Max) : (sectionLength n).toInt = n := by
  simp only [int32Max] at small
  rw [sectionLength, Int32.toInt_toInt64, Int32.toInt_ofNat_of_lt (by omega)]

/-- What a record takes behind a length prefix of the size that the code computes for it. -/
def counted (r : Record) : ℕ := size r.body.length + r.body.length

theorem counted_pos (r : Record) : 0 < r.counted := Nat.add_pos_left (size_pos _) _

/-- The records that `encode` turns into bytes. -/
structure Encodable (r : Record) : Prop where
  fresh : 0 ≤ r.length.length.toInt
  accepted : r.Accepted
  safe : r.Safe
  small : r.counted ≤ maxRequestSize

theorem prep_encode {r : Record} (fresh : 0 ≤ r.length.length.toInt) (accepted : r.Accepted) :
    Prep flexible r.encode r.measured (match variantSize (sectionLength r.bodyCount) with
      | some size => .ok (size + r.bodyCount)
      | none => .error (.fault .divergence)) := by
  have counts : Prep flexible r.encodeBody () (.ok r.bodyCount) := (prep_encodeBody r).of_eq (if_pos accepted)
  have enclosed := Prep.enclose_variantLength (variantSize_of_nonneg fresh) counts
  refine (enclosed.bind (Prep.pure r.measured)).of_eq ?_
  cases variantSize (sectionLength r.bodyCount) <;> rfl

theorem length_header (small : r.bodyCount ≤ int32Max) :
    r.header.length = if VarintSafe r.bodyCount then size r.bodyCount else size r.bodyCount + 1 := by
  have value := sectionLength_toInt small
  rw [header, length_encodeVariant_of_nonneg (by omega), value, Int.toNat_natCast]

/-- The bytes of a record; a length one byte short takes its last byte from the body. -/
def encoded (r : Record) : Bytes := r.header ++ r.body.drop (r.header.length - size r.bodyCount)

theorem real_encode (small : r.bodyCount ≤ int32Max) (le : r.bodyCount ≤ r.body.length) :
    Real flexible r.measured.encode r.measured (some r.encoded) := by
  have value := sectionLength_toInt small
  have room : (PushField.variantLength ⟨sectionLength r.bodyCount⟩).reserveLength = some (size r.bodyCount) := by
    rw [PushField.reserveLength, variantSize_of_nonneg (value.ge.trans' (Int.natCast_nonneg _)), value, Int.toNat_natCast]
  have positive := body_pos r
  have header := length_header small
  have stored : sectionHeader r.body (.variantLength ⟨sectionLength r.bodyCount⟩) = r.header := rfl
  have enclosed := Real.enclose room (@real_encodeBody flexible r)
    (by rw [stored, header]; split <;> omega) (by rw [stored, header]; split <;> omega)
  refine (enclosed.seq (Real.pure r.measured)).of_eq ?_
  rw [List.append_nil, stored, encoded]

theorem length_encoded (small : r.bodyCount ≤ int32Max) : r.encoded.length = size r.bodyCount + r.body.length := by
  have positive := body_pos r
  have header := length_header small
  rw [encoded, List.length_append, List.length_drop, header]
  split <;> omega

theorem Encodable.bodyCount_eq (encodable : r.Encodable) : r.bodyCount = r.body.length :=
  (bodyCount_le encodable.accepted).2.mpr encodable.safe

theorem Encodable.bodyCount_small (encodable : r.Encodable) : r.bodyCount ≤ int32Max := by
  have small := encodable.small
  rw [encodable.bodyCount_eq]
  simp only [counted, int32Max, maxRequestSize] at small ⊢
  omega

theorem Encodable.length_encoded (encodable : r.Encodable) : r.encoded.length = r.counted := by
  rw [Record.length_encoded encodable.bodyCount_small, encodable.bodyCount_eq, counted]

theorem encode_of_encodable (encodable : r.Encodable) :
    Kafka.encode false Record.encode r = .ok (r.encoded, r.measured) := by
  have limit := encodable.bodyCount_small
  have value := sectionLength_toInt limit
  have measure : variantSize (sectionLength r.bodyCount) = some (size r.bodyCount) := by
    rw [variantSize_of_nonneg (by omega), value, Int.toNat_natCast]
  have counts := @prep_encode false r encodable.fresh encodable.accepted
  rw [measure] at counts
  refine encode_eq_ok (counts.of_eq ?_) (real_encode limit encodable.bodyCount_eq.le)
    (by rw [encodable.length_encoded]; exact encodable.small)
  rw [encodable.length_encoded, counted, encodable.bodyCount_eq]

/-- A negative length in the record hangs the PREP pass. -/
theorem encode_of_negative (negative : r.length.length.toInt < 0) :
    Kafka.encode false Record.encode r = .error (.fault .divergence) := by
  have endless : (PushField.variantLength r.length).reserveLength = none := variantSize_of_neg negative
  exact encode_of_prep_fault ((Prep.enclose_divergence (a := ()) endless).fail _ r)

/-- Every other record fails to encode: PREP hangs or refuses, the size is over the limit, or REAL runs
past the end of its buffer. -/
theorem encode_of_not_encodable (not : ¬ r.Encodable) :
    ∃ failure, Kafka.encode false Record.encode r = .error failure := by
  by_cases fresh : 0 ≤ r.length.length.toInt
  · by_cases accepted : r.Accepted
    · obtain ⟨le, eq⟩ := bodyCount_le accepted
      have counts := @prep_encode false r fresh accepted
      cases measure : variantSize (sectionLength r.bodyCount) with
      | none =>
        rw [measure] at counts
        exact encode_of_prep_error counts
      | some room =>
        rw [measure] at counts
        rcases Nat.lt_or_ge maxRequestSize (room + r.bodyCount) with large | small
        · exact ⟨_, encode_of_large counts large⟩
        · have limit : r.bodyCount ≤ int32Max := by simp only [int32Max, maxRequestSize] at small ⊢; omega
          have value := sectionLength_toInt limit
          obtain rfl : room = size r.bodyCount := by
            rw [variantSize_of_nonneg (by omega), value, Int.toNat_natCast] at measure
            exact (Option.some.inj measure).symm
          have short : r.bodyCount ≠ r.body.length := by
            intro same
            exact not ⟨fresh, accepted, eq.mp same, by rw [counted, ← same]; exact small⟩
          obtain ⟨f, failed⟩ := encode_of_overrun counts (real_encode limit le)
            (by rw [length_encoded limit]; omega) small
          exact ⟨_, failed⟩
    · have counts : Prep false r.encodeBody () (.error (.code (-1))) := (prep_encodeBody r).of_eq (if_neg accepted)
      have room : (PushField.variantLength r.length).reserveLength = some _ := variantSize_of_nonneg fresh
      exact encode_of_prep_error ((Prep.enclose_error room counts).fail _ r)
  · exact ⟨_, encode_of_negative (not_le.mp fresh)⟩

end Record

/-! ## Reading a record back -/

theorem reads_variantBytes {s : Bytes} (small : s.length ≤ int32Max) :
    Reads flexible getVariantBytes (variantBytesOutput s) s := reads_getVariantBytes small

theorem RecordHeader.readsInto_decode {h : RecordHeader} (accepted : h.Accepted) (o : RecordHeader) :
    ReadsInto flexible RecordHeader.decode h.bytes o h () :=
  ((reads_variantBytes accepted.1).read o).failWith.store ((reads_variantBytes accepted.2).read _).failWith.storeLast

namespace Record

/-- The deltas of the record are in the window of nine-byte varints. -/
def Readable (r : Record) : Prop := VarintReadable r.timestampDelta.toInt ∧ VarintReadable r.offsetDelta.toInt
deriving Decidable

/-- The records that are read back as they were encoded. -/
def Faithful (r : Record) : Prop := r.Encodable ∧ r.Readable ∧ VarintSafe r.body.length

theorem length_resize {α : Type} (n : ℕ) (default : α) (xs : List α) : (resize n default xs).length = n := by
  rw [resize, List.length_append, List.length_take, List.length_replicate]
  omega

theorem readsInto_decodeHeaders {headers : List RecordHeader} (few : headers.length ≤ maxHeaders)
    (accepted : ∀ h ∈ headers, h.Accepted) (o : Record) :
    ReadsInto flexible (decodeHeaders (Int64.ofNat headers.length)) (headers.flatMap RecordHeader.bytes) o
      { o with headers } () := by
  have value : (Int64.ofNat headers.length).toInt = headers.length :=
    Int64.toInt_ofNat_of_lt (by simp only [maxHeaders] at few; omega)
  have allowed : ¬ (headers.length : ℤ) > maxHeaders := by omega
  rw [decodeHeaders, value, if_neg allowed, Int.toNat_natCast]
  refine (readsInto_update _ o).bind (ReadsInto.part ?_)
  have each := @ReadsInto.each _ _ flexible (failWith (-1) RecordHeader.decode) RecordHeader.bytes id headers
    (fun h member o => (RecordHeader.readsInto_decode (accepted h member) o).failWith)
    _ (length_resize headers.length {} o.headers)
  rw [List.map_id] at each
  exact each

theorem readsInto_decodeBody (readable : r.Readable) (accepted : r.Accepted) (few : r.headers.length ≤ maxHeaders)
    (o : Record) : ReadsInto flexible decodeBody r.body o { r with length := o.length } () := by
  obtain ⟨timestamp, offset⟩ := readable
  obtain ⟨key, value, headers⟩ := accepted
  have count : (Int64.ofNat r.headers.length).toInt = r.headers.length :=
    Int64.toInt_ofNat_of_lt (by simp only [maxHeaders] at few; omega)
  have num : VarintReadable (Int64.ofNat r.headers.length).toInt := by
    simp only [maxHeaders] at few
    rw [count]
    exact ⟨by omega, by omega⟩
  have nonneg : 0 ≤ Int64.ofNat r.headers.length := by
    rw [Int64.le_iff_toInt_le, count]
    exact Int.natCast_nonneg _
  refine ((reads_getInt8 r.attributes).readOr _ o).failWith.store ?_
  refine ((reads_getVariant timestamp).read _).failWith.store ?_
  refine ((reads_getVariant offset).readOr _ _).failWith.store ?_
  refine ((reads_variantBytes key).read _).failWith.store ?_
  refine ((reads_variantBytes value).read _).failWith.store ?_
  refine ((reads_getVariant num).read _).failWith.bind ?_
  rw [if_pos nonneg]
  exact readsInto_decodeHeaders few headers _

theorem headers_length_le (r : Record) : r.headers.length ≤ r.body.length := by
  have each (headers : List RecordHeader) : headers.length ≤ (headers.flatMap RecordHeader.bytes).length := by
    induction headers with
    | nil => exact le_rfl
    | cons h rest ih =>
      have positive := size_pos (zigzag (variantBytesLength h.key).toInt)
      rw [List.flatMap_cons, List.length_append, RecordHeader.bytes, variantBytesOutput, List.length_append,
        List.length_append, length_encodeVariant, List.length_cons]
      omega
  have le := each r.headers
  simp only [body, List.length_append]
  omega

/-- A record whose length prefix is not one byte short is read back from its bytes. -/
theorem readsInto_decode {r : Record} (encodable : r.Encodable) (readable : r.Readable)
    (exact_ : VarintSafe r.body.length) (o : Record) : ReadsInto flexible Record.decode r.encoded o r.measured () := by
  have same := encodable.bodyCount_eq
  have limit := encodable.bodyCount_small
  have value := sectionLength_toInt limit
  have few : r.headers.length ≤ maxHeaders := by
    have le := headers_length_le r
    have small := encodable.small
    simp only [counted, maxHeaders, maxRequestSize] at small ⊢
    omega
  have width : r.header.length = size r.bodyCount := by rw [length_header limit, if_pos (by rw [same]; exact exact_)]
  have bytes : r.encoded = r.header ++ r.body := by rw [encoded, width, Nat.sub_self, List.drop_zero]
  have lengthReadable : VarintReadable (sectionLength r.bodyCount).toInt := by
    rw [value]
    simp only [VarintReadable, int32Max] at limit ⊢
    omega
  intro pd rest mode ahead
  rw [bytes, List.append_assoc] at ahead
  have length : getVariant pd = .ok (sectionLength r.bodyCount) (pd.advance r.header.length) :=
    reads_getVariant lengthReadable pd _ mode ahead
  let field : VariantLengthField := ⟨sectionLength r.bodyCount⟩
  let inside : PacketDecoder :=
    { pd.advance r.header.length with stack := ⟨pd.offset, .variantLength field⟩ :: pd.stack }
  have pushed : failWith (-1) (read (PacketDecoder.push (.variantLength {}))) (o, pd) =
      .ok (.variantLength field) (o, inside) :=
    failWith_of_ok (read_eq_ok_iff.mpr ⟨push_variantLength {} length, rfl⟩)
  have body := readsInto_decodeBody readable encodable.accepted few { o with length := field } inside rest mode
    (unread_advance ahead)
  have measure : variantSize field.length = some (size r.bodyCount) := by
    rw [variantSize_of_nonneg (value.ge.trans' (Int.natCast_nonneg _)), value, Int.toNat_natCast]
  have covered : ((pd.offset + r.header.length + r.body.length : ℕ) : ℤ) - pd.offset - (size r.bodyCount : ℕ) =
      r.bodyCount := by
    rw [width, same]
    omega
  have passes : Pushed.check (inside.advance r.body.length).offset pd.raw ⟨pd.offset, .variantLength field⟩ = some 0 := by
    have again : (Int32.ofNat r.bodyCount).toInt64 = field.length := rfl
    simp only [Pushed.check, measure, Option.map_some, advance, inside, covered, Int32.ofInt_eq_ofNat, again, ne_eq,
      not_true, if_false]
  have popped : read PacketDecoder.pop (r.measured, inside.advance r.body.length) =
      .ok () (r.measured, pd.advance r.encoded.length) := by
    refine read_eq_ok_iff.mpr ⟨(pop_of_check rfl passes).trans ?_, rfl⟩
    simp only [inside, advance, bytes, List.length_append, Nat.add_assoc]
  rw [Record.decode, bind_of_ok pushed]
  exact (bind_of_ok body _).trans popped

end Record

/-! ## What a successful decode has read -/

theorem RecordHeader.decode_consumes : Consumes (fun _ => True) RecordHeader.decode fun h k => h.bytes.length ≤ k := by
  intro o pd h pd' _ _ run
  simp only [RecordHeader.decode, bind_eq_ok_iff, failWith_eq_ok_iff, Prod.exists, read_eq_ok_iff,
    update_eq_ok_iff] at run
  obtain ⟨key, _, pd₁, ⟨readKey, rfl⟩, _, _, _, ⟨rfl, rfl⟩, value, _, pd₂, ⟨readValue, rfl⟩, rfl, rfl⟩ := run
  obtain ⟨j, rfl, costJ, roomJ⟩ := getVariantBytes_consumes readKey
  obtain ⟨k, rfl, costK, roomK⟩ := getVariantBytes_consumes readValue
  rw [remaining_advance] at roomK
  refine ⟨j + k, by rw [advance_advance], ?_, by omega⟩
  simp only [RecordHeader.bytes, List.length_append, variantBytesOutput, length_encodeVariant, variantBytesSize]
    at costJ costK ⊢
  omega

namespace Record

theorem decodeHeaders_consumes {num : Int64} (nonneg : 0 ≤ num) {o o' : Record} {pd pd' : PacketDecoder}
    (small : pd.raw.length ≤ int32Max) (run : decodeHeaders num (o, pd) = .ok () (o', pd')) :
    (∃ headers : List RecordHeader, o' = { o with headers } ∧ Int64.ofNat headers.length = num) ∧
      ∃ k, pd' = pd.advance k ∧ (o'.headers.flatMap RecordHeader.bytes).length ≤ k ∧ k ≤ pd.remaining := by
  unfold decodeHeaders at run
  split at run
  · cases run
  · obtain ⟨_, ⟨o₁, pd₁⟩, resized, rest⟩ := bind_eq_ok_iff.mp run
    obtain ⟨rfl, rfl⟩ := update_eq_ok_iff.mp resized
    obtain ⟨headers, each, rfl⟩ := part_eq_ok_iff.mp rest
    obtain ⟨length, ks, costs, moved, room⟩ :=
      Consumes.each RecordHeader.decode_consumes.failWith (fun _ _ => trivial) small each
    rw [length_resize] at length
    rw [Int64.le_iff_toInt_le] at nonneg
    refine ⟨⟨headers, rfl, ?_⟩, ks.sum, moved, ?_, room⟩
    · rw [length, ← Int64.ofInt_eq_ofNat, Int.toNat_of_nonneg nonneg, Int64.ofInt_toInt]
    · rw [List.length_flatMap]
      exact sum_cost_le costs fun _ _ le => le

/-- A successful decode of the body returns deltas in the window and has moved past at least the body
of the record it returns. -/
theorem decodeBody_consumes :
    Consumes (fun o => o.headers = []) decodeBody fun r k => r.Readable ∧ r.body.length ≤ k := by
  intro o pd o' pd' bare small run
  simp only [decodeBody, bind_eq_ok_iff, failWith_eq_ok_iff, Prod.exists, read_eq_ok_iff, readOr_eq_ok_iff,
    update_eq_ok_iff] at run
  obtain ⟨attributes, _, pd₁, ⟨readAttributes, rfl⟩, _, _, _, ⟨rfl, rfl⟩,
    timestamp, _, pd₂, ⟨readTimestamp, rfl⟩, _, _, _, ⟨rfl, rfl⟩,
    offset, _, pd₃, ⟨readOffset, rfl⟩, _, _, _, ⟨rfl, rfl⟩,
    key, _, pd₄, ⟨readKey, rfl⟩, _, _, _, ⟨rfl, rfl⟩,
    value, _, pd₅, ⟨readValue, rfl⟩, _, _, _, ⟨rfl, rfl⟩,
    num, _, pd₆, ⟨readNum, rfl⟩, headers⟩ := run
  obtain ⟨_, _, taken, word⟩ := bind_eq_ok_iff.mp readAttributes
  obtain ⟨-, rfl⟩ := pure_eq_ok_iff.mp word
  obtain ⟨rfl, -, room₁⟩ := take_consumes taken
  obtain ⟨timestampReadable, k₂, rfl, cost₂, room₂⟩ := getVariant_consumes readTimestamp
  obtain ⟨offsetReadable, k₃, rfl, cost₃, room₃⟩ := getVariant_consumes readOffset
  obtain ⟨k₄, rfl, cost₄, room₄⟩ := getVariantBytes_consumes readKey
  obtain ⟨k₅, rfl, cost₅, room₅⟩ := getVariantBytes_consumes readValue
  obtain ⟨-, k₆, rfl, cost₆, room₆⟩ := getVariant_consumes readNum
  simp only [remaining_advance] at room₂ room₃ room₄ room₅ room₆
  simp only [variantBytesSize] at cost₄ cost₅
  split_ifs at headers with nonneg
  · obtain ⟨⟨list, rfl, count⟩, k₇, rfl, cost₇, room₇⟩ := decodeHeaders_consumes nonneg (by exact small) headers
    simp only [remaining_advance] at room₇
    refine ⟨1 + k₂ + k₃ + k₄ + k₅ + k₆ + k₇, ?_, ⟨⟨timestampReadable, offsetReadable⟩, ?_⟩, by omega⟩
    · simp only [advance_advance]
    · simp only [body, List.length_append, length_bigEndian, length_encodeVariant, variantBytesOutput, count] at cost₇ ⊢
      omega
  · obtain ⟨-, same⟩ := pure_eq_ok_iff.mp headers
    injection same with object moved
    subst object moved
    refine ⟨1 + k₂ + k₃ + k₄ + k₅ + k₆, ?_, ⟨⟨timestampReadable, offsetReadable⟩, ?_⟩, by omega⟩
    · simp only [advance_advance]
    · have none : size (zigzag (Int64.ofNat 0).toInt) = 1 := by decide
      have positive := size_pos (zigzag num.toInt)
      simp only [body, List.length_append, length_bigEndian, length_encodeVariant, variantBytesOutput, bare,
        List.flatMap_nil, List.length_nil, none]
      omega

/-- What a decode that returns the record moves past at least: a length prefix that the check of the
length accepts, and the body. -/
def footprint (r : Record) : ℕ := r.counted + if VarintSafe r.body.length then 0 else 1

/-- The check of a length field: what was read since it was pushed is its length and the room for it. -/
theorem pop_variantLength {pd pd' : PacketDecoder} {start : ℕ} {field : VariantLengthField} {stack : List Pushed}
    (top : pd.stack = ⟨start, .variantLength field⟩ :: stack) (inside : start ≤ pd.offset)
    (small : pd.offset ≤ int32Max) (run : PacketDecoder.pop pd = .ok () pd') :
    pd' = { pd with stack } ∧ 0 ≤ field.length.toInt ∧
      pd.offset = start + size field.length.toInt.toNat + field.length.toInt.toNat := by
  have nonneg : 0 ≤ field.length.toInt := by
    by_contra negative
    have endless := variantSize_of_neg (not_le.mp negative)
    simp only [PacketDecoder.pop, top, Pushed.check, endless, Option.map_none] at run
    cases run
  simp only [PacketDecoder.pop, top, Pushed.check, variantSize_of_nonneg nonneg, Option.map_some] at run
  split_ifs at run with differs impossible
  · exact absurd impossible (by decide)
  · injection run with _ moved
    refine ⟨moved.symm, nonneg, ?_⟩
    have short : size field.length.toInt.toNat ≤ 10 := by
      have bound := field.length.toInt_lt
      rw [size_le_iff (by omega)]
      omega
    have same := congrArg Int64.toInt (not_not.mp differs)
    rw [Int32.toInt_toInt64, Int32.toInt_ofInt_of_le (by simp only [int32Max] at small; omega)
      (by simp only [int32Max] at small; omega)] at same
    omega

/-- A successful decode has moved past at least the footprint of the record it returns. -/
theorem decode_consumes : Consumes (fun o => o.headers = []) Record.decode fun r k => r.Readable ∧ r.footprint ≤ k := by
  intro o pd o' pd' bare small run
  obtain ⟨field, ⟨o₁, pd₁⟩, pushed, run⟩ := bind_eq_ok_iff.mp run
  obtain ⟨push, rfl⟩ := read_eq_ok_iff.mp (failWith_eq_ok_iff.mp pushed)
  obtain ⟨length, pd₂, read, entered⟩ := bind_eq_ok_iff.mp push
  obtain ⟨-, j, rfl, costJ, roomJ⟩ := getVariant_consumes read
  injection entered with same inside
  subst same inside
  obtain ⟨_, ⟨o₂, pd₃⟩, updated, run⟩ := bind_eq_ok_iff.mp run
  obtain ⟨rfl, rfl⟩ := update_eq_ok_iff.mp updated
  obtain ⟨_, ⟨o₄, pd₄⟩, decoded, popped⟩ := bind_eq_ok_iff.mp run
  obtain ⟨pop, rfl⟩ := read_eq_ok_iff.mp popped
  obtain ⟨k, rfl, ⟨readable, cost⟩, roomK⟩ := decodeBody_consumes _ _ _ _ (by exact bare) (by exact small) decoded
  have room : j + k ≤ pd.remaining := by
    simp only [remaining, advance] at roomJ roomK ⊢
    omega
  have positive := size_pos (zigzag length.toInt)
  obtain ⟨moved, nonneg, total⟩ := pop_variantLength rfl (by simp only [advance]; omega)
    (by simp only [advance, remaining] at room ⊢; omega) pop
  refine ⟨j + k, by rw [moved]; simp only [advance, Nat.add_assoc], ⟨readable, ?_⟩, room⟩
  dsimp only at nonneg total
  -- the prefix read is at least as long as the room computed for it, and longer when the length is unsafe
  have prefixed := length_encodeVariant_of_nonneg nonneg
  rw [length_encodeVariant] at prefixed
  simp only [advance] at total
  have bodyFits : o₄.body.length + (j - size length.toInt.toNat) ≤ length.toInt.toNat := by
    split_ifs at prefixed <;> omega
  have mono := size_mono (show o₄.body.length ≤ length.toInt.toNat by omega)
  rw [footprint, counted]
  split_ifs with safe
  · omega
  · rcases Nat.eq_or_lt_of_le (show o₄.body.length ≤ length.toInt.toNat by omega) with equal | less
    · have value : length.toInt = o₄.body.length := by omega
      rw [if_neg (by rw [value]; exact safe)] at prefixed
      omega
    · omega

/-! ## Independence of the object -/

theorem uniform_decodeHeaders (num : Int64) : Uniform (decodeHeaders num) := by
  unfold decodeHeaders
  split_ifs
  · exact uniform_faultWith _
  · have header : Uniform RecordHeader.decode :=
      (uniform_read _).failWith.bind fun _ => (uniform_update _).bind fun _ =>
        (uniform_read _).failWith.bind fun _ => uniform_update _
    intro o t pd a o' pd' run
    obtain ⟨_, ⟨o₁, pd₁⟩, resized, rest⟩ := bind_eq_ok_iff.mp run
    obtain ⟨rfl, rfl⟩ := update_eq_ok_iff.mp resized
    obtain ⟨headers, each, rfl⟩ := part_eq_ok_iff.mp rest
    have length : (resize num.toInt.toNat {} t.headers).length = (resize num.toInt.toNat {} o.headers).length := by
      rw [length_resize, length_resize]
    obtain ⟨headers', each', -⟩ := header.failWith.each length each
    refine ⟨{ t with headers := headers' }, ?_⟩
    have resized' : update (fun r => { r with headers := resize num.toInt.toNat {} r.headers }) (t, pd) =
        .ok () ({ t with headers := resize num.toInt.toNat {} t.headers }, pd) := rfl
    rw [bind_of_ok resized']
    exact part_eq_ok_iff.mpr ⟨headers', each', rfl⟩

/-- Whether a record is decoded does not depend on the object it is decoded into. -/
theorem uniform_decode : Uniform Record.decode := by
  unfold Record.decode decodeBody
  refine (uniform_read _).failWith.bind fun _ => (uniform_update _).bind fun _ => Uniform.bind ?_ fun _ => uniform_read _
  refine (uniform_readOr _ _).failWith.bind fun _ => (uniform_update _).bind fun _ => ?_
  refine (uniform_read _).failWith.bind fun _ => (uniform_update _).bind fun _ => ?_
  refine (uniform_readOr _ _).failWith.bind fun _ => (uniform_update _).bind fun _ => ?_
  refine (uniform_read _).failWith.bind fun _ => (uniform_update _).bind fun _ => ?_
  refine (uniform_read _).failWith.bind fun _ => (uniform_update _).bind fun _ => ?_
  refine (uniform_read _).failWith.bind fun num => ?_
  split_ifs
  · exact uniform_decodeHeaders num
  · exact uniform_pure _

end Record

end Coev.Kafka
