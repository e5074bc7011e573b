import Coev.Proofs.Kafka.PassAgreement

/-! # Two-pass encoding

A script is any sequence of put operations and of sections under pushed fields, which is what every
`encode` body of the repository amounts to. Every operation of a script agrees in its two passes, and
the REAL pass then fills the buffer the PREP pass sized, exactly when every put operation is exact and
every length field holds no negative length beforehand and is not one byte short afterwards.
-/

namespace Coev.Kafka.PacketEncoder

open ByteString

variable {flexible : Bool}

/-- A sequence of put operations and of sections under a pushed field. -/
inductive Script where
  | done
  | put (op : PutOp) (rest : Script)
  | enclose (field : PushField) (section_ rest : Script)
deriving Repr

namespace Script

/-- Run the script in a pass: the fields come back as the pass leaves them. -/
def apply : Script → Encode Script
  | done => return done
  | put op rest => do
    op.apply
    return put op (← rest.apply)
  | enclose field section_ rest => do
    let (field, section_) ← PacketEncoder.enclose field section_.apply
    return enclose field section_ (← rest.apply)

/-- The PREP pass does not refuse any argument for its size. -/
def Accepted (flexible : Bool) : Script → Prop
  | done => True
  | put op rest => op.Accepted flexible ∧ rest.Accepted flexible
  | enclose _ section_ rest => section_.Accepted flexible ∧ rest.Accepted flexible

/-- The room a field takes in front of a section of `n` bytes. -/
def fieldSize (n : ℕ) : PushField → ℕ
  | .variantLength _ => Leb128.size (sectionLength n).toInt.toNat
  | _ => 4

/-- The bytes the script encodes to. -/
def size (flexible : Bool) : Script → ℕ
  | done => 0
  | put op rest => ((op.output flexible).getD []).length + rest.size flexible
  | enclose field section_ rest =>
    fieldSize (section_.size flexible) field + section_.size flexible + rest.size flexible

/-- The fields whose room the passes agree on, above a section of `n` bytes: a variable-length field
holds no negative length before, and afterwards one whose varint needs no further byte. -/
def FieldExact (accepted : Prop) (n : ℕ) : PushField → Prop
  | .variantLength field => 0 ≤ field.length.toInt ∧
      (accepted → 0 ≤ (sectionLength n).toInt ∧ VarintSafe (sectionLength n).toInt)
  | _ => True

/-- The scripts all of whose operations the two passes agree on. -/
def Exact (flexible : Bool) : Script → Prop
  | done => True
  | put op rest => op.Exact flexible ∧ rest.Exact flexible
  | enclose field section_ rest => section_.Exact flexible ∧
      FieldExact (section_.Accepted flexible) (section_.size flexible) field ∧ rest.Exact flexible

end Script

namespace PutOp

private theorem accepted_raw (s : Bytes) (k : ℕ) :
    s.length ≤ int32Max ↔ ∃ n, (do let n ← rawReserve s; return k + n : Except Failure ℕ) = .ok n := by
  unfold rawReserve
  by_cases small : s.length ≤ int32Max
  · exact iff_of_true small ⟨_, by rw [if_pos small]; rfl⟩
  · refine iff_of_false small (fun ⟨n, ok⟩ => ?_)
    rw [if_neg small] at ok
    cases ok

private theorem accepted_string {s : Bytes} (exact_ : flexible = true → Int32.ofNat s.length ≠ Int32.maxValue) :
    (s.length ≤ if flexible then int32Max else int16Max) ↔ ∃ n, stringReserve flexible s = .ok n := by
  unfold stringReserve
  cases flexible with
  | false =>
    simp only [Bool.false_eq_true, if_false]
    split_ifs with small <;> simp [small]
  | true =>
    simp only [if_true, arrayLengthReserve, exact_ rfl, if_false]
    exact accepted_raw s _

private theorem accepted_stringArray {ss : List Bytes} (exact_ : (putStringArray ss).Exact flexible) :
    (putStringArray ss).Accepted flexible ↔ ∃ n, stringArrayReserve flexible ss = .ok n := by
  unfold Accepted stringArrayReserve stringsReserve arrayLengthReserve
  cases flexible with
  | false =>
    simp only [forall_const, Bool.false_eq_true, if_false]
    split_ifs with small
    · exact iff_of_true small ⟨_, rfl⟩
    · exact iff_of_false small (fun ⟨_, ok⟩ => nomatch ok)
  | true =>
    obtain ⟨small, -⟩ := exact_ rfl
    have below : Int32.ofNat ss.length ≠ Int32.maxValue :=
      ofNat_ne_maxValue (by simp only [int32Max] at small ⊢; omega)
    have product : productReserve 4 ss.length = .ok (4 * ss.length) := if_pos small
    simp only [if_true, below, if_false, product]
    exact iff_of_true (fun absurd => Bool.noConfusion absurd) ⟨_, rfl⟩

private theorem int32ArrayReserve_ok {xs : List Int32} (small : 4 * xs.length ≤ int32Max) :
    ∃ n, int32ArrayReserve flexible xs = .ok n := by
  have product : productReserve 4 xs.length = .ok (4 * xs.length) := if_pos small
  exact ⟨_, by rw [int32ArrayReserve, product]; rfl⟩

/-- An exact operation counts, unless its argument is refused. -/
theorem accepted_iff {op : PutOp} (exact_ : op.Exact flexible) :
    op.Accepted flexible ↔ ∃ n, op.reserve flexible = .ok n := by
  cases op with
  | putArrayLength x =>
    refine iff_of_true trivial ?_
    cases flexible with
    | false => exact ⟨_, rfl⟩
    | true => exact ⟨_, if_neg (exact_ rfl)⟩
  | putBytes s => exact accepted_raw s _
  | putVariantBytes s => exact accepted_raw s _
  | putRawBytes s =>
    change s.length ≤ int32Max ↔ ∃ n, rawReserve s = .ok n
    unfold rawReserve
    split <;> simp_all
  | putString s => exact accepted_string exact_
  | putNullableString s =>
    cases s with
    | nil => exact iff_of_true (Nat.zero_le _) ⟨_, rfl⟩
    | cons b s => exact accepted_string exact_
  | putStringArray ss => exact accepted_stringArray exact_
  | putInt32Array xs => exact iff_of_true trivial (int32ArrayReserve_ok exact_)
  | putInt64Array xs =>
    have small : 8 * xs.length ≤ int32Max := exact_
    have below : Int32.ofNat xs.length ≠ Int32.maxValue :=
      ofNat_ne_maxValue (by simp only [int32Max] at small ⊢; omega)
    have product : productReserve 8 xs.length = .ok (8 * xs.length) := if_pos small
    refine iff_of_true trivial ?_
    change ∃ n, int64ArrayReserve flexible xs = .ok n
    unfold int64ArrayReserve arrayLengthReserve
    rw [product, if_neg below]
    cases flexible <;> exact ⟨_, rfl⟩
  | putNullableInt32Array xs =>
    refine iff_of_true trivial ?_
    cases xs with
    | nil => exact ⟨_, rfl⟩
    | cons x xs => exact int32ArrayReserve_ok exact_
  | _ => exact iff_of_true trivial ⟨_, rfl⟩

/-- An exact operation counts the bytes it stores, or refuses. -/
theorem reserve_of_exact {op : PutOp} (exact_ : op.Exact flexible) :
    (op.Accepted flexible ∧ ∃ bytes, op.output flexible = some bytes ∧ op.reserve flexible = .ok bytes.length) ∨
      (¬ op.Accepted flexible ∧ ∃ err, op.reserve flexible = .error (.code err)) := by
  have matched := (matches_apply op).mpr exact_
  rw [accepted_iff exact_]
  cases reserved : op.reserve flexible with
  | ok n =>
    rw [reserved] at matched
    cases stored : op.output flexible with
    | none => rw [stored] at matched; cases matched
    | some bytes =>
      rw [stored] at matched
      exact .inl ⟨⟨n, rfl⟩, bytes, rfl, by rw [matches_ok_some.mp matched]⟩
  | error e =>
    cases e with
    | code err => exact .inr ⟨(fun ⟨_, ok⟩ => nomatch ok), err, rfl⟩
    | fault f => rw [reserved] at matched; exact matched.elim

end PutOp

namespace Script

variable {field : PushField}

theorem FieldExact.imp_accepted {p q : Prop} {n : ℕ} (exact_ : FieldExact p n field) (imp : q → p) :
    FieldExact q n field := by
  cases field with
  | variantLength f => exact ⟨exact_.1, fun holds => exact_.2 (imp holds)⟩
  | _ => trivial

/-- The room of an exact field is computed. -/
theorem FieldExact.reserveLength {p : Prop} {n : ℕ} (exact_ : FieldExact p n field) :
    ∃ reserve, field.reserveLength = some reserve := by
  cases field with
  | variantLength f => exact ⟨_, variantSize_of_nonneg exact_.1⟩
  | _ => exact ⟨4, rfl⟩

/-- A field that asks for `n` bytes of room and fills exactly those, wherever it stands. -/
def FillsRoom (field : PushField) (n : ℕ) : Prop :=
  field.reserveLength = some n ∧
    ∀ curOffset buf startOffset, (Pushed.header curOffset buf ⟨startOffset, field⟩).length = n

private theorem fillsRoom_length (f : LengthField) : FillsRoom (.length f) 4 := ⟨rfl, fun _ _ _ => length_bigEndian _ _⟩

private theorem fillsRoom_crc32 (f : Crc32Field) : FillsRoom (.crc32 f) 4 := ⟨rfl, fun _ _ _ => length_bigEndian _ _⟩

/-- A variable-length field fills its room when its length is not negative and needs no further byte. -/
theorem fillsRoom_variantLength_iff {f : VariantLengthField} :
    (∃ n, FillsRoom (.variantLength f) n) ↔ 0 ≤ f.length.toInt ∧ VarintSafe f.length.toInt := by
  constructor
  · rintro ⟨n, room, filled⟩
    have header : (encodeVariant f.length).length = n := filled 0 [] 0
    rcases Int.lt_or_le f.length.toInt 0 with neg | nonneg
    · cases (variantSize_of_neg neg).symm.trans room
    · have size := Option.some.inj ((variantSize_of_nonneg nonneg).symm.trans room)
      rw [length_encodeVariant_of_nonneg nonneg] at header
      refine ⟨nonneg, ?_⟩
      by_contra unsafe_
      rw [if_neg unsafe_] at header
      omega
  · rintro ⟨nonneg, safe⟩
    refine ⟨_, variantSize_of_nonneg nonneg, fun _ _ _ => ?_⟩
    exact (length_encodeVariant_of_nonneg nonneg).trans (if_pos safe)

private theorem fillsRoom_sectionHeader {n : ℕ} (fills : FillsRoom field n) (bytes : Bytes) :
    (sectionHeader bytes field).length = n := by
  cases field with
  | length f => exact (length_bigEndian _ _).trans (Option.some.inj fills.1)
  | crc32 f => exact (length_bigEndian _ _).trans (Option.some.inj fills.1)
  | variantLength f => exact fills.2 0 [] 0

/-- A section under an exact field: the room PREP counts for the field is what REAL fills. -/
theorem passes_enclose {section_ section' : Script} {n : ℕ} {bytes : Bytes} (exact_ : FieldExact True n field)
    (length : bytes.length = n) (counts : Prep flexible section_.apply section' (.ok n))
    (stores : Real flexible section'.apply section' (some bytes)) : ∃ field', FillsRoom field' (fieldSize n field) ∧
      Prep flexible (PacketEncoder.enclose field section_.apply) (field', section') (.ok (fieldSize n field + n)) ∧
      Real flexible (PacketEncoder.enclose field' section'.apply) (field', section')
        (some (sectionHeader bytes field' ++ bytes)) := by
  have filled {field' : PushField} {reserve : ℕ} (fills : FillsRoom field' reserve) :
      Real flexible (PacketEncoder.enclose field' section'.apply) (field', section')
        (some (sectionHeader bytes field' ++ bytes)) := by
    have size := fillsRoom_sectionHeader fills bytes
    have real := Real.enclose fills.1 stores size.ge (by omega)
    rwa [size, Nat.sub_self, List.drop_zero] at real
  cases field with
  | length f => exact ⟨_, fillsRoom_length f, Prep.enclose_fixed (by simp) counts, filled (fillsRoom_length f)⟩
  | crc32 f => exact ⟨_, fillsRoom_crc32 f, Prep.enclose_fixed (by simp) counts, filled (fillsRoom_crc32 f)⟩
  | variantLength f =>
    obtain ⟨before, after⟩ := exact_
    obtain ⟨m, fills⟩ := fillsRoom_variantLength_iff.mpr (after trivial)
    have room := variantSize_of_nonneg (after trivial).1
    obtain rfl : fieldSize n (.variantLength f) = m := Option.some.inj (room.symm.trans fills.1)
    have counted := Prep.enclose_variantLength (variantSize_of_nonneg before) counts
    rw [room] at counted
    exact ⟨_, fills, counted, filled fills⟩

/-- What the passes do with a script whose operations are all exact. -/
theorem passes_of_exact {script : Script} (exact_ : script.Exact flexible) :
    (script.Accepted flexible ∧ ∃ script', ∃ bytes : Bytes, bytes.length = script.size flexible ∧
        Prep flexible script.apply script' (.ok bytes.length) ∧ Real flexible script'.apply script' (some bytes)) ∨
      (¬ script.Accepted flexible ∧ ∃ script' err, Prep flexible script.apply script' (.error (.code err))) := by
  induction script with
  | done => exact .inl ⟨trivial, done, [], rfl, Prep.pure _, Real.pure _⟩
  | put op rest ih =>
    obtain ⟨opExact, restExact⟩ := exact_
    rcases PutOp.reserve_of_exact opExact with ⟨accepted, bytes, stored, reserved⟩ | ⟨refused, err, reserved⟩
    · have counts : Prep flexible op.apply () (.ok bytes.length) := reserved ▸ op.prep_apply
      have stores : Real flexible op.apply () (some bytes) := stored ▸ op.real_apply
      rcases ih restExact with
        ⟨restAccepted, rest', more, length, restCounts, restStores⟩ | ⟨refused, rest', err, restCounts⟩
      · refine .inl ⟨⟨accepted, restAccepted⟩, put op rest', bytes ++ more, ?_, ?_, ?_⟩
        · rw [List.length_append, length, size, stored, Option.getD_some]
        · rw [List.length_append]
          exact (counts.seq (restCounts.seq (Prep.pure (put op rest')))).of_eq (by rw [Nat.add_zero])
        · exact (stores.seq (restStores.seq (Real.pure (put op rest')))).of_eq (by rw [List.append_nil])
      · exact .inr ⟨fun both => refused both.2, put op rest', err, counts.seq_fail (restCounts.fail _ _)⟩
    · exact .inr ⟨fun both => refused both.1, put op rest, err,
        Prep.fail (reserved ▸ op.prep_apply : Prep flexible op.apply () (.error (.code err))) _ _⟩
  | enclose field section_ rest sectionIH restIH =>
    obtain ⟨sectionExact, fieldExact, restExact⟩ := exact_
    rcases sectionIH sectionExact with ⟨accepted, section', bytes, length, counts, stores⟩ | ⟨refused, section', err, counts⟩
    · have exact_ : FieldExact True bytes.length field := by
        rw [length]
        exact fieldExact.imp_accepted fun _ => accepted
      obtain ⟨field', fills, fieldCounts, fieldStores⟩ := passes_enclose exact_ rfl counts stores
      have room := fillsRoom_sectionHeader fills bytes
      rcases restIH restExact with
        ⟨restAccepted, rest', more, restLength, restCounts, restStores⟩ | ⟨refused, rest', err, restCounts⟩
      · refine .inl
          ⟨⟨accepted, restAccepted⟩, enclose field' section' rest', (sectionHeader bytes field' ++ bytes) ++ more, ?_,
            ?_, ?_⟩
        · rw [List.length_append, List.length_append, room, length, restLength, size]
        · refine (fieldCounts.seq (restCounts.seq (Prep.pure (enclose field' section' rest')))).of_eq ?_
          rw [List.length_append, List.length_append, room, Nat.add_zero]
        · exact (fieldStores.seq (restStores.seq (Real.pure (enclose field' section' rest')))).of_eq
            (by rw [List.append_nil])
      · exact .inr ⟨fun both => refused both.2, enclose field' section' rest', err,
          fieldCounts.seq_fail (restCounts.fail _ _)⟩
    · obtain ⟨reserve, room⟩ := fieldExact.reserveLength
      exact .inr ⟨fun both => refused both.1, enclose field section' rest, err,
        (Prep.enclose_error room counts).fail _ _⟩

/-! ## Agreement -/

/-- Around `section_`, the room PREP counts for the field is the number of bytes its `run` stores. -/
def FieldAgrees (flexible : Bool) (field : PushField) (section_ : Script) : Prop :=
  field.reserveLength ≠ none ∧
    ∀ prep section' counted, InPass .PREP flexible prep → section_.apply prep = .ok section' counted →
      ∃ field' n, PacketEncoder.enclose field section_.apply prep =
          .ok (field', section') { counted with offset := counted.offset + n } ∧ FillsRoom field' n

/-- Every put operation and every pushed field of the script agrees in the two passes. -/
def OperationsAgree (flexible : Bool) : Script → Prop
  | done => True
  | put op rest => Agrees flexible op.apply ∧ rest.OperationsAgree flexible
  | enclose field section_ rest =>
    section_.OperationsAgree flexible ∧ FieldAgrees flexible field section_ ∧ rest.OperationsAgree flexible

/-- Unless the PREP pass refuses, the REAL pass fills any buffer of the counted size: it ends at the
end of the buffer and every byte is its own. -/
def FillsExactly (flexible : Bool) (script : Script) : Prop :=
  match script.apply (start .PREP flexible 0) with
  | .ok script' counted => ∃ bytes : Bytes, bytes.length = counted.offset ∧ ∀ raw, raw.length = counted.offset →
      script'.apply { start .REAL flexible 0 with raw } =
        .ok script' { start .REAL flexible 0 with raw := bytes, offset := counted.offset }
  | .error (.code _) _ => True
  | .error (.fault _) _ => False

private theorem fillsExactly_of_exact {script : Script} (exact_ : script.Exact flexible) : script.FillsExactly flexible := by
  unfold FillsExactly
  rcases passes_of_exact exact_ with ⟨_, script', bytes, -, counts, stores⟩ | ⟨_, script', err, counts⟩
  · have counted := counts _ (inPass_start .PREP 0)
    dsimp only at counted
    rw [counted]
    refine ⟨bytes, (Nat.zero_add _).symm, fun raw length => ?_⟩
    have room : raw.length = bytes.length := length.trans (Nat.zero_add _)
    have stored := (stores _ ((inPass_start .REAL 0).withRaw 0 raw) (Nat.zero_le _)).1 (by rw [room, Nat.zero_add])
    rw [overlay_all room] at stored
    exact stored
  · obtain ⟨s, failed⟩ := counts _ (inPass_start .PREP 0)
    rw [failed]
    trivial

/-- Around an exact section a pushed field agrees exactly when it is exact. -/
theorem fieldAgrees_iff {section_ : Script} (exact_ : section_.Exact flexible) : FieldAgrees flexible field section_ ↔
      FieldExact (section_.Accepted flexible) (section_.size flexible) field := by
  constructor
  · rintro ⟨returns, agrees⟩
    cases field with
    | length _ => trivial
    | crc32 _ => trivial
    | variantLength f =>
      have before : 0 ≤ f.length.toInt := by
        by_contra neg
        exact returns (variantSize_of_neg (not_le.mp neg))
      refine ⟨before, fun accepted => ?_⟩
      rcases passes_of_exact exact_ with ⟨_, section', bytes, length, counts, -⟩ | ⟨refused, -⟩
      · obtain ⟨field', n, ran, fills⟩ := agrees _ _ _ (inPass_start .PREP 0) (counts _ (inPass_start .PREP 0))
        have counted := Prep.enclose_variantLength (variantSize_of_nonneg before) counts _ (inPass_start .PREP 0)
        rw [← length]
        cases measured : variantSize (sectionLength bytes.length) with
        | none =>
          rw [measured] at counted
          obtain ⟨s, failed⟩ := counted
          rw [failed] at ran
          cases ran
        | some size =>
          rw [measured] at counted
          dsimp only at counted
          rw [counted] at ran
          injection ran with fields
          obtain rfl : .variantLength ⟨sectionLength bytes.length⟩ = field' := congrArg Prod.fst fields
          exact fillsRoom_variantLength_iff.mp ⟨n, fills⟩
      · exact absurd accepted refused
  · intro exactField
    refine ⟨?_, fun prep section'' counted prepPass ran => ?_⟩
    · obtain ⟨reserve, room⟩ := exactField.reserveLength
      rw [room]
      exact Option.some_ne_none _
    · rcases passes_of_exact exact_ with ⟨accepted, section', bytes, length, counts, stores⟩ | ⟨-, section', err, counts⟩
      · have exactHere : FieldExact True bytes.length field := by
          rw [length]
          exact exactField.imp_accepted fun _ => accepted
        obtain ⟨field', fills, fieldCounts, -⟩ := passes_enclose exactHere rfl counts stores
        have counted' : section_.apply prep = .ok section' _ := counts prep prepPass
        rw [counted'] at ran
        injection ran with same after
        subst same after
        refine ⟨field', _, (fieldCounts prep prepPass).trans ?_, fills⟩
        simp only [Nat.add_assoc, Nat.add_comm bytes.length]
      · obtain ⟨s, failed⟩ := counts prep prepPass
        rw [failed] at ran
        cases ran

private theorem operationsAgree_iff (script : Script) : script.OperationsAgree flexible ↔ script.Exact flexible := by
  induction script with
  | done => exact Iff.rfl
  | put op rest ih =>
    exact and_congr ((agrees_iff op.prep_apply op.real_apply).trans (matches_apply op)) ih
  | enclose field section_ rest sectionIH restIH =>
    simp only [OperationsAgree, Exact, sectionIH, restIH]
    exact and_congr_right fun sectionExact => and_congr_left fun _ => fieldAgrees_iff sectionExact

/-- In either mode, every operation of a script agrees in the two passes and the REAL pass fills the
buffer sized by PREP, exactly when every argument is one the passes agree on. -/
theorem two_pass_agreement_iff (flexible : Bool) (script : Script) :
    (script.OperationsAgree flexible ∧ script.FillsExactly flexible) ↔ script.Exact flexible := by
  rw [operationsAgree_iff]
  exact and_iff_left_of_imp fillsExactly_of_exact

/-- The varint of 64 is counted as one byte and stored as two, past the end of the buffer. -/
theorem sixtyFour_overruns :
    ¬ ((put (.putVariant 64) done).OperationsAgree false ∧ (put (.putVariant 64) done).FillsExactly false) ∧
      encode false Script.apply (put (.putVariant 64) done) = .error (.fault .assertion) := by
  have counted : varintLen 64 = 1 := by simp [varintLen, varintLenLoop]
  have stored : encodeVariant 64 = [0x80, 0x01] := by
    rw [encodeVariant_eq]
    simp [Leb128.zigzag, Leb128.encode]
  constructor
  · rintro ⟨⟨agrees, -⟩, -⟩
    have matched := (agrees_iff (prep_putVariant 64) (real_putVariant 64)).mp agrees
    rw [counted, stored] at matched
    exact absurd (matches_ok_some.mp matched) (by decide)
  · simp [encode, prepareFlexible, Script.apply, PutOp.apply, PacketEncoder.putVariant, byPass, grow, store,
      counted, stored, EStateM.bind_apply, EStateM.pure_apply, maxRequestSize]

end Script

end Coev.Kafka.PacketEncoder
