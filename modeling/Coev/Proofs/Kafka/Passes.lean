import Coev.Model.Kafka.PacketEncoder

/-! # What the two passes of the encoder do

`Prep` says what the counting pass of an operation adds to `m_length` or how it fails, `Real` which
bytes the storing pass writes, both from any encoder in that pass. Either judgement composes along
sequencing, loops over a list and a pushed field, so the description of a larger body is put
together from those of its operations and never looks at the encoder again.
-/

namespace Coev.Kafka.PacketEncoder

open EStateM (bind_of_ok bind_of_error)
open ByteString

variable {α β δ : Type} {flexible : Bool}
variable {x : Encode α} {a : α} {k : α → Encode β} {field : PushField} {type : EncoderType} {pe : PacketEncoder}
  {fixed flex : Encode α} {b : β}

/-- The encoder runs one pass, in the flexible mode exactly inside a flexible body. -/
structure InPass (type : EncoderType) (flexible : Bool) (pe : PacketEncoder) : Prop where
  pass : pe.type = type
  mode : pe.flexible = 0 ↔ flexible = false

/-- The PREP pass of `x` returns `a` and adds the amount, or fails. -/
def Prep (flexible : Bool) (x : Encode α) (a : α) (amount : Except Failure ℕ) : Prop :=
  ∀ pe, InPass .PREP flexible pe →
    match amount with
    | .ok n => x pe = .ok a { pe with offset := pe.offset + n }
    | .error e => ∃ s, x pe = .error e s

/-- The REAL pass of `x` returns `a` and stores the bytes where there is room for them; without the
room, or with `none` in any case, it ends in a fault. -/
def Real (flexible : Bool) (x : Encode α) (a : α) (output : Option Bytes) : Prop :=
  ∀ pe, InPass .REAL flexible pe → pe.offset ≤ pe.raw.length →
    match output with
    | some bytes =>
      (pe.offset + bytes.length ≤ pe.raw.length →
        x pe = .ok a { pe with offset := pe.offset + bytes.length, raw := overlay pe.raw pe.offset bytes }) ∧
      (pe.raw.length < pe.offset + bytes.length → ∃ f s, x pe = .error (.fault f) s)
    | none => ∃ f s, x pe = .error (.fault f) s

theorem InPass.withOffset (inPass : InPass type flexible pe) (offset : ℕ) :
    InPass type flexible { pe with offset } := ⟨inPass.pass, inPass.mode⟩

theorem InPass.withRaw (inPass : InPass type flexible pe) (offset : ℕ) (raw : Bytes) :
    InPass type flexible { pe with offset, raw } := ⟨inPass.pass, inPass.mode⟩

theorem InPass.withStack (inPass : InPass type flexible pe) (offset : ℕ) (stack : List Pushed) :
    InPass type flexible { pe with offset, stack } :=
  ⟨inPass.pass, inPass.mode⟩

/-! ## Sequencing -/

theorem Prep.pure (a : α) : Prep flexible (pure a) a (.ok 0) := fun _ _ => rfl

theorem Real.pure (a : α) : Real flexible (pure a) a (some []) := by
  intro pe _ inside
  refine ⟨fun _ => ?_, fun short => absurd inside (by simpa using short)⟩
  simp only [overlay_nil, List.length_nil, Nat.add_zero]
  rfl

/-- Both steps count, unless the first one fails. -/
theorem Prep.bind {m n : Except Failure ℕ} (first : Prep flexible x a m) (next : Prep flexible (k a) b n) :
    Prep flexible (x >>= k) b (do let i ← m; let j ← n; return i + j) := by
  intro pe inPass
  cases m with
  | error e =>
    obtain ⟨s, run⟩ := first pe inPass
    exact ⟨s, bind_of_error run k⟩
  | ok i =>
    have run : x pe = .ok a { pe with offset := pe.offset + i } := first pe inPass
    have rest := next _ (inPass.withOffset (pe.offset + i))
    cases n with
    | error e =>
      obtain ⟨s, failed⟩ := rest
      exact ⟨s, (bind_of_ok run k).trans failed⟩
    | ok j =>
      refine (bind_of_ok run k).trans (Eq.trans rest ?_)
      simp only [Nat.add_assoc]

/-- The stored bytes follow each other; either step that has no room is a fault of the whole. -/
theorem Real.bind {p q : Option Bytes} (first : Real flexible x a p) (next : Real flexible (k a) b q) :
    Real flexible (x >>= k) b (do let bytes ← p; let rest ← q; return bytes ++ rest) := by
  intro pe inPass inside
  cases p with
  | none =>
    obtain ⟨f, s, run⟩ := first pe inPass inside
    exact ⟨f, s, bind_of_error run k⟩
  | some bytes =>
    obtain ⟨stores, faults⟩ := first pe inPass inside
    rcases Nat.lt_or_ge pe.raw.length (pe.offset + bytes.length) with short | fits
    · obtain ⟨f, s, run⟩ := faults short
      have failed := bind_of_error run k
      cases q with
      | none => exact ⟨f, s, failed⟩
      | some rest =>
        refine ⟨fun room => ?_, fun _ => ⟨f, s, failed⟩⟩
        rw [List.length_append] at room
        omega
    · have size := length_overlay fits
      have after := next { pe with offset := pe.offset + bytes.length, raw := overlay pe.raw pe.offset bytes }
        (inPass.withRaw _ _) (fits.trans_eq size.symm)
      cases q with
      | none =>
        obtain ⟨f, s, failed⟩ := after
        exact ⟨f, s, (bind_of_ok (stores fits) k).trans failed⟩
      | some rest =>
        obtain ⟨second, failed⟩ := after
        dsimp only at second failed
        rw [size] at second failed
        refine ⟨fun room => ?_, fun short => ?_⟩
        · rw [List.length_append, ← Nat.add_assoc] at room
          refine (bind_of_ok (stores fits) k).trans ((second room).trans ?_)
          rw [overlay_overlay_append fits, List.length_append, Nat.add_assoc]
        · rw [List.length_append, ← Nat.add_assoc] at short
          obtain ⟨f, s, run⟩ := failed short
          exact ⟨f, s, (bind_of_ok (stores fits) k).trans run⟩

theorem Prep.of_eq {m n : Except Failure ℕ} (prep : Prep flexible x a m) (eq : m = n) : Prep flexible x a n := eq ▸ prep

theorem Real.of_eq {p q : Option Bytes} (real : Real flexible x a p) (eq : p = q) : Real flexible x a q := eq ▸ real

/-- Successful counts add up. -/
theorem Prep.seq {m n : ℕ} (first : Prep flexible x a (.ok m)) (next : Prep flexible (k a) b (.ok n)) :
    Prep flexible (x >>= k) b (.ok (m + n)) := first.bind next

/-- A refused first step refuses the whole. -/
theorem Prep.fail {e : Failure} (first : Prep flexible x a (.error e)) (k : α → Encode β) (b : β) :
    Prep flexible (x >>= k) b (.error e) := by
  intro pe inPass
  obtain ⟨s, failed⟩ := first pe inPass
  exact ⟨s, bind_of_error failed k⟩

theorem Prep.seq_fail {m : ℕ} {e : Failure} (first : Prep flexible x a (.ok m))
    (next : Prep flexible (k a) b (.error e)) : Prep flexible (x >>= k) b (.error e) := first.bind next

/-- Stored bytes are appended. -/
theorem Real.seq {bytes rest : Bytes} (first : Real flexible x a (some bytes))
    (next : Real flexible (k a) b (some rest)) : Real flexible (x >>= k) b (some (bytes ++ rest)) := first.bind next

/-- A loop over operations that count or all refuse the same way. -/
theorem Prep.forM {f : δ → Encode PUnit} {p : δ → Prop} [DecidablePred p] {n : δ → ℕ} {e : Failure}
    (each : ∀ x, Prep flexible (f x) () (if p x then .ok (n x) else .error e)) (xs : List δ) :
    Prep flexible (xs.forM f) () (if ∀ x ∈ xs, p x then .ok (xs.map n).sum else .error e) := by
  induction xs with
  | nil => exact (Prep.pure ()).of_eq (by simp)
  | cons x rest ih =>
    refine ((each x).bind ih).of_eq ?_
    simp only [List.forall_mem_cons]
    by_cases head : p x
    · by_cases tail : ∀ y ∈ rest, p y
      · rw [if_pos head, if_pos tail, if_pos ⟨head, tail⟩]
        rfl
      · rw [if_pos head, if_neg tail, if_neg fun both => tail both.2]
        rfl
    · have whole : ¬(p x ∧ ∀ y ∈ rest, p y) := fun both => head both.1
      rw [if_neg head, if_neg whole]
      rfl

theorem Real.forM {f : δ → Encode PUnit} {p : δ → Prop} [DecidablePred p] {g : δ → Bytes}
    (each : ∀ x, Real flexible (f x) () (if p x then some (g x) else none)) (xs : List δ) :
    Real flexible (xs.forM f) () (if ∀ x ∈ xs, p x then some (xs.flatMap g) else none) := by
  induction xs with
  | nil => exact (Real.pure ()).of_eq (by simp)
  | cons x rest ih =>
    refine ((each x).bind ih).of_eq ?_
    simp only [List.forall_mem_cons]
    by_cases head : p x
    · by_cases tail : ∀ y ∈ rest, p y
      · rw [if_pos head, if_pos tail, if_pos ⟨head, tail⟩]
        rfl
      · rw [if_pos head, if_neg tail, if_neg fun both => tail both.2]
        rfl
    · have whole : ¬(p x ∧ ∀ y ∈ rest, p y) := fun both => head both.1
      rw [if_neg head, if_neg whole]
      rfl

/-! ## Branches -/

theorem Prep.byPass {prep real : Encode α} {n : Except Failure ℕ} (branch : Prep flexible prep a n) :
    Prep flexible (byPass prep real) a n := by
  intro pe inPass
  simpa only [PacketEncoder.byPass, inPass.pass] using branch pe inPass

theorem Real.byPass {prep real : Encode α} {p : Option Bytes} (branch : Real flexible real a p) :
    Real flexible (byPass prep real) a p := by
  intro pe inPass inside
  simpa only [PacketEncoder.byPass, inPass.pass] using branch pe inPass inside

theorem byMode_apply (inPass : InPass type flexible pe) :
    byMode fixed flex pe = (if flexible then flex else fixed) pe := by
  have mode := inPass.mode
  unfold byMode
  cases flexible
  · simp only [mode.mpr rfl, if_true, Bool.false_eq_true, if_false]
  · have entered : ¬ pe.flexible = 0 := fun zero => Bool.noConfusion (mode.mp zero)
    simp only [entered, if_true, if_false]

theorem Prep.byMode {n : Except Failure ℕ} (branch : Prep flexible (if flexible then flex else fixed) a n) :
    Prep flexible (byMode fixed flex) a n := by
  intro pe inPass
  rw [byMode_apply inPass]
  exact branch pe inPass

theorem Real.byMode {p : Option Bytes} (branch : Real flexible (if flexible then flex else fixed) a p) :
    Real flexible (byMode fixed flex) a p := by
  intro pe inPass inside
  rw [byMode_apply inPass]
  exact branch pe inPass inside

/-! ## Uniqueness -/

/-- An encoder in front of an empty buffer. -/
private def blank (type : EncoderType) (flexible : Bool) (size : ℕ) : PacketEncoder :=
  { type, raw := List.replicate size 0, flexible := if flexible then 1 else 0 }

private theorem inPass_blank (type : EncoderType) (flexible : Bool) (size : ℕ) :
    InPass type flexible (blank type flexible size) := by
  refine ⟨rfl, ?_⟩
  cases flexible <;> simp [blank]

/-- The counting pass counts one amount. -/
theorem Prep.unique {a a' : α} {amount : Except Failure ℕ} {n : ℕ} (prep : Prep flexible x a amount)
    (counts : Prep flexible x a' (.ok n)) : amount = .ok n := by
  have counted : x (blank .PREP flexible 0) = .ok a' { blank .PREP flexible 0 with offset := 0 + n } :=
    counts _ (inPass_blank _ _ _)
  have other := prep _ (inPass_blank _ _ 0)
  cases amount with
  | error e =>
    obtain ⟨s, failed⟩ := other
    rw [failed] at counted
    cases counted
  | ok m =>
    dsimp only at other
    rw [other] at counted
    have same := congrArg PacketEncoder.offset (EStateM.Result.ok.inj counted).2
    have offset : (blank .PREP flexible 0).offset = 0 := rfl
    dsimp only at same
    rw [offset, Nat.add_left_cancel_iff] at same
    rw [same]

/-- The storing pass stores one string. -/
theorem Real.unique {a a' : α} {output : Option Bytes} {bytes : Bytes} (real : Real flexible x a output)
    (stores : Real flexible x a' (some bytes)) : output = some bytes := by
  have size :
      (blank .REAL flexible ((output.getD []).length + bytes.length)).raw.length =
        (output.getD []).length + bytes.length :=
    List.length_replicate
  have stored := (stores _ (inPass_blank _ _ ((output.getD []).length + bytes.length)) (Nat.zero_le _)).1
    (by rw [size]; simp [blank])
  have other := real _ (inPass_blank _ _ ((output.getD []).length + bytes.length)) (Nat.zero_le _)
  cases output with
  | none =>
    obtain ⟨f, s, failed⟩ := other
    rw [failed] at stored
    cases stored
  | some p =>
    have stored' := other.1 (by rw [size]; simp [blank])
    rw [stored'] at stored
    have same := (EStateM.Result.ok.inj stored).2
    have length : p.length = bytes.length := Nat.add_left_cancel (congrArg PacketEncoder.offset same)
    have raw := congrArg PacketEncoder.raw same
    have front := congrArg (fun raw : Bytes => (raw.drop 0).take p.length) raw
    dsimp only [blank] at front
    rw [segment_overlay (Nat.zero_le _), length, segment_overlay (Nat.zero_le _)] at front
    rw [front]

/-! ## Primitive steps -/

theorem prep_grow (n : ℕ) : Prep flexible (grow n) () (.ok n) := fun _ _ => rfl

theorem prep_failCode (err : KError) : Prep flexible (failCode err) () (.error (.code err)) :=
  fun pe _ => ⟨pe, rfl⟩

theorem prep_faultWith (f : Fault) : Prep flexible (faultWith f) () (.error (.fault f)) :=
  fun pe _ => ⟨pe, rfl⟩

theorem real_faultWith (f : Fault) : Real flexible (faultWith f) () none := fun pe _ _ => ⟨f, pe, rfl⟩

theorem real_store (bytes : Bytes) : Real flexible (store bytes) () (some bytes) := by
  intro pe _ _
  refine ⟨fun room => ?_, fun short => ⟨.assertion, pe, ?_⟩⟩
  · simp only [store, if_pos room]
  · simp only [store, if_neg (Nat.not_le.mpr short)]

theorem prep_growBy (size count : ℕ) : Prep flexible (growBy size count) ()
      (if size * count ≤ int32Max then .ok (size * count) else .error (.fault .overflow)) := by
  unfold growBy
  split
  · exact prep_grow _
  · exact prep_faultWith _

/-! ## Pushed fields -/

/-- The PREP pass of a section under a fixed-size field counts the field's four bytes too. -/
theorem Prep.enclose_fixed {body : Encode α} {n : ℕ} (fixed : ∀ f, field ≠ .variantLength f)
    (section_ : Prep flexible body a (.ok n)) : Prep flexible (enclose field body) (field, a) (.ok (4 + n)) := by
  intro pe inPass
  have room : field.reserveLength = some 4 := by
    cases field with
    | length _ => rfl
    | crc32 _ => rfl
    | variantLength f => exact absurd rfl (fixed f)
  have pushed : push field pe = .ok () { pe with offset := pe.offset + 4, stack := ⟨pe.offset, field⟩ :: pe.stack } := by
    simp only [push, inPass.pass, room]
  have ran := section_ _ (inPass.withStack (pe.offset + 4) (⟨pe.offset, field⟩ :: pe.stack))
  have popped : pop { pe with offset := pe.offset + 4 + n, stack := ⟨pe.offset, field⟩ :: pe.stack } =
      .ok (some field) { pe with offset := pe.offset + 4 + n } := by
    cases field with
    | length _ => simp only [pop, inPass.pass]
    | crc32 _ => simp only [pop, inPass.pass]
    | variantLength f => exact absurd rfl (fixed f)
  rw [enclose, bind_of_ok pushed, bind_of_ok ran, bind_of_ok popped, Nat.add_assoc]
  rfl

/-- What a variable-length field holds once its section of `n` bytes is counted. -/
def sectionLength (n : ℕ) : Int64 := (Int32.ofNat n).toInt64

theorem adjustLength_section {field : VariantLengthField} {start reserve n : ℕ}
    (room : variantSize field.length = some reserve) : field.adjustLength start (start + reserve + n) =
      (variantSize (sectionLength n)).map fun size : ℕ => (⟨sectionLength n⟩, (size : ℤ) - reserve) := by
  have length : ((start + reserve + n : ℕ) : ℤ) - start - reserve = n := by omega
  simp only [VariantLengthField.adjustLength, room, length, Option.bind_eq_bind, Option.bind_some,
    Int32.ofInt_eq_ofNat, sectionLength]
  cases variantSize (Int32.ofNat n).toInt64 <;> rfl

/-- Under a variable-length field the field ends up holding the section's length, and the PREP pass
counts that length's seven-bit groups whatever the field held before. -/
theorem Prep.enclose_variantLength {field : VariantLengthField} {body : Encode α} {reserve n : ℕ}
    (room : variantSize field.length = some reserve) (section_ : Prep flexible body a (.ok n)) :
    Prep flexible (enclose (.variantLength field) body) (.variantLength ⟨sectionLength n⟩, a)
      (match variantSize (sectionLength n) with
        | some size => .ok (size + n)
        | none => .error (.fault .divergence)) := by
  intro pe inPass
  have pushed : push (.variantLength field) pe =
      .ok () { pe with offset := pe.offset + reserve, stack := ⟨pe.offset, .variantLength field⟩ :: pe.stack } := by
    simp only [push, inPass.pass, PushField.reserveLength, room]
  have ran := section_ _ (inPass.withStack (pe.offset + reserve) (⟨pe.offset, .variantLength field⟩ :: pe.stack))
  cases measured : variantSize (sectionLength n) with
  | none =>
    have popped : pop { pe with offset := pe.offset + reserve + n,
                                stack := ⟨pe.offset, .variantLength field⟩ :: pe.stack } =
        .error (.fault .divergence) { pe with offset := pe.offset + reserve + n } := by
      simp only [pop, inPass.pass, adjustLength_section room, measured, Option.map_none]
    exact ⟨_, (bind_of_ok pushed _).trans ((bind_of_ok ran _).trans (bind_of_error popped _))⟩
  | some size =>
    have total : ((pe.offset + reserve + n : ℕ) + ((size : ℤ) - reserve)).toNat = pe.offset + (size + n) := by
      omega
    have popped : pop { pe with offset := pe.offset + reserve + n,
                                stack := ⟨pe.offset, .variantLength field⟩ :: pe.stack } =
        .ok (some (.variantLength ⟨sectionLength n⟩)) { pe with offset := pe.offset + (size + n) } := by
      simp only [pop, inPass.pass, adjustLength_section room, measured, Option.map_some, total]
    dsimp only
    rw [enclose, bind_of_ok pushed, bind_of_ok ran, bind_of_ok popped]
    rfl

/-- A section that refuses in the PREP pass refuses under a field too. -/
theorem Prep.enclose_error {body : Encode α} {e : Failure} {reserve : ℕ} (room : field.reserveLength = some reserve)
    (section_ : Prep flexible body a (.error e)) : Prep flexible (enclose field body) (field, a) (.error e) := by
  intro pe inPass
  have pushed :
      push field pe = .ok () { pe with offset := pe.offset + reserve, stack := ⟨pe.offset, field⟩ :: pe.stack } := by
    simp only [push, inPass.pass, room]
  obtain ⟨s, failed⟩ := section_ _ (inPass.withStack (pe.offset + reserve) (⟨pe.offset, field⟩ :: pe.stack))
  exact ⟨s, (bind_of_ok pushed _).trans (bind_of_error failed _)⟩

/-- A length that does not end, as the groups of a negative length do not, hangs the pass. -/
theorem Prep.enclose_divergence (endless : field.reserveLength = none) {body : Encode α} :
    Prep flexible (enclose field body) (field, a) (.error (.fault .divergence)) := by
  intro pe inPass
  refine ⟨pe, bind_of_error ?_ _⟩
  simp only [push, inPass.pass, endless]

/-- The bytes a field stores once its section is written: they depend on the section alone. -/
def sectionHeader (section_ : Bytes) : PushField → Bytes
  | .length _ => bigEndian 4 (section_.length % 2 ^ 32)
  | .crc32 field => bigEndian 4 (crc32 field.polynomial section_).toNat
  | .variantLength field => encodeVariant field.length

theorem header_of_section {start reserve : ℕ} {section_ buf : Bytes} (room : field.reserveLength = some reserve)
    (written : (buf.drop (start + reserve)).take section_.length = section_) :
    Pushed.header (start + reserve + section_.length) buf ⟨start, field⟩ = sectionHeader section_ field := by
  cases field with
  | length f =>
    obtain rfl : 4 = reserve := Option.some.inj room
    have count : (((start + 4 + section_.length : ℕ) : ℤ) - start - 4) = section_.length := by omega
    simp only [Pushed.header, sectionHeader, count]
    congr 1
  | crc32 f =>
    obtain rfl : 4 = reserve := Option.some.inj room
    have covered : (buf.take (start + 4 + section_.length)).drop (start + 4) = section_ := by
      rw [List.drop_take, Nat.add_sub_cancel_left, written]
    simp only [Pushed.header, Pushed.covered, sectionHeader, covered]
  | variantLength f => rfl

/-- The REAL pass of a section under a field: the field's bytes replace the room it reserved, and
what they need beyond that room they take from the section. -/
theorem Real.enclose {body : Encode α} {reserve : ℕ} {bytes : Bytes} (room : field.reserveLength = some reserve)
    (section_ : Real flexible body a (some bytes)) (covers : reserve ≤ (sectionHeader bytes field).length)
    (within : (sectionHeader bytes field).length ≤ reserve + bytes.length) :
    Real flexible (enclose field body) (field, a)
      (some (sectionHeader bytes field ++ bytes.drop ((sectionHeader bytes field).length - reserve))) := by
  intro pe inPass inside
  have total : (sectionHeader bytes field ++ bytes.drop ((sectionHeader bytes field).length - reserve)).length =
      reserve + bytes.length := by
    rw [List.length_append, List.length_drop]; omega
  dsimp only
  rw [total]
  rcases Nat.lt_or_ge pe.raw.length (pe.offset + reserve) with short | gap
  · refine ⟨fun fits => by omega, fun _ => ⟨.assertion, pe, bind_of_error ?_ _⟩⟩
    simp only [push, inPass.pass, room, if_neg (Nat.not_le.mpr short)]
  have pushed :
      push field pe = .ok () { pe with offset := pe.offset + reserve, stack := ⟨pe.offset, field⟩ :: pe.stack } := by
    simp only [push, inPass.pass, room, if_pos gap]
  obtain ⟨stores, faults⟩ := section_ _ (inPass.withStack (pe.offset + reserve) (⟨pe.offset, field⟩ :: pe.stack)) gap
  refine ⟨fun fits => ?_, fun short => ?_⟩
  · have size : (overlay pe.raw (pe.offset + reserve) bytes).length = pe.raw.length :=
      length_overlay (by omega)
    have popped : pop { pe with offset := pe.offset + reserve + bytes.length,
                                raw := overlay pe.raw (pe.offset + reserve) bytes,
                                stack := ⟨pe.offset, field⟩ :: pe.stack } =
        .ok (some field) { pe with offset := pe.offset + reserve + bytes.length,
                                   raw :=
                                     overlay (overlay pe.raw (pe.offset + reserve) bytes) pe.offset
                                       (sectionHeader bytes field) } := by
      have header := header_of_section room
        (@segment_overlay _ pe.raw bytes (pe.offset + reserve) gap)
      have fit : pe.offset + (sectionHeader bytes field).length ≤ pe.raw.length := by omega
      simp only [pop, inPass.pass, Pushed.run, header, size, if_pos fit]
    rw [PacketEncoder.enclose, bind_of_ok pushed,
      bind_of_ok (stores (by simpa [Nat.add_assoc] using fits)), bind_of_ok popped,
      overlay_header (by omega) covers within, Nat.add_assoc]
    rfl
  · obtain ⟨f, s, failed⟩ := faults (by simpa [Nat.add_assoc] using short)
    exact ⟨f, s, (bind_of_ok pushed _).trans (bind_of_error failed _)⟩

/-! ## The whole encoding of an object that is no flexible body -/

variable {body : α → Encode α} {e e' : α} {n : ℕ} {bytes : Bytes}

private theorem prep_run (counts : Prep false (body e) e' (.ok n)) :
    body e { type := .PREP } = .ok e' { type := .PREP, offset := n } :=
  (counts _ ⟨rfl, iff_of_true rfl rfl⟩).trans (by rw [Nat.zero_add])

/-- PREP counted what REAL stores: the bytes are the encoding. -/
theorem encode_eq_ok (counts : Prep false (body e) e' (.ok bytes.length)) (stores : Real false (body e') e' (some bytes))
    (small : bytes.length ≤ maxRequestSize) : encode false body e = .ok (bytes, e') := by
  have stored :=
    (stores { type := .REAL, raw := List.replicate bytes.length 0 } ⟨rfl, iff_of_true rfl rfl⟩ (Nat.zero_le _)).1
    (by rw [Nat.zero_add, List.length_replicate])
  rw [overlay_all (List.length_replicate ..)] at stored
  simp only [encode, prepareFlexible, prep_run counts, stored, Bool.false_eq_true, if_false, gt_iff_lt, Nat.not_lt.mpr small]

/-- PREP counted less than REAL stores: the REAL pass runs past the end of its buffer. -/
theorem encode_of_overrun (counts : Prep false (body e) e' (.ok n)) (stores : Real false (body e') e' (some bytes))
    (short : n < bytes.length) (small : n ≤ maxRequestSize) : ∃ f, encode false body e = .error (.fault f) := by
  obtain ⟨f, s, failed⟩ := (stores { type := .REAL, raw := List.replicate n 0 } ⟨rfl, iff_of_true rfl rfl⟩ (Nat.zero_le _)).2
    (by rw [Nat.zero_add, List.length_replicate]; exact short)
  refine ⟨f, ?_⟩
  simp only [encode, prepareFlexible, prep_run counts, failed, Bool.false_eq_true, if_false, gt_iff_lt, Nat.not_lt.mpr small]

theorem encode_of_large (counts : Prep false (body e) e' (.ok n)) (large : maxRequestSize < n) :
    encode false body e = .error (.code ErrEncodeError) := by
  simp only [encode, prepareFlexible, prep_run counts, Bool.false_eq_true, if_false, gt_iff_lt, large, if_true]

theorem encode_of_prep_fault {f : Fault} (counts : Prep false (body e) e' (.error (.fault f))) :
    encode false body e = .error (.fault f) := by
  obtain ⟨s, failed⟩ := counts { type := .PREP } ⟨rfl, iff_of_true rfl rfl⟩
  simp only [encode, prepareFlexible, failed, Bool.false_eq_true, if_false]

/-- A failing PREP pass is a failing encoding. -/
theorem encode_of_prep_error {failure : Failure} (counts : Prep false (body e) e' (.error failure)) :
    ∃ failure, encode false body e = .error failure := by
  cases failure with
  | code err =>
    obtain ⟨s, failed⟩ := counts { type := .PREP } ⟨rfl, iff_of_true rfl rfl⟩
    exact ⟨.code ErrEncodeError, by simp only [encode, prepareFlexible, failed, Bool.false_eq_true, if_false]⟩
  | fault f => exact ⟨.fault f, encode_of_prep_fault counts⟩

end Coev.Kafka.PacketEncoder
