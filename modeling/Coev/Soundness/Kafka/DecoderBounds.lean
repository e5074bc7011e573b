import Coev.Model.Kafka.DecoderBounds
import Coev.ToMathlib.Transition

/-! # The offset stays in the buffer
Each operation is shown to leave a state in bounds, and to fail with a code only. An operation that converts a length or
looks ahead does so under a condition on what it is called with.
-/

namespace Coev.Kafka.DecoderBounds

open EStateM

variable {decoders : List (UInt64 × Indexed Unit)} {offset : ℤ} {n : ℤ} {o : ℤ}

/-! ## States in bounds -/

/-- The bytes that were behind the start of a field when it was pushed. -/
def reserved : PushField → ℤ
  | .length _ => 4
  | .crc32 _ => 4
  | .variantLength _ => 0

/-- The offset is in the buffer and behind every field on the stack, and no length was changed. -/
structure Good (s : DecoderBounds) : Prop where
  small : s.raw.length < 2 ^ 31
  nonneg : 0 ≤ s.offset
  within : s.offset ≤ s.raw.length
  exact : s.narrowed = false
  pushed : ∀ entry ∈ s.stack, 0 ≤ entry.startOffset ∧ entry.startOffset + reserved entry.field ≤ s.offset

/-- A failure with a code, in bounds. -/
def Refuses (e : Failure) (s : DecoderBounds) : Prop := (∃ err, e = .code err) ∧ s.Good

/-- From `s`, the computation stays in bounds. -/
def KeepsAt {α : Type} (x : Indexed α) (s : DecoderBounds) : Prop := Wp Refuses x (fun _ t => t.Good) s

/-- The computation stays in bounds. -/
def Keeps {α : Type} (x : Indexed α) : Prop := ∀ s, s.Good → KeepsAt x s

/-- The state with another offset. -/
def seek (s : DecoderBounds) (offset : ℤ) : DecoderBounds := { s with offset }

/-- Only the offset moved, and forward. -/
def Ahead (s t : DecoderBounds) : Prop := ∃ offset, s.offset ≤ offset ∧ offset ≤ s.raw.length ∧ t = s.seek offset

variable {α β : Type} {s t : DecoderBounds}

@[simp] theorem seek_offset (s : DecoderBounds) (offset : ℤ) : (s.seek offset).offset = offset := rfl

@[simp] theorem seek_raw (s : DecoderBounds) (offset : ℤ) : (s.seek offset).raw = s.raw := rfl

@[simp] theorem seek_seek (s : DecoderBounds) (first second : ℤ) : (s.seek first).seek second = s.seek second := rfl

@[simp] theorem seek_self (s : DecoderBounds) : s.seek s.offset = s := rfl

theorem Good.seek (good : s.Good) (ahead : s.offset ≤ offset) (within : offset ≤ s.raw.length) :
    (s.seek offset).Good where
  small := good.small
  nonneg := good.nonneg.trans ahead
  within := within
  exact := good.exact
  pushed entry member := ⟨(good.pushed entry member).1, (good.pushed entry member).2.trans ahead⟩

theorem Good.ahead (good : s.Good) (ahead : s.Ahead t) : t.Good := by
  obtain ⟨offset, after, within, rfl⟩ := ahead
  exact good.seek after within

/-- The mode is not looked at. -/
theorem Good.mode (good : s.Good) (flexible : ℕ) : Good { s with flexible } := ⟨good.1, good.2, good.3, good.4, good.5⟩

theorem Keeps.bind {x : Indexed α} {f : α → Indexed β} (first : Keeps x) (rest : ∀ a, Keeps (f a)) : Keeps (x >>= f) :=
  fun s good => (first s good).bind fun a t _ ends => rest a t ends

theorem Keeps.pure (a : α) : Keeps (Pure.pure a : Indexed α) := fun _ good => good

theorem Keeps.failCode (err : KError) : Keeps (Kafka.failCode err : Indexed α) := fun _ good => ⟨⟨err, rfl⟩, good⟩

theorem Keeps.ite {c : Prop} [Decidable c] {x y : Indexed α} (first : Keeps x) (second : Keeps y) :
    Keeps (if c then x else y) := by
  split
  · exact first
  · exact second

private theorem byMode_keepsAt {fixed flexible : Indexed α} (first : s.flexible = 0 → KeepsAt fixed s)
    (second : s.flexible ≠ 0 → KeepsAt flexible s) : KeepsAt (byMode fixed flexible) s := by
  by_cases mode : s.flexible = 0
  · rw [KeepsAt, Wp, byMode, if_pos mode]
    exact first mode
  · rw [KeepsAt, Wp, byMode, if_neg mode]
    exact second mode

/-! ## Integers and accesses -/

private theorem int_run {x : ℤ} (fits : IsInt x) : int x s = .ok x s := by
  rw [int, if_pos fits]
  rfl

private theorem narrow_run {x : ℤ} (fits : IsInt x) : narrow x s = .ok x s := by
  have same : (Int32.ofInt x).toInt = x := Int32.toInt_ofInt_of_le fits.1 (by have := fits.2; omega)
  simp [narrow, same]

theorem Good.isInt_offset (good : s.Good) (nonneg : 0 ≤ offset) (within : offset ≤ s.raw.length) : IsInt offset := by
  have := good.small
  unfold IsInt
  omega

private theorem remaining_run (good : s.Good) : remaining s = .ok (s.raw.length - s.offset) s := by
  have nonneg := good.nonneg
  have within := good.within
  rw [remaining, get_bind_apply, bind_of_ok (narrow_run (good.isInt_offset (Int.natCast_nonneg _) le_rfl)), get_bind_apply]
  exact int_run (good.isInt_offset (by omega) (by omega))

private theorem advance_run (good : s.Good) (nonneg : 0 ≤ o + n) (within : o + n ≤ s.raw.length) :
    advance n (s.seek o) = .ok () (s.seek (o + n)) := by
  have sum : int ((s.seek o).offset + n) (s.seek o) = .ok (o + n) (s.seek o) := int_run (good.isInt_offset nonneg within)
  rw [advance, get_bind_apply]
  exact bind_of_ok sum _

private theorem insufficient_run (good : s.Good) :
    (insufficient : Indexed α) s = .error (.code ErrInsufficientData) (s.seek s.raw.length) := by
  rw [insufficient, get_bind_apply, bind_of_ok (narrow_run (good.isInt_offset (Int.natCast_nonneg _) le_rfl))]
  rfl

variable {post : α → DecoderBounds → Prop}

private theorem insufficient_wp (good : s.Good) : Wp Refuses insufficient post s :=
  .of_error (insufficient_run good) ⟨⟨_, rfl⟩, good.seek good.within le_rfl⟩

/-- The check that so many bytes remain. -/
private theorem remaining_wp (good : s.Good) {short rest : Indexed α} (refused : Wp Refuses short post s)
    (tail : s.offset + n ≤ s.raw.length → Wp Refuses rest post s) :
    Wp Refuses (remaining >>= fun r => if r < n then short else rest) post s := by
  apply Wp.step (remaining_run good)
  apply Wp.ite
  · intro _
    exact refused
  · intro holds
    exact tail (by omega)

private theorem insufficient_bind_wp (good : s.Good) {f : α → Indexed β} {post : β → DecoderBounds → Prop} :
    Wp Refuses (insufficient >>= f) post s := by
  have never : Wp Refuses (insufficient : Indexed α) (fun _ _ => False) s := insufficient_wp good
  exact never.bind fun _ _ _ impossible => impossible.elim

private theorem access_run {start length : ℤ} (nonneg : 0 ≤ start) (positive : 0 ≤ length)
    (within : start + length ≤ s.raw.length) :
    access start length s = .ok ((s.raw.drop start.toNat).take length.toNat) s := by
  rw [access, if_pos ⟨nonneg, positive, within⟩]

private theorem next_wp (good : s.Good) (nonneg : 0 ≤ n) (within : s.offset + n ≤ s.raw.length) :
    Wp Refuses (next n) (fun _ t => t = s.seek (s.offset + n)) s := by
  have start := good.nonneg
  apply Wp.get
  apply Wp.step (access_run start nonneg within)
  exact .of_ok (bind_of_ok (advance_run good (by omega) within) _) rfl

private theorem word_wp (good : s.Good) (nonneg : 0 ≤ n) : Wp Refuses (word n) (fun _ t => s.Ahead t) s := by
  apply remaining_wp good (insufficient_bind_wp good)
  intro within
  exact (next_wp good nonneg within).imp fun _ t _ moved => ⟨_, by omega, within, moved⟩

private theorem word_keeps (nonneg : 0 ≤ n) : Keeps (word n) :=
  fun _ good => (word_wp good nonneg).imp fun _ _ _ ahead => good.ahead ahead

/-! ## Numbers -/

private theorem getInt8_keeps : Keeps getInt8 := (word_keeps (by decide)).bind fun _ => .pure _

private theorem getInt16_keeps : Keeps getInt16 := (word_keeps (by decide)).bind fun _ => .pure _

private theorem getInt32_keeps : Keeps getInt32 := (word_keeps (by decide)).bind fun _ => .pure _

private theorem getInt64_keeps : Keeps getInt64 := (word_keeps (by decide)).bind fun _ => .pure _

private theorem getFloat64_keeps : Keeps getFloat64 := (word_keeps (by decide)).bind fun _ => .pure _

private theorem getBool_keeps : Keeps getBool :=
  getInt8_keeps.bind fun _ => .ite (.pure _) (.ite (.failCode _) (.pure _))

private theorem getKError_keeps : Keeps getKError := getInt16_keeps.bind fun _ => .pure _

private theorem getDurationMs_keeps : Keeps getDurationMs := getInt32_keeps.bind fun _ => .pure _

/-! ## Varints -/

/-- A round of a varint, at the offset `o`. -/
private theorem varintByte_wp (good : s.Good) (ahead : s.offset ≤ o) (within : o ≤ s.raw.length) {f : UInt8 → Indexed α}
    (tail : o + 1 ≤ s.raw.length → ∀ b, Wp Refuses (f b) post (s.seek (o + 1))) :
    Wp Refuses (varintByte >>= f) post (s.seek o) := by
  have here := good.seek ahead within
  have nonneg := good.nonneg
  have small := good.small
  have same : sizeT o = o := by
    unfold sizeT
    omega
  have byte : Wp Refuses varintByte (fun _ t => o + 1 ≤ s.raw.length ∧ t = s.seek (o + 1)) (s.seek o) := by
    apply Wp.get
    apply Wp.get
    apply Wp.ite
    · intro _
      exact insufficient_bind_wp here
    · intro holds
      rw [seek_offset, seek_raw, same] at holds
      have room : o + 1 ≤ s.raw.length := by omega
      exact (next_wp here (by decide) room).bind fun _ t _ moved => ⟨room, moved⟩
  apply byte.bind
  rintro b t - ⟨room, rfl⟩
  exact tail room b

/-- Behind ten bytes, the offset goes back to where it was. -/
private theorem tooLong_wp (good : s.Good) {err : KError} (behind : o = s.offset + 10) :
    Wp Refuses (tooLong err) post (s.seek o) := by
  have nonneg := good.nonneg
  have within := good.within
  have back : advance (-10) (s.seek o) = .ok () s := by
    rw [advance_run good (by omega) (by omega), behind]
    simp
  exact Wp.step back ⟨⟨err, rfl⟩, good⟩

private theorem getVariantLoop_wp (good : s.Good) (fuel : ℕ) (ux : UInt64) (behind : o + fuel = s.offset + 10)
    (ahead : s.offset ≤ o) (within : o ≤ s.raw.length) :
    Wp Refuses (getVariantLoop fuel ux) (fun _ t => s.Ahead t) (s.seek o) := by
  induction fuel generalizing ux o with
  | zero =>
    exact tooLong_wp good (by simpa using behind)
  | succ fuel step =>
    apply varintByte_wp good ahead within
    intro room b
    apply Wp.ite
    · intro _
      apply Wp.ite
      · intro last
        exact tooLong_wp good (by rw [last.1] at behind; simpa using behind)
      · intro _
        exact ⟨o + 1, by omega, room, rfl⟩
    · intro _
      exact step _ (by push_cast at behind; omega) (by omega) room

private theorem getUVariantLoop_wp (good : s.Good) (fuel : ℕ) (ux : UInt64) (behind : o + fuel = s.offset + 10)
    (ahead : s.offset ≤ o) (within : o ≤ s.raw.length) :
    Wp Refuses (getUVariantLoop fuel ux) (fun _ t => s.Ahead t) (s.seek o) := by
  induction fuel generalizing ux o with
  | zero =>
    exact tooLong_wp good (by simpa using behind)
  | succ fuel step =>
    apply varintByte_wp good ahead within
    intro room b
    apply Wp.ite
    · intro _
      apply Wp.ite
      · intro last
        exact tooLong_wp good (by rw [last.1] at behind; simpa using behind)
      · intro _
        exact ⟨o + 1, by omega, room, rfl⟩
    · intro _
      exact step _ (by push_cast at behind; omega) (by omega) room

private theorem getVariant_wp (good : s.Good) : Wp Refuses getVariant (fun _ t => s.Ahead t) s :=
  getVariantLoop_wp good 10 0 rfl le_rfl good.within

private theorem getUVariant_wp (good : s.Good) : Wp Refuses getUVariant (fun _ t => s.Ahead t) s :=
  getUVariantLoop_wp good 10 0 rfl le_rfl good.within

private theorem getVariant_keeps : Keeps getVariant :=
  fun _ good => (getVariant_wp good).imp fun _ _ _ ahead => good.ahead ahead

private theorem getUVariant_keeps : Keeps getUVariant :=
  fun _ good => (getUVariant_wp good).imp fun _ _ _ ahead => good.ahead ahead

/-! ## Lengths and bytes -/

/-- In flexible mode, the next varint is at most `limit`. -/
def Announces (limit : ℕ) (s : DecoderBounds) : Prop :=
  s.flexible = 0 ∨ ∀ n t, getUVariant s = .ok n t → n.toNat ≤ limit

theorem Announces.atMost {limit : ℕ} (fits : s.Announces limit) (mode : s.flexible ≠ 0) {n : UInt64}
    (run : getUVariant s = .ok n t) : n.toNat ≤ limit := by
  obtain fixed | bound := fits
  · exact absurd fixed mode
  · exact bound n t run

private theorem narrow_wp (good : s.Good) {x : ℤ} (fits : IsInt x) : Wp Refuses (narrow x) (fun y t => y = x ∧ t.Good) s :=
  .of_ok (narrow_run fits) ⟨rfl, good⟩

private theorem compactLength_wp (good : s.Good) {nothing : ℤ} {limit : ℕ} (small : limit ≤ 2 ^ 31)
    (fits : ∀ n t, getUVariant s = .ok n t → n.toNat ≤ limit) :
    Wp Refuses (compactLength nothing) (fun n t => t.Good ∧ (n = nothing ∨ n < limit)) s := by
  apply (getUVariant_keeps s good).bind
  intro n t run here
  have bound := fits n t run
  apply Wp.ite
  · intro _
    exact ⟨here, .inl rfl⟩
  · intro some_
    have positive : n.toNat ≠ 0 := fun zero => some_ (UInt64.toNat.inj zero)
    apply (narrow_wp here ⟨by omega, by omega⟩).imp
    rintro m u - ⟨same, ends⟩
    exact ⟨ends, .inr (by omega)⟩

/-- An array length is bounded by `MaxResponseSize` in one mode, and by what was announced in the other. -/
private theorem getArrayLength_wp (good : s.Good) {limit : ℕ} (small : limit ≤ 2 ^ 31) (fits : s.Announces limit) :
    Wp Refuses getArrayLength (fun n t =>
      t.Good ∧ (s.flexible = 0 ∧ n ≤ maxResponseSize ∨ s.flexible ≠ 0 ∧ (n = 0 ∨ n < limit))) s := by
  by_cases mode : s.flexible = 0
  · rw [Wp, getArrayLength, byMode, if_pos mode]
    apply (word_keeps (by decide) s good).bind
    intro bytes t _ here
    apply Wp.ite
    · intro _
      exact ⟨⟨_, rfl⟩, here⟩
    · intro bound
      exact ⟨here, .inl ⟨mode, not_lt.mp bound⟩⟩
  · rw [Wp, getArrayLength, byMode, if_neg mode]
    apply (compactLength_wp good small fun n t run => fits.atMost mode run).imp
    rintro n t - ⟨ends, bound⟩
    exact ⟨ends, .inr ⟨mode, bound⟩⟩

private theorem getArrayLength_keepsAt (good : s.Good) (fits : s.Announces (2 ^ 31)) : KeepsAt getArrayLength s :=
  (getArrayLength_wp good le_rfl fits).imp fun _ _ _ ends => ends.1

private theorem next_keepsAt (good : s.Good) (nonneg : 0 ≤ n) (within : s.offset + n ≤ s.raw.length) : KeepsAt (next n) s :=
  (next_wp good nonneg within).imp fun _ _ _ moved => moved ▸ good.seek (by omega) within

private theorem getRawBytes_keeps (length : ℤ) : Keeps (getRawBytes length) := by
  intro s good
  apply Wp.ite
  · intro _
    exact ⟨⟨_, rfl⟩, good⟩
  · intro nonneg
    apply remaining_wp good (insufficient_wp good)
    exact next_keepsAt good (not_lt.mp nonneg)

private theorem getBytes_keepsAt (good : s.Good) (fits : s.Announces (2 ^ 31)) : KeepsAt getBytes s := by
  apply byMode_keepsAt
  · intro _
    exact (getInt32_keeps.bind fun tmp => .ite (.pure _) (getRawBytes_keeps _)) s good
  · intro mode
    apply (compactLength_wp good le_rfl fun n t run => fits.atMost mode run).bind
    intro length t _ ends
    exact getRawBytes_keeps length t ends.1

private theorem getVariantBytes_keepsAt (good : s.Good) (fits : ∀ n t, getVariant s = .ok n t → IsInt n.toInt) :
    KeepsAt getVariantBytes s := by
  apply (getVariant_keeps s good).bind
  intro tmp t run here
  apply Wp.ite
  · intro _
    exact here
  · intro _
    apply (narrow_wp here (fits tmp t run)).bind
    rintro length u - ⟨_, there⟩
    exact getRawBytes_keeps length u there

/-- A length that passed the check is `-1` or in the buffer. -/
private theorem checkStringLength_wp (good : s.Good) (n : ℤ) :
    Wp Refuses (checkStringLength n) (fun m t => t.Good ∧ (m = -1 ∨ 0 ≤ m ∧ t.offset + m ≤ t.raw.length)) s := by
  apply Wp.ite
  · intro _
    exact ⟨⟨_, rfl⟩, good⟩
  · intro atLeast
    apply remaining_wp good (insufficient_wp good)
    intro within
    exact ⟨good, by omega⟩

private theorem getStringLength_wp (good : s.Good) (fits : s.Announces (2 ^ 31)) :
    Wp Refuses getStringLength (fun m t => t.Good ∧ (m = -1 ∨ 0 ≤ m ∧ t.offset + m ≤ t.raw.length)) s := by
  by_cases mode : s.flexible = 0
  · rw [Wp, getStringLength, byMode, if_pos mode]
    exact (getInt16_keeps s good).bind fun n t _ here => checkStringLength_wp here n.toInt
  · rw [Wp, getStringLength, byMode, if_neg mode]
    exact (compactLength_wp good le_rfl fun n t run => fits.atMost mode run).bind
      fun n t _ ends => checkStringLength_wp ends.1 n

private theorem getString_keepsAt (good : s.Good) (fits : s.Announces (2 ^ 31)) : KeepsAt getString s := by
  apply (getStringLength_wp good fits).bind
  rintro length t - ⟨here, bound⟩
  apply Wp.ite
  · intro _
    exact here
  · intro some_
    obtain nothing | ⟨nonneg, within⟩ := bound
    · exact absurd nothing some_
    · exact next_keepsAt here nonneg within

/-! ## Arrays -/

/-- Every round of a loop starts in a state that fits. -/
def RoundsFit (body : Indexed α) (fits : DecoderBounds → Prop) : ℕ → DecoderBounds → Prop
  | 0, _ => True
  | n + 1, s => fits s ∧ ∀ a t, body s = .ok a t → RoundsFit body fits n t

private theorem rounds_keepsAt {body : Indexed α} {fits : DecoderBounds → Prop}
    (keeps : ∀ s : DecoderBounds, s.Good → fits s → KeepsAt body s) (n : ℕ) (good : s.Good) (fit : RoundsFit body fits n s) :
    KeepsAt (rounds body n) s := by
  induction n generalizing s with
  | zero => exact good
  | succ n step =>
    apply (keeps s good fit.1).bind
    intro a t run here
    apply (step here (fit.2 a t run)).bind
    intro as u _ there
    exact there

private theorem rounds_next_keepsAt {size : ℤ} (nonneg : 0 ≤ size) (n : ℕ) (good : s.Good)
    (within : s.offset + size * n ≤ s.raw.length) : KeepsAt (rounds (next size) n) s := by
  induction n generalizing s with
  | zero => exact good
  | succ n step =>
    have total : size * (n + 1 : ℕ) = size + size * n := by
      push_cast
      ring
    have later : 0 ≤ size * n := Int.mul_nonneg nonneg (Int.natCast_nonneg n)
    have one : s.offset + size ≤ s.raw.length := by omega
    apply (next_wp good nonneg one).bind
    intro bytes t _ moved
    subst moved
    apply (step (good.seek (by omega) one) (by rw [seek_offset, seek_raw]; omega)).bind
    intro rest u _ there
    exact there

private theorem elements_keepsAt (good : s.Good) {size n : ℤ} (positive : 0 ≤ size) (nonneg : 0 ≤ n)
    (within : s.offset + size * n ≤ s.raw.length) : KeepsAt (elements size n) s := by
  have kept : resize n s = .ok () s := by
    rw [resize, if_neg (not_lt.mpr nonneg)]
    rfl
  apply Wp.step kept
  apply rounds_next_keepsAt positive n.toNat good
  rwa [Int.toNat_of_nonneg nonneg]

private theorem checked_keepsAt (good : s.Good) {size n : ℤ} (positive : 0 ≤ size) (fits : size * n < 2 ^ 31) :
    KeepsAt (checked size n) s := by
  apply Wp.ite
  · intro _
    exact good
  · intro some_
    have nonneg : 0 ≤ n := le_of_not_ge some_
    have lower : 0 ≤ size * n := Int.mul_nonneg positive nonneg
    apply Wp.step (int_run ⟨by omega, fits⟩)
    apply remaining_wp good (insufficient_bind_wp good)
    exact elements_keepsAt good positive nonneg

/-- In flexible mode, the announced elements are in the buffer. -/
def AnnouncesElements (size : ℤ) (s : DecoderBounds) : Prop :=
  s.flexible = 0 ∨ ∀ n t, getUVariant s = .ok n t → n ≠ 0 → t.offset + size * (n.toNat - 1) ≤ t.raw.length

private theorem getInt32Array_keepsAt (good : s.Good) (fits : s.AnnouncesElements 4) : KeepsAt getInt32Array s := by
  apply Wp.bind (show KeepsAt (byMode _ _) s from ?words) fun words t _ here => ?result
  case result => exact here
  apply byMode_keepsAt
  · intro mode
    apply (getArrayLength_wp good le_rfl (.inl mode)).bind
    rintro n t - ⟨here, bound⟩
    obtain ⟨-, bound⟩ | ⟨flexible, -⟩ := bound
    · exact checked_keepsAt here (by decide) (by unfold maxResponseSize at bound; omega)
    · exact absurd mode flexible
  · intro mode
    obtain fixed | bound := fits
    · exact absurd fixed mode
    apply (getUVariant_keeps s good).bind
    intro n t run here
    apply Wp.ite
    · intro _
      exact here
    · intro some_
      have within := bound n t run some_
      have small := here.small
      have start := here.nonneg
      have positive : n.toNat ≠ 0 := fun zero => some_ (UInt64.toNat.inj zero)
      apply Wp.step (narrow_run ⟨by omega, by omega⟩)
      exact elements_keepsAt here (by decide) (by omega) within

private theorem getInt64Array_keepsAt (good : s.Good) (fits : s.Announces (2 ^ 28)) : KeepsAt getInt64Array s := by
  apply (getArrayLength_wp good (by decide) fits).bind
  rintro n t - ⟨here, bound⟩
  have small : 8 * n < 2 ^ 31 := by
    obtain ⟨-, bound⟩ | ⟨-, bound⟩ := bound
    · unfold maxResponseSize at bound
      omega
    · omega
  apply (checked_keepsAt here (by decide) small).bind
  intro words u _ there
  exact there

private theorem getStringArray_keepsAt (good : s.Good) (fits : s.Announces (2 ^ 31))
    (strings : ∀ n t, getArrayLength s = .ok n t → RoundsFit getString (Announces (2 ^ 31)) n.toNat t) :
    KeepsAt getStringArray s := by
  apply (getArrayLength_keepsAt good fits).bind
  intro n t run here
  apply Wp.ite
  · intro _
    exact here
  · intro some_
    have kept : resize n t = .ok () t := by
      rw [resize, if_neg (not_lt.mpr (le_of_not_ge some_))]
      rfl
    apply Wp.step kept
    exact rounds_keepsAt (fun s good fits => getString_keepsAt good fits) n.toNat here (strings n t run)

/-! ## Tagged fields -/

/-- The length of a tagged field fits, and its decoder stays in bounds behind it. -/
def FieldFits (decoders : List (UInt64 × Indexed Unit)) (s : DecoderBounds) : Prop :=
  ∀ id t n u, getUVariant s = .ok id t → getUVariant t = .ok n u →
    n.toNat < 2 ^ 31 ∧ ∀ bytes v decoder, getRawBytes n.toNat u = .ok bytes v → decoders.lookup id = some decoder →
      KeepsAt decoder { v with flexible := v.flexible + 1 }

private theorem taggedLength_wp (good : s.Good) (fits : FieldFits decoders s) :
    Wp Refuses taggedLength (fun field u => u.Good ∧
      ∀ bytes v decoder, getRawBytes field.2 u = .ok bytes v → decoders.lookup field.1 = some decoder →
        KeepsAt decoder { v with flexible := v.flexible + 1 }) s := by
  apply (getUVariant_keeps s good).bind
  intro id t first here
  apply (getUVariant_keeps t here).bind
  intro n u second there
  obtain ⟨small, decodes⟩ := fits id t n u first second
  exact .of_ok (bind_of_ok (narrow_run ⟨by omega, by omega⟩) _) ⟨there, decodes⟩

/-- The mode is restored on the way out of a decoder. -/
private theorem inFlexible_keepsAt {decoder : Indexed Unit} (keeps : KeepsAt decoder { s with flexible := s.flexible + 1 }) :
    KeepsAt (inFlexible decoder) s := by
  cases run : decoder { s with flexible := s.flexible + 1 } with
  | ok a t =>
    have body : (do modify fun s => { s with flexible := s.flexible + 1 }; decoder : Indexed Unit) s = .ok a t := run
    have whole : inFlexible decoder s = .ok () { t with flexible := t.flexible - 1 } := by
      rw [inFlexible, finally_, body]
      rfl
    exact .of_ok whole ((keeps.ok run).mode _)
  | error e t =>
    obtain ⟨⟨err, rfl⟩, ends⟩ := keeps.error run
    have body : (do modify fun s => { s with flexible := s.flexible + 1 }; decoder : Indexed Unit) s =
        .error (.code err) t := run
    have whole : inFlexible decoder s = .error (.code err) { t with flexible := t.flexible - 1 } := by
      rw [inFlexible, finally_, body]
      rfl
    exact .of_error whole ⟨⟨err, rfl⟩, ends.mode _⟩

private theorem taggedField_keepsAt (good : s.Good) (fits : FieldFits decoders s) : KeepsAt (taggedField decoders) s := by
  apply (taggedLength_wp good fits).bind
  rintro field u - ⟨here, decodes⟩
  apply (getRawBytes_keeps field.2 u here).bind
  intro bytes v run there
  cases found : decoders.lookup field.1 with
  | none => exact there
  | some decoder => exact inFlexible_keepsAt (decodes bytes v decoder run found)

/-- Without decoders, each field is skipped. -/
private theorem skipTaggedField_eq : skipTaggedField = taggedField [] := rfl

/-- In flexible mode, every tagged field that is announced fits. -/
def AnnouncesFields (decoders : List (UInt64 × Indexed Unit)) (s : DecoderBounds) : Prop :=
  s.flexible = 0 ∨ ∀ count t, getUVariant s = .ok count t →
    RoundsFit (taggedField decoders) (FieldFits decoders) count.toNat t

/-- The loop over the tagged fields. -/
private theorem taggedFields_keepsAt (good : s.Good) (fits : s.AnnouncesFields decoders) (mode : s.flexible ≠ 0) :
    KeepsAt (do let count ← getUVariant; let _ ← rounds (taggedField decoders) count.toNat) s := by
  obtain fixed | fit := fits
  · exact absurd fixed mode
  apply (getUVariant_keeps s good).bind
  intro count t run here
  apply (rounds_keepsAt (fun s good fits => taggedField_keepsAt good fits) count.toNat here (fit count t run)).bind
  intro fields u _ there
  exact there

private theorem getEmptyTaggedFieldArray_keepsAt (good : s.Good) (fits : s.AnnouncesFields []) :
    KeepsAt getEmptyTaggedFieldArray s := by
  apply byMode_keepsAt
  · intro _
    exact good
  · intro mode
    rw [skipTaggedField_eq]
    exact taggedFields_keepsAt good fits mode

private theorem getTaggedFieldArray_keepsAt (good : s.Good) (fits : s.AnnouncesFields decoders) :
    KeepsAt (getTaggedFieldArray decoders) s := by
  apply byMode_keepsAt
  · intro _
    exact ⟨⟨_, rfl⟩, good⟩
  · intro mode
    cases decoders with
    | nil => exact getEmptyTaggedFieldArray_keepsAt good fits
    | cons decoder decoders => exact taggedFields_keepsAt good fits mode

/-! ## Looking ahead, and fields that are checked later -/

private theorem peek_keepsAt (good : s.Good) {offset length : ℤ} (sum : IsInt (offset + length))
    (within : offset + length ≤ s.raw.length - s.offset → 0 ≤ s.offset + offset ∧ 0 ≤ length) :
    KeepsAt (peek offset length) s := by
  apply Wp.step (int_run sum)
  apply remaining_wp good
  · exact ⟨⟨_, rfl⟩, good⟩
  · intro enough
    obtain ⟨start, nonneg⟩ := within (by omega)
    apply Wp.get
    apply Wp.step (int_run (good.isInt_offset start (by omega)))
    exact .of_ok (access_run start nonneg (by omega)) good

private theorem peekInt8_keepsAt (good : s.Good) (fits : IsInt (s.offset + offset)) : KeepsAt (peekInt8 offset) s := by
  have small := good.small
  apply Wp.get
  apply Wp.step (int_run fits)
  apply Wp.get
  apply Wp.ite
  · intro _
    exact ⟨⟨_, rfl⟩, good⟩
  · intro inside
    obtain ⟨lower, upper⟩ := fits
    unfold sizeT at inside
    exact .of_ok (bind_of_ok (access_run (by omega) (by decide) (by omega)) _) good

/-- A field is pushed where the offset stands, and the bytes it reserves are behind it afterwards. -/
theorem Good.enter (good : s.Good) {field : PushField} (behind : s.offset + reserved field ≤ offset)
    (ahead : s.offset ≤ offset) (within : offset ≤ s.raw.length) :
    Good { s with offset, stack := ⟨s.offset, field⟩ :: s.stack } where
  small := good.small
  nonneg := good.nonneg.trans ahead
  within := within
  exact := good.exact
  pushed entry member := by
    obtain rfl | older := List.mem_cons.mp member
    · exact ⟨good.nonneg, behind⟩
    · exact ⟨(good.pushed entry older).1, (good.pushed entry older).2.trans ahead⟩

/-- A field whose room is four bytes. -/
private theorem reserve_keepsAt (good : s.Good) {field : PushField} (four : reserved field = 4) :
    KeepsAt (do
      if (← remaining) < 4 then insufficient
      enter s.offset field
      advance 4) s := by
  apply remaining_wp good (insufficient_bind_wp good)
  intro within
  have nonneg := good.nonneg
  apply Wp.step (show enter s.offset field s = .ok () _ from rfl)
  apply Wp.get
  apply Wp.step (int_run (good.isInt_offset (by omega) within))
  exact good.enter (by rw [four]) (by omega) within

private theorem push_keeps (field : PushField) : Keeps (push field) := by
  intro s good
  cases field with
  | variantLength field =>
    apply (getVariant_wp good).bind
    rintro length t - ⟨offset, ahead, within, rfl⟩
    exact good.enter (by simpa [reserved] using ahead) ahead within
  | length field => exact reserve_keepsAt good rfl
  | crc32 field => exact reserve_keepsAt good rfl

/-- The bytes that `variantLength` reserves can be counted. -/
def Measured : PushField → Prop
  | .variantLength field => 0 ≤ field.length.toInt
  | _ => True

/-- A field whose start and reserved bytes are behind the offset is checked in bounds. -/
private theorem check_keepsAt (good : s.Good) {entry : SavedField} (start : 0 ≤ entry.startOffset)
    (behind : entry.startOffset + reserved entry.field ≤ s.offset) (measured : Measured entry.field) :
    KeepsAt (check entry) s := by
  have within := good.within
  have small := good.small
  obtain ⟨startOffset, field⟩ := entry
  change 0 ≤ startOffset at start
  apply Wp.get
  cases field with
  | length field =>
    change startOffset + 4 ≤ s.offset at behind
    apply Wp.step (int_run ⟨by dsimp only; omega, by dsimp only; omega⟩)
    apply Keeps.ite (.failCode _) (.pure _) _ good
  | crc32 field =>
    change startOffset + 4 ≤ s.offset at behind
    apply Wp.step (int_run ⟨by dsimp only; omega, by dsimp only; omega⟩)
    apply Wp.step (access_run (by dsimp only; omega) (le_max_left _ _) (by dsimp only; omega))
    apply Wp.step (access_run start (by decide) (by omega))
    apply Keeps.ite (.failCode _) (.pure _) _ good
  | variantLength field =>
    change startOffset + 0 ≤ s.offset at behind
    have counted : variantSize field.length = some (Leb128.size field.length.toInt.toNat) := variantSize_of_nonneg measured
    have small : Leb128.size field.length.toInt.toNat ≤ 10 := by
      rw [Leb128.size_le_iff (by decide)]
      have bound := field.length.toInt_lt
      omega
    dsimp only
    rw [counted]
    apply Wp.step (int_run ⟨by omega, by omega⟩)
    apply Keeps.ite (.failCode _) (.pure _) _ good

/-- There is a field to check, and its room can be counted. -/
def PopFits (s : DecoderBounds) : Prop := ∃ entry stack, s.stack = entry :: stack ∧ Measured entry.field

private theorem pop_keepsAt (good : s.Good) (fits : s.PopFits) : KeepsAt pop s := by
  obtain ⟨entry, stack, top, measured⟩ := fits
  obtain ⟨start, behind⟩ := good.pushed entry (top ▸ List.mem_cons_self)
  have rest : Good { s with stack } :=
    ⟨good.small, good.nonneg, good.within, good.exact, fun other member =>
      good.pushed other (top ▸ List.mem_cons_of_mem _ member)⟩
  apply Wp.get
  rw [top]
  exact check_keepsAt rest start behind measured

/-! ## Operations -/

/-- What an operation must be called on to stay in bounds: the lengths that it converts fit an `int`, the elements that it
does not count are there, and it looks ahead into the buffer. -/
def Operation.Fits (s : DecoderBounds) : Operation → Prop
  | .getArrayLength | .getBytes | .getStringLength | .getString | .getNullableString => s.Announces (2 ^ 31)
  | .getVariantBytes => ∀ n t, DecoderBounds.getVariant s = .ok n t → IsInt n.toInt
  | .getInt32Array => s.AnnouncesElements 4
  | .getInt64Array => s.Announces (2 ^ 28)
  | .getStringArray =>
    s.Announces (2 ^ 31) ∧ ∀ n t, DecoderBounds.getArrayLength s = .ok n t →
      RoundsFit DecoderBounds.getString (Announces (2 ^ 31)) n.toNat t
  | .getTaggedFieldArray decoders => s.AnnouncesFields decoders
  | .getEmptyTaggedFieldArray => s.AnnouncesFields []
  | .peek offset length =>
    IsInt (offset.toInt + length.toInt) ∧
      (offset.toInt + length.toInt ≤ s.raw.length - s.offset → 0 ≤ s.offset + offset.toInt ∧ 0 ≤ length.toInt)
  | .peekInt8 offset => IsInt (s.offset + offset.toInt)
  | .pop => s.PopFits
  | _ => True

private theorem drop_keepsAt {x : Indexed α} (keeps : KeepsAt x s) : KeepsAt (drop x) s := by
  apply keeps.bind
  intro a t _ here
  exact here

/-- Where an operation fits, it stays in bounds. -/
theorem Operation.run_keepsAt (good : s.Good) {operation : Operation} (fits : operation.Fits s) :
    KeepsAt operation.run s := by
  cases operation with
  | getInt8 => exact drop_keepsAt (getInt8_keeps s good)
  | getInt16 => exact drop_keepsAt (getInt16_keeps s good)
  | getInt32 => exact drop_keepsAt (getInt32_keeps s good)
  | getInt64 => exact drop_keepsAt (getInt64_keeps s good)
  | getVariant => exact drop_keepsAt (getVariant_keeps s good)
  | getUVariant => exact drop_keepsAt (getUVariant_keeps s good)
  | getFloat64 => exact drop_keepsAt (getFloat64_keeps s good)
  | getArrayLength => exact drop_keepsAt (getArrayLength_keepsAt good fits)
  | getBool => exact drop_keepsAt (getBool_keeps s good)
  | getKError => exact drop_keepsAt (getKError_keeps s good)
  | getDurationMs => exact drop_keepsAt (getDurationMs_keeps s good)
  | getTaggedFieldArray decoders => exact getTaggedFieldArray_keepsAt good fits
  | getEmptyTaggedFieldArray => exact getEmptyTaggedFieldArray_keepsAt good fits
  | getStringLength => exact drop_keepsAt ((getStringLength_wp good fits).imp fun _ _ _ ends => ends.1)
  | getBytes => exact drop_keepsAt (getBytes_keepsAt good fits)
  | getVariantBytes => exact drop_keepsAt (getVariantBytes_keepsAt good fits)
  | getString => exact drop_keepsAt (getString_keepsAt good fits)
  | getNullableString => exact drop_keepsAt (getString_keepsAt good fits)
  | getInt32Array => exact drop_keepsAt (getInt32Array_keepsAt good fits)
  | getInt64Array => exact drop_keepsAt (getInt64Array_keepsAt good fits)
  | getStringArray => exact drop_keepsAt (getStringArray_keepsAt good fits.1 fits.2)
  | remaining => exact drop_keepsAt (.of_ok (remaining_run good) good)
  | getRawBytes length => exact drop_keepsAt (getRawBytes_keeps length.toInt s good)
  | getSubset length => exact drop_keepsAt (getRawBytes_keeps length.toInt s good)
  | peek offset length => exact drop_keepsAt (peek_keepsAt good fits.1 fits.2)
  | peekInt8 offset => exact drop_keepsAt (peekInt8_keepsAt good fits)
  | push field => exact push_keeps field s good
  | pop => exact pop_keepsAt good fits
  | mode flexible => exact good.mode flexible

end Coev.Kafka.DecoderBounds

/-! ## A reader stays in its buffer

The lengths that are announced in a flexible message are converted to `int`, and the elements of an array of `int32_t` are
then read without a look at what remains. So a reader stays in its buffer as long as what is announced fits, the caller looks
ahead only, and `pop` finds a field.
-/

namespace Coev.Kafka.DecoderUse

open Transition DecoderBounds

variable {u u' : DecoderUse} {operation : Operation}

/-- No access was outside of the buffer and no size overflowed, the offset is in the buffer, and no length was changed. -/
def InBounds (u : DecoderUse) : Prop :=
  u.fault = none ∧ 0 ≤ u.reader.offset ∧ u.reader.offset ≤ u.reader.raw.length ∧ u.reader.narrowed = false

/-- What the operations keep. -/
def Sound (u : DecoderUse) : Prop := u.fault = none ∧ u.reader.Good

theorem Sound.inBounds (sound : u.Sound) : u.InBounds := ⟨sound.1, sound.2.nonneg, sound.2.within, sound.2.exact⟩

private theorem sound_start {raw : Bytes} (small : raw.length < 2 ^ 31) (flexible : ℕ) :
    Sound { reader := { raw, flexible } } := by
  refine ⟨rfl, small, le_rfl, Int.natCast_nonneg _, rfl, ?_⟩
  intro entry member
  cases member

theorem Sound.step (sound : u.Sound) (fits : operation.Fits u.reader) (step : Step u operation u') : u'.Sound := by
  have keeps := Operation.run_keepsAt sound.2 fits
  rw [Step, call, sound.1] at step
  cases run : operation.run u.reader with
  | ok a reader =>
    rw [run] at step
    obtain rfl := Option.some.inj step
    exact ⟨rfl, keeps.ok run⟩
  | error e reader =>
    obtain ⟨⟨err, rfl⟩, ends⟩ := keeps.error run
    rw [run] at step
    obtain rfl := Option.some.inj step
    exact ⟨rfl, ends⟩

/-- In any sequence of operations that all fit where they are called, a reader stays in its buffer. -/
theorem inBounds_of_fits {raw : Bytes} (small : raw.length < 2 ^ 31) {flexible : ℕ}
    (run : Reaches (When (fun u operation => Operation.Fits u.reader operation) Step) { reader := { raw, flexible } } u) :
    u.InBounds := by
  have sound : u.Sound :=
    run.invariant (fun s _ _ (sound : s.Sound) step => sound.step step.1 step.2) (sound_start small flexible)
  exact sound.inBounds

/-- A string, and then in the other mode an array of one `int32_t`. -/
theorem inBounds_string_and_array :
    InBounds { reader := { offset := 9, raw := [0, 2, 97, 98, 2, 0, 0, 0, 7], flexible := 1 } } := by
  have string : Reaches (When (fun u operation => Operation.Fits u.reader operation) Step)
      { reader := { raw := [0, 2, 97, 98, 2, 0, 0, 0, 7] } } _ :=
    (Reaches.refl _).tail_when (show Step _ .getString _ from rfl) (.inl rfl)
  have mode := string.tail_when (show Step _ (.mode 1) _ from rfl) trivial
  have announced : ∀ n t, DecoderBounds.getUVariant { offset := 4, raw := [0, 2, 97, 98, 2, 0, 0, 0, 7], flexible := 1 } =
      .ok n t → n ≠ 0 → t.offset + 4 * (n.toNat - 1) ≤ t.raw.length := by
    intro n t run _
    cases run
    decide
  exact inBounds_of_fits (by decide) (mode.tail_when (show Step _ .getInt32Array _ from rfl) (.inr announced))

/-- One element is announced, and not there. -/
theorem leaves_buffer : ¬ ∀ (raw : Bytes) (flexible : ℕ) (u : DecoderUse),
      raw.length < 2 ^ 31 → Reaches Step { reader := { raw, flexible } } u → u.InBounds := by
  intro holds
  have run : Reaches Step { reader := { raw := [2], flexible := 1 } } _ :=
    (Reaches.refl _).tail (show Step _ .getInt32Array _ from rfl)
  have fault : some Fault.outOfBounds = none := (holds [2] 1 _ (by decide) run).1
  cases fault

end Coev.Kafka.DecoderUse
