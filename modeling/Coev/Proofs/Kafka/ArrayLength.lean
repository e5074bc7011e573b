import Coev.Proofs.Kafka.Reads

/-! # Array lengths in the fixed mode

Each byte of an array length is shifted into place as a signed `char`, so a byte from 128 on fills the
bytes above it and the length comes out negative.
-/

namespace Coev.Kafka.PacketDecoder

open ByteString DecodeInto

variable {bytes : Bytes}

theorem signedWord_quad (a b c d : UInt8) : signedWord [a, b, c, d] =
    a.toInt8.toInt32 <<< 24 ||| b.toInt8.toInt32 <<< 16 ||| c.toInt8.toInt32 <<< 8 ||| d.toInt8.toInt32 := rfl

theorem or_neg_iff (x y : Int32) : x ||| y < 0 ↔ x < 0 ∨ y < 0 := by
  have sign (z : Int32) : z < 0 ↔ z.toBitVec.msb = true := by
    rw [Int32.lt_iff_toBitVec_slt]
    exact BitVec.slt_zero_iff_msb_cond
  rw [sign, sign, sign, Int32.toBitVec_or, BitVec.msb_or, Bool.or_eq_true]

/-- A signed `char` moved to one of the four bytes of a word: negative from 128 on, its value below. -/
theorem char_shift (k : Fin 4) (a : UInt8) :
    if a.toNat < 128 then a.toInt8.toInt32 <<< Int32.ofNat (8 * k.val) = Int32.ofNat (a.toNat * 2 ^ (8 * k.val))
    else a.toInt8.toInt32 <<< Int32.ofNat (8 * k.val) < 0 := by
  have all : ∀ (k : Fin 4) (i : Fin 256), if i.val < 128 then
      (UInt8.ofNat i.val).toInt8.toInt32 <<< Int32.ofNat (8 * k.val) = Int32.ofNat (i.val * 2 ^ (8 * k.val))
      else (UInt8.ofNat i.val).toInt8.toInt32 <<< Int32.ofNat (8 * k.val) < 0 := by
    decide +kernel
  simpa only [UInt8.ofNat_toNat] using all k ⟨a.toNat, a.toNat_lt⟩

theorem char_last (a : UInt8) :
    if a.toNat < 128 then a.toInt8.toInt32 = Int32.ofNat a.toNat else a.toInt8.toInt32 < 0 := by
  have all : ∀ i : Fin 256, if i.val < 128 then (UInt8.ofNat i.val).toInt8.toInt32 = Int32.ofNat i.val
      else (UInt8.ofNat i.val).toInt8.toInt32 < 0 := by
    decide +kernel
  simpa only [UInt8.ofNat_toNat] using all ⟨a.toNat, a.toNat_lt⟩

theorem ofNat_or (x y : ℕ) : Int32.ofNat x ||| Int32.ofNat y = Int32.ofNat (x ||| y) := by
  rw [← Int32.toBitVec_inj, Int32.toBitVec_or]
  exact BitVec.ofNat_or.symm

/-- A fixed-mode array length is read as stored when no byte has its top bit set. -/
theorem signedWord_of_small {a b c d : UInt8} (small : ∀ byte ∈ [a, b, c, d], byte.toNat < 128) :
    (signedWord [a, b, c, d]).toInt = value [a, b, c, d] := by
  simp only [List.forall_mem_cons, List.not_mem_nil, false_implies, implies_true, and_true] at small
  obtain ⟨smallA, smallB, smallC, smallD⟩ := small
  have moved (k : Fin 4) {byte : UInt8} (small : byte.toNat < 128) :
      byte.toInt8.toInt32 <<< Int32.ofNat (8 * k.val) = Int32.ofNat (byte.toNat * 2 ^ (8 * k.val)) := by
    have shifted := char_shift k byte
    rwa [if_pos small] at shifted
  have high : a.toInt8.toInt32 <<< 24 = Int32.ofNat (a.toNat * 2 ^ 24) := moved 3 smallA
  have second : b.toInt8.toInt32 <<< 16 = Int32.ofNat (b.toNat * 2 ^ 16) := moved 2 smallB
  have third : c.toInt8.toInt32 <<< 8 = Int32.ofNat (c.toNat * 2 ^ 8) := moved 1 smallC
  have low : d.toInt8.toInt32 = Int32.ofNat d.toNat := by
    have last := char_last d
    rwa [if_pos smallD] at last
  have glue (x y k : ℕ) (less : y < 2 ^ k) : x * 2 ^ k ||| y = x * 2 ^ k + y := by
    rw [Nat.mul_comm, Nat.two_pow_add_eq_or_of_lt less]
  have first : a.toNat * 2 ^ 24 ||| b.toNat * 2 ^ 16 = (a.toNat * 256 + b.toNat) * 2 ^ 16 := by
    rw [glue _ _ 24 (by omega)]
    omega
  have upper :
      (a.toNat * 256 + b.toNat) * 2 ^ 16 ||| c.toNat * 2 ^ 8 = ((a.toNat * 256 + b.toNat) * 256 + c.toNat) * 2 ^ 8 := by
    rw [glue _ _ 16 (by omega)]
    omega
  have word : signedWord [a, b, c, d] = Int32.ofNat (((a.toNat * 256 + b.toNat) * 256 + c.toNat) * 2 ^ 8 + d.toNat) := by
    rw [signedWord_quad, high, second, third, low, ofNat_or, ofNat_or, ofNat_or, first, upper, glue _ _ 8 (by omega)]
  rw [word, Int32.toInt_ofNat_of_lt (by omega)]
  simp only [value, List.foldl_cons, List.foldl_nil]
  omega

/-- One byte with its top bit set makes the array length negative. -/
theorem signedWord_of_large {a b c d : UInt8} (large : ∃ byte ∈ [a, b, c, d], 128 ≤ byte.toNat) :
    signedWord [a, b, c, d] < 0 := by
  have negative (k : Fin 4) {byte : UInt8} (top : 128 ≤ byte.toNat) :
      byte.toInt8.toInt32 <<< Int32.ofNat (8 * k.val) < 0 := by
    have shifted := char_shift k byte
    rwa [if_neg (Nat.not_lt.mpr top)] at shifted
  rw [signedWord_quad, or_neg_iff, or_neg_iff, or_neg_iff]
  obtain ⟨byte, member, top⟩ := large
  simp only [List.mem_cons, List.not_mem_nil, or_false] at member
  rcases member with rfl | rfl | rfl | rfl
  · exact .inl (.inl (.inl (negative 3 top)))
  · exact .inl (.inl (.inr (negative 2 top)))
  · exact .inl (.inr (negative 1 top))
  · have last := char_last byte
    rw [if_neg (Nat.not_lt.mpr top)] at last
    exact .inr last

/-- What a caller that ignores the code of a fixed-mode `getArrayLength` goes on with. -/
def countRead (bytes : Bytes) : Int32 :=
  if (signedWord bytes).toInt > maxResponseSize then -1 else signedWord bytes

/-- The bytes of a count that is read as it was stored. -/
def CountReadable (bytes : Bytes) : Prop :=
  value bytes ≤ maxResponseSize ∧ ∀ byte ∈ bytes, byte.toNat < 128

instance (bytes : Bytes) : Decidable (CountReadable bytes) :=
  @instDecidableAnd _ _ _ (List.decidableBAll (fun byte : UInt8 => byte.toNat < 128) bytes)

theorem exists_quad (four : bytes.length = 4) : ∃ a b c d, bytes = [a, b, c, d] := by
  match bytes, four with
  | [a, b, c, d], _ => exact ⟨a, b, c, d, rfl⟩

theorem countRead_of_readable (four : bytes.length = 4) (readable : CountReadable bytes) :
    (countRead bytes).toInt = value bytes := by
  obtain ⟨a, b, c, d, rfl⟩ := exists_quad four
  have word := signedWord_of_small readable.2
  have within := readable.1
  rw [countRead, if_neg (by omega), word]

/-- Any other count is read as a negative one. -/
theorem countRead_of_unreadable (four : bytes.length = 4) (unreadable : ¬ CountReadable bytes) :
    countRead bytes < 0 := by
  obtain ⟨a, b, c, d, rfl⟩ := exists_quad four
  rw [countRead]
  split_ifs with large
  · decide
  · by_cases small : ∀ byte ∈ [a, b, c, d], byte.toNat < 128
    · have word := signedWord_of_small small
      exact absurd ⟨by omega, small⟩ unreadable
    · simp only [not_forall, not_lt, exists_prop] at small
      exact signedWord_of_large small

/-- A stored count of zero is read. -/
theorem countReadable_of_zero (four : bytes.length = 4) (zero : (Int32.ofNat (value bytes)).toInt = 0) :
    CountReadable bytes := by
  obtain ⟨a, b, c, d, rfl⟩ := exists_quad four
  have boundA := a.toNat_lt
  have boundB := b.toNat_lt
  have boundC := c.toNat_lt
  have boundD := d.toNat_lt
  have word : value [a, b, c, d] = ((a.toNat * 256 + b.toNat) * 256 + c.toNat) * 256 + d.toNat := by
    simp only [value, List.foldl_cons, List.foldl_nil, Nat.zero_mul, Nat.zero_add]
  have size : Int32.size = 2 ^ 32 := rfl
  rw [Int32.toInt_ofNat', word, Int.bmod_def, size] at zero
  rw [CountReadable, word]
  simp only [List.forall_mem_cons, List.not_mem_nil, false_implies, implies_true, and_true, maxResponseSize]
  split_ifs at zero <;> omega

variable {σ : Type}

theorem readsInto_getArrayLength (four : bytes.length = 4) (o : σ) :
    ReadsInto false (fun (o, pd) => ignoreCode (if pd.flexible = 0 then -1 else 0) (read getArrayLength) (o, pd))
      bytes o o (countRead bytes) := by
  intro pd rest mode ahead
  have fixed : pd.flexible = 0 := mode.mpr rfl
  have taken := @reads_take false bytes pd rest mode ahead
  rw [four] at taken ⊢
  have body : getArrayLength pd = (do
      let result := signedWord (← take 4)
      if result.toInt > maxResponseSize then failCode ErrInvalidArrayLength
      return result) pd := by
    rw [getArrayLength, byMode, if_pos fixed]
  rw [EStateM.bind_of_ok taken] at body
  dsimp only
  rw [if_pos fixed, countRead]
  by_cases large : (signedWord bytes).toInt > maxResponseSize
  · rw [if_pos large] at body ⊢
    exact ignoreCode_of_code (read_of_error (body.trans rfl))
  · rw [if_neg large] at body ⊢
    exact ignoreCode_of_ok (read_eq_ok_iff.mpr ⟨body.trans rfl, rfl⟩)

end Coev.Kafka.PacketDecoder
