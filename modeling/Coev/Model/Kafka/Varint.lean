import Coev.Model.Kafka.Basic
import Coev.ToMathlib.Leb128
import Mathlib.Tactic.Positivity
import Mathlib.Tactic.NormNum

/-! # The variable-length integers of `packet_encoder`

Three functions measure a signed varint and one writes it. `encodeVariant` zigzags and so needs a
byte more than `varintLen` says for the positive values that fill their last seven-bit group;
`variantSize`, used by the length prefix, has the same gap and never returns for a negative value.
The measures are loops over mathematical integers: `>>=` on `int64_t` is the floor division.
-/

namespace Coev.Kafka

open Leb128

variable {value : Int64}

/-- The loop of `varintLen`. -/
def varintLenLoop (x : ℤ) : ℕ :=
  if 0x80 ≤ x ∨ x < -0x40 then varintLenLoop (x / 128) + 1 else 1
termination_by x.natAbs
decreasing_by omega

/-- `varintLen`: what the PREP pass reserves for a signed varint. -/
def varintLen (x : Int64) : ℕ := varintLenLoop x.toInt

/-- The loop of `uvarintLen`. -/
def uvarintLenLoop (x : ℕ) : ℕ :=
  if 0x80 ≤ x then uvarintLenLoop (x / 128) + 1 else 1

/-- `uvarintLen`: what the PREP pass reserves for an unsigned varint. -/
def uvarintLen (x : UInt64) : ℕ :=
  if x = 0 then 1 else uvarintLenLoop x.toNat

/-- `zigzagEncode`: the sign moves to the lowest bit. -/
def zigzagEncode (x : Int64) : UInt64 :=
  (x.toUInt64 <<< 1) ^^^ (if x < 0 then -1 else 0)

def zigzagDecode (x : UInt64) : Int64 :=
  ((x >>> 1) ^^^ (-(x &&& 1))).toInt64

private theorem shiftRight_seven_toNat (x : UInt64) : (x >>> 7).toNat = x.toNat / 128 := by
  rw [UInt64.toNat_shiftRight, Nat.shiftRight_eq_div_pow]
  rfl

/-- `encodeUVariant`: the bytes stored, in order. -/
def encodeUVariant (x : UInt64) : Bytes :=
  if 0x80 ≤ x then (x.toUInt8 ||| 0x80) :: encodeUVariant (x >>> 7) else [x.toUInt8]
termination_by x.toNat
decreasing_by
  have large : 128 ≤ x.toNat := UInt64.le_iff_toNat_le.mp ‹0x80 ≤ x›
  rw [shiftRight_seven_toNat]
  omega

/-- `encodeVariant`: what the REAL pass writes for a signed varint. -/
def encodeVariant (x : Int64) : Bytes := encodeUVariant (zigzagEncode x)

/-- The `do .. while` loop of `variantSize`, `none` when `fuel` rounds do not end it. -/
def variantSizeLoop : ℕ → ℤ → Option ℕ
  | 0, _ => none
  | fuel + 1, value =>
    if value / 128 ≠ 0 then (variantSizeLoop fuel (value / 128)).map (· + 1) else some 1

/-- `variantSize`: the bytes a length prefix reserves; `none` when the loop never ends. Ten rounds
end it for every value for which any number does. -/
def variantSize (value : Int64) : Option ℕ := variantSizeLoop 10 value.toInt

/-! ## Closed forms -/

theorem uvarintLenLoop_eq (x : ℕ) : uvarintLenLoop x = size x := by
  induction x using Nat.strong_induction_on with
  | h x ih =>
    rw [uvarintLenLoop]
    split
    · next large => rw [ih _ (by omega), size_of_le large]
    · next small => rw [size_of_lt (by omega)]

theorem uvarintLen_eq (x : UInt64) : uvarintLen x = size x.toNat := by
  unfold uvarintLen
  split
  · next zero => subst zero; rfl
  · exact uvarintLenLoop_eq x.toNat

/-- On a non-negative value the measure ignores the bit that zigzag spends on the sign. -/
theorem varintLenLoop_of_nonneg (n : ℕ) : varintLenLoop n = size n := by
  induction n using Nat.strong_induction_on with
  | h n ih =>
    rw [varintLenLoop]
    split
    · next large =>
      have step : ((n : ℤ) / 128) = ((n / 128 : ℕ) : ℤ) := by omega
      rw [step, ih _ (by omega), size_of_le (n := n) (by omega)]
    · next small => rw [size_of_lt (by omega)]

private theorem varintLenLoop_le_iff {k : ℕ} (positive : 0 < k) {x : ℤ} (neg : x < 0) :
    varintLenLoop x ≤ k ↔ -(64 * 128 ^ (k - 1) : ℤ) ≤ x := by
  induction k generalizing x with
  | zero => omega
  | succ k ih =>
    rw [varintLenLoop, Nat.add_sub_cancel]
    have power : (1 : ℤ) ≤ 128 ^ k := one_le_pow₀ (by omega)
    split
    · next large =>
      cases k with
      | zero =>
        have : 0 < varintLenLoop (x / 128) := by rw [varintLenLoop]; split <;> omega
        simp only [pow_zero]
        omega
      | succ k =>
        rw [Nat.add_le_add_iff_right, ih (by omega) (by omega), Nat.add_sub_cancel, pow_succ]
        generalize (128 : ℤ) ^ k = power
        omega
    · next small => omega

/-- On a negative value the measure is the zigzag length. -/
theorem varintLenLoop_of_neg {x : ℤ} (neg : x < 0) : varintLenLoop x = size (zigzag x) := by
  have agree {k : ℕ} (positive : 0 < k) : varintLenLoop x ≤ k ↔ size (zigzag x) ≤ k := by
    have power : (0 : ℤ) < 128 ^ (k - 1) := by positivity
    rw [varintLenLoop_le_iff positive neg, size_zigzag_le_iff positive]
    omega
  have positive : 0 < varintLenLoop x := by rw [varintLenLoop]; split <;> omega
  exact le_antisymm ((agree (size_pos _)).mpr le_rfl) ((agree positive).mp le_rfl)

private theorem zigzagEncode_of_nonneg {x : Int64} (nonneg : 0 ≤ x.toInt) : zigzagEncode x = x.toUInt64 <<< 1 := by
  have sign : ¬ x < 0 := by
    rw [Int64.lt_iff_toInt_lt]
    exact not_lt.mpr nonneg
  rw [zigzagEncode, if_neg sign, UInt64.xor_zero]

private theorem zigzagEncode_of_neg {x : Int64} (neg : x.toInt < 0) : zigzagEncode x = ~~~(x.toUInt64 <<< 1) := by
  have sign : x < 0 := Int64.lt_iff_toInt_lt.mpr neg
  rw [zigzagEncode, if_pos sign]
  exact UInt64.xor_neg_one

theorem zigzagEncode_toNat (x : Int64) : (zigzagEncode x).toNat = zigzag x.toInt := by
  have cond := BitVec.toInt_eq_toNat_cond x.toBitVec
  rw [Int64.toInt_toBitVec] at cond
  have word : x.toUInt64.toNat = x.toBitVec.toNat := rfl
  have bound : x.toBitVec.toNat < 2 ^ 64 := x.toBitVec.isLt
  have shifted : (x.toUInt64 <<< 1).toNat = 2 * x.toBitVec.toNat % 2 ^ 64 := by
    rw [UInt64.toNat_shiftLeft, word, Nat.shiftLeft_eq, Nat.mul_comm]
    rfl
  by_cases neg : x.toInt < 0
  · have value := zigzag_of_neg neg
    rw [zigzagEncode_of_neg neg, UInt64.toNat_not, shifted]
    split_ifs at cond <;> simp only [UInt64.size] <;> omega
  · have value := zigzag_of_nonneg (x := x.toInt) (by omega)
    rw [zigzagEncode_of_nonneg (by omega), shifted]
    split_ifs at cond <;> omega

theorem zigzagEncode_injective : Function.Injective zigzagEncode := by
  intro x y same
  apply Int64.toInt_inj.mp
  apply zigzag_injective
  rw [← zigzagEncode_toNat, ← zigzagEncode_toNat, same]

/-- Decoding an even word halves it; decoding an odd one also negates. -/
theorem zigzagDecode_toInt (x : UInt64) :
    (zigzagDecode x).toInt = if x.toNat % 2 = 0 then (x.toNat / 2 : ℤ) else -(x.toNat / 2 : ℤ) - 1 := by
  have half : (x >>> 1).toNat = x.toNat / 2 := by
    rw [UInt64.toNat_shiftRight, Nat.shiftRight_eq_div_pow]
    rfl
  have bound : x.toNat < 2 ^ 64 := x.toNat_lt
  have low : (x &&& 1).toNat = x.toNat % 2 := by
    rw [UInt64.toNat_and]
    exact Nat.and_one_is_mod x.toNat
  have cond (y : UInt64) : y.toInt64.toInt =
      if 2 * y.toNat < 2 ^ 64 then (y.toNat : ℤ) else (y.toNat : ℤ) - (2 ^ 64 : ℕ) :=
    BitVec.toInt_eq_toNat_cond y.toBitVec
  rw [zigzagDecode]
  split_ifs with even
  · have zero : x &&& 1 = 0 := UInt64.toNat_inj.mp (by rw [low, even]; rfl)
    rw [zero, UInt64.neg_zero, UInt64.xor_zero, cond, half]
    split_ifs <;> omega
  · have one : x &&& 1 = 1 := UInt64.toNat_inj.mp (by rw [low]; change _ = 1; omega)
    rw [one, UInt64.xor_neg_one, cond, UInt64.toNat_not, half]
    simp only [UInt64.size]
    split_ifs <;> omega

theorem zigzag_zigzagDecode (x : UInt64) : zigzag (zigzagDecode x).toInt = x.toNat := by
  rw [zigzagDecode_toInt, zigzag]
  split_ifs <;> omega

theorem zigzagDecode_zigzagEncode (x : Int64) : zigzagDecode (zigzagEncode x) = x := by
  apply zigzagEncode_injective
  apply UInt64.toNat_inj.mp
  rw [zigzagEncode_toNat, zigzag_zigzagDecode]

/-- The stored bytes are the shortest base-128 encoding. -/
theorem encodeUVariant_eq (x : UInt64) : encodeUVariant x = encode x.toNat := by
  induction h : x.toNat using Nat.strong_induction_on generalizing x with
  | h n ih =>
    subst h
    rw [encodeUVariant]
    split
    · next le =>
      have large : 128 ≤ x.toNat := UInt64.le_iff_toNat_le.mp le
      have byte : x.toUInt8 ||| 0x80 = UInt8.ofNat (x.toNat % 128 + 128) := by
        apply UInt8.toNat_inj.mp
        have table : ∀ b < 256, b ||| 128 = b % 128 + 128 := by decide +kernel
        have masked : (x.toUInt8 ||| 0x80).toNat = x.toNat % 256 ||| 128 := by
          rw [UInt8.toNat_or, UInt64.toNat_toUInt8]
          rfl
        have small : x.toNat % 128 + 128 < 256 := by omega
        rw [masked, table _ (Nat.mod_lt _ (by omega)), UInt8.toNat_ofNat', Nat.mod_eq_of_lt small]
        omega
      rw [encode_of_le large, byte, ih (x >>> 7).toNat (by rw [shiftRight_seven_toNat]; omega) _ rfl,
        shiftRight_seven_toNat]
    · next lt =>
      have small : x.toNat < 128 := by
        have := mt UInt64.le_iff_toNat_le.mpr lt
        simpa using this
      rw [encode_of_lt small]
      congr 1

theorem encodeVariant_eq (x : Int64) : encodeVariant x = encode (zigzag x.toInt) := by
  rw [encodeVariant, encodeUVariant_eq, zigzagEncode_toNat]

theorem length_encodeUVariant (x : UInt64) : (encodeUVariant x).length = size x.toNat := by
  rw [encodeUVariant_eq, length_encode]

theorem length_encodeVariant (x : Int64) : (encodeVariant x).length = size (zigzag x.toInt) := by
  rw [encodeVariant_eq, length_encode]

/-- The integers whose reserved and written varint lengths agree: those that are not positive, and
those whose highest set bit is not the top bit of a seven-bit group. -/
def VarintSafe (x : ℤ) : Prop := x ≤ 0 ∨ x.toNat.log2 % 7 ≠ 6
deriving Decidable

private theorem size_zigzag_of_nonneg {x : ℤ} (nonneg : 0 ≤ x) :
    size (zigzag x) = if VarintSafe x then size x.toNat else size x.toNat + 1 := by
  have value : zigzag x = 2 * x.toNat := by have := zigzag_of_nonneg nonneg; omega
  by_cases positive : 0 < x
  · have safe : VarintSafe x ↔ ¬ x.toNat.log2 % 7 = 6 := or_iff_right (by omega)
    rw [value, size_two_mul (by omega)]
    simp only [safe, ite_not]
  · obtain rfl : x = 0 := by omega
    rfl

/-- The PREP pass reserves what the REAL pass writes, except for the unsafe values, where it
reserves one byte too few. -/
theorem length_encodeVariant_eq (x : Int64) :
    (encodeVariant x).length = if VarintSafe x.toInt then varintLen x else varintLen x + 1 := by
  rw [length_encodeVariant, varintLen]
  by_cases neg : x.toInt < 0
  · have safe : VarintSafe x.toInt := Or.inl (by omega)
    rw [varintLenLoop_of_neg neg, if_pos safe]
  · obtain ⟨n, value⟩ : ∃ n : ℕ, x.toInt = n := ⟨x.toInt.toNat, by omega⟩
    rw [value, varintLenLoop_of_nonneg, size_zigzag_of_nonneg (by omega), Int.toNat_natCast]

theorem varintLen_eq_iff (x : Int64) : varintLen x = (encodeVariant x).length ↔ VarintSafe x.toInt := by
  rw [length_encodeVariant_eq]
  split_ifs with safe
  · exact iff_of_true rfl safe
  · exact iff_of_false (by omega) safe

/-- An arithmetic shift never brings a negative value to zero, so no number of rounds is enough. -/
theorem variantSizeLoop_of_neg (fuel : ℕ) {value : ℤ} (neg : value < 0) : variantSizeLoop fuel value = none := by
  induction fuel generalizing value with
  | zero => rfl
  | succ fuel ih =>
    rw [variantSizeLoop, if_pos (by omega), ih (by omega)]
    rfl

private theorem variantSizeLoop_of_lt {fuel : ℕ} (n : ℕ) (enough : n < 128 ^ fuel) (positive : 0 < fuel) :
    variantSizeLoop fuel n = some (size n) := by
  induction fuel generalizing n with
  | zero => omega
  | succ fuel ih =>
    rw [variantSizeLoop]
    by_cases small : n < 128
    · rw [if_neg (by omega), size_of_lt small]
    · have step : ((n : ℤ) / 128) = ((n / 128 : ℕ) : ℤ) := by omega
      rw [pow_succ] at enough
      have room : 0 < fuel := by
        rcases Nat.eq_zero_or_pos fuel with zero | positive
        · rw [zero, pow_zero, one_mul] at enough; omega
        · exact positive
      rw [if_pos (by omega), step, ih (n / 128) (by omega) room, size_of_le (n := n) (by omega)]
      rfl

theorem variantSize_of_nonneg (nonneg : 0 ≤ value.toInt) : variantSize value = some (size value.toInt.toNat) := by
  have bound : value.toInt < 2 ^ 63 := value.toInt_lt
  obtain ⟨n, eq⟩ : ∃ n : ℕ, value.toInt = n := ⟨value.toInt.toNat, by omega⟩
  rw [variantSize, eq, variantSizeLoop_of_lt n (by omega) (by omega), Int.toNat_natCast]

theorem variantSize_of_neg (neg : value.toInt < 0) : variantSize value = none :=
  variantSizeLoop_of_neg 10 neg

/-- A non-negative length prefix needs the reserved bytes, or one more when it is unsafe. -/
theorem length_encodeVariant_of_nonneg (nonneg : 0 ≤ value.toInt) : (encodeVariant value).length =
      if VarintSafe value.toInt then size value.toInt.toNat else size value.toInt.toNat + 1 := by
  rw [length_encodeVariant, size_zigzag_of_nonneg nonneg]

end Coev.Kafka
