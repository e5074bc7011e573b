import Coev.Model.Utils.Hash
import Mathlib.Data.Nat.Bitwise
import Mathlib.Data.Nat.ModEq

/-! # Hashes of 128 bits against their recurrences
The product leaves the shifted word and the product of the higher word at their place in the lower word, and adds what
is above their first 32 bits to the higher one. This is the product modulo `2 ^ 128` of zero only, so only the empty
string is hashed by the recurrence.
-/

namespace Coev.Fnv

/-! ## The recurrences -/

def prime : ℕ := 2 ^ 88 + 0x13b

def offsetBasis : ℕ := 144066263297769815596495629667062367629

/-- FNV-1: multiply, then add the byte by bits. -/
def fnv1 (h : ℕ) (byte : UInt8) : ℕ := (h * prime % 2 ^ 128) ^^^ byte.toNat

/-- FNV-1a: the other way round. -/
def fnv1a (h : ℕ) (byte : UInt8) : ℕ := (h ^^^ byte.toNat) * prime % 2 ^ 128

/-- The number that two words are. -/
def number (hash : Hash) : ℕ := 2 ^ 64 * hash.1.toNat + hash.2.toNat

/-- However far a string is read, its hash is what a recurrence makes of the offset basis. -/
def Computes (update : Hash → Bytes → Hash) (recurrence : ℕ → UInt8 → ℕ) (data : Bytes) : Prop :=
  ∀ front, front <+: data → number (update Reset front) = front.foldl recurrence offsetBasis

variable {recurrence : ℕ → UInt8 → ℕ}

private theorem number_reset : number Reset = offsetBasis := rfl

/-! ## The product -/

/-- Numbers that are added below `m` change nothing there only if they cancel. -/
theorem add_mod_eq_iff (m x s t : ℕ) : (x % m + s % m + t % m) % m = x % m ↔ (s + t) % m = 0 := by
  have flat : (x % m + s % m + t % m) % m = (x + (s + t)) % m := by simp only [Nat.add_mod, Nat.mod_mod, Nat.add_assoc]
  rw [flat]
  constructor
  · intro same
    exact Nat.ModEq.add_left_cancel' x (show x + (s + t) ≡ x + 0 [MOD m] from same)
  · intro clear
    rw [Nat.add_mod, clear, Nat.add_zero, Nat.mod_mod]

/-- The higher word has no room for anything but the carry of the lower one, so nothing is carried. -/
theorem carried_eq_zero {l x s t : ℕ} (word : l < 2 ^ 64) (x_lt : x < 2 ^ 32) (s_lt : s < 2 ^ 32) (t_lt : t < 2 ^ 32)
    (high : (315 * (l / 2 ^ 32) + x + s + t) % 2 ^ 64 = 315 * l / 2 ^ 64) : l / 2 ^ 32 = 0 ∧ s = 0 ∧ t = 0 := by
  have upper : l / 2 ^ 32 < 2 ^ 32 := by omega
  have carry : 2 ^ 32 * (315 * l / 2 ^ 64) ≤ 315 * (l / 2 ^ 32 + 1) := by omega
  generalize l / 2 ^ 32 = a at *
  generalize 315 * l / 2 ^ 64 = c at *
  have whole : 315 * a + x + s + t = c := by rw [← high, Nat.mod_eq_of_lt (by omega)]
  have none_ : a = 0 := by omega
  omega

private theorem lower_eq_zero {l t : ℕ} (half : l < 2 ^ 32) (shifted : 2 ^ 24 * l / 2 ^ 32 = 0) (product : t / 2 ^ 32 = 0)
    (low : (2 ^ 24 * l + t) % 2 ^ 64 = 0) : l = 0 ∧ t = 0 := by omega

private theorem higher_eq_zero {h : ℕ} (word : h < 2 ^ 64) (clear : 315 * h % 2 ^ 64 = 0) : h = 0 := by
  have gone : 2 ^ 64 ∣ h := (Nat.Coprime.pow_left 64 (by decide)).dvd_of_dvd_mul_left (Nat.dvd_of_mod_eq_zero clear)
  exact Nat.eq_zero_of_dvd_of_lt gone word

private theorem product_eq (h l : ℕ) :
    (2 ^ 64 * h + l) * prime = 315 * l + 2 ^ 64 * (2 ^ 24 * l + 315 * h) + 2 ^ 64 * (2 ^ 64 * (2 ^ 24 * h)) := by
  unfold prime
  ring

private theorem product_low (h l : ℕ) : (2 ^ 64 * h + l) * prime % 2 ^ 128 % 2 ^ 64 = 315 * l % 2 ^ 64 := by
  rw [product_eq, Nat.mod_mod_of_dvd _ (show 2 ^ 64 ∣ 2 ^ 128 from ⟨2 ^ 64, rfl⟩), Nat.add_mul_mod_self_left,
    Nat.add_mul_mod_self_left]

private theorem product_high (h l : ℕ) (low : (2 ^ 24 * l + 315 * h) % 2 ^ 64 = 0) :
    (2 ^ 64 * h + l) * prime % 2 ^ 128 / 2 ^ 64 = 315 * l / 2 ^ 64 % 2 ^ 64 := by
  obtain ⟨k, multiple⟩ := Nat.dvd_of_mod_eq_zero low
  rw [product_eq, multiple, show 2 ^ 128 = 2 ^ 64 * 2 ^ 64 from rfl, Nat.mod_mul_right_div_self,
    Nat.add_mul_div_left _ _ (by decide),
    Nat.add_mul_div_left _ _ (by decide)]
  omega

/-! ## `multiply128` -/

/-- The product by the source's prime. -/
def multiplied (hash : Hash) : Hash := multiply128 hash.1 hash.2 prime128Lower prime128Shift

private theorem toNat_times (x : UInt64) : (x * prime128Lower).toNat = 315 * x.toNat % 2 ^ 64 := by
  rw [UInt64.toNat_mul, Nat.mul_comm]
  rfl

private theorem toNat_shifted (x : UInt64) : (x <<< prime128Shift.toUInt64).toNat = 2 ^ 24 * x.toNat % 2 ^ 64 := by
  rw [UInt64.toNat_shiftLeft, Nat.shiftLeft_eq, Nat.mul_comm]
  rfl

private theorem toNat_upper (x : UInt64) : (x >>> 32).toNat = x.toNat / 2 ^ 32 := by
  rw [UInt64.toNat_shiftRight, Nat.shiftRight_eq_div_pow]
  rfl

private theorem toNat_multiplied_lower (hash : Hash) : (multiplied hash).2.toNat =
    (315 * hash.2.toNat % 2 ^ 64 + 2 ^ 24 * hash.2.toNat % 2 ^ 64 + 315 * hash.1.toNat % 2 ^ 64) % 2 ^ 64 := by
  change (hash.2 * prime128Lower + hash.2 <<< prime128Shift.toUInt64 + hash.1 * prime128Lower).toNat = _
  rw [UInt64.toNat_add, UInt64.toNat_add, toNat_times, toNat_times, toNat_shifted, Nat.mod_add_mod]

private theorem toNat_multiplied_higher (hash : Hash) : (multiplied hash).1.toNat =
    (315 * (hash.2.toNat / 2 ^ 32) + 315 * hash.2.toNat % 2 ^ 64 / 2 ^ 32 + 2 ^ 24 * hash.2.toNat % 2 ^ 64 / 2 ^ 32 +
      315 * hash.1.toNat % 2 ^ 64 / 2 ^ 32) % 2 ^ 64 := by
  change ((hash.2 >>> 32) * prime128Lower + (hash.2 * prime128Lower) >>> 32 + (hash.2 <<< prime128Shift.toUInt64) >>> 32 +
    (hash.1 * prime128Lower) >>> 32).toNat = _
  simp only [UInt64.toNat_add, toNat_times, toNat_shifted, toNat_upper, Nat.mod_add_mod]

/-- `multiply128` multiplies modulo `2 ^ 128` only where there is nothing to multiply. -/
theorem number_multiplied_iff (hash : Hash) : number (multiplied hash) = number hash * prime % 2 ^ 128 ↔ hash = (0, 0) := by
  constructor
  · intro same
    have lower_lt := (multiplied hash).2.toNat_lt
    have low : (multiplied hash).2.toNat = 315 * hash.2.toNat % 2 ^ 64 := by
      rw [← product_low hash.1.toNat, ← number, ← same, number, Nat.mul_add_mod, Nat.mod_eq_of_lt lower_lt]
    rw [toNat_multiplied_lower, add_mod_eq_iff] at low
    have high : (multiplied hash).1.toNat = 315 * hash.2.toNat / 2 ^ 64 % 2 ^ 64 := by
      rw [← product_high hash.1.toNat _ low, ← number, ← same, number, Nat.mul_add_div (by decide),
        Nat.div_eq_of_lt lower_lt, Nat.add_zero]
    have higher_word := hash.1.toNat_lt
    have lower_word := hash.2.toNat_lt
    have carry_lt : 315 * hash.2.toNat / 2 ^ 64 < 2 ^ 64 := by omega
    have part_lt (n : ℕ) : n % 2 ^ 64 / 2 ^ 32 < 2 ^ 32 := Nat.div_lt_of_lt_mul (Nat.mod_lt n (by decide))
    rw [toNat_multiplied_higher, Nat.mod_eq_of_lt carry_lt] at high
    obtain ⟨half, shifted, product⟩ := carried_eq_zero lower_word (part_lt _) (part_lt _) (part_lt _) high
    have half : hash.2.toNat < 2 ^ 32 := Nat.lt_of_div_eq_zero (by decide) half
    have whole : 2 ^ 24 * hash.2.toNat % 2 ^ 64 = 2 ^ 24 * hash.2.toNat := Nat.mod_eq_of_lt (by omega)
    rw [whole] at shifted
    rw [← Nat.add_mod_mod] at low
    obtain ⟨lower, clear⟩ := lower_eq_zero half shifted product low
    have higher := higher_eq_zero higher_word clear
    exact Prod.ext (UInt64.toNat_inj.mp higher) (UInt64.toNat_inj.mp lower)
  · rintro rfl
    rfl

/-! ## Bytes -/

private theorem xor_byte (hash : Hash) (byte : UInt8) :
    number (hash.1, hash.2 ^^^ byte.toUInt64) = number hash ^^^ byte.toNat := by
  have low (n : ℕ) (small : n < 2 ^ 64) (k : ℕ) : (2 ^ 64 * hash.1.toNat + n).testBit k =
      if k < 64 then n.testBit k else hash.1.toNat.testBit (k - 64) := Nat.testBit_two_pow_mul_add _ small k
  have byte_lt : byte.toNat < 2 ^ 64 := byte.toNat_lt.trans (by decide)
  apply Nat.eq_of_testBit_eq
  intro k
  rw [number, Nat.testBit_xor, number, low _ (hash.2 ^^^ byte.toUInt64).toNat_lt, low _ hash.2.toNat_lt, UInt64.toNat_xor,
    Nat.testBit_xor, UInt8.toNat_toUInt64]
  split
  · rfl
  · next above =>
    have none_ : byte.toNat.testBit k = false :=
      Nat.testBit_lt_two_pow (byte_lt.trans_le (Nat.pow_le_pow_right (by decide) (not_lt.mp above)))
    rw [none_, Bool.xor_false]

/-- A byte of FNV-1 follows the recurrence from zero only. -/
theorem fnv128_next_iff (hash : Hash) (byte : UInt8) :
    number (FNV128.next hash byte) = fnv1 (number hash) byte ↔ hash = (0, 0) := by
  have stepped : number (FNV128.next hash byte) = number (multiplied hash) ^^^ byte.toNat := xor_byte (multiplied hash) byte
  have cancels : Function.Injective (· ^^^ byte.toNat) :=
    Function.LeftInverse.injective (g := (· ^^^ byte.toNat)) fun h => Nat.xor_xor_cancel_right h byte.toNat
  rw [stepped, fnv1, cancels.eq_iff, number_multiplied_iff]

/-- What FNV-1a multiplies. -/
def added (hash : Hash) (byte : UInt8) : Hash := (hash.1, hash.2 ^^^ byte.toUInt64)

/-- A byte of FNV-1a follows it only where the byte cancels what there is. -/
theorem fnv128a_next_iff (hash : Hash) (byte : UInt8) :
    number (FNV128a.next hash byte) = fnv1a (number hash) byte ↔ added hash byte = (0, 0) := by
  have stepped : FNV128a.next hash byte = multiplied (added hash byte) := rfl
  have step : fnv1a (number hash) byte = number (added hash byte) * prime % 2 ^ 128 := by
    rw [added, xor_byte, fnv1a]
  rw [stepped, step, number_multiplied_iff]

/-! ## Strings -/

private theorem reset_ne_zero : Reset ≠ (0, 0) := by decide

private theorem added_reset_ne_zero (byte : UInt8) : added Reset byte ≠ (0, 0) := by
  intro zero
  have higher : offset128Higher = 0 := congrArg Prod.fst zero
  exact absurd higher (by decide)

/-- Where the first byte of a string always goes wrong, only the empty string is read as far as that. -/
theorem computes_iff {next : Hash → UInt8 → Hash} {data : Bytes}
    (fails : ∀ byte, number (next Reset byte) ≠ recurrence (number Reset) byte) :
    Computes (fun hash data => data.foldl next hash) recurrence data ↔ data = [] := by
  constructor
  · intro computes
    cases data with
    | nil => rfl
    | cons byte data => exact absurd (computes [byte] (List.prefix_append [byte] data)) (fails byte)
  · rintro rfl front inside
    rw [List.prefix_nil.mp inside]
    exact number_reset

/-- Both hashes of the chunks of a string are those of the string, and start from the offset basis. Their product is the
one modulo `2 ^ 128` of zero only, and from the basis they compute their recurrences for the empty string only. -/
theorem fnv128_computes_iff (state : Hash) (chunks : List Bytes) :
    (number (multiply128 state.1 state.2 prime128Lower prime128Shift) = number state * prime % 2 ^ 128 ↔ state = (0, 0)) ∧
      (Computes FNV128.Update fnv1 chunks.flatten ↔ chunks.flatten = []) ∧
      (Computes FNV128a.Update fnv1a chunks.flatten ↔ chunks.flatten = []) ∧
      chunks.foldl FNV128.Update Reset = FNV128.Update Reset chunks.flatten ∧
      chunks.foldl FNV128a.Update Reset = FNV128a.Update Reset chunks.flatten := by
  have first (byte : UInt8) : number (FNV128.next Reset byte) ≠ fnv1 (number Reset) byte :=
    (fnv128_next_iff Reset byte).not.mpr reset_ne_zero
  have firsta (byte : UInt8) : number (FNV128a.next Reset byte) ≠ fnv1a (number Reset) byte :=
    (fnv128a_next_iff Reset byte).not.mpr (added_reset_ne_zero byte)
  exact ⟨number_multiplied_iff state, computes_iff first, computes_iff firsta, List.foldl_flatten.symm,
    List.foldl_flatten.symm⟩

/-- One byte, and a product that crosses the words. -/
theorem fnv128_differs : number (FNV128.Update Reset [97]) ≠ [97].foldl fnv1 offsetBasis ∧
      number (FNV128a.Update Reset [97]) ≠ [97].foldl fnv1a offsetBasis ∧
      multiply128 0 1 prime128Lower prime128Shift = (0, 0x100013b) ∧
        number (0, 1) * prime % 2 ^ 128 = number (0x1000000, 0x13b) := by
  refine ⟨?_, ?_, ?_, ?_⟩ <;> decide +kernel

end Coev.Fnv
