import Mathlib.Tactic.Ring

/-! # Base-128 variable-length naturals and the zigzag pairing

Seven payload bits a byte, least significant group first, with the top bit of a byte announcing
another group. The encoding is the shortest one, so its length is decided by the powers of 128
alone. Zigzag interleaves the integers into the naturals so that small magnitudes stay short.
-/

namespace Leb128

variable {n : ℕ}

/-- The shortest base-128 encoding: every byte but the last has its top bit set. -/
def encode (n : ℕ) : List UInt8 :=
  if n < 128 then [UInt8.ofNat n] else UInt8.ofNat (n % 128 + 128) :: encode (n / 128)

/-- The number of bytes of the shortest encoding: one for each seven significant bits begun. -/
def size (n : ℕ) : ℕ :=
  n.log2 / 7 + 1

theorem encode_of_lt (small : n < 128) : encode n = [UInt8.ofNat n] := by
  rw [encode, if_pos small]

theorem encode_of_le (large : 128 ≤ n) : encode n = UInt8.ofNat (n % 128 + 128) :: encode (n / 128) := by
  rw [encode, if_neg (by omega)]

theorem size_of_lt (small : n < 128) : size n = 1 := by
  have bound : n.log2 < 7 := by
    by_cases zero : n = 0
    · subst zero; decide
    · exact (Nat.log2_lt zero).mpr small
  rw [size]
  omega

private theorem log2_div_two (large : 2 ≤ n) : n.log2 = (n / 2).log2 + 1 := by
  rw [Nat.log2_def, if_pos large]

theorem size_of_le (large : 128 ≤ n) : size n = size (n / 128) + 1 := by
  have shifted : n.log2 = (n / 128).log2 + 7 := by
    rw [log2_div_two (by omega), log2_div_two (by omega), log2_div_two (by omega),
      log2_div_two (by omega), log2_div_two (by omega), log2_div_two (by omega),
      log2_div_two (by omega)]
    simp only [Nat.div_div_eq_div_mul]
  rw [size, size, shifted]
  omega

theorem length_encode (n : ℕ) : (encode n).length = size n := by
  induction n using Nat.strong_induction_on with
  | h n ih =>
    by_cases small : n < 128
    · rw [encode_of_lt small, size_of_lt small, List.length_singleton]
    · have large : 128 ≤ n := by omega
      rw [encode_of_le large, size_of_le large, List.length_cons, ih (n / 128) (by omega)]

theorem size_pos (n : ℕ) : 0 < size n := Nat.succ_pos _

/-- An encoding fits in `k` bytes exactly below the `k`-th power of the base. -/
theorem size_le_iff {k : ℕ} (positive : 0 < k) (n : ℕ) : size n ≤ k ↔ n < 128 ^ k := by
  induction k generalizing n with
  | zero => omega
  | succ k ih =>
    by_cases small : n < 128
    · have power : 128 ≤ 128 ^ (k + 1) := Nat.le_self_pow (by omega) 128
      rw [size_of_lt small]
      omega
    · have large : 128 ≤ n := by omega
      rw [size_of_le large, pow_succ]
      cases k with
      | zero =>
        have := size_pos (n / 128)
        simp only [zero_add, pow_zero, one_mul]
        omega
      | succ k =>
        rw [Nat.add_le_add_iff_right, ih (by omega) (n / 128), Nat.div_lt_iff_lt_mul (by omega)]

theorem size_mono {m n : ℕ} (le : m ≤ n) : size m ≤ size n := by
  have bound := (size_le_iff (size_pos n) n).mp le_rfl
  exact (size_le_iff (size_pos n) m).mpr (by omega)

/-- Doubling lengthens the encoding exactly when the highest set bit fills a seven-bit group. -/
theorem size_two_mul (positive : 0 < n) : size (2 * n) = if n.log2 % 7 = 6 then size n + 1 else size n := by
  have double : (2 * n).log2 = n.log2 + 1 := by
    rw [log2_div_two (by omega), Nat.mul_div_cancel_left n (by omega)]
  rw [size, size, double]
  split_ifs <;> omega

/-! ## Reading an encoding -/

/-- The value that the bytes begin with and how many of them it takes, however many that are. No value is there where every
byte announces another one. -/
def decode : List UInt8 → Option (ℕ × ℕ)
  | [] => none
  | b :: rest =>
    if b.toNat < 128 then some (b.toNat, 1)
    else (decode rest).map fun high => (b.toNat % 128 + 128 * high.1, high.2 + 1)

theorem decode_cons_of_lt {b : UInt8} (last : b.toNat < 128) (rest : List UInt8) :
    decode (b :: rest) = some (b.toNat, 1) := by
  rw [decode, if_pos last]

theorem decode_cons_of_le {b : UInt8} (more : 128 ≤ b.toNat) (rest : List UInt8) :
    decode (b :: rest) = (decode rest).map fun high => (b.toNat % 128 + 128 * high.1, high.2 + 1) := by
  rw [decode, if_neg (by omega)]

/-- A value of `n` bytes has `n - 1` groups below its last byte. -/
theorem decode_spec {bytes : List UInt8} {v n : ℕ} (decoded : decode bytes = some (v, n)) :
    ∃ front b rest low, bytes = front ++ b :: rest ∧ n = front.length + 1 ∧ (∀ c ∈ front, 128 ≤ c.toNat) ∧ b.toNat < 128 ∧
      v = low + b.toNat * 128 ^ front.length ∧ low < 128 ^ front.length := by
  induction bytes generalizing v n with
  | nil => cases decoded
  | cons b rest ih =>
    by_cases last : b.toNat < 128
    · rw [decode_cons_of_lt last] at decoded
      cases decoded
      exact ⟨[], b, rest, 0, rfl, rfl, by simp, last, by simp, by simp⟩
    · rw [decode_cons_of_le (by omega)] at decoded
      obtain ⟨⟨w, k⟩, decoded', same⟩ := Option.map_eq_some_iff.mp decoded
      cases same
      obtain ⟨front, c, rest', low, rfl, rfl, continued, small, rfl, below⟩ := ih decoded'
      refine ⟨b :: front, c, rest', b.toNat % 128 + 128 * low, rfl, rfl, ?_, small, ?_, ?_⟩
      · exact List.forall_mem_cons.mpr ⟨by omega, continued⟩
      · rw [List.length_cons, pow_succ]
        ring
      · rw [List.length_cons, pow_succ]
        omega

theorem decode_append {front : List UInt8} (continued : ∀ c ∈ front, 128 ≤ c.toNat) {b : UInt8} (last : b.toNat < 128)
    (rest : List UInt8) : ∃ low < 128 ^ front.length, decode (front ++ b :: rest) =
      some (low + b.toNat * 128 ^ front.length, front.length + 1) := by
  induction front with
  | nil => exact ⟨0, by simp, by simp [decode_cons_of_lt last]⟩
  | cons c front ih =>
    obtain ⟨more, continued⟩ := List.forall_mem_cons.mp continued
    obtain ⟨low, below, decoded⟩ := ih continued
    refine ⟨c.toNat % 128 + 128 * low, ?_, ?_⟩
    · rw [List.length_cons, pow_succ]
      omega
    · rw [List.cons_append, decode_cons_of_le more, decoded, Option.map_some, List.length_cons, pow_succ]
      congr 2
      ring

/-- A value of `n` bytes is below the `n`-th power of the base. -/
theorem lt_of_decode {bytes : List UInt8} {v n : ℕ} (decoded : decode bytes = some (v, n)) : 0 < n ∧ v < 128 ^ n := by
  obtain ⟨front, b, rest, low, -, rfl, -, last, rfl, below⟩ := decode_spec decoded
  refine ⟨Nat.succ_pos _, ?_⟩
  rw [pow_succ]
  calc low + b.toNat * 128 ^ front.length < (b.toNat + 1) * 128 ^ front.length := by
        rw [Nat.succ_mul, Nat.add_comm]
        exact Nat.add_lt_add_left below _
    _ ≤ 128 ^ front.length * 128 := by
      rw [Nat.mul_comm]
      exact Nat.mul_le_mul_left _ last

/-- What was encoded is decoded, whatever follows. -/
theorem decode_encode (n : ℕ) (rest : List UInt8) : decode (encode n ++ rest) = some (n, size n) := by
  induction n using Nat.strong_induction_on with
  | h n ih =>
    by_cases small : n < 128
    · have value : (UInt8.ofNat n).toNat = n := by simp; omega
      rw [encode_of_lt small, List.singleton_append, decode_cons_of_lt (by omega), value, size_of_lt small]
    · have value : (UInt8.ofNat (n % 128 + 128)).toNat = n % 128 + 128 := by simp; omega
      rw [encode_of_le (by omega), List.cons_append, decode_cons_of_le (by omega), ih (n / 128) (by omega), value,
        size_of_le (n := n) (by omega), Option.map_some]
      congr 2
      omega

/-- The integers interleaved into the naturals: `0, -1, 1, -2, 2, …`. -/
def zigzag (x : ℤ) : ℕ :=
  if 0 ≤ x then (2 * x).toNat else (-2 * x - 1).toNat

theorem zigzag_of_nonneg {x : ℤ} (nonneg : 0 ≤ x) : (zigzag x : ℤ) = 2 * x := by
  rw [zigzag, if_pos nonneg]; omega

theorem zigzag_of_neg {x : ℤ} (neg : x < 0) : (zigzag x : ℤ) = -2 * x - 1 := by
  rw [zigzag, if_neg (by omega)]; omega

theorem zigzag_injective : Function.Injective zigzag := by
  intro x y same
  unfold zigzag at same
  split_ifs at same <;> omega

/-- A zigzag value lies below an even bound exactly when the integer is in the halved window. -/
theorem zigzag_lt_two_mul_iff (x : ℤ) (bound : ℕ) : zigzag x < 2 * bound ↔ -(bound : ℤ) ≤ x ∧ x < bound := by
  unfold zigzag
  split_ifs <;> omega

/-- The window of integers whose zigzag encoding fits in `k` bytes. -/
theorem size_zigzag_le_iff {k : ℕ} (positive : 0 < k) (x : ℤ) :
    size (zigzag x) ≤ k ↔ -(64 * 128 ^ (k - 1) : ℤ) ≤ x ∧ x < 64 * 128 ^ (k - 1) := by
  obtain ⟨j, rfl⟩ : ∃ j, k = j + 1 := ⟨k - 1, by omega⟩
  have power : 128 ^ (j + 1) = 2 * (64 * 128 ^ j) := by ring
  rw [size_le_iff positive, power, zigzag_lt_two_mul_iff, Nat.add_sub_cancel]
  push_cast
  rfl

end Leb128
