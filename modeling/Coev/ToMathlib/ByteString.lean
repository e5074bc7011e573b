import Mathlib.Data.List.Basic
import Mathlib.Tactic.Linarith
import Mathlib.Tactic.Ring

/-! # Byte strings: big-endian words and overlaid segments

A word of `w` bytes is written most significant byte first and read back modulo `256 ^ w`.
Overlaying replaces a segment of a fixed-size buffer; adjacent and covering overlays fuse, which is
what a writer that leaves a gap and fills it in later needs.
-/

namespace ByteString

/-- The `w` low bytes of a natural, most significant first. -/
def bigEndian : ℕ → ℕ → List UInt8
  | 0, _ => []
  | w + 1, n => UInt8.ofNat (n / 256 ^ w) :: bigEndian w n

/-- The natural denoted by big-endian bytes. -/
def value (bytes : List UInt8) : ℕ :=
  bytes.foldl (fun acc byte => acc * 256 + byte.toNat) 0

@[simp] theorem length_bigEndian (w n : ℕ) : (bigEndian w n).length = w := by
  induction w with
  | zero => rfl
  | succ w ih => simp [bigEndian, ih]

private theorem foldl_bigEndian (w n acc : ℕ) :
    (bigEndian w n).foldl (fun acc byte => acc * 256 + byte.toNat) acc = acc * 256 ^ w + n % 256 ^ w := by
  induction w generalizing acc with
  | zero => simp [bigEndian, Nat.mod_one]
  | succ w ih =>
    rw [bigEndian, List.foldl_cons, ih]
    have byte : (UInt8.ofNat (n / 256 ^ w)).toNat = n / 256 ^ w % 256 := by simp
    have split : n % 256 ^ (w + 1) = n / 256 ^ w % 256 * 256 ^ w + n % 256 ^ w := by
      rw [pow_succ, Nat.mod_mul, Nat.mul_comm (256 ^ w), Nat.add_comm]
    rw [byte, split, pow_succ]
    ring

/-- Reading back a written word yields it modulo the word's range. -/
theorem value_bigEndian (w n : ℕ) : value (bigEndian w n) = n % 256 ^ w := by
  rw [value, foldl_bigEndian, Nat.zero_mul, Nat.zero_add]

theorem value_bigEndian_of_lt {w n : ℕ} (small : n < 256 ^ w) : value (bigEndian w n) = n := by
  rw [value_bigEndian, Nat.mod_eq_of_lt small]

private theorem foldl_value (bytes : List UInt8) (acc : ℕ) :
    bytes.foldl (fun acc byte => acc * 256 + byte.toNat) acc = acc * 256 ^ bytes.length + value bytes := by
  induction bytes generalizing acc with
  | nil => simp [value]
  | cons byte bytes ih =>
    rw [value, List.foldl_cons, List.foldl_cons, ih, ih (0 * 256 + byte.toNat), List.length_cons, pow_succ]
    ring

theorem value_append (front back : List UInt8) :
    value (front ++ back) = value front * 256 ^ back.length + value back := by
  rw [value, List.foldl_append, foldl_value back]
  rfl

theorem value_cons (byte : UInt8) (bytes : List UInt8) :
    value (byte :: bytes) = byte.toNat * 256 ^ bytes.length + value bytes := by
  rw [← List.singleton_append, value_append]
  simp [value]

theorem value_lt (bytes : List UInt8) : value bytes < 256 ^ bytes.length := by
  induction bytes with
  | nil => simp [value]
  | cons byte bytes ih =>
    have digit : byte.toNat + 1 ≤ 256 := byte.toNat_lt
    calc value (byte :: bytes) < (byte.toNat + 1) * 256 ^ bytes.length := by rw [value_cons]; linarith
      _ ≤ 256 * 256 ^ bytes.length := Nat.mul_le_mul_right _ digit
      _ = 256 ^ (byte :: bytes).length := by rw [List.length_cons, pow_succ, Nat.mul_comm]

/-- The low bytes of a word that was read are the last bytes of it. -/
theorem bigEndian_value_append (front back : List UInt8) : bigEndian back.length (value (front ++ back)) = back := by
  induction back generalizing front with
  | nil => rfl
  | cons byte back ih =>
    have shifted : front ++ byte :: back = (front ++ [byte]) ++ back := by simp
    have high : value (front ++ byte :: back) / 256 ^ back.length = value front * 256 + byte.toNat := by
      rw [shifted, value_append, Nat.mul_comm, Nat.mul_add_div (Nat.pow_pos (by decide)), Nat.div_eq_of_lt (value_lt back),
        value_append]
      simp [value]
    rw [List.length_cons, bigEndian, high, shifted, ih]
    congr 1
    apply UInt8.toNat_inj.mp
    have small : byte.toNat < 256 := byte.toNat_lt
    simp only [UInt8.toNat_ofNat']
    omega

/-- A word is its high bytes and then its low ones. -/
theorem bigEndian_add (high low n : ℕ) : bigEndian (high + low) n = bigEndian high (n / 256 ^ low) ++ bigEndian low n := by
  induction high with
  | zero => simp [bigEndian]
  | succ high ih =>
    rw [Nat.add_right_comm, bigEndian, bigEndian, ih, List.cons_append, Nat.div_div_eq_div_mul, ← pow_add, Nat.add_comm low]

variable {α : Type*}

/-- Replace the segment of `dst` that starts at `start` by `src`. -/
def overlay (dst : List α) (start : ℕ) (src : List α) : List α :=
  dst.take start ++ src ++ dst.drop (start + src.length)

@[simp] theorem overlay_nil (dst : List α) (start : ℕ) : overlay dst start [] = dst := by
  simp [overlay]

variable {dst src : List α}

theorem length_overlay {start : ℕ} (fits : start + src.length ≤ dst.length) :
    (overlay dst start src).length = dst.length := by
  simp only [overlay, List.length_append, List.length_take, List.length_drop]
  omega

theorem take_overlay {dst src : List α} {start : ℕ} (inside : start ≤ dst.length) :
    (overlay dst start src).take start = dst.take start := by
  rw [overlay, List.append_assoc, List.take_append_of_le_length (by rw [List.length_take]; omega),
    List.take_take, Nat.min_self]

theorem drop_overlay {start : ℕ} (fits : start + src.length ≤ dst.length) :
    (overlay dst start src).drop (start + src.length) = dst.drop (start + src.length) := by
  have front : (dst.take start ++ src).length = start + src.length := by
    rw [List.length_append, List.length_take]; omega
  rw [overlay, ← front, List.drop_left]

/-- Reading back the segment just overlaid. -/
theorem segment_overlay {dst src : List α} {start : ℕ} (inside : start ≤ dst.length) :
    ((overlay dst start src).drop start).take src.length = src := by
  have front : (dst.take start).length = start := by rw [List.length_take]; omega
  have cut : (overlay dst start src).drop start = src ++ dst.drop (start + src.length) := by
    rw [overlay, List.append_assoc, List.drop_append_of_le_length (by omega),
      List.drop_of_length_le (by omega), List.nil_append]
  rw [cut, List.take_left]

/-- Overlaying the whole buffer leaves only the overlaid bytes. -/
theorem overlay_all (size : dst.length = src.length) : overlay dst 0 src = src := by
  rw [overlay, List.take_zero, List.nil_append, Nat.zero_add, ← size, List.drop_length, List.append_nil]

/-- Two adjacent overlays, the first one before the second, are one overlay. -/
theorem overlay_overlay_append {dst first second : List α} {start : ℕ} (fits : start + first.length ≤ dst.length) :
    overlay (overlay dst start first) (start + first.length) second = overlay dst start (first ++ second) := by
  have front : (dst.take start ++ first).length = start + first.length := by
    rw [List.length_append, List.length_take]; omega
  have kept : (overlay dst start first).take (start + first.length) = dst.take start ++ first := by
    rw [overlay, ← front, List.take_left]
  have gone : (overlay dst start first).drop (start + first.length + second.length) =
      dst.drop (start + first.length + second.length) := by
    rw [← List.drop_drop, drop_overlay fits, List.drop_drop]
  rw [overlay, kept, gone, overlay, List.length_append, Nat.add_assoc]
  simp only [List.append_assoc]

/-- A header written last over a reserved gap, possibly longer than the gap: it replaces the
beginning of the body that was written after the gap. -/
theorem overlay_header {dst body header : List α} {start gap : ℕ}
    (fits : start + gap + body.length ≤ dst.length) (covers : gap ≤ header.length)
    (within : header.length ≤ gap + body.length) : overlay (overlay dst (start + gap) body) start header =
      overlay dst start (header ++ body.drop (header.length - gap)) := by
  have kept : (overlay dst (start + gap) body).take start = dst.take start := by
    have := congrArg (List.take start) (@take_overlay _ dst body (start + gap) (by omega))
    simpa only [List.take_take, Nat.min_eq_left (Nat.le_add_right start gap)] using this
  have front : (dst.take (start + gap)).length = start + gap := by rw [List.length_take]; omega
  have rest : (overlay dst (start + gap) body).drop (start + header.length) =
      body.drop (header.length - gap) ++ dst.drop (start + gap + body.length) := by
    rw [overlay, List.append_assoc, List.drop_append, List.drop_of_length_le (by omega), front,
      List.nil_append, List.drop_append_of_le_length (by omega)]
    congr 2
    omega
  have total : start + (header ++ body.drop (header.length - gap)).length = start + gap + body.length := by
    rw [List.length_append, List.length_drop]; omega
  rw [overlay, kept, rest]
  conv_rhs => rw [overlay, total]
  simp only [List.append_assoc]

end ByteString
