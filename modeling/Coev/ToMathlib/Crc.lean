import Mathlib.Data.BitVec

/-! # Reflected cyclic redundancy checks
A register takes the bits of a message one by one, the lowest bit of a byte first. What is taken in can be added to the
register before or bit by bit, so a byte may be taken in one round of shifts, and a round of shifts may be looked up by
the low bits alone.
-/

namespace Crc

variable {w n : ℕ} {p c d : BitVec w}

/-- The register takes one bit: it is shifted down, and the polynomial is added when the bit that falls out differs from
it. -/
def take (p c : BitVec w) (bit : Bool) : BitVec w := if c.getLsbD 0 ^^ bit then (c >>> 1) ^^^ p else c >>> 1

/-- The register is shifted down. -/
def shift (p c : BitVec w) : BitVec w := take p c false

/-- The lowest bits of a word, the lowest one first. -/
def low : ℕ → BitVec w → List Bool
  | 0, _ => []
  | n + 1, d => d.getLsbD 0 :: low n (d >>> 1)

/-- The register takes the bytes of a message. -/
def register (p c : BitVec w) (message : List (BitVec 8)) : BitVec w := (message.flatMap (low 8)).foldl (take p) c

/-- The check of a message: it begins with ones, and its complement is what counts. -/
def checksum (p : BitVec w) (message : List (BitVec 8)) : BitVec w := ~~~register p (BitVec.allOnes w) message

/-! ## Taking bits and adding them before -/

theorem take_xor (p c d : BitVec w) (bit : Bool) : take p (c ^^^ d) bit = take p c (d.getLsbD 0 ^^ bit) ^^^ (d >>> 1) := by
  unfold take
  rw [BitVec.getLsbD_xor, BitVec.ushiftRight_xor_distrib, Bool.xor_assoc]
  split
  · rw [BitVec.xor_assoc, BitVec.xor_assoc, BitVec.xor_comm p]
  · rfl

theorem shift_xor (p c d : BitVec w) : shift p (c ^^^ d) = take p c (d.getLsbD 0) ^^^ (d >>> 1) := by
  rw [shift, take_xor, Bool.xor_false]

/-- What is added to the register before is taken bit by bit, and what was not shifted out yet is still there. -/
theorem shift_iterate_xor (p c d : BitVec w) (n : ℕ) :
    (shift p)^[n] (c ^^^ d) = (low n d).foldl (take p) c ^^^ (d >>> n) := by
  induction n generalizing c d with
  | zero => rw [Function.iterate_zero, id, low, List.foldl_nil, BitVec.ushiftRight_zero]
  | succ n ih =>
    rw [Function.iterate_succ_apply, shift_xor, ih, low, List.foldl_cons, ← BitVec.shiftRight_add, Nat.add_comm 1 n]

theorem low_of_clear (clear : ∀ k < n, d.getLsbD k = false) : low n d = List.replicate n false := by
  induction n generalizing d with
  | zero => rfl
  | succ n ih =>
    rw [low, clear 0 (Nat.succ_pos n), List.replicate_succ, ih]
    intro k below
    rw [BitVec.getLsbD_ushiftRight]
    exact clear (1 + k) (by omega)

theorem foldl_take_replicate (p c : BitVec w) (n : ℕ) : (List.replicate n false).foldl (take p) c = (shift p)^[n] c := by
  induction n generalizing c with
  | zero => rfl
  | succ n ih => rw [List.replicate_succ, List.foldl_cons, ih, Function.iterate_succ_apply, shift]

theorem low_add (m n : ℕ) (d : BitVec w) : low (m + n) d = low m d ++ low n (d >>> m) := by
  induction m generalizing d with
  | zero => rw [Nat.zero_add, low, List.nil_append, BitVec.ushiftRight_zero]
  | succ m ih => rw [Nat.succ_add, low, ih, low, List.cons_append, ← BitVec.shiftRight_add, Nat.add_comm 1 m]

/-- A whole word is taken by adding it to the register. -/
theorem foldl_take_low (p c d : BitVec w) : (low w d).foldl (take p) c = (shift p)^[w] (c ^^^ d) := by
  have out : d >>> w = 0#w := BitVec.ushiftRight_eq_zero le_rfl
  rw [shift_iterate_xor, out, BitVec.xor_zero]

/-! ## Bytes -/

theorem low_eq (n : ℕ) (d : BitVec w) : low n d = (List.range n).map d.getLsbD := by
  induction n generalizing d with
  | zero => rfl
  | succ n ih =>
    rw [low, ih, List.range_succ_eq_map, List.map_cons, List.map_map]
    refine congrArg _ (List.map_congr_left fun k _ => ?_)
    rw [BitVec.getLsbD_ushiftRight, Function.comp_apply, Nat.add_comm]

theorem low_setWidth {v : ℕ} (d : BitVec v) (within : n ≤ w) : low n (d.setWidth w) = low n d := by
  rw [low_eq, low_eq]
  apply List.map_congr_left
  intro k member
  have below : k < w := (List.mem_range.mp member).trans_le within
  rw [BitVec.getLsbD_setWidth, decide_eq_true below, Bool.true_and]

/-- A byte is taken by adding it to the register and shifting that down eight times. -/
theorem register_byte (p c : BitVec w) (byte : BitVec 8) (wide : 8 ≤ w) :
    (low 8 byte).foldl (take p) c = (shift p)^[8] (c ^^^ byte.setWidth w) := by
  have out : byte.setWidth w >>> 8 = 0#w := by
    apply BitVec.eq_of_getLsbD_eq
    intro k _
    rw [BitVec.getLsbD_ushiftRight, BitVec.getLsbD_setWidth, BitVec.getLsbD_of_ge byte _ (by omega), Bool.and_false,
      BitVec.getLsbD_zero]
  rw [shift_iterate_xor, out, BitVec.xor_zero, low_setWidth byte wide]

/-- The low bits of the register decide what a round of shifts adds to the others. -/
theorem shift_iterate_eq (p c : BitVec w) (n : ℕ) :
    (shift p)^[n] c = (shift p)^[n] ((c.setWidth n).setWidth w) ^^^ (c >>> n) := by
  have high : (c.setWidth n).setWidth w >>> n = 0#w := by
    apply BitVec.eq_of_getLsbD_eq
    intro k _
    rw [BitVec.getLsbD_ushiftRight, BitVec.getLsbD_setWidth, BitVec.getLsbD_of_ge (c.setWidth n) _ (by omega),
      Bool.and_false,
      BitVec.getLsbD_zero]
  have clear : ∀ k < n, ((c.setWidth n).setWidth w ^^^ c).getLsbD k = false := by
    intro k below
    rw [BitVec.getLsbD_xor, BitVec.getLsbD_setWidth, BitVec.getLsbD_setWidth, decide_eq_true below, Bool.true_and]
    obtain inside | outside := lt_or_ge k w
    · rw [decide_eq_true inside, Bool.true_and, Bool.xor_self]
    · rw [BitVec.getLsbD_of_ge c k outside, Bool.and_false, Bool.xor_self]
  have parts : c = (c.setWidth n).setWidth w ^^^ ((c.setWidth n).setWidth w ^^^ c) := by
    rw [← BitVec.xor_assoc, BitVec.xor_self, BitVec.zero_xor]
  calc (shift p)^[n] c
      = (shift p)^[n] ((c.setWidth n).setWidth w ^^^ ((c.setWidth n).setWidth w ^^^ c)) := by rw [← parts]
    _ = (shift p)^[n] ((c.setWidth n).setWidth w) ^^^ (((c.setWidth n).setWidth w ^^^ c) >>> n) := by
      rw [shift_iterate_xor, low_of_clear clear, foldl_take_replicate]
    _ = _ := by rw [BitVec.ushiftRight_xor_distrib, high, BitVec.zero_xor]

/-- A byte is taken by a look-up under the low bits of the register and the byte. -/
theorem register_lookup (p c : BitVec w) (byte : BitVec 8) (wide : 8 ≤ w) :
    (low 8 byte).foldl (take p) c = (shift p)^[8] ((c.setWidth 8 ^^^ byte).setWidth w) ^^^ (c >>> 8) := by
  have out : byte.setWidth w >>> 8 = 0#w := by
    apply BitVec.eq_of_getLsbD_eq
    intro k _
    rw [BitVec.getLsbD_ushiftRight, BitVec.getLsbD_setWidth, BitVec.getLsbD_of_ge byte _ (by omega), Bool.and_false,
      BitVec.getLsbD_zero]
  have index : (c ^^^ byte.setWidth w).setWidth 8 = c.setWidth 8 ^^^ byte := by
    rw [BitVec.setWidth_xor, BitVec.setWidth_setWidth_of_le _ wide, BitVec.setWidth_eq]
  rw [register_byte p c byte wide, shift_iterate_eq, index, BitVec.ushiftRight_xor_distrib, out, BitVec.xor_zero]

/-! ## Messages -/

theorem register_cons (p c : BitVec w) (byte : BitVec 8) (message : List (BitVec 8)) :
    register p c (byte :: message) = register p ((low 8 byte).foldl (take p) c) message := by
  rw [register, List.flatMap_cons, List.foldl_append, register]

theorem register_append (p c : BitVec w) (front rest : List (BitVec 8)) :
    register p c (front ++ rest) = register p (register p c front) rest := by
  rw [register, List.flatMap_append, List.foldl_append, register, register]

/-! ## Telling words apart -/

/-- A polynomial with the highest bit hands on the bit that falls out. -/
theorem msb_shift (p c : BitVec w) (top : p.msb = true) : (shift p c).msb = c.getLsbD 0 := by
  have clear : (c >>> 1).msb = false := by
    rw [BitVec.msb_ushiftRight]
    rfl
  rw [shift, take, Bool.xor_false]
  split
  · next falls => rw [BitVec.msb_xor, clear, top, falls]; rfl
  · next stays => rw [clear, Bool.eq_false_of_not_eq_true stays]

/-- Where the polynomial has its highest bit, no two registers are shifted to the same one. -/
theorem shift_injective (p : BitVec w) (top : p.msb = true) : Function.Injective (shift p) := by
  intro c d same
  have lowest : c.getLsbD 0 = d.getLsbD 0 := by rw [← msb_shift p c top, same, msb_shift p d top]
  have rest : c >>> 1 = d >>> 1 := by
    rw [shift, shift, take, take, Bool.xor_false, Bool.xor_false, lowest] at same
    split at same
    · exact BitVec.xor_left_inj p |>.mp same
    · exact same
  apply BitVec.eq_of_getLsbD_eq
  intro k _
  cases k with
  | zero => exact lowest
  | succ k =>
    have bit := congrArg (fun r => r.getLsbD k) rest
    rwa [BitVec.getLsbD_ushiftRight, BitVec.getLsbD_ushiftRight, Nat.add_comm] at bit

end Crc
