import Coev.Proofs.Kafka.CompositeReads

/-! # What the varint readers return
Both readers gather at most ten groups of seven bits and differ in what they refuse of the tenth. What they return is
the value of the bytes modulo `2 ^ 64`.
-/

namespace Coev.Kafka

open PacketDecoder

variable {α : Type} {refuse : UInt64 → UInt8 → Prop} [∀ ux b, Decidable (refuse ux b)] {result : UInt64 → α}
  {overflow : KError}

namespace PacketDecoder

variable {pd pd' : PacketDecoder}

/-- The loop of a varint reader that refuses some values with a tenth byte. -/
def groupLoop (refuse : UInt64 → UInt8 → Prop) [∀ ux b, Decidable (refuse ux b)] (result : UInt64 → α) (overflow : KError) :
    ℕ → UInt64 → Decode α
  | 0, _ => fun pd => .error (.code overflow) { pd with offset := pd.offset - 10 }
  | fuel + 1, ux => fun pd =>
    match pd.unread with
    | [] => insufficient pd
    | b :: _ =>
      let pd := pd.advance 1
      let ux := ux ||| (b &&& 0x7F).toUInt64 <<< (UInt64.ofNat (7 * (9 - fuel)))
      if b &&& 0x80 = 0 then
        if fuel = 0 ∧ refuse ux (b &&& 0x7F) then .error (.code overflow) { pd with offset := pd.offset - 10 }
        else .ok (result ux) pd
      else groupLoop refuse result overflow fuel ux pd

theorem getVariantLoop_eq (fuel : ℕ) (ux : UInt64) : getVariantLoop fuel ux =
      groupLoop (fun ux b => ux &&& 0xFE00000000000000 ≠ 0 ∨ 1 < b) zigzagDecode ErrVariantOverflow fuel ux := by
  induction fuel generalizing ux with
  | zero => rfl
  | succ fuel ih =>
    funext pd
    cases ahead : pd.unread with
    | nil => simp only [getVariantLoop, groupLoop, ahead]
    | cons b rest => simp only [getVariantLoop, groupLoop, ahead, ih]

theorem getUVariantLoop_eq (fuel : ℕ) (ux : UInt64) :
    getUVariantLoop fuel ux = groupLoop (fun ux _ => ux >>> 63 ≠ 0) id ErrUVariantOverflow fuel ux := by
  induction fuel generalizing ux with
  | zero => rfl
  | succ fuel ih =>
    funext pd
    cases ahead : pd.unread with
    | nil => simp only [getUVariantLoop, groupLoop, ahead]
    | cons b rest => simp only [getUVariantLoop, groupLoop, ahead, ih, id]

/-- A group above an accumulator of `i` groups; of the tenth one only the lowest bit remains. -/
theorem or_group_eq {acc : UInt64} {b : UInt8} {i : ℕ} (round : i ≤ 9) (below : acc.toNat < 2 ^ (7 * i)) :
    acc ||| (b &&& 0x7F).toUInt64 <<< UInt64.ofNat (7 * i) = UInt64.ofNat (acc.toNat + b.toNat % 128 * 2 ^ (7 * i)) := by
  have shift : (UInt64.ofNat (7 * i)).toNat = 7 * i := UInt64.toNat_ofNat_of_lt (by simp only [UInt64.size]; omega)
  have word : 2 ^ 64 = 2 ^ (64 - 7 * i) * 2 ^ (7 * i) := by rw [← pow_add]; congr 1; omega
  have moved : ((b &&& 0x7F).toUInt64 <<< UInt64.ofNat (7 * i)).toNat = b.toNat % 128 % 2 ^ (64 - 7 * i) * 2 ^ (7 * i) := by
    rw [UInt64.toNat_shiftLeft, shift, Nat.mod_eq_of_lt (by omega : 7 * i < 64), Nat.shiftLeft_eq, UInt8.toNat_toUInt64,
      toNat_group, word, Nat.mul_mod_mul_right]
  have kept : b.toNat % 128 % 2 ^ (64 - 7 * i) < 2 ^ (64 - 7 * i) := Nat.mod_lt _ (by positivity)
  have inside : acc.toNat + b.toNat % 128 % 2 ^ (64 - 7 * i) * 2 ^ (7 * i) < 2 ^ 64 := by
    have top := Nat.mul_le_mul_right (2 ^ (7 * i)) (Nat.succ_le_of_lt kept)
    rw [← word, Nat.succ_mul] at top
    omega
  have cut : b.toNat % 128 * 2 ^ (7 * i) % 2 ^ 64 = b.toNat % 128 % 2 ^ (64 - 7 * i) * 2 ^ (7 * i) := by
    rw [word, Nat.mul_mod_mul_right]
  apply UInt64.toNat_inj.mp
  rw [UInt64.toNat_or, moved, Nat.or_comm, Nat.mul_comm, ← Nat.two_pow_add_eq_or_of_lt below, UInt64.toNat_ofNat',
    ← Nat.add_mod_mod, cut, Nat.mod_eq_of_lt inside, Nat.add_comm, Nat.mul_comm]

/-- What the loop returns is the value of the bytes, if there are not too many and the tenth one is not refused. -/
theorem groupLoop_ok_iff {i fuel : ℕ} {acc : UInt64} {a : α} (rounds : i + fuel = 10) (below : acc.toNat < 2 ^ (7 * i)) :
    groupLoop refuse result overflow fuel acc pd = .ok a pd' ↔ ∃ v n, Leb128.decode pd.unread = some (v, n) ∧ n ≤ fuel ∧
        ¬ (n = fuel ∧ refuse (UInt64.ofNat (acc.toNat + v * 2 ^ (7 * i))) (UInt8.ofNat (v / 128 ^ (n - 1)))) ∧
        a = result (UInt64.ofNat (acc.toNat + v * 2 ^ (7 * i))) ∧ pd' = pd.advance n := by
  induction fuel generalizing i acc pd with
  | zero =>
    refine iff_of_false (fun run => by cases run) ?_
    rintro ⟨v, n, decoded, none_, -⟩
    have := (Leb128.lt_of_decode decoded).1
    omega
  | succ fuel ih =>
    have shift : 9 - fuel = i := by omega
    cases ahead : pd.unread with
    | nil =>
      simp only [groupLoop, ahead, insufficient]
      refine iff_of_false (fun run => by cases run) ?_
      rintro ⟨v, n, decoded, -⟩
      cases decoded
    | cons b rest =>
      have sum := or_group_eq (b := b) (by omega : i ≤ 9) below
      simp only [groupLoop, ahead, shift]
      rw [sum]
      by_cases last : b.toNat < 128
      · have group : b &&& 0x7F = UInt8.ofNat (b.toNat / 128 ^ (1 - 1)) := by
          apply UInt8.toNat_inj.mp
          rw [toNat_group, Nat.sub_self, pow_zero, Nat.div_one, UInt8.ofNat_toNat, Nat.mod_eq_of_lt last]
        have first : 1 = fuel + 1 ↔ fuel = 0 := by omega
        rw [if_pos ((and_top_eq_zero_iff b).mpr last), Leb128.decode_cons_of_lt last, group, Nat.mod_eq_of_lt last]
        constructor
        · intro run
          split at run
          next => cases run
          next fits =>
            cases run
            exact ⟨_, _, rfl, by omega, by rwa [first], rfl, rfl⟩
        · rintro ⟨v, n, decoded, -, fits, rfl, rfl⟩
          cases decoded
          rw [first] at fits
          rw [if_neg fits]
      · have more : 128 ≤ b.toNat := not_lt.mp last
        rw [if_neg (mt (and_top_eq_zero_iff b).mp last), Leb128.decode_cons_of_le more]
        cases fuel with
        | zero =>
          refine iff_of_false (fun run => by cases run) ?_
          rintro ⟨v, n, decoded, short, -⟩
          obtain ⟨⟨w, k⟩, decoded', same⟩ := Option.map_eq_some_iff.mp decoded
          have := (Leb128.lt_of_decode decoded').1
          cases same
          omega
        | succ fuel =>
          have small : i ≤ 8 := by omega
          have power : 2 ^ (7 * (i + 1)) = 128 * 2 ^ (7 * i) := by
            rw [Nat.mul_succ, pow_add, Nat.mul_comm]
            norm_num
          have below' : acc.toNat + b.toNat % 128 * 2 ^ (7 * i) < 2 ^ (7 * (i + 1)) := by
            have group := Nat.mul_le_mul_right (2 ^ (7 * i)) (by omega : b.toNat % 128 ≤ 127)
            omega
          have word : (UInt64.ofNat (acc.toNat + b.toNat % 128 * 2 ^ (7 * i))).toNat =
              acc.toNat + b.toNat % 128 * 2 ^ (7 * i) := by
            refine UInt64.toNat_ofNat_of_lt (below'.trans_le ?_)
            exact (Nat.pow_le_pow_right (by omega) (by omega : 7 * (i + 1) ≤ 63)).trans (by decide)
          have tail : (pd.advance 1).unread = rest := @unread_advance pd [b] rest ahead
          have digits (v : ℕ) : acc.toNat + b.toNat % 128 * 2 ^ (7 * i) + v * 2 ^ (7 * (i + 1)) =
              acc.toNat + (b.toNat % 128 + 128 * v) * 2 ^ (7 * i) := by
            rw [power]
            ring
          have high (v : ℕ) {n : ℕ} (positive : 0 < n) :
              (b.toNat % 128 + 128 * v) / 128 ^ (n + 1 - 1) = v / 128 ^ (n - 1) := by
            obtain ⟨k, rfl⟩ := Nat.exists_eq_add_of_lt positive
            have shorter : (b.toNat % 128 + 128 * v) / 128 = v := by omega
            rw [Nat.add_sub_cancel, Nat.add_sub_cancel, Nat.zero_add, pow_succ', ← Nat.div_div_eq_div_mul, shorter]
          rw [ih (i := i + 1) (by omega) (by rwa [word]), tail, word]
          constructor
          · rintro ⟨v, n, decoded, short, fits, value, moved⟩
            have positive := (Leb128.lt_of_decode decoded).1
            refine ⟨b.toNat % 128 + 128 * v, n + 1, ?_, by omega, ?_, ?_, ?_⟩
            · rw [decoded]
              rfl
            · rw [high v positive, ← digits]
              exact fun both => fits ⟨by omega, both.2⟩
            · rw [value, digits]
            · rw [moved, advance_advance, Nat.add_comm]
          · rintro ⟨w, k, decoded, short, fits, value, moved⟩
            obtain ⟨⟨v, n⟩, decoded', same⟩ := Option.map_eq_some_iff.mp decoded
            cases same
            have positive := (Leb128.lt_of_decode decoded').1
            refine ⟨v, n, decoded', by omega, ?_, ?_, ?_⟩
            · rw [high v positive, ← digits] at fits
              exact fun both => fits ⟨by omega, both.2⟩
            · rw [value, digits]
            · rw [moved, advance_advance, Nat.add_comm]

/-- The unsigned reader refuses a tenth byte only where its lowest bit is set. -/
theorem getUVariant_ok_iff {x : UInt64} : getUVariant pd = .ok x pd' ↔
      ∃ v n, Leb128.decode pd.unread = some (v, n) ∧ n ≤ 10 ∧ (n = 10 → v / 2 ^ 63 % 2 = 0) ∧ x = UInt64.ofNat v ∧
        pd' = pd.advance n := by
  have refused (v : ℕ) : UInt64.ofNat v >>> 63 ≠ 0 ↔ v / 2 ^ 63 % 2 ≠ 0 := by
    rw [Ne, ← UInt64.toNat_inj, UInt64.toNat_shiftRight, Nat.shiftRight_eq_div_pow, UInt64.toNat_ofNat']
    change v % 2 ^ 64 / 2 ^ 63 ≠ 0 ↔ _
    omega
  rw [getUVariant, getUVariantLoop_eq, groupLoop_ok_iff (Nat.zero_add 10) (by decide)]
  have zero : (0 : UInt64).toNat = 0 := rfl
  simp only [zero, Nat.mul_zero, pow_zero, Nat.mul_one, Nat.zero_add, refused, not_and, not_not, id]

/-- The signed reader returns nothing that exceeds a word. -/
theorem lt_of_getVariant {x : Int64} (run : getVariant pd = .ok x pd') :
    ∃ v n, Leb128.decode pd.unread = some (v, n) ∧ v < 2 ^ 64 := by
  rw [getVariant, getVariantLoop_eq, groupLoop_ok_iff (Nat.zero_add 10) (by decide)] at run
  obtain ⟨v, n, decoded, short, fits, -⟩ := run
  refine ⟨v, n, decoded, ?_⟩
  have bound := (Leb128.lt_of_decode decoded).2
  rcases Nat.lt_or_ge n 10 with nine | ten
  · have fewer : 128 ^ n ≤ 128 ^ 9 := Nat.pow_le_pow_right (by omega) (by omega)
    omega
  · obtain rfl : n = 10 := by omega
    have group : ¬ 1 < UInt8.ofNat (v / 128 ^ (10 - 1)) := fun large => fits ⟨rfl, .inr large⟩
    rw [UInt8.lt_iff_toNat_lt, UInt8.toNat_ofNat'] at group
    have one : (1 : UInt8).toNat = 1 := rfl
    omega

end PacketDecoder

end Coev.Kafka
