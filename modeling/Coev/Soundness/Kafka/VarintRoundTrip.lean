import Coev.Proofs.Kafka.VarintGroups

/-! # Varints at the edge of 64 bits

A varint of ten bytes carries one bit in the last of them. Both readers refuse that bit, so they refuse half of what the
writers write. The unsigned reader asks only for it, after the bits above it are shifted out: a tenth byte that is even and
not zero exceeds 64 bits, and is accepted without them.
-/

namespace Coev.Kafka

open PacketDecoder

/-- In front of the bytes, `get` returns the value and moves past them. -/
def GivesBack {α : Type} (get : Decode α) (bytes : Bytes) (a : α) : Prop := ∀ flexible, Reads flexible get bytes a

/-- No byte ends the encoding, or its value does not fit in 64 bits. -/
def Excessive (bytes : Bytes) : Prop :=
  Leb128.decode bytes = none ∨ ∃ v n, Leb128.decode bytes = some (v, n) ∧ 2 ^ 64 ≤ v

/-- If the bytes begin with no value of 64 bits, `get` fails. -/
def RefusesExcess {α : Type} (get : Decode α) (bytes : Bytes) : Prop :=
  Excessive bytes → ∀ pd : PacketDecoder, pd.unread = bytes → ∃ err pd', get pd = .error err pd'

/-- The tenth byte ends the encoding, and is even and not zero. -/
def TenthByteEven (bytes : Bytes) : Prop :=
  ∃ front b rest, bytes = front ++ b :: rest ∧ front.length = 9 ∧ (∀ c ∈ front, 128 ≤ c.toNat) ∧
    b.toNat < 128 ∧ b.toNat % 2 = 0 ∧ b ≠ 0

/-! ## Round trips -/

private theorem givesBack_getVariant_iff (x : Int64) :
    GivesBack getVariant (encodeVariant x) x ↔ VarintReadable x.toInt := by
  constructor
  · intro reads
    by_contra unreadable
    let pd : PacketDecoder := { raw := encodeVariant x }
    have ahead : pd.unread = encodeVariant x ++ [] := (List.append_nil _).symm
    obtain ⟨s, refused⟩ := getVariant_of_unreadable unreadable ahead
    have read := reads false pd [] (iff_of_true rfl rfl) ahead
    rw [refused] at read
    cases read
  · exact fun readable flexible => reads_getVariant readable

private theorem givesBack_getUVariant_iff (x : UInt64) : GivesBack getUVariant (encodeUVariant x) x ↔ x.toNat < 2 ^ 63 := by
  constructor
  · intro reads
    let pd : PacketDecoder := { raw := encodeUVariant x }
    have ahead : pd.unread = encodeUVariant x ++ [] := (List.append_nil _).symm
    have read := reads false pd [] (iff_of_true rfl rfl) ahead
    obtain ⟨v, n, decoded, -, even, -, -⟩ := getUVariant_ok_iff.mp read
    rw [ahead, encodeUVariant_eq, Leb128.decode_encode] at decoded
    cases decoded
    by_contra large
    have ten : 10 ≤ Leb128.size x.toNat := by
      have nine := mt (Leb128.size_le_iff (by omega : 0 < 9) x.toNat).mp
      have power : 128 ^ 9 = 2 ^ 63 := rfl
      rw [power] at nine
      exact not_le.mp (nine large)
    have most : Leb128.size x.toNat ≤ 10 :=
      (Leb128.size_le_iff (by omega) _).mpr (x.toNat_lt.trans (by decide))
    have bound := x.toNat_lt
    have low := even (le_antisymm most ten)
    omega
  · exact fun small flexible => reads_getUVariant small

/-! ## Excessive encodings -/

private theorem refusesExcess_getVariant (bytes : Bytes) : RefusesExcess getVariant bytes := by
  rintro excessive pd rfl
  cases run : getVariant pd with
  | error err pd' => exact ⟨err, pd', rfl⟩
  | ok x pd' =>
    obtain ⟨v, n, decoded, small⟩ := lt_of_getVariant run
    obtain none_ | ⟨w, k, decoded', large⟩ := excessive
    · rw [none_] at decoded
      cases decoded
    · rw [decoded] at decoded'
      cases decoded'
      omega

private theorem refusesExcess_getUVariant_iff (bytes : Bytes) : RefusesExcess getUVariant bytes ↔ ¬ TenthByteEven bytes := by
  constructor
  · rintro refuses ⟨front, b, rest, rfl, nine, continued, last, even, some_⟩
    obtain ⟨low, below, decoded⟩ := Leb128.decode_append continued last rest
    have positive : 0 < b.toNat := Nat.pos_of_ne_zero fun zero => some_ (UInt8.toNat_inj.mp zero)
    rw [nine] at below decoded
    let pd : PacketDecoder := { raw := front ++ b :: rest }
    obtain ⟨err, pd', refused⟩ := refuses (.inr ⟨_, _, decoded, by omega⟩) pd rfl
    have read : getUVariant pd = .ok _ (pd.advance 10) :=
      getUVariant_ok_iff.mpr ⟨_, _, decoded, le_rfl, fun _ => by omega, rfl, rfl⟩
    rw [refused] at read
    cases read
  · rintro notEven excessive pd rfl
    cases run : getUVariant pd with
    | error err pd' => exact ⟨err, pd', rfl⟩
    | ok x pd' =>
      obtain ⟨v, n, decoded, short, even, -, -⟩ := getUVariant_ok_iff.mp run
      obtain none_ | ⟨w, k, decoded', large⟩ := excessive
      · rw [none_] at decoded
        cases decoded
      · rw [decoded] at decoded'
        cases decoded'
        have bound := (Leb128.lt_of_decode decoded).2
        have ten : n = 10 := by
          by_contra fewer
          have power : 128 ^ n ≤ 128 ^ 9 := Nat.pow_le_pow_right (by omega) (by omega)
          omega
        have low := even ten
        obtain ⟨front, b, rest, low', same, length, continued, last, value, below⟩ := Leb128.decode_spec decoded
        have nine : front.length = 9 := by omega
        rw [nine] at value below
        refine absurd ⟨front, b, rest, same, nine, continued, last, by omega, ?_⟩ notEven
        rintro rfl
        have zero : (0 : UInt8).toNat = 0 := rfl
        omega

/-- The signed round trip is right for nine bytes, the unsigned one below `2 ^ 63`; the signed reader refuses every
excess, and the unsigned one every excess but an even tenth byte. -/
theorem varint_range_iff (x : Int64) (y : UInt64) (bytes : Bytes) :
    (GivesBack getVariant (encodeVariant x) x ↔ -2 ^ 62 ≤ x.toInt ∧ x.toInt < 2 ^ 62) ∧
      (GivesBack getUVariant (encodeUVariant y) y ↔ y.toNat < 2 ^ 63) ∧
      RefusesExcess getVariant bytes ∧ (RefusesExcess getUVariant bytes ↔ ¬ TenthByteEven bytes) :=
  ⟨givesBack_getVariant_iff x, givesBack_getUVariant_iff y, refusesExcess_getVariant bytes,
    refusesExcess_getUVariant_iff bytes⟩

/-- `2 ^ 62` and `2 ^ 63` are not read back, and `2 ^ 64` is read as zero. -/
theorem varint_edges : ¬ GivesBack getVariant (encodeVariant 4611686018427387904) 4611686018427387904 ∧
    ¬ GivesBack getUVariant (encodeUVariant 9223372036854775808) 9223372036854775808 ∧
    ¬ RefusesExcess getUVariant (List.replicate 9 0x80 ++ [2]) := by
  refine ⟨?_, ?_, ?_⟩
  · rw [givesBack_getVariant_iff]
    decide +kernel
  · rw [givesBack_getUVariant_iff]
    decide +kernel
  · rw [refusesExcess_getUVariant_iff, not_not]
    refine ⟨List.replicate 9 0x80, 2, [], rfl, rfl, fun c member => ?_, by decide, by decide, by decide⟩
    rw [List.eq_of_mem_replicate member]
    decide

end Coev.Kafka
