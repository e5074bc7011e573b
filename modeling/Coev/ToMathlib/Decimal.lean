import Mathlib.Data.Nat.Digits.Lemmas

/-! # Decimal numerals

The numeral of a natural has digits only, so a dash in front of it is the last dash of any text that ends with
it. Behind a dash the numeral of an integer is recovered up to a sign that the text before it may have supplied.
-/

namespace Decimal

def dash : UInt8 := 45

def digit (d : ℕ) : UInt8 := UInt8.ofNat (48 + d)

/-- The numeral of a natural. -/
def ofNat (n : ℕ) : List UInt8 := if n = 0 then [digit 0] else ((Nat.digits 10 n).map digit).reverse

/-- The numeral of an integer, with a dash in front when it is negative. -/
def ofInt (i : ℤ) : List UInt8 := if i < 0 then dash :: ofNat i.natAbs else ofNat i.natAbs

/-- The natural that a list of digits stands for. -/
def toNat (numeral : List UInt8) : ℕ := Nat.ofDigits 10 (numeral.reverse.map (·.toNat - 48))

theorem toNat_digit {d : ℕ} (small : d < 10) : (digit d).toNat = 48 + d := by
  rw [digit, UInt8.toNat_ofNat', Nat.mod_eq_of_lt (by omega)]

theorem digit_ne_dash {d : ℕ} (small : d < 10) : digit d ≠ dash := by
  intro same
  have values : (digit d).toNat = 45 := congrArg UInt8.toNat same
  rw [toNat_digit small] at values
  omega

theorem toNat_ofNat (n : ℕ) : toNat (ofNat n) = n := by
  by_cases zero : n = 0
  · subst zero
    rfl
  · rw [ofNat, if_neg zero, toNat, List.reverse_reverse, List.map_map]
    have kept : (Nat.digits 10 n).map ((fun byte : UInt8 => byte.toNat - 48) ∘ digit) = Nat.digits 10 n := by
      refine (List.map_congr_left fun d member => ?_).trans (List.map_id _)
      have small : d < 10 := Nat.digits_lt_base (by decide) member
      simp only [Function.comp_apply, toNat_digit small, Nat.add_sub_cancel_left, id_eq]
    rw [kept, Nat.ofDigits_digits]

theorem ofNat_injective : Function.Injective ofNat := Function.LeftInverse.injective toNat_ofNat

theorem dash_notMem_ofNat (n : ℕ) : dash ∉ ofNat n := by
  unfold ofNat
  split
  · rw [List.mem_singleton]
    exact (digit_ne_dash (by decide)).symm
  · rw [List.mem_reverse, List.mem_map]
    rintro ⟨d, member, same⟩
    exact digit_ne_dash (Nat.digits_lt_base (by decide) member) same

def isDigit (c : UInt8) : Bool := 48 ≤ c && c ≤ 57

theorem isDigit_digit {d : ℕ} (small : d < 10) : isDigit (digit d) = true := by
  have value := toNat_digit small
  rw [isDigit, Bool.and_eq_true, decide_eq_true_eq, decide_eq_true_eq, UInt8.le_iff_toNat_le, UInt8.le_iff_toNat_le, value]
  exact ⟨Nat.le_add_right 48 d, by
    have high : (57 : UInt8).toNat = 57 := rfl
    omega⟩

theorem isDigit_of_mem_ofNat {n : ℕ} {c : UInt8} (member : c ∈ ofNat n) : isDigit c = true := by
  unfold ofNat at member
  split at member
  · rw [List.mem_singleton.mp member]
    exact isDigit_digit (by decide)
  · obtain ⟨d, one, rfl⟩ := List.mem_map.mp (List.mem_reverse.mp member)
    exact isDigit_digit (Nat.digits_lt_base (by decide) one)

theorem ofNat_ne_nil (n : ℕ) : ofNat n ≠ [] := by
  unfold ofNat
  split
  · exact List.cons_ne_nil _ _
  · next positive =>
    rw [ne_eq, List.reverse_eq_nil_iff, List.map_eq_nil_iff]
    exact Nat.digits_ne_nil_iff_ne_zero.mpr positive

/-- A numeral has no leading zero. -/
theorem head?_ofNat_ne {n : ℕ} (positive : n ≠ 0) : (ofNat n).head? ≠ some (digit 0) := by
  rw [ofNat, if_neg positive, List.head?_reverse, List.getLast?_map, ne_eq, Option.map_eq_some_iff]
  rintro ⟨d, last, same⟩
  have nonempty : Nat.digits 10 n ≠ [] := Nat.digits_ne_nil_iff_ne_zero.mpr positive
  rw [List.getLast?_eq_some_getLast nonempty] at last
  have small : d < 10 := Nat.digits_lt_base (by decide) (Option.some.inj last ▸ List.getLast_mem nonempty)
  have values := congrArg UInt8.toNat same
  rw [toNat_digit small, toNat_digit (by decide)] at values
  exact Nat.getLast_digit_ne_zero 10 positive ((Option.some.inj last).trans (by omega))

/-- A numeral is what is read up to the first byte that is no digit. -/
theorem takeWhile_ofNat_append (n : ℕ) {rest : List UInt8} (ends : ∀ c ∈ rest.head?, isDigit c = false) :
    (ofNat n ++ rest).takeWhile isDigit = ofNat n ∧ (ofNat n ++ rest).dropWhile isDigit = rest := by
  have digits : ∀ c ∈ ofNat n, isDigit c = true := fun c => isDigit_of_mem_ofNat
  rw [List.takeWhile_append_of_pos digits, List.dropWhile_append_of_pos digits]
  cases rest with
  | nil => exact ⟨List.append_nil _, rfl⟩
  | cons c rest =>
    have stop := ends c rfl
    rw [List.takeWhile_cons_of_neg (by simp [stop]), List.dropWhile_cons_of_neg (by simp [stop]), List.append_nil]
    exact ⟨rfl, rfl⟩

/-- A text ends in one way with the last of its separators and what is behind it. -/
theorem append_separator_inj {α : Type*} {s : α} {x y a b : List α} (left : s ∉ a) (right : s ∉ b)
    (same : x ++ s :: a = y ++ s :: b) : x = y ∧ a = b := by
  rcases List.append_eq_append_iff.mp same with ⟨c, rfl, rest⟩ | ⟨c, rfl, rest⟩
  · cases c with
    | nil => simpa using rest
    | cons head tail =>
      obtain ⟨-, rfl⟩ := List.cons.inj rest
      exact absurd (List.mem_append_right _ List.mem_cons_self) left
  · cases c with
    | nil => simpa using rest.symm
    | cons head tail =>
      obtain ⟨-, rfl⟩ := List.cons.inj rest
      exact absurd (List.mem_append_right _ List.mem_cons_self) right

/-- A text before a dash and an integer, up to the last dash. -/
def stem (text : List UInt8) (i : ℤ) : List UInt8 := if i < 0 then text ++ [dash] else text

theorem append_ofInt (text : List UInt8) (i : ℤ) : text ++ dash :: ofInt i = stem text i ++ dash :: ofNat i.natAbs := by
  unfold stem ofInt
  split
  · rw [List.append_assoc, List.singleton_append]
  · rfl

theorem append_ofInt_eq_iff {text text' : List UInt8} {i j : ℤ} :
    text ++ dash :: ofInt i = text' ++ dash :: ofInt j ↔ stem text i = stem text' j ∧ i.natAbs = j.natAbs := by
  rw [append_ofInt, append_ofInt]
  constructor
  · intro same
    obtain ⟨stems, numerals⟩ := append_separator_inj (dash_notMem_ofNat _) (dash_notMem_ofNat _) same
    exact ⟨stems, ofNat_injective numerals⟩
  · rintro ⟨stems, absolutes⟩
    rw [stems, absolutes]

end Decimal
