import Coev.Model.Kafka.ApiVersions
import Mathlib.Data.Prod.Lex

/-! # The order of versions

`IsAtLeast` is the lexicographic order of the four components. `operator>=` asks for one component only before it turns to
the next, so it also holds of versions that are lower, and a version that is printed without its patch is parsed without it.
-/

namespace Coev.Kafka.KafkaVersion

variable {v o : KafkaVersion}

/-! ## `IsAtLeast` -/

/-- The components in their order. -/
def key (v : KafkaVersion) : ℕ ×ₗ ℕ ×ₗ ℕ ×ₗ ℕ :=
  toLex (v.major.toNat, toLex (v.minor.toNat, toLex (v.veryMinor.toNat, v.patch.toNat)))

private theorem key_injective : Function.Injective key := by
  intro v o same
  obtain ⟨major, rest⟩ := Prod.mk.inj same
  obtain ⟨minor, rest⟩ := Prod.mk.inj rest
  obtain ⟨veryMinor, patch⟩ := Prod.mk.inj rest
  cases v
  cases o
  rw [mk.injEq]
  exact ⟨UInt32.toNat_inj.mp major, UInt32.toNat_inj.mp minor, UInt32.toNat_inj.mp veryMinor, UInt32.toNat_inj.mp patch⟩

private theorem isAtLeastFrom_iff {mine other : UInt32} {rest : Bool} :
    isAtLeastFrom mine other rest = true ↔ other.toNat < mine.toNat ∨ other.toNat = mine.toNat ∧ rest = true := by
  unfold isAtLeastFrom
  split_ifs with above below
  · exact iff_of_true rfl (.inl (UInt32.lt_iff_toNat_lt.mp above))
  · have less := UInt32.lt_iff_toNat_lt.mp below
    exact iff_of_false (by decide) fun either => either.elim (fun more => by omega) fun both => by omega
  · have notAbove := mt UInt32.lt_iff_toNat_lt.mpr above
    have notBelow := mt UInt32.lt_iff_toNat_lt.mpr below
    constructor
    · exact fun holds => .inr ⟨by omega, holds⟩
    · exact fun either => either.elim (fun more => absurd more notAbove) And.right

/-- `IsAtLeast` compares the components from the first on. -/
theorem isAtLeast_iff : v.isAtLeast o = true ↔ o.key ≤ v.key := by
  rw [isAtLeast, isAtLeastFrom_iff, isAtLeastFrom_iff, isAtLeastFrom_iff, isAtLeastFrom_iff, key, key,
    Prod.Lex.toLex_le_toLex,
    Prod.Lex.toLex_le_toLex, Prod.Lex.toLex_le_toLex]
  simp only [and_true]
  refine or_congr Iff.rfl (and_congr_right fun _ => or_congr Iff.rfl (and_congr_right fun _ => or_congr Iff.rfl
    (and_congr_right fun _ => ?_)))
  exact le_iff_lt_or_eq.symm

/-! ## `operator>=` -/

/-- The major component of `v` is lower, and no later pair of components says otherwise to `operator>=`. -/
def PlainlyLower (v o : KafkaVersion) : Prop :=
  v.major < o.major ∧ ¬(v.minor = o.minor ∧ v.veryMinor ≥ o.veryMinor) ∧ ¬(v.veryMinor = o.veryMinor ∧ v.patch ≥ o.patch)

private theorem ge_iff : v.ge o = true ↔ ¬v.PlainlyLower o := by
  rw [ge, PlainlyLower, not_and_or, not_and_or, not_not, not_not, UInt32.not_lt]
  simp only [Bool.or_eq_true, Bool.and_eq_true, decide_eq_true_eq]
  constructor
  · rintro (((major | ⟨same, -⟩) | minor) | veryMinor)
    · exact .inl major
    · exact .inl (same ▸ UInt32.le_refl _)
    · exact .inr (.inl minor)
    · exact .inr (.inr veryMinor)
  · rintro (major | minor | veryMinor)
    · exact .inl (.inl (.inl major))
    · exact .inl (.inr minor)
    · exact .inr veryMinor

/-- A version with a lower major component is not at least the other. -/
theorem PlainlyLower.not_isAtLeast (lower : v.PlainlyLower o) : v.isAtLeast o = false := by
  rw [isAtLeast, isAtLeastFrom, if_neg (UInt32.not_lt.mpr (UInt32.le_of_lt lower.1)), if_pos lower.1]

private theorem ge_eq_isAtLeast_iff : v.ge o = v.isAtLeast o ↔ v.isAtLeast o = true ∨ v.PlainlyLower o := by
  rw [Bool.eq_iff_iff, ge_iff]
  constructor
  · intro same
    by_cases lower : v.PlainlyLower o
    · exact .inr lower
    · exact .inl (same.mp lower)
  · rintro (holds | lower)
    · refine iff_of_true (fun lower => ?_) holds
      rw [lower.not_isAtLeast] at holds
      cases holds
    · rw [lower.not_isAtLeast]
      exact iff_of_false (not_not.mpr lower) (by decide)

/-! ## Printing and parsing -/

private theorem sscanf_numeral (n : ℕ) (format : List Conversion) {rest : List UInt8}
    (ends : ∀ c ∈ rest.head?, Decimal.isDigit c = false) :
    sscanf (.unsigned :: format) (Decimal.ofNat n ++ rest) = n :: sscanf format rest := by
  obtain ⟨taken, dropped⟩ := Decimal.takeWhile_ofNat_append n ends
  rw [sscanf, taken, dropped, if_neg (Decimal.ofNat_ne_nil n), Decimal.toNat_ofNat]

private theorem sscanf_text (c : UInt8) (format : List Conversion) (rest : List UInt8) :
    sscanf (.text c :: format) ([c] ++ rest) = sscanf format rest := if_pos rfl

private theorem uint_toNat (n : UInt32) : uint n.toNat = some n := by
  rw [uint, if_pos n.toNat_lt, UInt32.ofNat_toNat]

private theorem matches_numeral (n : ℕ) (before rest : List UInt8) :
    (Regex.some Decimal.isDigit).Matches ⟨before, Decimal.ofNat n ++ rest⟩ ⟨(Decimal.ofNat n).reverse ++ before, rest⟩ :=
  Regex.matches_some.mpr ⟨_, Decimal.ofNat_ne_nil n, fun _ => Decimal.isDigit_of_mem_ofNat, rfl, rfl⟩

private theorem matches_text (text before rest : List UInt8) :
    (Regex.literal text).Matches ⟨before, text ++ rest⟩ ⟨text.reverse ++ before, rest⟩ :=
  Regex.matches_literal.mpr ⟨rfl, rfl⟩

private theorem matches_last (n : ℕ) (before : List UInt8) :
    (Regex.some Decimal.isDigit).Matches ⟨before, Decimal.ofNat n⟩ ⟨(Decimal.ofNat n).reverse ++ before, []⟩ := by
  have found := matches_numeral n before []
  rwa [List.append_nil] at found

private theorem validPreKafka1Version_string (a b c : ℕ) : validPreKafka1Version.fullMatch ([Decimal.digit 0, period] ++
    (Decimal.ofNat a ++ ([period] ++ (Decimal.ofNat b ++ ([period] ++ Decimal.ofNat c))))) = true :=
  Regex.fullMatch_iff.mpr ⟨_, ⟨_, ⟨rfl, rfl⟩, _, matches_text _ _ _, _, matches_numeral a _ _, _, matches_text _ _ _, _,
    matches_numeral b _ _, _, matches_text _ _ _, _, matches_last c _, rfl, rfl⟩, rfl⟩

private theorem validPostKafka1Version_string (a b c : ℕ) : validPostKafka1Version.fullMatch
    (Decimal.ofNat a ++ ([period] ++ (Decimal.ofNat b ++ ([period] ++ Decimal.ofNat c)))) = true :=
  Regex.fullMatch_iff.mpr ⟨_, ⟨_, ⟨rfl, rfl⟩, _, matches_numeral a _ _, _, matches_text _ _ _, _, matches_numeral b _ _, _,
    matches_text _ _ _, _, matches_last c _, rfl, rfl⟩, rfl⟩

/-- Three numerals with two separators are scanned as the three numbers. -/
theorem sscanf_numerals (a b c : ℕ) : sscanf [.unsigned, .text period, .unsigned, .text period, .unsigned]
      (Decimal.ofNat a ++ ([period] ++ (Decimal.ofNat b ++ ([period] ++ Decimal.ofNat c)))) = [a, b, c] := by
  have separated (rest : List UInt8) : ∀ d ∈ ([period] ++ rest).head?, Decimal.isDigit d = false := by
    rintro _ ⟨⟩
    rfl
  have last : sscanf [.unsigned] (Decimal.ofNat c ++ []) = [c] :=
    sscanf_numeral c [] fun _ none_ => absurd none_ (by simp)
  rw [List.append_nil] at last
  rw [sscanf_numeral a _ (separated _), sscanf_text, sscanf_numeral b _ (separated _), sscanf_text, last]

private theorem length_ofNat_pos (n : ℕ) : 0 < (Decimal.ofNat n).length := List.length_pos_iff.mpr (Decimal.ofNat_ne_nil n)

/-- What is printed is parsed, but for the patch where it is not printed. -/
theorem parse_string (v : KafkaVersion) :
    ParseKafkaVersion v.string = some (if v.major = 0 then v else { v with patch := 0 }) := by
  have first := length_ofNat_pos v.major.toNat
  have second := length_ofNat_pos v.minor.toNat
  have third := length_ofNat_pos v.veryMinor.toNat
  have fourth := length_ofNat_pos v.patch.toNat
  by_cases zero : v.major = 0
  · have long : ¬v.string.length < 5 := by
      simp only [string, if_pos zero, List.length_append, List.length_cons, List.length_nil]
      omega
    have opens : v.string.head? = some (Decimal.digit 0) := by
      rw [string, if_pos zero]
      rfl
    have scanned : sscanf [.text (Decimal.digit 0), .text period, .unsigned, .text period, .unsigned, .text period,
        .unsigned] v.string = [v.minor.toNat, v.veryMinor.toNat, v.patch.toNat] := by
      rw [string, if_pos zero]
      exact sscanf_numerals _ _ _
    have valid : (!validPreKafka1Version.fullMatch v.string) = false := by
      rw [string, if_pos zero, validPreKafka1Version_string]
      rfl
    rw [ParseKafkaVersion, if_neg long, if_pos opens, if_neg (by rw [valid]; decide), scanned, if_pos zero]
    simp only [List.getD_cons_zero, List.getD_cons_succ, uint_toNat, Option.pure_def, Option.bind_eq_bind, Option.bind_some]
    rw [← zero]
  · have nonzero : v.major.toNat ≠ 0 := fun none_ => zero (UInt32.toNat_inj.mp none_)
    have long : ¬v.string.length < 5 := by
      simp only [string, if_neg zero, List.length_append, List.length_cons, List.length_nil]
      omega
    have opens : v.string.head? ≠ some (Decimal.digit 0) := by
      rw [string, if_neg zero, List.head?_append_of_ne_nil _ (Decimal.ofNat_ne_nil _)]
      exact Decimal.head?_ofNat_ne nonzero
    have scanned : sscanf [.unsigned, .text period, .unsigned, .text period, .unsigned] v.string =
        [v.major.toNat, v.minor.toNat, v.veryMinor.toNat] := by
      rw [string, if_neg zero]
      exact sscanf_numerals _ _ _
    have valid : (!validPostKafka1Version.fullMatch v.string) = false := by
      rw [string, if_neg zero, validPostKafka1Version_string]
      rfl
    rw [ParseKafkaVersion, if_neg long, if_neg opens, if_neg (by rw [valid]; decide), scanned, if_neg zero]
    simp only [List.getD_cons_zero, List.getD_cons_succ, uint_toNat, Option.pure_def, Option.bind_eq_bind, Option.bind_some]

private theorem parse_string_iff {v : KafkaVersion} : ParseKafkaVersion v.string = some v ↔ v.major = 0 ∨ v.patch = 0 := by
  rw [parse_string, Option.some.injEq]
  split
  · next zero => exact iff_of_true rfl (.inl zero)
  · next positive =>
    rw [or_iff_right positive]
    exact ⟨fun same => (congrArg patch same).symm, fun none_ => by rw [← none_]⟩

/-! ## The comparison -/

/-- What the comparisons of two versions owe: one total order, on both of them and any third, and a text that gives the
version back. -/
structure Consistent (v o : KafkaVersion) : Prop where
  refl : v.isAtLeast v = true
  antisymm : v.isAtLeast o = true → o.isAtLeast v = true → v = o
  trans : ∀ w, v.isAtLeast o = true → o.isAtLeast w = true → v.isAtLeast w = true
  total : v.isAtLeast o = true ∨ o.isAtLeast v = true
  operator : v.ge o = v.isAtLeast o
  parsed : ParseKafkaVersion v.string = some v

/-- `IsAtLeast` is a total order. `operator>=` agrees with it where it holds, and else only where no later pair of components
misleads it; the text gives the version back when it shows the patch or there is none. -/
theorem consistent_iff (v o : KafkaVersion) :
    v.Consistent o ↔ (v.isAtLeast o = true ∨ v.PlainlyLower o) ∧ (v.major = 0 ∨ v.patch = 0) := by
  constructor
  · exact fun consistent => ⟨ge_eq_isAtLeast_iff.mp consistent.operator, parse_string_iff.mp consistent.parsed⟩
  · rintro ⟨compared, shown⟩
    exact {
      refl := isAtLeast_iff.mpr le_rfl
      antisymm := fun above below => key_injective (le_antisymm (isAtLeast_iff.mp below) (isAtLeast_iff.mp above))
      trans := fun w above below => isAtLeast_iff.mpr ((isAtLeast_iff.mp below).trans (isAtLeast_iff.mp above))
      total := (le_total o.key v.key).imp isAtLeast_iff.mpr isAtLeast_iff.mpr
      operator := ge_eq_isAtLeast_iff.mpr compared
      parsed := parse_string_iff.mpr shown }

/-- 1.1.0 is `>=` 2.0.0 but not at least it. -/
theorem lower_version_ge : ¬Consistent ⟨1, 1, 0, 0⟩ ⟨2, 0, 0, 0⟩ ∧ ge ⟨1, 1, 0, 0⟩ ⟨2, 0, 0, 0⟩ = true :=
  ⟨fun consistent => absurd consistent.operator (by decide), by decide⟩

end Coev.Kafka.KafkaVersion
