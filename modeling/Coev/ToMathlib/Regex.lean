import Mathlib.Logic.Relation
import Mathlib.Data.List.Infix

/-! # Regular expressions with anchors and look-ahead

An expression relates the place where a match begins to the places where it may end, so that an anchor and a
look-ahead can see the text on both sides. The matcher lists these places; a repetition is unrolled as often as
there are characters left, which loses none of them.
-/

/-- A place in a text: what is before it, last character first, and what is behind it. -/
structure Place (α : Type*) where
  before : List α
  after : List α
deriving DecidableEq, Repr

namespace Place

variable {α : Type*} {x y z : Place α} {w v : List α}

/-- From one place to another over a piece of the text. -/
def Over (w : List α) (x y : Place α) : Prop := x.after = w ++ y.after ∧ y.before = w.reverse ++ x.before

theorem over_nil : Over [] x y ↔ y = x := by
  constructor
  · rintro ⟨behind, ahead⟩
    cases x
    cases y
    simp_all
  · rintro rfl
    exact ⟨rfl, rfl⟩

theorem Over.trans (first : Over w x y) (second : Over v y z) : Over (w ++ v) x z :=
  ⟨by rw [first.1, second.1, List.append_assoc], by rw [second.2, first.2, List.reverse_append, List.append_assoc]⟩

theorem over_append : Over (w ++ v) x z ↔ ∃ y, Over w x y ∧ Over v y z := by
  constructor
  · rintro ⟨behind, ahead⟩
    refine ⟨⟨w.reverse ++ x.before, v ++ z.after⟩, ⟨by rw [behind, List.append_assoc], rfl⟩, rfl, ?_⟩
    rw [ahead, List.reverse_append, List.append_assoc]
  · rintro ⟨y, first, second⟩
    exact first.trans second

theorem Over.length (crossed : Over w x y) : x.after.length = w.length + y.after.length := by
  rw [crossed.1, List.length_append]

theorem exists_over {w rest : List α} (behind : x.after = w ++ rest) : ∃ y, Over w x y ∧ y.after = rest :=
  ⟨⟨w.reverse ++ x.before, rest⟩, ⟨behind, rfl⟩, rfl⟩

end Place

/-- `start` and `finish` are the anchors `^` and `$`, `notAhead` is the negative look-ahead `(?!…)`. -/
inductive Regex (α : Type*) where
  | empty
  | one (accepts : α → Bool)
  | start
  | finish
  | seq (p q : Regex α)
  | either (p q : Regex α)
  | many (p : Regex α)
  | notAhead (p : Regex α)

namespace Regex

open Relation

variable {α : Type*}
variable {x y : Place α} {accepts : α → Bool} {p : Regex α} {text : List α}

/-- A match of the expression may go from one place to the other. -/
def Matches : Regex α → Place α → Place α → Prop
  | empty, x, y => y = x
  | one accepts, x, y => ∃ c, accepts c = true ∧ Place.Over [c] x y
  | start, x, y => x.before = [] ∧ y = x
  | finish, x, y => x.after = [] ∧ y = x
  | seq p q, x, y => ∃ z, p.Matches x z ∧ q.Matches z y
  | either p q, x, y => p.Matches x y ∨ q.Matches x y
  | many p, x, y => ReflTransGen p.Matches x y
  | notAhead p, x, y => (¬∃ z, p.Matches x z) ∧ y = x

/-- The places that so many rounds at most reach. -/
def rounds (step : Place α → List (Place α)) : ℕ → Place α → List (Place α)
  | 0, x => [x]
  | n + 1, x => x :: (step x).flatMap (rounds step n)

/-- The places where a match that begins here may end. -/
def ends : Regex α → Place α → List (Place α)
  | empty, x => [x]
  | one accepts, x =>
    x.after.head?.elim [] fun c => if accepts c then [⟨c :: x.before, x.after.tail⟩] else []
  | start, x => if x.before.isEmpty then [x] else []
  | finish, x => if x.after.isEmpty then [x] else []
  | seq p q, x => (p.ends x).flatMap q.ends
  | either p q, x => p.ends x ++ q.ends x
  | many p, x => rounds p.ends x.after.length x
  | notAhead p, x => if (p.ends x).isEmpty then [x] else []

/-- `std::regex_match`. -/
def fullMatch (p : Regex α) (text : List α) : Bool := (p.ends ⟨[], text⟩).any (·.after.isEmpty)

/-- `std::regex_search`. -/
def search (p : Regex α) (text : List α) : Bool := !((seq (many (one fun _ => true)) p).ends ⟨[], text⟩).isEmpty

/-! ## The matcher finds the matches -/

/-- A match covers a piece of the text. -/
theorem Matches.piece (found : p.Matches x y) : ∃ w, Place.Over w x y := by
  induction p generalizing x y with
  | empty => exact ⟨[], Place.over_nil.mpr found⟩
  | one accepts => exact ⟨_, found.choose_spec.2⟩
  | start => exact ⟨[], Place.over_nil.mpr found.2⟩
  | finish => exact ⟨[], Place.over_nil.mpr found.2⟩
  | seq p q first second =>
    obtain ⟨z, left, right⟩ := found
    obtain ⟨w, before⟩ := first left
    obtain ⟨v, behind⟩ := second right
    exact ⟨w ++ v, before.trans behind⟩
  | either p q first second => exact found.elim first second
  | many p inner =>
    induction found with
    | refl => exact ⟨[], Place.over_nil.mpr rfl⟩
    | tail _ last ih =>
      obtain ⟨w, before⟩ := ih
      obtain ⟨v, behind⟩ := inner last
      exact ⟨w ++ v, before.trans behind⟩
  | notAhead p _ => exact ⟨[], Place.over_nil.mpr found.2⟩

theorem mem_rounds_self (step : Place α → List (Place α)) (n : ℕ) (x : Place α) : x ∈ rounds step n x := by
  cases n with
  | zero => exact List.mem_singleton_self x
  | succ n => exact List.mem_cons_self

theorem reaches_of_mem_rounds {step : Place α → List (Place α)} {n : ℕ} (member : y ∈ rounds step n x) :
    ReflTransGen (fun a b => b ∈ step a) x y := by
  induction n generalizing x with
  | zero => exact List.mem_singleton.mp member ▸ .refl
  | succ n ih =>
    rcases List.mem_cons.mp member with rfl | later
    · exact .refl
    · obtain ⟨z, first, rest⟩ := List.mem_flatMap.mp later
      exact .head first (ih rest)

/-- Rounds that stay in place can be left out, and each of the others takes a character. -/
theorem mem_rounds_of_reaches {step : Place α → List (Place α)} (covers : ∀ {a b}, b ∈ step a → ∃ w, Place.Over w a b)
    (reaches : ReflTransGen (fun a b => b ∈ step a) x y) {n : ℕ} (enough : x.after.length ≤ n) :
    y ∈ rounds step n x := by
  induction reaches using ReflTransGen.head_induction_on generalizing n with
  | refl => exact mem_rounds_self step n y
  | @head a b first _ ih =>
    obtain ⟨w, crossed⟩ := covers first
    cases w with
    | nil => exact Place.over_nil.mp crossed ▸ ih (Place.over_nil.mp crossed ▸ enough)
    | cons c w =>
      have shorter : a.after.length = w.length + 1 + b.after.length := crossed.length
      cases n with
      | zero => omega
      | succ n => exact List.mem_cons_of_mem _ (List.mem_flatMap.mpr ⟨b, first, ih (by omega)⟩)

theorem mem_ends : y ∈ p.ends x ↔ p.Matches x y := by
  induction p generalizing x y with
  | empty => exact List.mem_singleton
  | one accepts =>
    obtain ⟨before, after⟩ := x
    obtain ⟨before', after'⟩ := y
    cases after with
    | nil => simp [ends, Matches, Place.Over]
    | cons c rest =>
      by_cases taken : accepts c = true
      · simp only [ends, List.head?_cons, Option.elim_some, if_pos taken, List.mem_singleton, Place.mk.injEq, Matches,
          Place.Over, List.tail_cons, List.singleton_append, List.cons.injEq, List.reverse_singleton]
        exact ⟨fun ⟨heads, tails⟩ => ⟨c, taken, ⟨rfl, tails.symm⟩, heads⟩,
          fun ⟨d, _, ⟨same, tails⟩, heads⟩ => ⟨same ▸ heads, tails.symm⟩⟩
      · simp only [ends, List.head?_cons, Option.elim_some, if_neg taken, List.not_mem_nil, false_iff, Matches, Place.Over]
        rintro ⟨d, accepted, behind, -⟩
        exact taken ((List.cons.inj behind).1 ▸ accepted)
  | start =>
    by_cases first : x.before = []
    · simp [ends, Matches, first]
    · simp [ends, Matches, first]
  | finish =>
    by_cases last : x.after = []
    · simp [ends, Matches, last]
    · simp [ends, Matches, last]
  | seq p q first second => simp only [ends, List.mem_flatMap, first, second, Matches]
  | either p q first second => simp only [ends, List.mem_append, first, second, Matches]
  | many p inner =>
    have same : (fun a b => b ∈ p.ends a) = p.Matches := by
      funext a b
      exact propext inner
    constructor
    · intro member
      have reaches := reaches_of_mem_rounds member
      rwa [same] at reaches
    · intro reaches
      exact mem_rounds_of_reaches (fun member => (inner.mp member).piece) (same ▸ reaches) le_rfl
  | notAhead p inner =>
    have none_iff : (p.ends x).isEmpty = true ↔ ¬∃ z, p.Matches x z := by
      rw [List.isEmpty_iff, List.eq_nil_iff_forall_not_mem, not_exists]
      exact forall_congr' fun z => not_congr inner
    by_cases absent : (p.ends x).isEmpty = true
    · rw [ends, if_pos absent, List.mem_singleton]
      exact (and_iff_right (none_iff.mp absent)).symm
    · rw [ends, if_neg absent]
      exact iff_of_false List.not_mem_nil fun found => absent (none_iff.mpr found.1)

theorem fullMatch_iff : p.fullMatch text = true ↔ ∃ y, p.Matches ⟨[], text⟩ y ∧ y.after = [] := by
  simp only [fullMatch, List.any_eq_true, mem_ends, List.isEmpty_iff]

/-! ## Characters, literals and repetitions -/

/-- A text, character by character. -/
def literal [DecidableEq α] : List α → Regex α
  | [] => empty
  | c :: rest => seq (one (· = c)) (literal rest)

/-- One character or more. -/
def some (accepts : α → Bool) : Regex α := seq (one accepts) (many (one accepts))

theorem matches_literal [DecidableEq α] {w : List α} : (literal w).Matches x y ↔ Place.Over w x y := by
  induction w generalizing x with
  | nil => exact Place.over_nil.symm
  | cons c w ih =>
    simp only [literal, Matches, ih, decide_eq_true_eq, exists_eq_left]
    exact Place.over_append (w := [c]).symm

theorem matches_many_one : (many (one accepts)).Matches x y ↔ ∃ w, (∀ c ∈ w, accepts c = true) ∧ Place.Over w x y := by
  constructor
  · intro reaches
    change ReflTransGen (one accepts).Matches x y at reaches
    induction reaches with
    | refl => exact ⟨[], fun _ member => absurd member List.not_mem_nil, Place.over_nil.mpr rfl⟩
    | tail _ last ih =>
      obtain ⟨w, accepted, crossed⟩ := ih
      obtain ⟨c, taken, next⟩ := last
      refine ⟨w ++ [c], fun d member => ?_, crossed.trans next⟩
      rcases List.mem_append.mp member with earlier | same
      · exact accepted d earlier
      · exact List.mem_singleton.mp same ▸ taken
  · rintro ⟨w, accepted, crossed⟩
    change ReflTransGen (one accepts).Matches x y
    induction w generalizing x with
    | nil => exact Place.over_nil.mp crossed ▸ .refl
    | cons c w ih =>
      obtain ⟨z, first, rest⟩ := Place.over_append (w := [c]).mp crossed
      exact .head ⟨c, accepted c List.mem_cons_self, first⟩
        (ih (fun d member => accepted d (List.mem_cons_of_mem _ member)) rest)

theorem matches_some : (some accepts).Matches x y ↔ ∃ w, w ≠ [] ∧ (∀ c ∈ w, accepts c = true) ∧ Place.Over w x y := by
  constructor
  · rintro ⟨z, ⟨c, taken, first⟩, repeated⟩
    obtain ⟨w, accepted, rest⟩ := matches_many_one.mp repeated
    exact ⟨c :: w, List.cons_ne_nil _ _, List.forall_mem_cons.mpr ⟨taken, accepted⟩, first.trans rest⟩
  · rintro ⟨w, nonempty, accepted, crossed⟩
    obtain ⟨c, w, rfl⟩ := List.exists_cons_of_ne_nil nonempty
    obtain ⟨taken, others⟩ := List.forall_mem_cons.mp accepted
    obtain ⟨z, first, rest⟩ := Place.over_append (w := [c]).mp crossed
    exact ⟨z, ⟨c, taken, first⟩, matches_many_one.mpr ⟨w, others, rest⟩⟩

/-- A literal some accepted characters ahead. -/
theorem exists_matches_ahead [DecidableEq α] {w : List α} {x : Place α} :
    (∃ y, (seq (many (one accepts)) (literal w)).Matches x y) ↔
      ∃ skipped rest, (∀ c ∈ skipped, accepts c = true) ∧ x.after = skipped ++ w ++ rest := by
  constructor
  · rintro ⟨y, z, skip, found⟩
    obtain ⟨skipped, accepted, crossed⟩ := matches_many_one.mp skip
    exact ⟨skipped, y.after, accepted, (crossed.trans (matches_literal.mp found)).1⟩
  · rintro ⟨skipped, rest, accepted, behind⟩
    obtain ⟨y, crossed, -⟩ := Place.exists_over behind
    obtain ⟨z, skip, found⟩ := Place.over_append.mp crossed
    exact ⟨y, z, matches_many_one.mpr ⟨skipped, accepted, skip⟩, matches_literal.mpr found⟩

/-- A search finds what begins at some place of the text. -/
theorem search_iff : p.search text = true ↔ ∃ w rest y, text = w ++ rest ∧ p.Matches ⟨w.reverse, rest⟩ y := by
  have found_iff : p.search text = true ↔ ∃ y, (seq (many (one fun _ => true)) p).Matches ⟨[], text⟩ y := by
    rw [search, Bool.not_eq_true', ← Bool.not_eq_true, List.isEmpty_iff, ← ne_eq, List.ne_nil_iff_exists_cons]
    constructor
    · rintro ⟨y, rest, same⟩
      exact ⟨y, mem_ends.mp (same ▸ List.mem_cons_self)⟩
    · rintro ⟨y, found⟩
      exact List.exists_cons_of_ne_nil (List.ne_nil_of_mem (mem_ends.mpr found))
  rw [found_iff]
  constructor
  · rintro ⟨y, z, skip, found⟩
    obtain ⟨w, -, behind, ahead⟩ := matches_many_one.mp skip
    obtain ⟨before, after⟩ := z
    simp only [List.append_nil] at ahead
    exact ⟨w, after, y, behind, ahead ▸ found⟩
  · rintro ⟨w, rest, y, rfl, found⟩
    exact ⟨y, ⟨w.reverse, rest⟩, matches_many_one.mpr ⟨w, fun _ _ => rfl, rfl, (List.append_nil _).symm⟩, found⟩

theorem search_either {p q : Regex α} :
    (either p q).search text = true ↔ p.search text = true ∨ q.search text = true := by
  simp only [search_iff, Matches, and_or_left, exists_or]

end Regex
