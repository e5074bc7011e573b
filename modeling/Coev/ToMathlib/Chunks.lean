import Mathlib.Data.List.Infix

/-! # A stream that arrives in chunks

A reader that asks for so many elements gets those up to the next place where the stream is cut, if that comes first. The
places are counted from the start of the stream.
-/

namespace Chunks

variable {α : Type*} {cut : ℕ → Bool} {pos n : ℕ} {stream : List α}

/-- What a reader at a place gets that asks for `n` elements of what is left of the stream. -/
def next (cut : ℕ → Bool) : ℕ → ℕ → List α → List α
  | _, 0, _ => []
  | _, _ + 1, [] => []
  | pos, n + 1, a :: rest => a :: if cut (pos + 1) then [] else next cut (pos + 1) n rest

/-- The stream is cut between the next `n` elements. -/
def CutInside (cut : ℕ → Bool) (pos n : ℕ) : Prop := ∃ j, 0 < j ∧ j < n ∧ cut (pos + j) = true

instance (cut : ℕ → Bool) (pos n : ℕ) : Decidable (CutInside cut pos n) :=
  decidable_of_iff (∃ j < n, 0 < j ∧ cut (pos + j) = true) ⟨fun ⟨j, small, positive, cuts⟩ => ⟨j, positive, small, cuts⟩,
    fun ⟨j, positive, small, cuts⟩ => ⟨j, small, positive, cuts⟩⟩

theorem cutInside_succ_iff : CutInside cut pos (n + 1) ↔ 0 < n ∧ (cut (pos + 1) = true ∨ CutInside cut (pos + 1) n) := by
  constructor
  · rintro ⟨j, positive, small, cuts⟩
    refine ⟨by omega, ?_⟩
    rcases Nat.lt_or_ge 1 j with later | first
    · exact .inr ⟨j - 1, by omega, by omega, by rwa [show pos + 1 + (j - 1) = pos + j by omega]⟩
    · obtain rfl : j = 1 := by omega
      exact .inl cuts
  · rintro ⟨positive, cuts | ⟨j, positive_, small, cuts⟩⟩
    · exact ⟨1, Nat.one_pos, by omega, cuts⟩
    · exact ⟨j + 1, Nat.succ_pos j, by omega, by rwa [show pos + (j + 1) = pos + 1 + j by omega]⟩

theorem length_next_le (cut : ℕ → Bool) (pos n : ℕ) (stream : List α) : (next cut pos n stream).length ≤ n := by
  induction n generalizing pos stream with
  | zero => exact Nat.le_refl 0
  | succ n ih =>
    cases stream with
    | nil => exact Nat.zero_le _
    | cons a rest =>
      rw [next, List.length_cons]
      split_ifs
      · exact Nat.le_add_left 1 n
      · exact Nat.succ_le_succ (ih (pos + 1) rest)

theorem next_ne_nil (positive : 0 < n) (left : stream ≠ []) : next cut pos n stream ≠ [] := by
  obtain ⟨m, rfl⟩ := Nat.exists_eq_succ_of_ne_zero (Nat.ne_of_gt positive)
  cases stream with
  | nil => exact absurd rfl left
  | cons a rest => exact List.cons_ne_nil a _

/-- Without a cut inside them the elements come at once. -/
theorem next_of_uncut (uncut : ¬ CutInside cut pos n) : next cut pos n stream = stream.take n := by
  induction n generalizing pos stream with
  | zero => rfl
  | succ n ih =>
    cases stream with
    | nil => rfl
    | cons a rest =>
      rw [cutInside_succ_iff, not_and_or, not_or] at uncut
      rw [next, List.take_succ_cons]
      rcases uncut with last | ⟨first, later⟩
      · obtain rfl : n = 0 := Nat.eq_zero_of_not_pos last
        simp [next]
      · rw [if_neg first, ih later]

/-- A cut inside them ends what comes before the last of them. -/
theorem length_next_lt (cuts : CutInside cut pos n) : (next cut pos n stream).length < n := by
  induction n generalizing pos stream with
  | zero =>
    obtain ⟨j, -, small, -⟩ := cuts
    exact absurd small (Nat.not_lt_zero j)
  | succ n ih =>
    cases stream with
    | nil => exact Nat.succ_pos n
    | cons a rest =>
      obtain ⟨positive, cuts⟩ := cutInside_succ_iff.mp cuts
      rw [next, List.length_cons]
      split_ifs with first
      · exact Nat.succ_lt_succ positive
      · exact Nat.succ_lt_succ (ih (cuts.resolve_left first))

end Chunks

/-! ## The pieces between separators

A list with a separator in front and one behind is a sequence of pieces, each enclosed in two separators.
-/

namespace List

variable {α : Type*} [DecidableEq α] {s : α} {w p : List α}

omit [DecidableEq α] in
theorem infix_free_append_iff (free : s ∉ p) (t : List α) : s :: w <:+: p ++ t ↔ s :: w <:+: t := by
  induction p with
  | nil => rfl
  | cons c p ih =>
    obtain ⟨other, rest⟩ := not_or.mp (mem_cons.not.mp free)
    rw [cons_append, infix_cons_iff, cons_prefix_cons, ih rest]
    exact or_iff_right fun starts => other starts.1

theorem prefix_separator_iff (left : s ∉ w) (right : s ∉ p) (t : List α) : w ++ [s] <+: p ++ s :: t ↔ w = p := by
  constructor
  · rintro ⟨v, same⟩
    rw [append_assoc, singleton_append] at same
    have pieces := congrArg (splitOn s) same
    rw [splitOn_append_cons_self_of_not_mem left, splitOn_append_cons_self_of_not_mem right] at pieces
    exact (cons.inj pieces).1
  · rintro rfl
    exact ⟨t, by rw [append_assoc, singleton_append]⟩

/-- With a separator in front of each piece and one behind the last, a piece is what two separators enclose. -/
theorem mem_iff_enclosed {ps : List (List α)} (frees : ∀ p ∈ ps, s ∉ p) (free : s ∉ w) :
    w ∈ ps ↔ s :: (w ++ [s]) <:+: ps.flatMap (s :: ·) ++ [s] := by
  induction ps with
  | nil =>
    refine iff_of_false not_mem_nil fun within => ?_
    have short := within.length_le
    simp at short
  | cons p ps ih =>
    obtain ⟨head, rest⟩ := forall_mem_cons.mp frees
    obtain ⟨t, behind⟩ : ∃ t, ps.flatMap (s :: ·) ++ [s] = s :: t := by
      cases ps with
      | nil => exact ⟨[], rfl⟩
      | cons q qs => exact ⟨_, rfl⟩
    rw [flatMap_cons, append_assoc, cons_append, infix_cons_iff, cons_prefix_cons, infix_free_append_iff head, mem_cons,
      ih rest]
    refine or_congr ?_ Iff.rfl
    rw [behind, prefix_separator_iff free head]
    exact (and_iff_right rfl).symm

theorem flatMap_splitOn (s : α) (t : List α) : (t.splitOn s).flatMap (s :: ·) = s :: t := by
  induction t with
  | nil => rfl
  | cons c t ih =>
    rw [splitOn_cons_eq_if_modifyHead]
    obtain ⟨p, ps, same⟩ := exists_cons_of_ne_nil (splitOn_ne_nil s t)
    rw [same, flatMap_cons, cons_append] at ih
    by_cases separates : c = s
    · rw [if_pos (beq_iff_eq.mpr separates), flatMap_cons, same, flatMap_cons, cons_append, nil_append, cons_append, ih,
        separates]
    · rw [if_neg (mt beq_iff_eq.mp separates), same, modifyHead_cons, flatMap_cons, cons_append, cons_append]
      rw [(cons.inj ih).2]

theorem mem_splitOn_free {t : List α} (member : p ∈ t.splitOn s) : s ∉ p := by
  induction t generalizing p with
  | nil =>
    rw [mem_singleton.mp member]
    exact not_mem_nil
  | cons c t ih =>
    rw [splitOn_cons_eq_if_modifyHead] at member
    obtain ⟨q, qs, same⟩ := exists_cons_of_ne_nil (splitOn_ne_nil s t)
    rw [same] at ih member
    by_cases separates : c = s
    · rw [if_pos (beq_iff_eq.mpr separates)] at member
      rcases mem_cons.mp member with rfl | later
      · exact not_mem_nil
      · exact ih later
    · rw [if_neg (mt beq_iff_eq.mp separates), modifyHead_cons] at member
      rcases mem_cons.mp member with rfl | later
      · exact not_or.mpr ⟨Ne.symm separates, ih mem_cons_self⟩ ∘ mem_cons.mp
      · exact ih (mem_cons_of_mem _ later)

theorem mem_splitOn_iff {t : List α} (free : s ∉ w) : w ∈ t.splitOn s ↔ s :: (w ++ [s]) <:+: s :: (t ++ [s]) := by
  rw [mem_iff_enclosed (fun _ => mem_splitOn_free) free, flatMap_splitOn]
  rfl

end List
