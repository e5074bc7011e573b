import Coev.Model.Zookeeper.Transaction
import Coev.ToMathlib.Chunks

/-! # What the path check of ZooKeeper accepts

The look-aheads begin behind the first slash, so they miss a second one that follows it. Such a path is accepted when what
is behind its first slash is a valid path; everywhere else the check accepts the valid paths.
-/

namespace Coev.Zookeeper

variable {r : Bytes} {w : Bytes}

/-! ## Valid paths -/

/-- The pieces between the slashes of a path; a slash at its end begins no further piece. -/
def components (path : Bytes) : List Bytes :=
  ((if path.getLast? = some slash then path.dropLast else path).splitOn slash).tail

/-- A path that begins with a slash, whose components have names, without forbidden characters, and which ends in a slash
only where it is the root or gets a number appended. -/
structure ValidPath (path : Bytes) (mode : Int32) : Prop where
  rooted : path.head? = some slash
  named : ∀ c ∈ components path, c ≠ [] ∧ c ≠ [dot] ∧ c ≠ [dot, dot]
  permitted : ∀ c ∈ path, printable c = true
  ended : path.getLast? = some slash → path = [slash] ∨ isSequence mode = true

private theorem components_of_ended (r : Bytes) : components (slash :: (r ++ [slash])) = r.splitOn slash := by
  rw [components, if_pos (by rw [← List.cons_append, List.getLast?_concat]), ← List.cons_append, List.dropLast_concat,
    List.splitOn_cons_eq_if_modifyHead, if_pos (beq_self_eq_true slash), List.tail_cons]

private theorem components_of_open (unended : (slash :: r).getLast? ≠ some slash) :
    components (slash :: r) = r.splitOn slash := by
  rw [components, if_neg unended, List.splitOn_cons_eq_if_modifyHead, if_pos (beq_self_eq_true slash), List.tail_cons]

/-- The root, a path with a slash at its end, and a path with another byte there. -/
theorem shapes (r : Bytes) : r = [] ∨ (∃ t, r = t ++ [slash]) ∨ (slash :: r).getLast? ≠ some slash := by
  rcases List.eq_nil_or_concat' r with rfl | ⟨t, c, rfl⟩
  · exact .inl rfl
  · by_cases ended : c = slash
    · exact .inr (.inl ⟨t, ended ▸ rfl⟩)
    · refine .inr (.inr ?_)
      rw [← List.cons_append, List.getLast?_concat]
      exact fun same => ended (Option.some.inj same)

private theorem mem_components_iff (named : w ≠ []) (free : slash ∉ w) (r : Bytes) :
    w ∈ components (slash :: r) ↔ slash :: (w ++ [slash]) <:+: slash :: (r ++ [slash]) := by
  rcases shapes r with rfl | ⟨t, rfl⟩ | unended
  · refine iff_of_false List.not_mem_nil fun within => named ?_
    have short := within.length_le
    simpa using short
  · -- the second slash at the end encloses nothing but the empty piece
    have apart : ¬slash :: (w ++ [slash]) <:+ slash :: (t ++ [slash]) ++ [slash] := by
      rintro ⟨u, same⟩
      rw [← List.cons_append, ← List.append_assoc, ← List.cons_append] at same
      have shorter := congrArg List.getLast? (List.append_cancel_right same)
      obtain ⟨v, c, rfl⟩ := (List.eq_nil_or_concat' w).resolve_left named
      rw [← List.cons_append, ← List.append_assoc, List.getLast?_concat, List.getLast?_concat] at shorter
      exact free (Option.some.inj shorter ▸ List.mem_append_right _ (List.mem_singleton_self c))
    rw [components_of_ended, List.mem_splitOn_iff free]
    exact ((or_iff_right apart).symm.trans List.infix_concat_iff.symm)
  · rw [components_of_open unended, List.mem_splitOn_iff free]

private theorem nil_mem_components_iff (r : Bytes) : [] ∈ components (slash :: r) ↔ [slash, slash] <:+: slash :: r := by
  rcases shapes r with rfl | ⟨t, rfl⟩ | unended
  · refine iff_of_false List.not_mem_nil fun within => ?_
    have short := within.length_le
    simp at short
  · rw [components_of_ended, List.mem_splitOn_iff List.not_mem_nil]
    rfl
  · have apart : ¬[slash, slash] <:+ slash :: r ++ [slash] := by
      rintro ⟨u, same⟩
      rw [List.append_cons] at same
      have shorter := congrArg List.getLast? (List.append_cancel_right same)
      rw [List.getLast?_concat] at shorter
      exact unended shorter.symm
    rw [components_of_open unended, List.mem_splitOn_iff List.not_mem_nil]
    exact List.infix_concat_iff.trans (or_iff_right apart)

/-! ## What the expressions find -/

private theorem nowhere_matches_iff {text : Bytes} {x y : Place UInt8} (printables : ∀ c ∈ x.after, printable c = true) :
    (nowhere text).Matches x y ↔ ¬text <:+: x.after ∧ y = x := by
  refine and_congr_left fun _ => not_congr (Regex.exists_matches_ahead.trans ⟨?_, ?_⟩)
  · rintro ⟨skipped, rest, -, behind⟩
    exact ⟨skipped, rest, behind.symm⟩
  · rintro ⟨skipped, rest, behind⟩
    refine ⟨skipped, rest, fun c member => ?_, behind.symm⟩
    have shown : printable c = true := printables c (by
      rw [← behind, List.append_assoc]
      exact List.mem_append_left _ member)
    have least : 32 ≤ c := of_decide_eq_true shown
    simp only [Bool.and_eq_true, bne_iff_ne, ne_eq]
    constructor <;> rintro rfl <;> exact absurd least (by decide)

/-- The expression behind its first slash. -/
theorem fullMatch_pathRegex_iff (r : Bytes) :
    pathRegex.fullMatch (slash :: r) = true ↔ r ≠ [] ∧ (∀ c ∈ r, printable c = true) ∧
      ¬[slash, slash] <:+: r ∧ ¬[slash, dot, slash] <:+: r ∧ ¬[slash, dot, dot, slash] <:+: r := by
  rw [Regex.fullMatch_iff]
  constructor
  · rintro ⟨y, ⟨a, ⟨-, rfl⟩, b, first, c, noDouble, d, noDot, e, noDots, f, shown, last, rfl⟩, -⟩
    have behind : r = b.after := (List.cons.inj (Regex.matches_literal.mp first).1).2
    obtain rfl := noDouble.2
    obtain rfl := noDot.2
    obtain rfl := noDots.2
    obtain ⟨w, nonempty, printables, crossed⟩ := Regex.matches_some.mp shown
    have all : w = r := by rw [behind, crossed.1, last, List.append_nil]
    subst all
    rw [behind] at printables
    rw [behind] at nonempty ⊢
    exact ⟨nonempty, printables, ((nowhere_matches_iff printables).mp noDouble).1,
      ((nowhere_matches_iff printables).mp noDot).1, ((nowhere_matches_iff printables).mp noDots).1⟩
  · rintro ⟨nonempty, printables, noDouble, noDot, noDots⟩
    have found {text : Bytes} (absent : ¬text <:+: r) : (nowhere text).Matches ⟨[slash], r⟩ ⟨[slash], r⟩ :=
      (nowhere_matches_iff printables).mpr ⟨absent, rfl⟩
    have shown : (Regex.some printable).Matches ⟨[slash], r⟩ ⟨r.reverse ++ [slash], []⟩ :=
      Regex.matches_some.mpr ⟨r, nonempty, printables, (List.append_nil r).symm, rfl⟩
    exact ⟨_, ⟨_, ⟨rfl, rfl⟩, ⟨[slash], r⟩, Regex.matches_literal.mpr ⟨rfl, rfl⟩, _, found noDouble, _, found noDot, _,
      found noDots, _, shown, rfl, rfl⟩, rfl⟩

private theorem whole_matches {w v : Bytes} (u : Bytes) (closed : v = [] ∨ ∃ t, v = slash :: t) :
    ∃ y, (whole w).Matches ⟨u.reverse, slash :: (w ++ v)⟩ y := by
  have opens : (Regex.either .start (.literal [slash])).Matches ⟨u.reverse, slash :: (w ++ v)⟩
      ⟨slash :: u.reverse, w ++ v⟩ := .inr (Regex.matches_literal.mpr ⟨rfl, rfl⟩)
  have found : (Regex.literal w).Matches ⟨slash :: u.reverse, w ++ v⟩ ⟨w.reverse ++ slash :: u.reverse, v⟩ :=
    Regex.matches_literal.mpr ⟨rfl, rfl⟩
  rcases closed with last | ⟨t, rfl⟩
  · exact ⟨_, _, opens, _, found, .inl ⟨last, rfl⟩⟩
  · exact ⟨⟨slash :: (w.reverse ++ slash :: u.reverse), t⟩, _, opens, _, found,
      .inr (Regex.matches_literal.mpr ⟨rfl, rfl⟩)⟩

private theorem search_whole_iff (named : w ≠ []) (free : slash ∉ w) (r : Bytes) :
    (whole w).search (slash :: r) = true ↔ slash :: (w ++ [slash]) <:+: slash :: (r ++ [slash]) := by
  rw [Regex.search_iff]
  constructor
  · rintro ⟨u, rest, y, text, z, opens, z', found, closes⟩
    have word := (Regex.matches_literal.mp found).1
    have opened : ∃ v, slash :: r = v ++ slash :: z.after := by
      rcases opens with ⟨first, rfl⟩ | first
      · obtain rfl : u = [] := List.reverse_eq_nil_iff.mp first
        obtain ⟨c, w, rfl⟩ := List.exists_cons_of_ne_nil named
        have heads := List.cons.inj (text.trans word)
        exact absurd (heads.1 ▸ List.mem_cons_self) free
      · exact ⟨u, text.trans (congrArg (u ++ ·) (Regex.matches_literal.mp first).1)⟩
    obtain ⟨v, opened⟩ := opened
    have closed : ∃ v', z'.after ++ [slash] = slash :: v' := by
      rcases closes with ⟨last, -⟩ | last
      · exact ⟨[], by rw [last]; rfl⟩
      · exact ⟨y.after ++ [slash], congrArg (· ++ [slash]) (Regex.matches_literal.mp last).1⟩
    obtain ⟨v', closed⟩ := closed
    refine ⟨v, v', ?_⟩
    calc v ++ slash :: (w ++ [slash]) ++ v' = v ++ slash :: (w ++ (slash :: v')) := by simp
      _ = v ++ slash :: z.after ++ [slash] := by rw [← closed, word]; simp
      _ = slash :: (r ++ [slash]) := by rw [← opened]; rfl
  · rintro ⟨u, v, text⟩
    have shaped : u ++ slash :: (w ++ ([slash] ++ v)) = slash :: r ++ [slash] := by
      rw [← List.append_assoc w, ← List.cons_append, ← List.append_assoc]
      exact text
    rcases List.eq_nil_or_concat' v with rfl | ⟨t, c, rfl⟩
    · rw [List.append_nil, ← List.cons_append, ← List.append_assoc] at shaped
      obtain ⟨y, matched⟩ := whole_matches (w := w) u (.inl rfl)
      exact ⟨u, _, y, (List.append_cancel_right shaped).symm.trans (by rw [List.append_nil]), matched⟩
    · have same : u ++ slash :: (w ++ ([slash] ++ t)) = slash :: r := by
        rw [← List.append_assoc [slash], ← List.append_assoc w, ← List.cons_append, ← List.append_assoc] at shaped
        exact (List.append_inj' shaped rfl).1
      obtain ⟨y, matched⟩ := whole_matches (w := w) (v := [slash] ++ t) u (.inr ⟨t, rfl⟩)
      exact ⟨u, _, y, same.symm, matched⟩

/-! ## The check -/

/-- What the check asks of the bytes behind the first slash, apart from slashes that follow one another. -/
structure Clean (r : Bytes) (mode : Int32) : Prop where
  permitted : ∀ c ∈ r, printable c = true
  noDot : [dot] ∉ components (slash :: r)
  noDots : [dot, dot] ∉ components (slash :: r)
  ended : (slash :: r).getLast? = some slash → isSequence mode = true

private theorem search_dotRegex_iff (r : Bytes) :
    dotRegex.search (slash :: r) = true ↔ [dot] ∈ components (slash :: r) ∨ [dot, dot] ∈ components (slash :: r) := by
  rw [dotRegex, Regex.search_either, search_whole_iff (by decide) (by decide), search_whole_iff (by decide) (by decide),
    mem_components_iff (by decide) (by decide), mem_components_iff (by decide) (by decide)]

/-- A dot between two slashes of the bytes is a component. -/
theorem absent_of_free (named : w ≠ []) (free : slash ∉ w) (absent : w ∉ components (slash :: r)) :
    ¬slash :: (w ++ [slash]) <:+: r := by
  rw [mem_components_iff named free] at absent
  exact fun within => absent (List.infix_cons (within.trans (List.prefix_append r [slash]).isInfix))

private theorem isValidPath_iff (below : r ≠ []) (mode : Int32) :
    isValidPath (slash :: r) mode = true ↔ Clean r mode ∧ ¬[slash, slash] <:+: r := by
  have long : ¬(slash :: r).length = 1 := by simpa using below
  rw [isValidPath, if_neg (by simp), if_neg long]
  by_cases refused : (slash :: r).getLast? = some slash ∧ !isSequence mode
  · rw [if_pos refused]
    refine iff_of_false (by decide) fun accepted => ?_
    rw [accepted.1.ended refused.1] at refused
    exact absurd refused.2 (by decide)
  · rw [if_neg refused, Bool.and_eq_true, Bool.not_eq_true', ← Bool.not_eq_true, search_dotRegex_iff,
      fullMatch_pathRegex_iff, not_or]
    constructor
    · rintro ⟨⟨-, permitted, noDouble, -, -⟩, noDot, noDots⟩
      refine ⟨⟨permitted, noDot, noDots, fun ended => ?_⟩, noDouble⟩
      by_contra unnumbered
      exact refused ⟨ended, by simpa using unnumbered⟩
    · rintro ⟨clean, noDouble⟩
      exact ⟨⟨below, clean.permitted, noDouble, absent_of_free (by decide) (by decide) clean.noDot,
        absent_of_free (by decide) (by decide) clean.noDots⟩, clean.noDot, clean.noDots⟩

private theorem validPath_iff (below : r ≠ []) (mode : Int32) :
    ValidPath (slash :: r) mode ↔ Clean r mode ∧ ¬[slash, slash] <:+: slash :: r := by
  rw [← nil_mem_components_iff]
  have other : slash :: r ≠ [slash] := fun same => below (List.cons.inj same).2
  constructor
  · intro valid
    refine ⟨⟨fun c member => valid.permitted c (List.mem_cons_of_mem _ member), fun member => ?_, fun member => ?_,
      fun ended => (valid.ended ended).resolve_left other⟩, fun member => ?_⟩
    · exact (valid.named _ member).2.1 rfl
    · exact (valid.named _ member).2.2 rfl
    · exact (valid.named _ member).1 rfl
  · rintro ⟨clean, named⟩
    refine ⟨rfl, fun c member => ⟨?_, ?_, ?_⟩, List.forall_mem_cons.mpr ⟨by decide, clean.permitted⟩,
      fun ended => .inr (clean.ended ended)⟩
    · rintro rfl
      exact named member
    · rintro rfl
      exact clean.noDot member
    · rintro rfl
      exact clean.noDots member

private theorem root_valid (mode : Int32) : isValidPath [slash] mode = true ∧ ValidPath [slash] mode :=
  ⟨rfl, rfl, fun _ member => absurd member List.not_mem_nil, List.forall_mem_singleton.mpr rfl, fun _ => .inl rfl⟩

private theorem mem_components_cons_iff (named : w ≠ []) (free : slash ∉ w) (r : Bytes) :
    w ∈ components (slash :: slash :: r) ↔ w ∈ components (slash :: r) := by
  rw [mem_components_iff named free, mem_components_iff named free, List.infix_cons_iff, List.cons_append]
  refine or_iff_right fun starts => ?_
  obtain ⟨c, w, rfl⟩ := List.exists_cons_of_ne_nil named
  have heads := (List.cons_prefix_cons.mp (List.cons_prefix_cons.mp starts).2).1
  exact free (heads ▸ List.mem_cons_self)

private theorem clean_cons_iff {mode : Int32} : Clean (slash :: r) mode ↔ Clean r mode := by
  have dots := mem_components_cons_iff (w := [dot]) (by decide) (by decide) r
  have doubles := mem_components_cons_iff (w := [dot, dot]) (by decide) (by decide) r
  constructor
  · rintro ⟨permitted, noDot, noDots, ended⟩
    exact ⟨(List.forall_mem_cons.mp permitted).2, mt dots.mpr noDot, mt doubles.mpr noDots, ended⟩
  · rintro ⟨permitted, noDot, noDots, ended⟩
    exact ⟨List.forall_mem_cons.mpr ⟨by decide, permitted⟩, mt dots.mp noDot, mt doubles.mp noDots, ended⟩

/-- What the check accepts although it is no valid path: a slash in front of one. -/
theorem accepted_invalid_iff (below : r ≠ []) (mode : Int32) :
    isValidPath (slash :: r) mode = true ∧ ¬ValidPath (slash :: r) mode ↔
      ValidPath r mode ∧ (r = [slash] → isSequence mode = true) := by
  rw [isValidPath_iff below, validPath_iff below]
  constructor
  · rintro ⟨⟨clean, noDouble⟩, invalid⟩
    have starts : [slash, slash] <+: slash :: r :=
      (List.infix_cons_iff.mp (not_not.mp fun absent => invalid ⟨clean, absent⟩)).resolve_right noDouble
    obtain ⟨t, rfl⟩ : ∃ t, r = slash :: t := by
      obtain ⟨t, same⟩ := starts
      exact ⟨t, (List.cons.inj same).2.symm⟩
    have inner := clean_cons_iff.mp clean
    rcases eq_or_ne t [] with rfl | deep
    · exact ⟨(root_valid mode).2, fun _ => inner.ended rfl⟩
    · exact ⟨(validPath_iff deep mode).mpr ⟨inner, noDouble⟩, fun root => absurd (List.cons.inj root).2 deep⟩
  · rintro ⟨valid, numbered⟩
    obtain ⟨t, rfl⟩ : ∃ t, r = slash :: t := List.head?_eq_some_iff.mp valid.rooted
    have doubled : [slash, slash] <:+: slash :: slash :: t := ⟨[], t, rfl⟩
    rcases eq_or_ne t [] with rfl | deep
    · have clean : Clean [] mode := ⟨fun _ member => absurd member List.not_mem_nil, List.not_mem_nil, List.not_mem_nil,
        fun _ => numbered rfl⟩
      exact ⟨⟨clean_cons_iff.mpr clean, fun within => absurd within.length_le (by decide)⟩, fun valid => valid.2 doubled⟩
    · obtain ⟨clean, noDouble⟩ := (validPath_iff deep mode).mp valid
      exact ⟨⟨clean_cons_iff.mpr clean, noDouble⟩, fun valid => valid.2 doubled⟩

/-- Every valid path is accepted. -/
theorem ValidPath.accepted {path : Bytes} {mode : Int32} (valid : ValidPath path mode) : isValidPath path mode = true := by
  obtain ⟨r, rfl⟩ := List.head?_eq_some_iff.mp valid.rooted
  rcases eq_or_ne r [] with rfl | below
  · exact (root_valid mode).1
  · obtain ⟨clean, noDouble⟩ := (validPath_iff below mode).mp valid
    exact (isValidPath_iff below mode).mpr ⟨clean, fun within => noDouble (List.infix_cons within)⟩

/-- The check agrees with what a valid path is unless the path is a slash in front of a valid path. -/
theorem path_check_iff (path : Bytes) (mode : Int32) : (isValidPath path mode = true ↔ ValidPath path mode) ↔
      ¬∃ rest, path = slash :: rest ∧ ValidPath rest mode ∧ (rest = [slash] → isSequence mode = true) := by
  constructor
  · rintro agree ⟨r, rfl, valid, numbered⟩
    have below : r ≠ [] := fun root => absurd (root ▸ valid.rooted) (by decide)
    obtain ⟨accepted, invalid⟩ := (accepted_invalid_iff below mode).mpr ⟨valid, numbered⟩
    exact invalid (agree.mp accepted)
  · intro alone
    refine ⟨fun accepted => ?_, ValidPath.accepted⟩
    by_contra invalid
    have rooted : path.head? = some slash := by
      by_contra unrooted
      rw [isValidPath, if_pos unrooted] at accepted
      exact absurd accepted (by decide)
    obtain ⟨r, rfl⟩ := List.head?_eq_some_iff.mp rooted
    have below : r ≠ [] := fun root => invalid (root ▸ (root_valid mode).2)
    obtain ⟨valid, numbered⟩ := (accepted_invalid_iff below mode).mp ⟨accepted, invalid⟩
    exact alone ⟨r, rfl, valid, numbered⟩

/-- `//a` is accepted with its empty component. -/
theorem leading_slashes : isValidPath [47, 47, 97] 0 = true ∧ ¬ValidPath [47, 47, 97] 0 :=
  ⟨by decide, fun valid => (valid.named [] (by decide)).1 rfl⟩

end Coev.Zookeeper
