import Mathlib.Algebra.Order.BigOperators.Group.List
import Std.Data.ExtTreeMap

/-! # Maps filled by a walk over another map

`Std.ExtTreeMap` has lemmas for one insertion. A loop that inserts what it selects from the entries of a
map, each at its own key, leaves exactly the selected entries.
-/

namespace Std.ExtTreeMap

variable {κ ν μ : Type} [Ord κ] [TransOrd κ] [LawfulEqOrd κ]
variable {source : ExtTreeMap κ ν} {order : List (κ × ν)} {entry : κ × ν} {entries : List (κ × ν)}

/-- One round of a loop that inserts what it selects. -/
def insertSelected (select : ν → Option μ) (m : ExtTreeMap κ μ) (entry : κ × ν) : ExtTreeMap κ μ :=
  match select entry.2 with
  | none => m
  | some a => m.insertIfNew entry.1 a

variable {select : ν → Option μ}

theorem getElem?_insertSelected_of_ne {m : ExtTreeMap κ μ} {k : κ} (other : entry.1 ≠ k) :
    (insertSelected select m entry)[k]? = m[k]? := by
  unfold insertSelected
  split
  · rfl
  · rw [getElem?_insertIfNew, if_neg]
    rintro ⟨same, -⟩
    exact other (LawfulEqCmp.eq_of_compare same)

theorem getElem?_insertSelected_self {m : ExtTreeMap κ μ} (new : m[entry.1]? = none) :
    (insertSelected select m entry)[entry.1]? = select entry.2 := by
  unfold insertSelected
  split
  · next none_ => rw [new, none_]
  · next a some_ =>
    have absent : entry.1 ∉ m := fun member => by rw [mem_iff_isSome_getElem?, new] at member; cases member
    rw [getElem?_insertIfNew, if_pos ⟨ReflCmp.compare_self, absent⟩, some_]

/-- A loop over entries with other keys leaves a key alone. -/
theorem getElem?_foldl_insertSelected_of_notMem {m : ExtTreeMap κ μ} {k : κ} (absent : ∀ entry ∈ entries, entry.1 ≠ k) :
    (entries.foldl (insertSelected select) m)[k]? = m[k]? := by
  induction entries generalizing m with
  | nil => rfl
  | cons entry entries ih =>
    obtain ⟨other, absent⟩ := List.forall_mem_cons.mp absent
    rw [List.foldl_cons, ih absent, getElem?_insertSelected_of_ne other]

theorem getElem?_foldl_insertSelected_of_mem (distinct : entries.Pairwise fun a b => a.1 ≠ b.1) {m : ExtTreeMap κ μ}
    (member : entry ∈ entries) (new : m[entry.1]? = none) :
    (entries.foldl (insertSelected select) m)[entry.1]? = select entry.2 := by
  induction entries generalizing m with
  | nil => cases member
  | cons first entries ih =>
    obtain ⟨others, distinct⟩ := List.pairwise_cons.mp distinct
    rw [List.foldl_cons]
    rcases List.mem_cons.mp member with rfl | member
    · rw [getElem?_foldl_insertSelected_of_notMem fun other present => (others other present).symm,
        getElem?_insertSelected_self new]
    · exact ih distinct member ((getElem?_insertSelected_of_ne (others entry member)).trans new)

theorem pairwise_of_perm_toList (perm : order.Perm source.toList) : order.Pairwise fun a b => a.1 ≠ b.1 := by
  apply perm.symm.pairwise _ fun differ same => differ same.symm
  refine distinct_keys_toList.imp fun differ same => differ ?_
  rw [same]
  exact ReflCmp.compare_self

/-- The loop over the entries of a map, in any order, leaves what it selects of them. -/
theorem getElem?_foldl_order (perm : order.Perm source.toList) (k : κ) :
    (order.foldl (insertSelected select) ∅)[k]? = source[k]?.bind select := by
  cases found : source[k]? with
  | none =>
    have absent : ∀ entry ∈ order, entry.1 ≠ k := by
      rintro ⟨k', v⟩ member rfl
      rw [perm.mem_iff, mem_toList_iff_getElem?_eq_some] at member
      exact Option.some_ne_none v (member.symm.trans found)
    exact (getElem?_foldl_insertSelected_of_notMem absent).trans getElem?_empty
  | some v =>
    have member : (k, v) ∈ order := perm.mem_iff.mpr (mem_toList_iff_getElem?_eq_some.mpr found)
    exact getElem?_foldl_insertSelected_of_mem (pairwise_of_perm_toList perm) member getElem?_empty

theorem getElem?_foldl_toList (source : ExtTreeMap κ ν) (k : κ) :
    (source.toList.foldl (insertSelected select) ∅)[k]? = source[k]?.bind select := getElem?_foldl_order (.refl _) k

/-- A loop that inserts an image of every entry, in any order, leaves the image of the map. -/
theorem foldl_order_eq_map (perm : order.Perm source.toList) (f : ν → μ) :
    order.foldl (insertSelected fun v => some (f v)) ∅ = source.map fun _ v => f v := by
  apply ext_getElem?
  intro k
  rw [getElem?_foldl_order perm, getElem?_map]
  cases source[k]? <;> rfl

/-- The entries in front of one have other keys. -/
theorem getElem?_foldl_front {order front rest : List (κ × ν)} (perm : order.Perm source.toList)
    (split : order = front ++ entry :: rest) : (front.foldl (insertSelected select) ∅)[entry.1]? = none := by
  have distinct := pairwise_of_perm_toList perm
  rw [split, List.pairwise_append] at distinct
  exact (getElem?_foldl_insertSelected_of_notMem fun other present =>
    distinct.2.2 other present entry List.mem_cons_self).trans getElem?_empty

/-- A new key is inserted. -/
theorem insertSelected_of_new {m : ExtTreeMap κ μ} {a : μ} (new : m[entry.1]? = none)
    (selects : select entry.2 = some a) : insertSelected select m entry = m.insert entry.1 a := by
  apply ext_getElem?
  intro k
  rw [getElem?_insert]
  by_cases same : entry.1 = k
  · subst same
    rw [getElem?_insertSelected_self new, selects, if_pos ReflCmp.compare_self]
  · rw [getElem?_insertSelected_of_ne same, if_neg fun equal => same (LawfulEqCmp.eq_of_compare equal)]

/-- Entries with new keys are inserted. -/
theorem foldl_insert_eq {f : ν → μ} {m : ExtTreeMap κ μ} (distinct : entries.Pairwise fun a b => a.1 ≠ b.1)
    (new : ∀ entry ∈ entries, m[entry.1]? = none) : entries.foldl (fun m entry => m.insert entry.1 (f entry.2)) m =
      entries.foldl (insertSelected fun v => some (f v)) m := by
  induction entries generalizing m with
  | nil => rfl
  | cons entry entries ih =>
    obtain ⟨others, distinct⟩ := List.pairwise_cons.mp distinct
    obtain ⟨newHead, newTail⟩ := List.forall_mem_cons.mp new
    have inserted : insertSelected (fun v => some (f v)) m entry = m.insert entry.1 (f entry.2) :=
      insertSelected_of_new newHead rfl
    rw [List.foldl_cons, List.foldl_cons, ← inserted]
    apply ih distinct
    intro other member
    rw [getElem?_insertSelected_of_ne (others other member)]
    exact newTail other member

/-- A loop that inserts an image of every entry of a map, in any order, leaves the image of the map. -/
theorem foldl_insert_order (perm : order.Perm source.toList) (f : ν → μ) :
    order.foldl (fun m entry => m.insert entry.1 (f entry.2)) ∅ = source.map fun _ v => f v := by
  rw [foldl_insert_eq (pairwise_of_perm_toList perm) fun _ _ => getElem?_empty, foldl_order_eq_map perm]

/-- The same where the image of an entry goes by its key. -/
theorem foldl_insert_map (source : ExtTreeMap κ ν) (f : κ → ν → μ) :
    source.toList.foldl (fun m entry => m.insert entry.1 (f entry.1 entry.2)) ∅ = source.map f := by
  have entries := foldl_insert_order (.refl (source.map Prod.mk).toList) fun entry => f entry.1 entry.2
  rw [toList_map, List.foldl_map] at entries
  rw [entries, map_map]

theorem map_unchanged (source : ExtTreeMap κ ν) : (source.map fun _ v => v) = source := by
  apply ext_getElem?
  intro k
  rw [getElem?_map]
  cases source[k]? <;> rfl

/-! ## Lookups by equality of the keys -/

section Equality

variable [DecidableEq κ]

theorem getElem?_insert_eq (m : ExtTreeMap κ μ) (k k' : κ) (v : μ) :
    (m.insert k v)[k']? = if k = k' then some v else m[k']? := by
  rw [getElem?_insert]
  exact if_congr LawfulEqCmp.compare_eq_iff_eq rfl rfl

theorem getD_insert_eq (m : ExtTreeMap κ μ) (k k' : κ) (v fallback : μ) :
    (m.insert k v).getD k' fallback = if k = k' then v else m.getD k' fallback := by
  rw [getD_insert]
  exact if_congr LawfulEqCmp.compare_eq_iff_eq rfl rfl

theorem getElem?_erase_eq (m : ExtTreeMap κ μ) (k k' : κ) : (m.erase k)[k']? = if k = k' then none else m[k']? := by
  rw [getElem?_erase]
  exact if_congr LawfulEqCmp.compare_eq_iff_eq rfl rfl

theorem getD_erase_eq (m : ExtTreeMap κ μ) (k k' : κ) (fallback : μ) :
    (m.erase k).getD k' fallback = if k = k' then fallback else m.getD k' fallback := by
  rw [getD_erase]
  exact if_congr LawfulEqCmp.compare_eq_iff_eq rfl rfl

/-- An entry of a map of maps is not kept where it is empty; a lookup does not see the difference. -/
theorem getD_erase_or_insert {ι : Type} [Ord ι] [TransOrd ι] (m : ExtTreeMap κ (ExtTreeMap ι μ)) (k k' : κ)
    (v : ExtTreeMap ι μ) :
    (if v.isEmpty then m.erase k else m.insert k v).getD k' ∅ = if k = k' then v else m.getD k' ∅ := by
  split
  next empty => rw [getD_erase_eq, isEmpty_iff.mp empty]
  next => rw [getD_insert_eq]

theorem ne_empty_of_erase_or_insert {ι : Type} [Ord ι] [TransOrd ι] {m : ExtTreeMap κ (ExtTreeMap ι μ)} {k k' : κ}
    {v v' : ExtTreeMap ι μ} (filled : ∀ (k : κ) (v : ExtTreeMap ι μ), m[k]? = some v → v ≠ ∅)
    (found : (if v.isEmpty then m.erase k else m.insert k v)[k']? = some v') : v' ≠ ∅ := by
  split at found
  next =>
    rw [getElem?_erase_eq] at found
    split at found
    next => cases found
    next => exact filled k' v' found
  next some_ =>
    rw [getElem?_insert_eq] at found
    split at found
    next =>
      cases found
      exact fun none_ => some_ (isEmpty_iff.mpr none_)
    next => exact filled k' v' found

end Equality

/-- A map without entries at the fallback is known from what is found or else the fallback. -/
theorem eq_of_getD {m n : ExtTreeMap κ μ} {fallback : μ} (left : ∀ (k : κ) (v : μ), m[k]? = some v → v ≠ fallback)
    (right : ∀ (k : κ) (v : μ), n[k]? = some v → v ≠ fallback) (same : ∀ k, m.getD k fallback = n.getD k fallback) :
    m = n := by
  apply ext_getElem?
  intro k
  have both := same k
  rw [getD_eq_getD_getElem?, getD_eq_getD_getElem?] at both
  cases inLeft : m[k]? with
  | none =>
    cases inRight : n[k]? with
    | none => rfl
    | some v =>
      rw [inLeft, inRight] at both
      exact absurd both.symm (right k v inRight)
  | some v =>
    cases inRight : n[k]? with
    | none =>
      rw [inLeft, inRight] at both
      exact absurd both (left k v inLeft)
    | some v' =>
      rw [inLeft, inRight] at both
      exact congrArg some both

theorem mem_insert_eq {m : ExtTreeMap κ μ} {k k' : κ} {v : μ} : k' ∈ m.insert k v ↔ k = k' ∨ k' ∈ m := by
  rw [mem_insert, LawfulEqCmp.compare_eq_iff_eq]

theorem mem_erase_eq {m : ExtTreeMap κ μ} {k k' : κ} : k' ∈ m.erase k ↔ k ≠ k' ∧ k' ∈ m := by
  rw [mem_erase, Ne, Ne, LawfulEqCmp.compare_eq_iff_eq]

omit [LawfulEqOrd κ] in
theorem getD_of_getElem? {m : ExtTreeMap κ μ} {k : κ} {v : μ} (found : m[k]? = some v) (fallback : μ) :
    m.getD k fallback = v := by
  rw [getD_eq_getD_getElem?, found]
  rfl

/-- Where there is an entry, `insertIfNew` changes nothing. -/
theorem insertIfNew_of_mem {m : ExtTreeMap κ μ} {k : κ} (member : k ∈ m) (v : μ) : m.insertIfNew k v = m := by
  apply ext_getElem?
  intro k'
  rw [getElem?_insertIfNew, if_neg]
  rintro ⟨-, absent⟩
  exact absent member

theorem getD_insertIfNew_same (m : ExtTreeMap κ μ) (k k' : κ) (v : μ) : (m.insertIfNew k v).getD k' v = m.getD k' v := by
  rw [getD_insertIfNew]
  split
  next new =>
    obtain rfl := LawfulEqCmp.eq_of_compare new.1
    rw [getD_eq_fallback new.2]
  next => rfl

/-! ## Growth -/

/-- A map that grew by at most so many entries, and kept the old ones when it grew by as many. -/
structure GrewBy (m m' : ExtTreeMap κ μ) (n : Nat) : Prop where
  size_le : m'.size ≤ m.size + n
  keeps : m'.size = m.size + n → ∀ (k : κ) (v : μ), m[k]? = some v → m'[k]? = some v

omit [LawfulEqOrd κ] in
theorem GrewBy.same (m : ExtTreeMap κ μ) (n : Nat) : GrewBy m m n := ⟨Nat.le_add_right _ _, fun _ _ _ found => found⟩

theorem GrewBy.insert (m : ExtTreeMap κ μ) (k : κ) (v : μ) : GrewBy m (m.insert k v) 1 := by
  constructor
  · exact size_insert_le
  · intro grew k' v' found
    rw [size_insert] at grew
    split at grew
    · omega
    · next new =>
      rw [getElem?_insert, if_neg, found]
      intro same
      obtain rfl : k = k' := LawfulEqCmp.eq_of_compare same
      exact new (mem_iff_isSome_getElem?.mpr (by rw [found]; rfl))

omit [LawfulEqOrd κ] in
theorem GrewBy.trans {m m' m'' : ExtTreeMap κ μ} {i j : Nat} (first : GrewBy m m' i) (next : GrewBy m' m'' j) :
    GrewBy m m'' (i + j) := by
  have most := first.size_le
  have most' := next.size_le
  constructor
  · omega
  · intro grew k v found
    exact next.keeps (by omega) k v (first.keeps (by omega) k v found)

/-! ## Entries laid over others -/

/-- `m` has the old entry where nothing is written, and elsewhere one that `R` allows for the old entry and the written
one. -/
def LaidOver (R : Option ν → μ → ν → Prop) (old : ExtTreeMap κ ν) (written : ExtTreeMap κ μ) (m : ExtTreeMap κ ν) : Prop :=
  ∀ k : κ, (written[k]? = none → m[k]? = old[k]?) ∧ ∀ w, written[k]? = some w → ∃ v, m[k]? = some v ∧ R old[k]? w v

variable {R : Option ν → μ → ν → Prop} {old m m' : ExtTreeMap κ ν} {written : ExtTreeMap κ μ} {k : κ}

omit [LawfulEqOrd κ] in
theorem LaidOver.start (R : Option ν → μ → ν → Prop) (old : ExtTreeMap κ ν) : LaidOver R old ∅ old :=
  fun k => ⟨fun _ => rfl, fun w found => by simp at found⟩

omit [LawfulEqOrd κ] in
/-- What is allowed at a key, also where a default stands for what is not written yet. -/
theorem LaidOver.getD (laid : LaidOver R old written m) {fresh : ν} {blank : μ}
    (unwritten : ∀ entry : Option ν, R entry blank (entry.getD fresh)) (k : κ) :
    R old[k]? (written[k]?.getD blank) (m[k]?.getD fresh) := by
  cases here : written[k]? with
  | none =>
    rw [(laid k).1 here]
    exact unwritten _
  | some w =>
    obtain ⟨v, found, allowed⟩ := (laid k).2 w here
    rw [found]
    exact allowed

theorem LaidOver.insert (laid : LaidOver R old written m) {v : ν} {w : μ} (allowed : R old[k]? w v) :
    LaidOver R old (written.insert k w) (m.insert k v) := by
  intro k'
  obtain rfl | other := eq_or_ne k k'
  · rw [getElem?_insert_self, getElem?_insert_self]
    exact ⟨nofun, fun w' same => ⟨v, rfl, Option.some.inj same ▸ allowed⟩⟩
  · have apart : ¬ compare k k' = .eq := fun same => other (LawfulEqCmp.eq_of_compare same)
    rw [getElem?_insert, getElem?_insert, if_neg apart, if_neg apart]
    exact laid k'

/-- The same writes over a map and over none come to the same, exactly when none of the old entries shows. -/
theorem LaidOver.eq_iff {C : Option ν → μ → Prop} (laid : LaidOver R old written m) (laid' : LaidOver R ∅ written m')
    (covers : ∀ entry w v v', R entry w v → R none w v' → (v = v' ↔ C entry w)) :
    m = m' ↔ ∀ k : κ, (written[k]? = none → old[k]? = none) ∧ ∀ w, written[k]? = some w → C old[k]? w := by
  constructor
  · rintro rfl k
    refine ⟨fun here => ?_, fun w here => ?_⟩
    · rw [← (laid k).1 here, (laid' k).1 here, getElem?_empty]
    · obtain ⟨v, found, allowed⟩ := (laid k).2 w here
      obtain ⟨v', found', allowed'⟩ := (laid' k).2 w here
      rw [getElem?_empty] at allowed'
      exact (covers _ _ _ _ allowed allowed').mp (Option.some.inj (found.symm.trans found'))
  · intro covered
    apply ext_getElem?
    intro k
    cases here : written[k]? with
    | none => rw [(laid k).1 here, (laid' k).1 here, (covered k).1 here, getElem?_empty]
    | some w =>
      obtain ⟨v, found, allowed⟩ := (laid k).2 w here
      obtain ⟨v', found', allowed'⟩ := (laid' k).2 w here
      rw [getElem?_empty] at allowed'
      rw [found, found', (covers _ _ _ _ allowed allowed').mpr ((covered k).2 w here)]

end Std.ExtTreeMap

/-! ## Totals over a map

The entries of a map are one at a key and those of the map without the key, so a total over the entries moves
with an insertion, a replacement or a removal by what stood at the key before and after.
-/

namespace Std.ExtTreeMap

variable {κ ν M : Type} [Ord κ] [TransOrd κ] [LawfulEqOrd κ] {m : ExtTreeMap κ ν} {k : κ} {v : ν}

theorem nodup_toList (m : ExtTreeMap κ ν) : m.toList.Nodup := by
  refine m.distinct_keys_toList.imp fun other same => other ?_
  rw [same]
  exact ReflCmp.compare_self

theorem erase_of_getElem?_eq_none (absent : m[k]? = none) : m.erase k = m := by
  apply ext_getElem?
  intro k'
  rw [getElem?_erase]
  split
  next same => rw [← LawfulEqCmp.eq_of_compare same, absent]
  next => rfl

theorem erase_insert_self : (m.insert k v).erase k = m.erase k := by
  apply ext_getElem?
  intro k'
  rw [getElem?_erase, getElem?_erase]
  split
  next => rfl
  next other => rw [getElem?_insert, if_neg other]

theorem insert_insert_self {v' : ν} : (m.insert k v').insert k v = m.insert k v := by
  apply ext_getElem?
  intro k'
  rw [getElem?_insert, getElem?_insert, getElem?_insert]
  split <;> rfl

/-- The entry at a key, and the entries at the others. -/
theorem toList_perm_of_getElem? (found : m[k]? = some v) : m.toList.Perm ((k, v) :: (m.erase k).toList) := by
  have fresh : (k, v) ∉ (m.erase k).toList := by
    rw [mem_toList_iff_getElem?_eq_some, getElem?_erase_self]
    exact Option.some_ne_none v ∘ Eq.symm
  refine (List.perm_ext_iff_of_nodup m.nodup_toList (List.nodup_cons.mpr ⟨fresh, nodup_toList _⟩)).mpr ?_
  rintro ⟨k', v'⟩
  rw [List.mem_cons, mem_toList_iff_getElem?_eq_some, mem_toList_iff_getElem?_eq_some, getElem?_erase, Prod.mk.injEq]
  by_cases same : k = k'
  · subst same
    rw [found, if_pos ReflCmp.compare_self]
    simp only [Option.some.injEq, true_and, reduceCtorEq, or_false]
    exact eq_comm
  · rw [if_neg fun equal => same (LawfulEqCmp.eq_of_compare equal)]
    exact ⟨.inr, fun either => either.resolve_left fun equal => same equal.1.symm⟩

variable [AddCommMonoid M] (f : κ → ν → M)

/-- The sum of what the entries count for. -/
def total (m : ExtTreeMap κ ν) : M := (m.toList.map fun entry => f entry.1 entry.2).sum

theorem total_of_getElem? (found : m[k]? = some v) : m.total f = f k v + (m.erase k).total f := by
  rw [total, ((toList_perm_of_getElem? found).map _).sum_eq, List.map_cons, List.sum_cons, total]

/-- What the entry at a key counts for, and the total without the key. -/
theorem total_eq (m : ExtTreeMap κ ν) (k : κ) : m.total f = m[k]?.elim 0 (f k) + (m.erase k).total f := by
  cases found : m[k]? with
  | none => rw [Option.elim_none, zero_add, erase_of_getElem?_eq_none found]
  | some v => exact total_of_getElem? f found

theorem total_insert (m : ExtTreeMap κ ν) (k : κ) (v : ν) : (m.insert k v).total f = f k v + (m.erase k).total f := by
  rw [total_of_getElem? f getElem?_insert_self, erase_insert_self]

theorem total_nonneg [Preorder M] [AddLeftMono M] {f : κ → ν → M} (nonneg : ∀ k v, m[k]? = some v → 0 ≤ f k v) :
    0 ≤ m.total f := by
  refine List.sum_nonneg fun x member => ?_
  obtain ⟨entry, present, rfl⟩ := List.mem_map.mp member
  exact nonneg _ _ (mem_toList_iff_getElem?_eq_some.mp present)

end Std.ExtTreeMap
