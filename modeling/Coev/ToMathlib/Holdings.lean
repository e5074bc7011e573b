import Mathlib.Data.List.Nodup
import Mathlib.Data.List.Perm.Basic
import Mathlib.Data.List.ReduceOption

/-! # Items and their holders
Items are held by holders, each in a list, and a second map names the holder of an item. The two stay in step while an
item is given away or moved.
-/

namespace Holdings

variable {κ ι : Type*} [DecidableEq κ] [DecidableEq ι]

/-- The lists of the holders and the holders of the items say the same, and no item is held twice. -/
structure InStep (held : κ → List ι) (holder : ι → Option κ) : Prop where
  mem_iff : ∀ k i, i ∈ held k ↔ holder i = some k
  nodup : ∀ k, (held k).Nodup

variable {held : κ → List ι} {holder : ι → Option κ} {i : ι} {source target : κ}

omit [DecidableEq κ] [DecidableEq ι] in
theorem InStep.unique (inStep : InStep held holder) {k k' : κ} (first : i ∈ held k) (second : i ∈ held k') : k = k' := by
  rw [inStep.mem_iff] at first second
  exact Option.some.inj (first.symm.trans second)

/-- An item that nobody holds is given to a holder. -/
theorem InStep.give (inStep : InStep held holder) (free : holder i = none) (k : κ) :
    InStep (Function.update held k (held k ++ [i])) (Function.update holder i (some k)) := by
  have absent (k : κ) : i ∉ held k := fun member => by rw [inStep.mem_iff, free] at member; cases member
  constructor
  · intro k' j
    obtain rfl | other := eq_or_ne j i
    · rw [Function.update_self]
      obtain rfl | differ := eq_or_ne k' k
      · simp
      · simp [Function.update_of_ne differ, absent, differ.symm]
    · rw [Function.update_of_ne other, ← inStep.mem_iff]
      obtain rfl | differ := eq_or_ne k' k
      · simp [other]
      · rw [Function.update_of_ne differ]
  · intro k'
    obtain rfl | differ := eq_or_ne k' k
    · rw [Function.update_self]
      exact (inStep.nodup k').append (List.nodup_singleton i) (by simpa using absent k')
    · rw [Function.update_of_ne differ]
      exact inStep.nodup k'

omit [DecidableEq κ] [DecidableEq ι] in
/-- Every holder keeps its items in some order. -/
theorem InStep.reorder (inStep : InStep held holder) {held' : κ → List ι} (perm : ∀ k, (held' k).Perm (held k)) :
    InStep held' holder :=
  ⟨fun k i => (perm k).mem_iff.trans (inStep.mem_iff k i), fun k => (perm k).nodup_iff.mpr (inStep.nodup k)⟩

omit [DecidableEq ι] in
/-- All that one holder has goes to another one, which has nothing. -/
theorem InStep.pass (inStep : InStep held holder) (nothing : held target = []) (apart : source ≠ target) :
    InStep (Function.update (Function.update held target (held source)) source [])
      fun i => if holder i = some source then some target else holder i := by
  constructor
  · intro k i
    obtain rfl | differ := eq_or_ne k source
    · rw [Function.update_self]
      split
      · simpa using apart.symm
      · next other => simpa using other
    · rw [Function.update_of_ne differ]
      obtain rfl | another := eq_or_ne k target
      · rw [Function.update_self, inStep.mem_iff]
        split
        · next mine => simp [mine]
        · next other =>
          refine iff_of_false other fun holds => ?_
          have member := (inStep.mem_iff k i).mpr holds
          simp [nothing] at member
      · rw [Function.update_of_ne another, inStep.mem_iff]
        split
        · next mine => simp [mine, differ.symm, another.symm]
        · exact Iff.rfl
  · intro k
    obtain rfl | differ := eq_or_ne k source
    · simp
    · rw [Function.update_of_ne differ]
      obtain rfl | another := eq_or_ne k target
      · rw [Function.update_self]
        exact inStep.nodup source
      · rw [Function.update_of_ne another]
        exact inStep.nodup k

section Move

variable [BEq ι] [LawfulBEq ι]

/-- A holder gives an item away. -/
theorem InStep.release (inStep : InStep held holder) (holds : holder i = some source) :
    InStep (Function.update held source ((held source).erase i)) (Function.update holder i none) := by
  constructor
  · intro k j
    obtain rfl | other := eq_or_ne j i
    · rw [Function.update_self]
      obtain rfl | differ := eq_or_ne k source
      · simp [(inStep.nodup k).mem_erase_iff]
      · rw [Function.update_of_ne differ, inStep.mem_iff, holds]
        simpa using differ.symm
    · rw [Function.update_of_ne other, ← inStep.mem_iff]
      obtain rfl | differ := eq_or_ne k source
      · simp [(inStep.nodup k).mem_erase_iff, other]
      · rw [Function.update_of_ne differ]
  · intro k
    obtain rfl | differ := eq_or_ne k source
    · rw [Function.update_self]
      exact (inStep.nodup k).erase i
    · rw [Function.update_of_ne differ]
      exact inStep.nodup k

/-- What the holders have after an item went to another one. -/
def move (held : κ → List ι) (i : ι) (source target : κ) : κ → List ι :=
  let removed := Function.update held source ((held source).erase i)
  Function.update removed target (removed target ++ [i])

/-- An item goes from its holder to another one. -/
theorem InStep.move (inStep : InStep held holder) (holds : holder i = some source) (target : κ) :
    InStep (move held i source target) (Function.update holder i (some target)) := by
  have given := (inStep.release holds).give (Function.update_self i none holder) target
  rwa [Function.update_idem] at given

theorem mem_move (inStep : InStep held holder) (holds : holder i = some source) (target : κ) (k : κ) (j : ι) :
    j ∈ Holdings.move held i source target k ↔ if j = i then k = target else j ∈ held k := by
  rw [(inStep.move holds target).mem_iff]
  split
  next same => rw [same, Function.update_self, Option.some.injEq, eq_comm]
  next other => rw [Function.update_of_ne other, inStep.mem_iff]

end Move

/-! ## Slots

A slot holds an item or none. The items that are held are those of the slots, in some order.
-/

section Slots

variable {α : Type*} {slots : List (Option α)} {n m : ℕ} {a : α}

theorem perm_fill (free : slots[n]? = some none) : (slots.set n (some a)).reduceOption.Perm (a :: slots.reduceOption) := by
  induction slots generalizing n with
  | nil => cases free
  | cons slot slots ih =>
    cases n with
    | zero =>
      obtain rfl : slot = none := Option.some.inj free
      exact .refl _
    | succ n =>
      have rest := ih free
      cases slot with
      | none => exact rest
      | some b => exact (rest.cons b).trans (.swap a b _)

theorem perm_vacate (holds : slots[n]? = some (some a)) :
    slots.reduceOption.Perm (a :: (slots.set n none).reduceOption) := by
  induction slots generalizing n with
  | nil => cases holds
  | cons slot slots ih =>
    cases n with
    | zero =>
      obtain rfl : slot = some a := Option.some.inj holds
      exact .refl _
    | succ n =>
      have rest := ih holds
      cases slot with
      | none => exact rest
      | some b => exact (rest.cons b).trans (.swap a b _)

theorem set_of_getElem? {item : Option α} (holds : slots[n]? = some item) : slots.set n item = slots := by
  obtain ⟨bound, rfl⟩ := List.getElem?_eq_some_iff.mp holds
  exact List.set_getElem_self bound

/-- What one slot holds goes into another one that is free. -/
theorem perm_transfer {item : Option α} (holds : slots[n]? = some item) (free : slots[m]? = some none) (apart : n ≠ m) :
    ((slots.set m item).set n none).reduceOption.Perm slots.reduceOption := by
  cases item with
  | none =>
    rw [set_of_getElem? free, set_of_getElem? holds]
  | some a =>
    have still : (slots.set m (some a))[n]? = some (some a) := by rw [List.getElem?_set_ne apart.symm, holds]
    exact List.Perm.cons_inv ((perm_vacate still).symm.trans (perm_fill free))

/-- What slots hold behind a write was written or is what they held. -/
theorem subperm_set (item : Option α) (rest : List α) :
    ((slots.set n item).reduceOption ++ rest).Subperm ((item :: slots).reduceOption ++ rest) := by
  rw [List.subperm_append_right]
  by_cases bound : n < slots.length
  · have written := (List.set_perm_cons_eraseIdx bound item).filterMap id
    exact written.subperm.trans (((List.eraseIdx_sublist slots n).cons_cons item).filterMap id).subperm
  · rw [List.set_eq_of_length_le (Nat.le_of_not_lt bound)]
    exact ((List.sublist_cons_self item slots).filterMap id).subperm

end Slots

end Holdings
