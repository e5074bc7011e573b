import Mathlib.Data.List.Nodup

/-! # Doubly linked rings

Every node has a node in front of it and one behind it. A ring leaves a node, visits the nodes of a list and comes back,
and what one ring visits is the same whatever is linked anew among the nodes of others.
-/

/-- The nodes before and behind each node. -/
structure Links (α : Type*) where
  next : α → α := id
  prev : α → α := id

namespace Links

variable {α : Type*}

/-- One node is behind another, and that one in front of it. -/
def Behind (s : Links α) (a b : α) : Prop := s.next a = b ∧ s.prev b = a

/-- From one node through those of a list to another, and the same way back. -/
def Path (s : Links α) (a : α) : List α → α → Prop
  | [], b => s.Behind a b
  | x :: xs, b => s.Behind a x ∧ s.Path x xs b

/-- A ring of different nodes, named from one of them. -/
structure Ring (s : Links α) (h : α) (xs : List α) : Prop where
  path : s.Path h xs h
  nodup : (h :: xs).Nodup

variable {s : Links α} {a b c d h x : α} {xs ys : List α}

theorem ring_nil : s.Ring h [] ↔ s.Behind h h :=
  ⟨fun ring => ring.path, fun path => ⟨path, List.nodup_singleton h⟩⟩

theorem path_append : s.Path a (xs ++ x :: ys) b ↔ s.Path a xs x ∧ s.Path x ys b := by
  induction xs generalizing a with
  | nil => exact Iff.rfl
  | cons y xs ih => exact (and_congr_right fun _ => ih).trans and_assoc.symm

/-- The node in front of the last one, and the node behind the first. -/
theorem Path.prev_eq (path : s.Path a xs b) : s.prev b = (a :: xs).getLast (List.cons_ne_nil a xs) := by
  induction xs generalizing a with
  | nil => exact path.2
  | cons x xs ih => rw [ih path.2, List.getLast_cons (List.cons_ne_nil x xs)]

theorem Path.next_eq (path : s.Path a xs b) : s.next a = (xs ++ [b]).head (by simp) := by
  cases xs with
  | nil => exact path.1
  | cons x xs => exact path.1.1

/-- There and back. -/
theorem Path.next_prev (path : s.Path a xs b) : s.next (s.prev b) = b := by
  induction xs generalizing a with
  | nil => rw [path.2, path.1]
  | cons x xs ih => exact ih path.2

theorem Path.prev_next (path : s.Path a xs b) : s.prev (s.next a) = a := by
  cases xs with
  | nil => rw [path.1, path.2]
  | cons x xs => rw [path.1.1, path.1.2]

/-- The neighbours of a node in a ring are in the ring. -/
theorem Path.next_mem (path : s.Path a xs a) : s.next a ∈ a :: xs := by
  cases xs with
  | nil => rw [path.1]; exact List.mem_cons_self
  | cons x xs => rw [path.1.1]; exact List.mem_cons_of_mem a List.mem_cons_self

theorem Path.prev_mem (path : s.Path a xs b) : s.prev b ∈ a :: xs := path.prev_eq ▸ List.getLast_mem _

/-- On both sides of a node of a ring are others of its nodes. -/
theorem Ring.neighbours (ring : s.Ring h (xs ++ x :: ys)) : s.prev x ∈ h :: (xs ++ ys) ∧ s.next x ∈ h :: (xs ++ ys) := by
  obtain ⟨before, behind⟩ := path_append.mp ring.path
  refine ⟨List.mem_append_left ys before.prev_mem, ?_⟩
  have member : s.next x ∈ ys ++ [h] := behind.next_eq ▸ List.head_mem _
  simp only [List.mem_append, List.mem_cons, List.not_mem_nil, or_false] at member ⊢
  exact member.symm.imp_right .inr

theorem Ring.not_mem_others (ring : s.Ring h (xs ++ x :: ys)) : x ∉ h :: (xs ++ ys) := by
  have nodup := ring.nodup
  rw [← List.cons_append, List.nodup_middle, List.cons_append] at nodup
  exact (List.nodup_cons.mp nodup).1

/-- Nothing is linked to the node of an empty ring, and only there. -/
theorem Ring.next_eq_self_iff (ring : s.Ring h xs) : s.next h = h ↔ xs = [] := by
  cases xs with
  | nil => exact iff_of_true ring.path.1 rfl
  | cons x xs =>
    refine iff_of_false (fun same => ?_) (List.cons_ne_nil x xs)
    exact (List.nodup_cons.mp ring.nodup).1 (same ▸ ring.path.1.1 ▸ List.mem_cons_self)

variable [DecidableEq α]

/-- Put one node in front of another. -/
def link (s : Links α) (a b : α) : Links α :=
  { next := Function.update s.next a b, prev := Function.update s.prev b a }

@[simp] theorem next_link_self (s : Links α) (a b : α) : (s.link a b).next a = b := by simp [link]

@[simp] theorem prev_link_self (s : Links α) (a b : α) : (s.link a b).prev b = a := by simp [link]

theorem next_link_of_ne (s : Links α) (b : α) (ne : c ≠ a) : (s.link a b).next c = s.next c := by
  simp [link, ne]

theorem prev_link_of_ne (s : Links α) (a : α) (ne : c ≠ b) : (s.link a b).prev c = s.prev c := by
  simp [link, ne]

theorem path_link_nil (s : Links α) (a b : α) : (s.link a b).Path a [] b := ⟨next_link_self s a b, prev_link_self s a b⟩

/-- A path that neither leaves the one node nor comes to the other stays as it is. -/
theorem Path.link (path : s.Path c xs d) (left : a ∉ c :: xs) (right : b ∉ xs ++ [d]) : (s.link a b).Path c xs d := by
  induction xs generalizing c with
  | nil =>
    rw [List.mem_singleton] at left
    rw [List.nil_append, List.mem_singleton] at right
    exact ⟨(next_link_of_ne s b (Ne.symm left)).trans path.1, (prev_link_of_ne s a (Ne.symm right)).trans path.2⟩
  | cons x xs ih =>
    rw [List.mem_cons, not_or] at left
    rw [List.cons_append, List.mem_cons, not_or] at right
    exact ⟨⟨(next_link_of_ne s b (Ne.symm left.1)).trans path.1.1, (prev_link_of_ne s a (Ne.symm right.1)).trans path.1.2⟩,
      ih path.2 left.2 right.2⟩

/-- The last node of a path gets another node behind it. -/
theorem Path.endAt (path : s.Path a xs b) (nodup : (a :: xs).Nodup) (fresh : c ∉ xs) :
    (s.link (s.prev b) c).Path a xs c := by
  obtain rfl | ⟨front, last, rfl⟩ := xs.eq_nil_or_concat'
  · rw [path.2]
    exact path_link_nil s a c
  · obtain ⟨before, toEnd⟩ := path_append.mp path
    rw [toEnd.2]
    refine path_append.mpr ⟨before.link ?_ fresh, path_link_nil s last c⟩
    exact fun member => (List.nodup_append.mp (List.cons_append ▸ nodup)).2.2 last member last List.mem_cons_self rfl

/-- The node between two paths is left out. -/
theorem Path.skip (path : s.Path a (xs ++ x :: ys) b) (nodup : (a :: (xs ++ x :: ys)).Nodup) (absent : b ∉ xs ++ x :: ys) :
    (s.link (s.prev x) (s.next x)).Path a (xs ++ ys) b := by
  obtain ⟨before, behind⟩ := path_append.mp path
  have parts : (a :: xs).Nodup ∧ (x :: ys).Nodup ∧ ∀ y ∈ a :: xs, y ∉ x :: ys := by
    obtain ⟨left, right, apart⟩ := List.nodup_append.mp (List.cons_append ▸ nodup)
    exact ⟨left, right, fun y inLeft inRight => apart y inLeft y inRight rfl⟩
  rw [List.mem_append, not_or] at absent
  cases ys with
  | nil =>
    rw [behind.1, List.append_nil]
    exact before.endAt parts.1 absent.1
  | cons y ys =>
    rw [behind.1.1]
    refine path_append.mpr ⟨before.endAt parts.1 fun member => ?_, behind.2.link ?_ ?_⟩
    · exact parts.2.2 y (List.mem_cons_of_mem a member) (List.mem_cons_of_mem x List.mem_cons_self)
    · rw [before.prev_eq]
      exact fun member => parts.2.2 _ (List.getLast_mem _) (List.mem_cons_of_mem x member)
    · rw [List.mem_append, List.mem_singleton, not_or]
      exact ⟨(List.nodup_cons.mp (List.nodup_cons.mp parts.2.1).2).1,
        fun same => absent.2 (same ▸ List.mem_cons_of_mem x List.mem_cons_self)⟩

/-! ## Rings anew -/

/-- A ring keeps its nodes when others are linked. -/
theorem Ring.link (ring : s.Ring h xs) (left : a ∉ h :: xs) (right : b ∉ h :: xs) : (s.link a b).Ring h xs :=
  ⟨ring.path.link left (by simpa [or_comm] using right), ring.nodup⟩

/-- A node by itself. -/
theorem ring_link_self (s : Links α) (x : α) : (s.link x x).Ring x [] :=
  ring_nil.mpr ⟨next_link_self s x x, prev_link_self s x x⟩

/-- A node goes behind the last one. -/
theorem Ring.pushBack (ring : s.Ring h xs) (fresh : x ∉ h :: xs) : ((s.link (s.prev h) x).link x h).Ring h (xs ++ [x]) := by
  rw [List.mem_cons, not_or] at fresh
  refine ⟨path_append.mpr ⟨(ring.path.endAt ring.nodup fresh.2).link ?_ ?_, path_link_nil _ x h⟩, ?_⟩
  · simpa using fresh
  · simpa [Ne.symm fresh.1] using (List.nodup_cons.mp ring.nodup).1
  · rw [← List.cons_append, List.nodup_append]
    exact ⟨ring.nodup, List.nodup_singleton x, by
      simpa using ⟨Ne.symm fresh.1, fun y member same => fresh.2 (same ▸ member)⟩⟩

/-- A node goes in front of the first one. -/
theorem Ring.pushFront (ring : s.Ring h xs) (fresh : x ∉ h :: xs) :
    ((s.link h x).link x (s.next h)).Ring h (x :: xs) := by
  have apart := fresh
  rw [List.mem_cons, not_or] at apart
  refine ⟨⟨?_, ?_⟩, List.nodup_cons.mpr ⟨?_, List.nodup_cons.mpr ⟨apart.2, (List.nodup_cons.mp ring.nodup).2⟩⟩⟩
  · have behind : s.next h ≠ x := fun same => fresh (same ▸ ring.path.next_mem)
    exact ⟨(next_link_of_ne _ _ (Ne.symm apart.1)).trans (next_link_self s h x),
      (prev_link_of_ne _ _ (Ne.symm behind)).trans (prev_link_self s h x)⟩
  · cases xs with
    | nil =>
      rw [ring.path.1]
      exact path_link_nil _ x h
    | cons y ys =>
      have nodup := List.nodup_cons.mp (List.nodup_cons.mp ring.nodup).2
      have mine := List.nodup_cons.mp ring.nodup
      rw [ring.path.1.1]
      refine ⟨path_link_nil _ x y, (ring.path.2.link mine.1 ?_).link ?_ ?_⟩
      · simpa [apart.1] using fun member => apart.2 (List.mem_cons_of_mem y member)
      · exact apart.2
      · simpa [nodup.1] using fun same : y = h => mine.1 (same ▸ List.mem_cons_self)
  · simpa [Ne.symm apart.1] using (List.nodup_cons.mp ring.nodup).1

/-- A node leaves a ring. -/
theorem Ring.remove (ring : s.Ring h (xs ++ x :: ys)) : (s.link (s.prev x) (s.next x)).Ring h (xs ++ ys) := by
  refine ⟨ring.path.skip ring.nodup (List.nodup_cons.mp ring.nodup).1, ?_⟩
  exact ring.nodup.sublist ((List.Sublist.refl xs).append (List.sublist_cons_self x ys) |>.cons_cons h)

/-- The nodes of a ring go to another node, which stood alone. -/
theorem Ring.pass (ring : s.Ring h xs) (some_ : xs ≠ []) (fresh : c ∉ h :: xs) :
    ((s.link (s.prev h) c).link c (s.next h)).Ring c xs := by
  rw [List.mem_cons, not_or] at fresh
  cases xs with
  | nil => exact absurd rfl some_
  | cons x xs =>
    have nodup := List.nodup_cons.mp ring.nodup
    have toEnd := ring.path.2.endAt nodup.2 fun member => fresh.2 (List.mem_cons_of_mem x member)
    rw [ring.path.1.1]
    refine ⟨⟨path_link_nil _ c x, toEnd.link fresh.2 ?_⟩, List.nodup_cons.mpr ⟨fresh.2, nodup.2⟩⟩
    simpa using ⟨(List.nodup_cons.mp nodup.2).1, fun same => fresh.2 (same ▸ List.mem_cons_self)⟩

end Links
