import Mathlib.Data.Set.Insert
import Mathlib.Data.List.Induction

/-! # Sessions in a log

Entries of a log belong to sessions of keys: an entry can open or continue the session of its key, or close
it, and some of the closing entries abort what they close. Someone who reads a window of the log and has the
names of the aborted sessions, a key and the start of the first entry each, can tell which entries were
aborted without reading on: a name is taken up with the first entry that stops behind its start, and dropped
by the entry that aborts it.
-/

namespace Session

variable {α κ : Type*} [DecidableEq κ]

/-- How the entries of a log are read; entries cover the places from their start to their stop. -/
structure Reading (α κ : Type*) where
  key : α → κ
  opens : α → Bool
  closes : α → Bool
  aborts : α → Bool
  start : α → ℤ
  stop : α → ℤ

variable (r : Reading α κ) {k : κ} {a : α} {log done rest window after : List α}

/-- What an entry does to the session of a key. -/
def Reading.next (k : κ) (on : Bool) (a : α) : Bool :=
  if r.key a = k then if r.closes a then false else on || r.opens a else on

/-- The session of a key is active behind a log. -/
def Reading.active (k : κ) (log : List α) : Bool := log.foldl (r.next k) false

/-- The next entry that closes the session of a key aborts it. -/
def Reading.aborted (k : κ) : List α → Bool
  | [] => false
  | a :: rest => if r.key a = k ∧ r.closes a then r.aborts a else aborted k rest

theorem active_append_singleton : r.active k (log ++ [a]) = r.next k (r.active k log) a := by
  rw [Reading.active, List.foldl_append]
  rfl

theorem aborted_cons_of_not (open_ : ¬ (r.key a = k ∧ r.closes a = true)) : r.aborted k (a :: rest) = r.aborted k rest :=
  if_neg open_

/-- Behind an active key stands the entry that began its session, and no entry that closed it. -/
theorem begun_of_active (isActive : r.active k log = true) :
    ∃ pre a post, log = pre ++ a :: post ∧ r.key a = k ∧ r.opens a = true ∧ r.active k pre = false ∧
      ∀ b ∈ post, ¬ (r.key b = k ∧ r.closes b = true) := by
  induction log using List.reverseRecOn with
  | nil => cases isActive
  | append_singleton log a ih =>
    rw [active_append_singleton, Reading.next] at isActive
    cases before : r.active k log with
    | true =>
      have open_ : ¬ (r.key a = k ∧ r.closes a = true) := by
        rintro ⟨same, closes⟩
        rw [if_pos same, if_pos closes] at isActive
        cases isActive
      obtain ⟨pre, b, post, rfl, same, opens, fresh, none_⟩ := ih before
      refine ⟨pre, b, post ++ [a], by rw [List.append_assoc, List.cons_append], same, opens, fresh, fun c member => ?_⟩
      rcases List.mem_append.mp member with earlier | last
      · exact none_ c earlier
      · rw [List.mem_singleton.mp last]
        exact open_
    | false =>
      rw [before] at isActive
      split at isActive
      · next same =>
        split at isActive
        · cases isActive
        · exact ⟨log, a, [], rfl, same, isActive, before, fun _ member => absurd member List.not_mem_nil⟩
      · cases isActive

/-- A session stays active over entries that do not close it. -/
theorem active_append (open_ : ∀ b ∈ rest, ¬ (r.key b = k ∧ r.closes b = true)) (isActive : r.active k log = true) :
    r.active k (log ++ rest) = true := by
  induction rest generalizing log with
  | nil => rwa [List.append_nil]
  | cons a rest ih =>
    rw [List.append_cons]
    refine ih (fun b member => open_ b (List.mem_cons_of_mem _ member)) ?_
    rw [active_append_singleton, Reading.next, isActive]
    split
    · next same => rw [if_neg fun closes => open_ a List.mem_cons_self ⟨same, closes⟩, Bool.true_or]
    · rfl

/-- An entry ahead that is not closed off decides as the log behind it does. -/
theorem aborted_append (open_ : ∀ b ∈ log, ¬ (r.key b = k ∧ r.closes b = true)) :
    r.aborted k (log ++ rest) = r.aborted k rest := by
  induction log with
  | nil => rfl
  | cons a log ih =>
    rw [List.cons_append, aborted_cons_of_not r (open_ a List.mem_cons_self)]
    exact ih fun b member => open_ b (List.mem_cons_of_mem _ member)

/-! ## Names of aborted sessions -/

/-- The name is that of an aborted session which an entry of `rest` begins, behind `done`. -/
def Reading.Names (done rest : List α) (name : κ × ℤ) : Prop :=
  ∃ pre a post, rest = pre ++ a :: post ∧ r.key a = name.1 ∧ r.start a = name.2 ∧ r.opens a = true ∧
    r.active name.1 (done ++ pre) = false ∧ r.aborted name.1 post = true

/-- The name is that of an aborted session of `before ++ rest` that is not over within `before`. -/
def Reading.Listed (before rest : List α) (name : κ × ℤ) : Prop :=
  ∃ pre a post, before ++ rest = pre ++ a :: post ∧ r.key a = name.1 ∧ r.start a = name.2 ∧ r.opens a = true ∧
    r.active name.1 pre = false ∧ r.aborted name.1 post = true ∧
    ∀ mid, before = pre ++ a :: mid → ∀ b ∈ mid, ¬ (r.key b = name.1 ∧ r.closes b = true)

/-- Entries lie apart and in order. -/
structure Reading.Ordered (log : List α) : Prop where
  covers : ∀ a ∈ log, r.start a ≤ r.stop a
  apart : log.Pairwise fun a b => r.stop a < r.start b
  exclusive : ∀ a ∈ log, r.opens a = true → r.closes a = false

/-- What is known before the window is read on: the aborted keys, together with those whose names start behind,
are the active ones that will be aborted; the other names are exact for the window. -/
structure Reading.Tracks (done window after : List α) (names : Set (κ × ℤ)) (keys : Set κ) : Prop where
  behind (k : κ) : (k ∈ keys ∨ ∃ a ∈ done, (k, r.start a) ∈ names) ↔
    r.active k done = true ∧ r.aborted k (window ++ after) = true
  sound : ∀ name ∈ names, (∃ a ∈ done, r.start a = name.2) ∨ r.Names done (window ++ after) name
  complete : ∀ name, r.Names done (window ++ after) name → (∃ a ∈ window, name.2 ≤ r.stop a) → name ∈ names

/-- The keys once the names up to the stop of an entry are taken up. -/
def Reading.taken (a : α) (names : Set (κ × ℤ)) (keys : Set κ) : Set κ :=
  {k | k ∈ keys ∨ ∃ start, (k, start) ∈ names ∧ start ≤ r.stop a}

/-- The names that are left then. -/
def Reading.left (a : α) (names : Set (κ × ℤ)) : Set (κ × ℤ) := {name | name ∈ names ∧ r.stop a < name.2}

variable {r} {names : Set (κ × ℤ)} {keys : Set κ}

omit [DecidableEq κ] in
theorem Reading.Ordered.start_lt (ordered : r.Ordered (done ++ a :: rest)) {b : α} (member : b ∈ done) :
    r.start b < r.start a := by
  have apart := (List.pairwise_append.mp ordered.apart).2.2 b member a List.mem_cons_self
  have covers := ordered.covers b (List.mem_append_left _ member)
  omega

omit [DecidableEq κ] in
theorem Reading.Ordered.stop_lt (ordered : r.Ordered (done ++ a :: rest)) {b : α} (member : b ∈ rest) :
    r.stop a < r.start b :=
  (List.pairwise_cons.mp (List.pairwise_append.mp ordered.apart).2.1).1 b member

/-- A listed name starts a session in `before` that reaches behind it, or is a name of the rest. -/
theorem Reading.Listed.cases {before : List α} {name : κ × ℤ} (listed : r.Listed before rest name)
    (ordered : r.Ordered (before ++ rest)) :
    (∃ a ∈ before, r.start a = name.2 ∧ r.active name.1 before = true ∧ r.aborted name.1 rest = true) ∨
      r.Names before rest name := by
  obtain ⟨pre, a, post, split, key, start, opens, fresh, aborts, reaches⟩ := listed
  rcases List.append_eq_append_iff.mp split with ⟨mid, rfl, inRest⟩ | ⟨mid, inBefore, inRest⟩
  · exact .inr ⟨mid, a, post, inRest, key, start, opens, fresh, aborts⟩
  · cases mid with
    | nil =>
      rw [List.append_nil] at inBefore
      subst inBefore
      exact .inr ⟨[], a, post, inRest.symm, key, start, opens, by rwa [List.append_nil], aborts⟩
    | cons first mid =>
      obtain ⟨rfl, rfl⟩ := List.cons.inj inRest
      have open_ := reaches mid inBefore
      have member : a ∈ before := inBefore ▸ List.mem_append_right _ List.mem_cons_self
      have notCloses := ordered.exclusive a (List.mem_append_left _ member) opens
      have begun : r.active name.1 (pre ++ [a]) = true := by
        rw [active_append_singleton, Reading.next, if_pos key, notCloses, opens]
        simp
      refine .inl ⟨a, member, start, ?_, ?_⟩
      · rw [inBefore, List.append_cons]
        exact active_append r open_ begun
      · exact (aborted_append r open_).symm.trans aborts

/-- The names of a window, before it is read. -/
theorem Reading.Tracks.start {before : List α} (ordered : r.Ordered (before ++ (window ++ after)))
    (sound : ∀ name ∈ names, r.Listed before (window ++ after) name)
    (complete : ∀ name, r.Listed before (window ++ after) name → (∃ a ∈ before ++ window, name.2 ≤ r.stop a) →
      name ∈ names) : r.Tracks before window after names ∅ := by
  have apart := (List.pairwise_append.mp ordered.apart).2.2
  constructor
  · intro k
    rw [or_iff_right (Set.notMem_empty k)]
    constructor
    · rintro ⟨b, member, named⟩
      rcases (sound _ named).cases ordered with ⟨-, -, -, active, aborts⟩ | ⟨pre, a, post, split, -, start, -⟩
      · exact ⟨active, aborts⟩
      · -- a session that starts with an entry of `before` starts there
        have inRest : a ∈ window ++ after := by
          rw [split]
          exact List.mem_append_right _ List.mem_cons_self
        have later := apart b member a inRest
        have covers := ordered.covers b (List.mem_append_left _ member)
        dsimp only at start
        omega
    · rintro ⟨active, aborts⟩
      obtain ⟨pre, a, post, rfl, key, opens, fresh, open_⟩ := begun_of_active r active
      have member : a ∈ pre ++ a :: post := List.mem_append_right _ List.mem_cons_self
      have covers := ordered.covers a (List.mem_append_left _ member)
      refine ⟨a, member, complete _ ?_ ⟨a, List.mem_append_left _ member, covers⟩⟩
      refine ⟨pre, a, post ++ (window ++ after), by simp, key, rfl, opens, fresh, ?_, ?_⟩
      · rwa [aborted_append r open_]
      · intro mid same
        obtain rfl : mid = post := by simpa using same.symm
        exact open_
  · intro name named
    rcases (sound name named).cases ordered with ⟨a, member, start, -⟩ | ahead
    · exact .inl ⟨a, member, start⟩
    · exact .inr ahead
  · rintro name ⟨pre, a, post, split, key, start, opens, fresh, aborts⟩ ⟨b, member, upTo⟩
    refine complete name ⟨before ++ pre, a, post, ?_, key, start, opens, fresh, aborts, ?_⟩
      ⟨b, List.mem_append_right _ member, upTo⟩
    · rw [split, List.append_assoc]
    · intro mid same
      have length := congrArg List.length same
      simp at length

/-- The keys taken up with an entry: those active behind it, and its own when it begins a session. -/
theorem Reading.Tracks.mem_taken_iff (tracks : r.Tracks done (a :: window) after names keys)
    (ordered : r.Ordered (done ++ a :: (window ++ after))) :
    k ∈ r.taken a names keys ↔ r.active k done = true ∧ r.aborted k (a :: (window ++ after)) = true ∨
      r.key a = k ∧ r.opens a = true ∧ r.active k done = false ∧ r.aborted k (window ++ after) = true := by
  have covers := ordered.covers a (List.mem_append_right _ List.mem_cons_self)
  constructor
  · rintro (already | ⟨start, named, upTo⟩)
    · exact .inl ((tracks.behind k).mp (.inl already))
    · rcases tracks.sound _ named with ⟨b, member, same⟩ | ⟨pre, b, post, split, key, same, opens, fresh, aborts⟩
      · refine .inl ((tracks.behind k).mp (.inr ⟨b, member, ?_⟩))
        rw [same]
        exact named
      · cases pre with
        | nil =>
          obtain ⟨rfl, rfl⟩ := List.cons.inj split
          rw [List.append_nil] at fresh
          exact .inr ⟨key, opens, fresh, aborts⟩
        | cons first pre =>
          obtain ⟨-, rest⟩ := List.cons.inj split
          have member : b ∈ window ++ after := by
            rw [show window ++ after = pre ++ b :: post from rest]
            exact List.mem_append_right _ List.mem_cons_self
          have later := ordered.stop_lt member
          dsimp only at same
          omega
  · rintro (⟨active, aborts⟩ | ⟨key, opens, fresh, aborts⟩)
    · rcases (tracks.behind k).mpr ⟨active, aborts⟩ with already | ⟨b, member, named⟩
      · exact .inl already
      · have earlier := ordered.start_lt member
        exact .inr ⟨r.start b, named, by omega⟩
    · refine .inr ⟨r.start a, tracks.complete _ ?_ ⟨a, List.mem_cons_self, covers⟩, covers⟩
      exact ⟨[], a, window ++ after, rfl, key, rfl, opens, by rwa [List.append_nil], aborts⟩

/-- Unless the entry closes its session, a key is taken up when it is active from the entry on and will be aborted. -/
theorem Reading.Tracks.mem_taken_of_open (tracks : r.Tracks done (a :: window) after names keys)
    (ordered : r.Ordered (done ++ a :: (window ++ after))) (open_ : ¬ (r.key a = k ∧ r.closes a = true)) :
    k ∈ r.taken a names keys ↔ r.active k (done ++ [a]) = true ∧ r.aborted k (window ++ after) = true := by
  rw [tracks.mem_taken_iff ordered, aborted_cons_of_not r open_, active_append_singleton, Reading.next]
  by_cases same : r.key a = k
  · rw [if_pos same, if_neg fun closes => open_ ⟨same, closes⟩]
    cases r.active k done <;> simp [same]
  · rw [if_neg same]
    simp [same]

/-- The key of a closing entry is taken up when its session is active and the entry aborts it. -/
theorem Reading.Tracks.mem_taken_of_closes (tracks : r.Tracks done (a :: window) after names keys)
    (ordered : r.Ordered (done ++ a :: (window ++ after))) (closes : r.closes a = true) :
    r.key a ∈ r.taken a names keys ↔ r.active (r.key a) done = true ∧ r.aborts a = true := by
  have notOpens : r.opens a ≠ true := by
    intro opens
    have open_ := ordered.exclusive a (List.mem_append_right _ List.mem_cons_self) opens
    exact absurd (open_.symm.trans closes) Bool.false_ne_true
  rw [tracks.mem_taken_iff ordered, Reading.aborted, if_pos ⟨rfl, closes⟩]
  simp [notOpens]

/-- An entry that belongs to a session is aborted if and only if its key is taken up. -/
theorem Reading.Tracks.mem_taken_iff_aborted (tracks : r.Tracks done (a :: window) after names keys)
    (ordered : r.Ordered (done ++ a :: (window ++ after))) (opens : r.opens a = true) :
    r.key a ∈ r.taken a names keys ↔ r.aborted (r.key a) (window ++ after) = true := by
  have open_ := ordered.exclusive a (List.mem_append_right _ List.mem_cons_self) opens
  rw [tracks.mem_taken_of_open ordered (by rw [open_]; exact fun both => Bool.false_ne_true both.2)]
  rw [active_append_singleton, Reading.next, if_pos rfl, open_, opens]
  simp

/-- Reading on over an entry. -/
theorem Reading.Tracks.step (tracks : r.Tracks done (a :: window) after names keys)
    (ordered : r.Ordered (done ++ a :: (window ++ after))) : r.Tracks (done ++ [a]) window after (r.left a names)
      (if r.closes a = true ∧ r.aborts a = true then r.taken a names keys \ {r.key a} else r.taken a names keys) := by
  have covers := ordered.covers a (List.mem_append_right _ List.mem_cons_self)
  have earlier : ∀ b ∈ done ++ [a], r.start b ≤ r.stop a := by
    intro b member
    rcases List.mem_append.mp member with before | last
    · have := ordered.start_lt before
      omega
    · rw [List.mem_singleton.mp last]
      exact covers
  constructor
  · intro k
    have none_ : ¬ ∃ b ∈ done ++ [a], (k, r.start b) ∈ r.left a names := by
      rintro ⟨b, member, -, later⟩
      have := earlier b member
      dsimp only at later
      omega
    rw [or_iff_left none_]
    by_cases ends : r.key a = k ∧ r.closes a = true
    · obtain ⟨rfl, closes⟩ := ends
      rw [active_append_singleton, Reading.next, if_pos rfl, if_pos closes]
      have taken := tracks.mem_taken_of_closes ordered closes
      split
      · simp
      · next notAborts =>
        have spares : r.aborts a = false := by simpa [closes] using notAborts
        simp [taken, spares]
    · rw [← tracks.mem_taken_of_open ordered ends]
      split
      · next closing =>
        have different : k ≠ r.key a := fun same => ends ⟨same.symm, closing.1⟩
        simp [different]
      · exact Iff.rfl
  · rintro name ⟨named, later⟩
    rcases tracks.sound name named with ⟨b, member, same⟩ | ⟨pre, b, post, split, key, same, opens, fresh, aborts⟩
    · have := earlier b (List.mem_append_left _ member)
      omega
    · cases pre with
      | nil =>
        obtain ⟨rfl, rfl⟩ := List.cons.inj split
        omega
      | cons first pre =>
        obtain ⟨rfl, rest⟩ := List.cons.inj split
        refine .inr ⟨pre, b, post, rest, key, same, opens, ?_, aborts⟩
        rwa [List.append_assoc]
  · rintro name ⟨pre, b, post, split, key, same, opens, fresh, aborts⟩ ⟨c, member, upTo⟩
    have inRest : b ∈ window ++ after := by
      rw [split]
      exact List.mem_append_right _ List.mem_cons_self
    have later := ordered.stop_lt inRest
    refine ⟨tracks.complete name ?_ ⟨c, List.mem_cons_of_mem _ member, upTo⟩, by omega⟩
    refine ⟨a :: pre, b, post, by rw [List.cons_append, split]; rfl, key, same, opens, ?_, aborts⟩
    rwa [List.append_assoc] at fresh

end Session
