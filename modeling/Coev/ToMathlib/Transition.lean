import Mathlib.Logic.Relation

/-! # Runs of a labelled step relation

`Reaches` forgets the labels of `Relation.ReflTransGen`; `When` restricts the steps a run may take by a
condition on the state before each of them. An invariant of every step is an invariant of every run.
-/

namespace Transition

open Relation

variable {σ α τ : Type*} {step : σ → α → σ → Prop}
variable {p q : σ → α → Prop} {condition : σ → α → Prop} {inv : σ → Prop}

/-- A state is reached from another by some sequence of labelled steps. -/
def Reaches (step : σ → α → σ → Prop) : σ → σ → Prop := ReflTransGen fun s t => ∃ a, step s a t

/-- The steps whose state before and label meet a condition. -/
def When (condition : σ → α → Prop) (step : σ → α → σ → Prop) : σ → α → σ → Prop :=
  fun s a t => condition s a ∧ step s a t

theorem Reaches.refl (s : σ) : Reaches step s s := ReflTransGen.refl

theorem Reaches.tail {s t u : σ} {a : α} (run : Reaches step s t) (last : step t a u) : Reaches step s u :=
  ReflTransGen.tail run ⟨a, last⟩

theorem Reaches.tail_when {s t u : σ} {a : α} (run : Reaches (When condition step) s t) (last : step t a u)
    (met : condition t a) : Reaches (When condition step) s u := run.tail ⟨met, last⟩

theorem Reaches.trans {s t u : σ} (first : Reaches step s t) (rest : Reaches step t u) : Reaches step s u :=
  ReflTransGen.trans first rest

/-- What every step preserves holds along every run. -/
theorem Reaches.invariant {inv : σ → Prop} (keeps : ∀ s a t, inv s → step s a t → inv t) {s t : σ}
    (run : Reaches step s t) (start : inv s) : inv t := by
  induction run with
  | refl => exact start
  | tail _ last ih =>
    obtain ⟨a, last⟩ := last
    exact keeps _ a _ ih last

/-- A weaker condition admits the same runs. -/
theorem Reaches.when_mono (implies : ∀ s a, p s a → q s a) {s t : σ} (run : Reaches (When p step) s t) :
    Reaches (When q step) s t := by
  induction run with
  | refl => exact Reaches.refl s
  | tail _ last ih =>
    obtain ⟨a, met, taken⟩ := last
    exact ih.tail_when taken (implies _ a met)

/-- A run under a condition is a run. -/
theorem Reaches.of_when {s t : σ} (run : Reaches (When condition step) s t) : Reaches step s t := by
  induction run with
  | refl => exact Reaches.refl s
  | tail _ last ih =>
    obtain ⟨a, _, taken⟩ := last
    exact ih.tail taken

/-- A run of a partial function on states, each of its steps under a condition. -/
theorem Reaches.of_foldlM {f : σ → α → Option σ} [∀ s a, Decidable (condition s a)] {s t : σ} (as : List α)
    (run : as.foldlM (fun s a => if condition s a then f s a else none) s = some t) :
    Reaches (When condition fun s a t => f s a = some t) s t := by
  induction as generalizing s with
  | nil => exact Option.some.inj run ▸ Reaches.refl s
  | cons a as ih =>
    obtain ⟨middle, first, rest⟩ := Option.bind_eq_some_iff.mp run
    obtain ⟨met, taken⟩ := Option.ite_none_right_eq_some.mp first
    exact ((Reaches.refl s).tail_when taken met).trans (ih rest)

/-- A property of the state and the label holds before every step along a sequence of labels, wherever
the steps lead. -/
def Along (property : σ → α → Prop) (step : σ → α → σ → Prop) : σ → List α → Prop
  | _, [] => True
  | s, a :: as => property s a ∧ ∀ t, step s a t → Along property step t as

/-- Properties that an invariant makes equivalent hold along the same sequences. -/
theorem Along.congr (keeps : ∀ s a t, inv s → step s a t → inv t) (equivalent : ∀ s a, inv s → (p s a ↔ q s a)) {s : σ}
    (start : inv s) (as : List α) : Along p step s as ↔ Along q step s as := by
  induction as generalizing s with
  | nil => exact Iff.rfl
  | cons a as ih =>
    refine and_congr (equivalent s a start) ?_
    constructor
    · exact fun rest t taken => (ih (keeps s a t start taken)).mp (rest t taken)
    · exact fun rest t taken => (ih (keeps s a t start taken)).mpr (rest t taken)

/-- A property keeps an invariant, and with it implies another property: then that one holds along the same sequences. -/
theorem Along.imp (keeps : ∀ s a t, inv s → p s a → step s a t → inv t) (implies : ∀ s a, inv s → p s a → q s a) {s : σ}
    (start : inv s) {as : List α} (along : Along p step s as) : Along q step s as := by
  induction as generalizing s with
  | nil => trivial
  | cons a as ih =>
    obtain ⟨first, rest⟩ := along
    exact ⟨implies s a start first, fun t taken => ih (keeps s a t start first taken) (rest t taken)⟩

theorem Along.mono (implies : ∀ s a, p s a → q s a) {s : σ} {as : List α} (along : Along p step s as) :
    Along q step s as := by
  induction as generalizing s with
  | nil => trivial
  | cons a as ih => exact ⟨implies s a along.1, fun t taken => ih (along.2 t taken)⟩

/-- What an invariant implies holds along every sequence. -/
theorem Along.of_invariant {p : σ → α → Prop} (keeps : ∀ s a t, inv s → step s a t → inv t)
    (implies : ∀ s a, inv s → p s a) {s : σ} (start : inv s) (as : List α) : Along p step s as := by
  induction as generalizing s with
  | nil => trivial
  | cons a as ih => exact ⟨implies s a start, fun t taken => ih (keeps s a t start taken)⟩

/-! ## Machines that answer

A machine takes one input after another, and answers each of them or fails.
-/

section Machines

variable {ι ο : Type*} {f : σ → ι → Option (ο × σ)} {g : τ → ι → Option (ο × τ)}

/-- The answers to some inputs, and where the machine is then. -/
def answers (f : σ → ι → Option (ο × σ)) : σ → List ι → Option (List ο × σ)
  | s, [] => some ([], s)
  | s, i :: is => (f s i).bind fun (o, s) => (answers f s is).map (Prod.map (o :: ·) id)

/-- A machine that simulates every step of another one simulates its runs. -/
theorem answers_simulated {related : σ → τ → Prop}
    (simulates : ∀ s t i o s', related s t → f s i = some (o, s') → ∃ t', g t i = some (o, t') ∧ related s' t')
    {s s' : σ} {t : τ} {is : List ι} {os : List ο} (start : related s t) (run : answers f s is = some (os, s')) :
    ∃ t', answers g t is = some (os, t') ∧ related s' t' := by
  induction is generalizing s t os with
  | nil =>
    obtain ⟨rfl, rfl⟩ : [] = os ∧ s = s' := by simpa [answers] using run
    exact ⟨t, rfl, start⟩
  | cons i is ih =>
    obtain ⟨⟨o, middle⟩, first, rest⟩ := Option.bind_eq_some_iff.mp run
    obtain ⟨⟨rest_, last⟩, later, same⟩ := Option.map_eq_some_iff.mp rest
    obtain ⟨rfl, rfl⟩ : o :: rest_ = os ∧ last = s' := by simpa using same
    obtain ⟨t₁, stepped, held⟩ := simulates s t i o middle start first
    obtain ⟨t₂, ran, kept⟩ := ih held later
    exact ⟨t₂, by simp [answers, stepped, ran], kept⟩

end Machines

end Transition
