import Coev.ToMathlib.Calls
import Coev.ToMathlib.Transition

/-! # Programs that run side by side

A pool has any number of started programs and the state of what they call. Turns come in any order: a program
is started, the call that a program waits on is answered as the state allows, or the state changes from outside.
If every program keeps to a contract from its start and the answers are the ones relied on, then every call
made in the pool is allowed, whatever the order of the turns.
-/

namespace Calls

open Transition

/-- A started program: the calls it has made, and what is left of it. -/
structure Thread (ι : Type) (ρ : ι → Type) (α : Type) where
  trace : List (Sigma ρ) := []
  rest : Calls ι ρ α

structure Pool (σ ι : Type) (ρ : ι → Type) (α : Type) where
  state : σ
  threads : List (Thread ι ρ α) := []

inductive Turn (σ ι : Type) (ρ : ι → Type) (α : Type) where
  | start (program : Calls ι ρ α)
  | answer (thread : ℕ) (call : ι) (reply : ρ call)
  | outside (state : σ)

variable {σ ι α : Type} {ρ : ι → Type}

namespace Pool

/-- The turns, given which programs may be started, what a call can answer and do, and what else can happen. -/
inductive Step (started : Calls ι ρ α → Prop) (meaning : σ → (i : ι) → ρ i → σ → Prop) (outside : σ → σ → Prop) :
    Pool σ ι ρ α → Turn σ ι ρ α → Pool σ ι ρ α → Prop
  | start {pool : Pool σ ι ρ α} {program : Calls ι ρ α} (may : started program) :
    Step started meaning outside pool (.start program) { pool with threads := pool.threads ++ [{ rest := program }] }
  | answer {pool : Pool σ ι ρ α} {k : ℕ} {i : ι} {r : ρ i} {trace : List (Sigma ρ)} {next : ρ i → Calls ι ρ α} {s : σ}
    (waits : pool.threads[k]? = some ⟨trace, .call i next⟩) (means : meaning pool.state i r s) :
    Step started meaning outside pool (.answer k i r) ⟨s, pool.threads.set k ⟨trace ++ [⟨i, r⟩], next r⟩⟩
  | outside {pool : Pool σ ι ρ α} {s : σ} (happens : outside pool.state s) :
    Step started meaning outside pool (.outside s) { pool with state := s }

variable {started : Calls ι ρ α → Prop} {meaning : σ → (i : ι) → ρ i → σ → Prop} {outside : σ → σ → Prop}
  {rely : List (Sigma ρ) → (i : ι) → ρ i → Prop} {allowed : List (Sigma ρ) → ι → Prop}
  {post : α → List (Sigma ρ) → Prop} {pool pool' : Pool σ ι ρ α} {turn : Turn σ ι ρ α}

/-- The call that the turn answers is the next one of its thread, after the calls that the thread has made. -/
def Waits (pool : Pool σ ι ρ α) (k : ℕ) (trace : List (Sigma ρ)) (i : ι) : Prop :=
  ∃ next, pool.threads[k]? = some ⟨trace, .call i next⟩

/-- The answer of the turn is one that its thread relies on. -/
def Relied (rely : List (Sigma ρ) → (i : ι) → ρ i → Prop) (pool : Pool σ ι ρ α) : Turn σ ι ρ α → Prop
  | .answer k i r => ∀ trace, pool.Waits k trace i → rely trace i r
  | _ => True

/-- Every thread keeps to the contract from here on. -/
def Kept (rely : List (Sigma ρ) → (i : ι) → ρ i → Prop) (allowed : List (Sigma ρ) → ι → Prop)
    (post : α → List (Sigma ρ) → Prop) (pool : Pool σ ι ρ α) : Prop :=
  ∀ thread ∈ pool.threads, Ensures rely allowed thread.trace thread.rest post

theorem Kept.step (programs : ∀ x, started x → Ensures rely allowed [] x post)
    (kept : Kept rely allowed post pool) (relied : Relied rely pool turn)
    (step : Step started meaning outside pool turn pool') : Kept rely allowed post pool' := by
  cases step with
  | start may =>
    intro thread member
    rcases List.mem_append.mp member with member | member
    · exact kept thread member
    · rw [List.mem_singleton.mp member]
      exact programs _ may
  | answer waits means =>
    intro thread member
    rcases List.mem_or_eq_of_mem_set member with member | rfl
    · exact kept thread member
    · have contract := kept _ (List.mem_of_getElem? waits)
      exact contract.2 _ (relied _ ⟨_, waits⟩)
  | outside happens => exact kept

/-- In every run on answers that the threads rely on, every thread keeps to the contract. -/
theorem Kept.run {condition : Pool σ ι ρ α → Turn σ ι ρ α → Prop}
    (programs : ∀ x, started x → Ensures rely allowed [] x post)
    (relied : ∀ pool turn pool', condition pool turn → Step started meaning outside pool turn pool' →
      Relied rely pool turn)
    (run : Reaches (When condition (Step started meaning outside)) pool pool') (kept : Kept rely allowed post pool) :
    Kept rely allowed post pool' := by
  have keeps (p : Pool σ ι ρ α) (turn : Turn σ ι ρ α) (q : Pool σ ι ρ α) (before : Kept rely allowed post p)
      (step : When condition (Step started meaning outside) p turn q) : Kept rely allowed post q :=
    before.step programs (relied p turn q step.1 step.2) step.2
  exact run.invariant keeps kept

/-- A thread that keeps to the contract waits on an allowed call. -/
theorem Kept.call {k : ℕ} {trace : List (Sigma ρ)} {i : ι} (kept : Kept rely allowed post pool)
    (waits : pool.Waits k trace i) : allowed trace i := by
  obtain ⟨next, found⟩ := waits
  exact (kept _ (List.mem_of_getElem? found)).1

end Pool

/-! ## A thread that runs alone -/

variable {started : Calls ι ρ α → Prop} {meaning : σ → (i : ι) → ρ i → σ → Prop} {outside : σ → σ → Prop}

/-- While the other threads wait, a thread of the pool makes its calls, under a condition that its calls meet. -/
theorem Advances.reaches {alone : σ → (i : ι) → ρ i → σ → Prop} {condition : Pool σ ι ρ α → Turn σ ι ρ α → Prop}
    {x y : Calls ι ρ α} {s t : σ} {made : List (Sigma ρ)} (advances : Advances alone x s made y t) (k : ℕ)
    (may : ∀ s threads i r t, alone s i r t → condition ⟨s, threads⟩ (.answer k i r) ∧ meaning s i r t)
    (threads : List (Thread ι ρ α)) (trace : List (Sigma ρ)) (at_ : threads[k]? = some ⟨trace, x⟩) :
    Reaches (When condition (Pool.Step started meaning outside)) ⟨s, threads⟩ ⟨t, threads.set k ⟨trace ++ made, y⟩⟩ := by
  induction advances generalizing trace threads with
  | done =>
    rw [List.append_nil]
    obtain ⟨bound, found⟩ := List.getElem?_eq_some_iff.mp at_
    rw [← found, List.set_getElem_self]
    exact .refl _
  | @call i next r s u v rest y means later ih =>
    have within : k < threads.length := (List.getElem?_eq_some_iff.mp at_).1
    obtain ⟨met, means⟩ := may s threads i r u means
    have first : Pool.Step started meaning outside ⟨s, threads⟩ (.answer k i r)
        ⟨u, threads.set k ⟨trace ++ [⟨i, r⟩], next r⟩⟩ := .answer at_ means
    have others := ih _ (trace ++ [⟨i, r⟩]) (List.getElem?_set_self within)
    rw [List.set_set, List.append_assoc] at others
    exact ((Reaches.refl _).tail ⟨met, first⟩).trans others

end Calls
