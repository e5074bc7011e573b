import Mathlib.Data.List.Basic

/-! # Stateful computations with failures that keep the state

`EStateM ε σ` runs on a state, and both a result and a failure carry the state reached. These are
the inversion rules of its sequencing, in the form a step-by-step reading of a program needs: a
successful run splits at every bind, and a failing head decides the whole run.
-/

namespace EStateM

universe u

variable {ε σ α β : Type u}
variable {x : EStateM ε σ α} {f : α → EStateM ε σ β}

theorem bind_apply (x : EStateM ε σ α) (f : α → EStateM ε σ β) (s : σ) :
    (x >>= f) s = match x s with
      | .ok a s' => f a s'
      | .error e s' => .error e s' := rfl

/-- A successful head hands its result and state to the continuation. -/
theorem bind_of_ok {s s' : σ} {a : α} (run : x s = .ok a s') (f : α → EStateM ε σ β) : (x >>= f) s = f a s' := by
  rw [bind_apply, run]

/-- A failing head is the failure of the whole computation. -/
theorem bind_of_error {s s' : σ} {e : ε} (run : x s = .error e s') (f : α → EStateM ε σ β) :
    (x >>= f) s = .error e s' := by
  rw [bind_apply, run]

theorem bind_eq_ok_iff {s t : σ} {b : β} : (x >>= f) s = .ok b t ↔ ∃ a s', x s = .ok a s' ∧ f a s' = .ok b t := by
  rw [bind_apply]
  cases x s with
  | ok a s' => simp
  | error e s' => simp

theorem bind_eq_error_iff {s t : σ} {e : ε} : (x >>= f) s = .error e t ↔
      x s = .error e t ∨ ∃ a s', x s = .ok a s' ∧ f a s' = .error e t := by
  rw [bind_apply]
  cases x s with
  | ok a s' => simp
  | error e s' => simp

theorem pure_apply (a : α) (s : σ) : (pure a : EStateM ε σ α) s = .ok a s := rfl

theorem pure_eq_ok_iff {a b : α} {s t : σ} : (pure a : EStateM ε σ α) s = .ok b t ↔ a = b ∧ s = t := by
  rw [pure_apply, Result.ok.injEq]

theorem get_bind_apply (f : σ → EStateM ε σ α) (s : σ) : (get >>= f) s = f s s := rfl

/-- The state a computation ends in, whether it returns or fails. -/
def Result.state : Result ε σ α → σ
  | .ok _ s => s
  | .error _ s => s

/-- The value a computation returns, if it does. -/
def Result.returned : Result ε σ α → Option α
  | .ok a _ => some a
  | .error _ _ => none

theorem Result.eq_ok_of_returned {result : Result ε σ α} {a : α} (returns : result.returned = some a) :
    result = .ok a result.state := by
  cases result with
  | ok b s => rw [← Option.some.inj returns]; rfl
  | error e s => cases returns

/-! ## Less failing computations -/

/-- Wherever `x` succeeds, `y` does the same. -/
def Extends (x y : EStateM ε σ α) : Prop := ∀ s a s', x s = .ok a s' → y s = .ok a s'

theorem Extends.refl (x : EStateM ε σ α) : Extends x x := fun _ _ _ run => run

/-! ## Relating the states before and after

`Moves r x` bounds what `x` can do to the state on every way out of it. For a preorder it composes.
-/

/-- Every way out of `x` relates the states before and after it. -/
def Moves (r : σ → σ → Prop) (x : EStateM ε σ α) : Prop := ∀ s, r s (x s).state

variable {r : σ → σ → Prop}

theorem Moves.modify {f : σ → σ} (moves : ∀ s, r s (f s)) : Moves r (modify f : EStateM ε σ PUnit) := moves

variable [IsPreorder σ r]

theorem Moves.pure (a : α) : Moves r (Pure.pure a : EStateM ε σ α) := fun s => refl_of r s

theorem Moves.throw (e : ε) : Moves r (MonadExcept.throw e : EStateM ε σ α) := fun s => refl_of r s

theorem Moves.bind (first : Moves r x) (rest : ∀ a, Moves r (f a)) : Moves r (x >>= f) := by
  intro s
  have before := first s
  rw [bind_apply]
  cases run : x s with
  | ok a s' =>
    rw [run] at before
    exact trans_of r before (rest a s')
  | error e s' =>
    rw [run] at before
    exact before

omit [IsPreorder σ r] in
theorem Moves.ite {c : Prop} [Decidable c] {x y : EStateM ε σ α} (holds : c → Moves r x) (fails : ¬ c → Moves r y) :
    Moves r (if c then x else y) := by
  split
  · next h => exact holds h
  · next h => exact fails h

/-- The results of a kind relate the states before and after `x`. -/
def MovesOn (good : α → Prop) (r : σ → σ → Prop) (x : EStateM ε σ α) : Prop :=
  ∀ s a s', x s = .ok a s' → good a → r s s'

omit [IsPreorder σ r] in
theorem Moves.on (moves : Moves r x) (good : α → Prop) : MovesOn good r x := by
  intro s a s' run _
  have moved := moves s
  rw [run] at moved
  exact moved

theorem MovesOn.after {good : β → Prop} (first : Moves r x) (rest : ∀ a, MovesOn good r (f a)) :
    MovesOn good r (x >>= f) := by
  intro s b s' run isGood
  obtain ⟨a, t, head, tail⟩ := bind_eq_ok_iff.mp run
  exact trans_of r (first.on (fun _ => True) s a t head trivial) (rest a t b s' tail isGood)

omit [IsPreorder σ r] in
theorem MovesOn.ite {good : α → Prop} {c : Prop} [Decidable c] {x y : EStateM ε σ α} (holds : c → MovesOn good r x)
    (fails : ¬ c → MovesOn good r y) : MovesOn good r (if c then x else y) := by
  split
  · next h => exact holds h
  · next h => exact fails h

omit [IsPreorder σ r] in
/-- Nothing is asked of a computation without results of the kind. -/
theorem MovesOn.of_none {good : α → Prop} (none_ : ∀ s a s', x s = .ok a s' → ¬ good a) : MovesOn good r x :=
  fun s a s' run isGood => absurd isGood (none_ s a s' run)

end EStateM

/-! ## Preconditions of computations with failures

`Wp failing x post` holds of the states from which `x` ends as is wanted: a result meets `post`, and a failure meets
`failing`. A failure ends a whole sequence, so one `failing` serves all of its parts.
-/

namespace EStateM

universe u

variable {ε σ α β : Type u} {failing : ε → σ → Prop} {x : EStateM ε σ α} {f : α → EStateM ε σ β} {post mid : α → σ → Prop}
  {after : β → σ → Prop} {s t : σ}

/-- The states from which every way out of `x` is a wanted one. -/
def Wp (failing : ε → σ → Prop) (x : EStateM ε σ α) (post : α → σ → Prop) (s : σ) : Prop :=
  match x s with
  | .ok a t => post a t
  | .error e t => failing e t

theorem Wp.of_ok {a : α} (run : x s = .ok a t) (ends : post a t) : Wp failing x post s := by
  rw [Wp, run]
  exact ends

theorem Wp.of_error {e : ε} (run : x s = .error e t) (ends : failing e t) : Wp failing x post s := by
  rw [Wp, run]
  exact ends

theorem Wp.ok {a : α} (wp : Wp failing x post s) (run : x s = .ok a t) : post a t := by
  rw [Wp, run] at wp
  exact wp

theorem Wp.error {e : ε} (wp : Wp failing x post s) (run : x s = .error e t) : failing e t := by
  rw [Wp, run] at wp
  exact wp

/-- Consequence; the run is known where the new postcondition is shown. -/
theorem Wp.imp (wp : Wp failing x mid s) (weaker : ∀ a t, x s = .ok a t → mid a t → post a t) : Wp failing x post s := by
  cases run : x s with
  | ok a t => exact .of_ok run (weaker a t run (wp.ok run))
  | error e t => exact .of_error run (wp.error run)

/-- Sequencing; the run of the head is known where the tail is shown. -/
theorem Wp.bind (head : Wp failing x mid s) (tail : ∀ a t, x s = .ok a t → mid a t → Wp failing (f a) after t) :
    Wp failing (x >>= f) after s := by
  cases run : x s with
  | ok a t =>
    have rest := tail a t run (head.ok run)
    rw [Wp, bind_of_ok run]
    exact rest
  | error e t => exact .of_error (bind_of_error run f) (head.error run)

/-- A head whose result is known is stepped over. -/
theorem Wp.step {a : α} (run : x s = .ok a t) (tail : Wp failing (f a) after t) : Wp failing (x >>= f) after s := by
  rw [Wp, bind_of_ok run]
  exact tail

theorem Wp.get {f : σ → EStateM ε σ β} (tail : Wp failing (f s) after s) : Wp failing (MonadState.get >>= f) after s := tail

theorem Wp.ite {c : Prop} [Decidable c] {y : EStateM ε σ α} (holds : c → Wp failing x post s)
    (fails : ¬ c → Wp failing y post s) : Wp failing (if c then x else y) post s := by
  split
  · next h => exact holds h
  · next h => exact fails h

end EStateM

/-! ## Two computations side by side
`Simulates S x y`: from states that `S` relates, the two computations end alike, in states that `S` relates again. The
states may be of two kinds, so one computation can be the shadow of the other.
-/

namespace EStateM

universe u

variable {ε σ τ α β : Type u} {S : σ → τ → Prop}

/-- The same result or the same failure, in related states. -/
inductive Result.Alike (S : σ → τ → Prop) : Result ε σ α → Result ε τ α → Prop where
  | ok (a : α) {s : σ} {t : τ} (related : S s t) : Alike S (.ok a s) (.ok a t)
  | error (e : ε) {s : σ} {t : τ} (related : S s t) : Alike S (.error e s) (.error e t)

/-- From related states the computations end alike. -/
def Simulates (S : σ → τ → Prop) (x : EStateM ε σ α) (y : EStateM ε τ α) : Prop := ∀ s t, S s t → (x s).Alike S (y t)

theorem Simulates.pure (a : α) : Simulates S (Pure.pure a : EStateM ε σ α) (Pure.pure a) := fun _ _ related => .ok a related

theorem Result.Alike.bind {x : EStateM ε σ α} {y : EStateM ε τ α} {f : α → EStateM ε σ β} {g : α → EStateM ε τ β}
    {s : σ} {t : τ}
    (head : (x s).Alike S (y t)) (tail : ∀ a, Simulates S (f a) (g a)) : ((x >>= f) s).Alike S ((y >>= g) t) := by
  rw [bind_apply, bind_apply]
  generalize x s = first, y t = second at head
  cases head with
  | ok a related => exact tail a _ _ related
  | error e related => exact .error e related

theorem Simulates.bind {x : EStateM ε σ α} {y : EStateM ε τ α} {f : α → EStateM ε σ β} {g : α → EStateM ε τ β}
    (head : Simulates S x y) (tail : ∀ a, Simulates S (f a) (g a)) : Simulates S (x >>= f) (y >>= g) :=
  fun s t related => (head s t related).bind tail

end EStateM
