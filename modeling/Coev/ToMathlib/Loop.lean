import Mathlib.Order.WellFounded

/-! # Loops

One round of a loop yields the next state or the result. A loop is run for a number of rounds; it ends
with a result if some number suffices, which a well-founded relation between successive states shows,
and an invariant under which every round goes on refutes.
-/

namespace Loop

variable {σ ρ : Type*} {round : σ → σ ⊕ ρ}
variable {s : σ}

/-- The result of a loop, if it takes at most so many rounds. -/
def run (round : σ → σ ⊕ ρ) : ℕ → σ → Option ρ
  | 0, _ => none
  | n + 1, s =>
    match round s with
    | .inl next => run round n next
    | .inr result => some result

/-- The loop ends with a result. -/
def Ends (round : σ → σ ⊕ ρ) (s : σ) (result : ρ) : Prop := ∃ n, run round n s = some result

theorem ends_inr {last result : ρ} (stops : round s = .inr last) : Ends round s result ↔ last = result := by
  constructor
  · intro ⟨n, ran⟩
    cases n with
    | zero => cases ran
    | succ n => simpa only [run, stops, Option.some.injEq] using ran
  · rintro rfl
    exact ⟨1, by simp only [run, stops]⟩

theorem ends_inl {s next : σ} {result : ρ} (goes : round s = .inl next) :
    Ends round s result ↔ Ends round next result := by
  constructor
  · intro ⟨n, ran⟩
    cases n with
    | zero => cases ran
    | succ n => exact ⟨n, by simpa only [run, goes] using ran⟩
  · intro ⟨n, ran⟩
    exact ⟨n + 1, by simpa only [run, goes] using ran⟩

/-- The rounds of a loop, as an induction on what is left of it. -/
@[elab_as_elim]
theorem Ends.induction {motive : ∀ s result, Ends round s result → Prop}
    (stop : ∀ s result (stops : round s = .inr result), motive s result ((ends_inr stops).mpr rfl))
    (go : ∀ s next result (goes : round s = .inl next) (rest : Ends round next result), motive next result rest →
      motive s result ((ends_inl goes).mpr rest)) {result : ρ} (ends : Ends round s result) : motive s result ends := by
  obtain ⟨n, ran⟩ := id ends
  induction n generalizing s with
  | zero => cases ran
  | succ n ih =>
    cases taken : round s with
    | inl next =>
      have rest : run round n next = some result := by simpa only [run, taken] using ran
      exact go s next result taken ⟨n, rest⟩ (ih ⟨n, rest⟩ rest)
    | inr last =>
      have same : last = result := by simpa only [run, taken, Option.some.injEq] using ran
      exact stop s result (same ▸ taken)

theorem Ends.unique {result other : ρ} (ends : Ends round s result) (ends' : Ends round s other) : result = other := by
  revert ends'
  induction ends using Ends.induction with
  | stop s result stops => exact (ends_inr stops).mp
  | go s next result goes _ ih => exact fun ends' => ih ((ends_inl goes).mp ends')

/-- What an invariant implies of every result holds of the result. -/
theorem Ends.invariant {inv : σ → Prop} {post : ρ → Prop} (keeps : ∀ s next, inv s → round s = .inl next → inv next)
    (stops : ∀ s result, inv s → round s = .inr result → post result) {s : σ} {result : ρ} (start : inv s)
    (ends : Ends round s result) : post result := by
  revert start
  induction ends using Ends.induction with
  | stop s result stop => exact fun start => stops s result start stop
  | go s next result goes _ ih => exact fun start => ih (keeps s next start goes)

/-- A loop ends if every round that goes on descends. -/
theorem ends_of_wellFounded (inv : σ → Prop) {below : σ → σ → Prop} (wellFounded : WellFounded below)
    (keeps : ∀ s next, inv s → round s = .inl next → inv next ∧ below next s) (start : inv s) :
    ∃ result, Ends round s result := by
  induction s using wellFounded.induction with
  | _ s ih =>
    cases taken : round s with
    | inr last => exact ⟨last, (ends_inr taken).mpr rfl⟩
    | inl next =>
      obtain ⟨kept, descends⟩ := keeps s next start taken
      obtain ⟨result, ends⟩ := ih next descends kept
      exact ⟨result, (ends_inl taken).mpr ends⟩

/-- A loop that descends and keeps an invariant ends with a result that meets what the invariant implies of it. -/
theorem ends_with (inv : σ → Prop) {post : ρ → Prop} (measure : σ → ℕ)
    (keeps : ∀ s next, inv s → round s = .inl next → inv next ∧ measure next < measure s)
    (stops : ∀ s result, inv s → round s = .inr result → post result) (start : inv s) :
    ∃ result, Ends round s result ∧ post result := by
  obtain ⟨result, ends⟩ := ends_of_wellFounded inv (InvImage.wf measure Nat.lt_wfRel.wf) keeps start
  exact ⟨result, ends, ends.invariant (fun s next holds goes => (keeps s next holds goes).1) stops start⟩

/-- A loop does not end if an invariant keeps every round going. -/
theorem not_ends (inv : σ → Prop) (goes : ∀ s, inv s → ∃ next, round s = .inl next ∧ inv next) {result : ρ}
    (start : inv s) : ¬ Ends round s result := by
  intro ends
  revert start
  induction ends using Ends.induction with
  | stop s result stops =>
    intro start
    obtain ⟨next, taken, _⟩ := goes s start
    cases taken.symm.trans stops
  | go s next result taken _ ih =>
    intro start
    obtain ⟨other, taken', kept⟩ := goes s start
    cases Sum.inl.inj (taken'.symm.trans taken)
    exact ih kept

end Loop
