import Mathlib.Data.List.Basic

/-! # Programs that make calls

A program makes a call, waits for its answer and goes on with it, or returns. Nothing is said about what a
call does: a run is the list of the calls with the answers they got. The program logic is a contract with the
callee: as long as its answers are the ones relied on, every call is guaranteed to be allowed after the calls
before it. A callee that gives the calls a meaning runs the same program on its states.
-/

/-- A program over calls `i : ι` with answers in `ρ i`. -/
inductive Calls (ι : Type) (ρ : ι → Type) (α : Type) where
  | pure (a : α)
  | call (i : ι) (next : ρ i → Calls ι ρ α)

namespace Calls

variable {ι : Type} {ρ : ι → Type} {α β γ : Type}

def bind : Calls ι ρ α → (α → Calls ι ρ β) → Calls ι ρ β
  | .pure a, f => f a
  | .call i next, f => .call i fun r => bind (next r) f

instance : Monad (Calls ι ρ) where
  pure := .pure
  bind := bind

instance : LawfulMonad (Calls ι ρ) := by
  have bind_pure : ∀ {α} (x : Calls ι ρ α), bind x .pure = x := by
    intro α x
    induction x with
    | pure a => rfl
    | call i next ih => exact congrArg _ (funext ih)
  have assoc : ∀ {α β γ} (x : Calls ι ρ α) (f : α → Calls ι ρ β) (g : β → Calls ι ρ γ),
      bind (bind x f) g = bind x fun a => bind (f a) g := by
    intro α β γ x f g
    induction x with
    | pure a => rfl
    | call i next ih => exact congrArg _ (funext ih)
  exact LawfulMonad.mk' _ bind_pure (fun _ _ => rfl) assoc

/-- Make a call and return its answer. -/
def send (i : ι) : Calls ι ρ (ρ i) := .call i .pure

/-! ## Runs -/

/-- The program can make these calls, get these answers and return the value. -/
def Runs : Calls ι ρ α → List (Sigma ρ) → α → Prop
  | .pure a, trace, b => trace = [] ∧ a = b
  | .call i next, trace, b => ∃ r rest, trace = ⟨i, r⟩ :: rest ∧ Runs (next r) rest b

variable {x : Calls ι ρ α} {f : α → Calls ι ρ β} {trace : List (Sigma ρ)} {a : α} {b : β}

theorem runs_pure_iff {b : α} : Runs (Pure.pure a : Calls ι ρ α) trace b ↔ trace = [] ∧ a = b := Iff.rfl

theorem runs_send_iff {i : ι} {r : ρ i} : Runs (send i) trace r ↔ trace = [⟨i, r⟩] := by
  constructor
  · rintro ⟨r', rest, rfl, rfl, rfl⟩
    rfl
  · rintro rfl
    exact ⟨r, [], rfl, rfl, rfl⟩

/-- A run of a sequence is a run of its head followed by a run of what comes of it. -/
theorem runs_bind_iff : Runs (x >>= f) trace b ↔
    ∃ before after a, trace = before ++ after ∧ Runs x before a ∧ Runs (f a) after b := by
  induction x generalizing trace with
  | pure a =>
    constructor
    · exact fun run => ⟨[], trace, a, rfl, ⟨rfl, rfl⟩, run⟩
    · rintro ⟨_, after, a', rfl, ⟨rfl, rfl⟩, run⟩
      exact run
  | call i next ih =>
    constructor
    · rintro ⟨r, rest, rfl, run⟩
      obtain ⟨before, after, a, rfl, head, tail⟩ := (ih r).mp run
      exact ⟨⟨i, r⟩ :: before, after, a, rfl, ⟨r, before, rfl, head⟩, tail⟩
    · rintro ⟨_, after, a, rfl, ⟨r, before, rfl, head⟩, tail⟩
      exact ⟨r, before ++ after, rfl, (ih r).mpr ⟨before, after, a, rfl, head, tail⟩⟩

/-! ## Contracts -/

variable (rely : List (Sigma ρ) → (i : ι) → ρ i → Prop) (allowed : List (Sigma ρ) → ι → Prop)

/-- After the calls made so far, the program makes allowed calls only, and leaves `post`, whatever answers that may be
relied on it gets. -/
def Ensures (before : List (Sigma ρ)) : Calls ι ρ α → (α → List (Sigma ρ) → Prop) → Prop
  | .pure a, post => post a before
  | .call i next, post =>
    allowed before i ∧ ∀ r, rely before i r → Ensures (before ++ [⟨i, r⟩]) (next r) post

/-- Every answer is one that may be relied on. -/
def Answered (before trace : List (Sigma ρ)) : Prop :=
  ∀ pre entry post, trace = pre ++ entry :: post → rely (before ++ pre) entry.1 entry.2

/-- Every call is allowed. -/
def Allowed (before trace : List (Sigma ρ)) : Prop :=
  ∀ pre entry post, trace = pre ++ entry :: post → allowed (before ++ pre) entry.1

variable {rely allowed} {before : List (Sigma ρ)} {post : α → List (Sigma ρ) → Prop}
  {last : β → List (Sigma ρ) → Prop}

theorem answered_nil : Answered rely before [] := by
  intro pre entry post split
  simp at split

theorem answered_cons_iff {entry : Sigma ρ} {rest : List (Sigma ρ)} :
    Answered rely before (entry :: rest) ↔ rely before entry.1 entry.2 ∧ Answered rely (before ++ [entry]) rest := by
  constructor
  · intro answered
    constructor
    · have head := answered [] entry rest rfl
      rwa [List.append_nil] at head
    · intro pre next post split
      have later := answered (entry :: pre) next post (by rw [split, List.cons_append])
      rwa [List.append_cons] at later
  · rintro ⟨head, later⟩ pre next post split
    cases pre with
    | nil =>
      obtain ⟨rfl, -⟩ := List.cons.inj split
      rwa [List.append_nil]
    | cons first pre =>
      obtain ⟨rfl, inRest⟩ := List.cons.inj split
      have next_ := later pre next post inRest
      rwa [List.append_assoc] at next_

theorem Ensures.pure (holds : post a before) : Ensures rely allowed before (Pure.pure a) post := holds

theorem Ensures.send {i : ι} {post : ρ i → List (Sigma ρ) → Prop} (isAllowed : allowed before i)
    (holds : ∀ r, rely before i r → post r (before ++ [⟨i, r⟩])) : Ensures rely allowed before (send i) post :=
  ⟨isAllowed, holds⟩

theorem Ensures.bind (first : Ensures rely allowed before x post)
    (rest : ∀ a trace, post a trace → Ensures rely allowed trace (f a) last) :
    Ensures rely allowed before (x >>= f) last := by
  induction x generalizing before with
  | pure a => exact rest a before first
  | call i next ih => exact ⟨first.1, fun r relied => ih r (first.2 r relied)⟩

theorem Ensures.mono {post' : α → List (Sigma ρ) → Prop} (ensures : Ensures rely allowed before x post)
    (implies : ∀ a trace, post a trace → post' a trace) : Ensures rely allowed before x post' := by
  induction x generalizing before with
  | pure a => exact implies a before ensures
  | call i next ih => exact ⟨ensures.1, fun r relied => ih r (ensures.2 r relied)⟩

/-- A run on answers that may be relied on keeps to the contract. -/
theorem Ensures.run (ensures : Ensures rely allowed before x post) (run : Runs x trace a)
    (answered : Answered rely before trace) : Allowed allowed before trace ∧ post a (before ++ trace) := by
  induction x generalizing before trace with
  | pure b =>
    obtain ⟨rfl, rfl⟩ := run
    refine ⟨fun pre entry post split => ?_, by rwa [List.append_nil]⟩
    simp at split
  | call i next ih =>
    obtain ⟨r, rest, rfl, tail⟩ := run
    obtain ⟨relied, later⟩ := answered_cons_iff.mp answered
    obtain ⟨allowedLater, leaves⟩ := ih r (ensures.2 r relied) tail later
    refine ⟨?_, by rwa [List.append_assoc] at leaves⟩
    intro pre entry post split
    cases pre with
    | nil =>
      obtain ⟨rfl, -⟩ := List.cons.inj split
      rw [List.append_nil]
      exact ensures.1
    | cons first pre =>
      obtain ⟨rfl, inRest⟩ := List.cons.inj split
      have later := allowedLater pre entry post inRest
      rwa [List.append_assoc] at later

/-! ## Ends -/

/-- The program comes to an end after these calls: it returns a value, or makes a call that has no answer. -/
def Ends : Calls ι ρ α → List (Sigma ρ) → Option α → Prop
  | .pure a, trace, result => trace = [] ∧ some a = result
  | .call i next, trace, result =>
    (IsEmpty (ρ i) ∧ trace = [] ∧ result = none) ∨ ∃ r rest, trace = ⟨i, r⟩ :: rest ∧ Ends (next r) rest result

theorem ends_some_iff : Ends x trace (some a) ↔ Runs x trace a := by
  induction x generalizing trace with
  | pure b => exact and_congr Iff.rfl (Option.some_inj)
  | call i next ih =>
    constructor
    · rintro (⟨-, -, impossible⟩ | ⟨r, rest, rfl, tail⟩)
      · cases impossible
      · exact ⟨r, rest, rfl, (ih r).mp tail⟩
    · rintro ⟨r, rest, rfl, tail⟩
      exact .inr ⟨r, rest, rfl, (ih r).mpr tail⟩

/-- A sequence ends where its head ends without a value, or where what comes of its head ends. -/
theorem ends_bind_iff {result : Option β} : Ends (x >>= f) trace result ↔ (Ends x trace none ∧ result = none) ∨
      ∃ before after a, trace = before ++ after ∧ Runs x before a ∧ Ends (f a) after result := by
  induction x generalizing trace with
  | pure a =>
    constructor
    · exact fun ends => .inr ⟨[], trace, a, rfl, ⟨rfl, rfl⟩, ends⟩
    · rintro (⟨⟨-, impossible⟩, -⟩ | ⟨_, after, a', rfl, ⟨rfl, rfl⟩, ends⟩)
      · cases impossible
      · exact ends
  | call i next ih =>
    constructor
    · rintro (⟨noAnswer, rfl, rfl⟩ | ⟨r, rest, rfl, ends⟩)
      · exact .inl ⟨.inl ⟨noAnswer, rfl, rfl⟩, rfl⟩
      · rcases (ih r).mp ends with ⟨ends, none_⟩ | ⟨before, after, a, rfl, head, tail⟩
        · exact .inl ⟨.inr ⟨r, rest, rfl, ends⟩, none_⟩
        · exact .inr ⟨⟨i, r⟩ :: before, after, a, rfl, ⟨r, before, rfl, head⟩, tail⟩
    · rintro (⟨⟨noAnswer, rfl, -⟩ | ⟨r, rest, rfl, ends⟩, rfl⟩ | ⟨_, after, a, rfl, ⟨r, before, rfl, head⟩, tail⟩)
      · exact .inl ⟨noAnswer, rfl, rfl⟩
      · exact .inr ⟨r, rest, rfl, (ih r).mpr (.inl ⟨ends, rfl⟩)⟩
      · exact .inr ⟨r, before ++ after, rfl, (ih r).mpr (.inr ⟨before, after, a, rfl, head, tail⟩)⟩

/-- A program that makes only calls that have answers ends with a value. -/
theorem Ensures.isSome {result : Option α} (ensures : Ensures rely allowed before x post) (ends : Ends x trace result)
    (answered : Answered rely before trace) (answers : ∀ before i, allowed before i → Nonempty (ρ i)) :
    ∃ a, result = some a := by
  induction x generalizing before trace with
  | pure b => exact ⟨b, ends.2.symm⟩
  | call i next ih =>
    rcases ends with ⟨noAnswer, -, -⟩ | ⟨r, rest, rfl, tail⟩
    · exact (answers before i ensures.1).elim fun r => (noAnswer.false r).elim
    · obtain ⟨relied, later⟩ := answered_cons_iff.mp answered
      exact ih r (ensures.2 r relied) tail later

/-! ## The calls of a program -/

/-- Every call that the program can make has the property. -/
def Every (p : ι → Prop) : Calls ι ρ α → Prop
  | .pure _ => True
  | .call i next => p i ∧ ∀ r, Every p (next r)

variable {p : ι → Prop}

theorem every_pure : Every p (Pure.pure a : Calls ι ρ α) := trivial

theorem every_send {i : ι} (holds : p i) : Every p (send i : Calls ι ρ (ρ i)) := ⟨holds, fun _ => trivial⟩

theorem Every.bind (first : Every p x) (rest : ∀ a, Every p (f a)) : Every p (x >>= f) := by
  induction x with
  | pure a => exact rest a
  | call i next ih => exact ⟨first.1, fun r => ih r (first.2 r)⟩

theorem Every.ite {c : Prop} [Decidable c] {y : Calls ι ρ α} (yes : Every p x) (no : Every p y) :
    Every p (if c then x else y) := by
  split
  · exact yes
  · exact no

theorem Every.mono {q : ι → Prop} (implies : ∀ i, p i → q i) (every : Every p x) : Every q x := by
  induction x with
  | pure a => trivial
  | call i next ih => exact ⟨implies i every.1, fun r => ih r (every.2 r)⟩

/-- A program whose calls all have answers does not end without a value. -/
theorem Every.not_ends_none (every : Every p x) (answers : ∀ i, p i → Nonempty (ρ i)) : ¬ Ends x trace none := by
  induction x generalizing trace with
  | pure b =>
    rintro ⟨-, impossible⟩
    cases impossible
  | call i next ih =>
    rintro (⟨noAnswer, -, -⟩ | ⟨r, rest, -, ends⟩)
    · exact (answers i every.1).elim fun r => noAnswer.false r
    · exact ih r (every.2 r) ends

theorem Every.run (every : Every p x) (run : Runs x trace a) : ∀ entry ∈ trace, p entry.1 := by
  induction x generalizing trace with
  | pure b =>
    obtain ⟨rfl, -⟩ := run
    exact fun _ member => absurd member List.not_mem_nil
  | call i next ih =>
    obtain ⟨r, rest, rfl, tail⟩ := run
    exact List.forall_mem_cons.mpr ⟨every.1, ih r (every.2 r) tail⟩

end Calls

/-! # Programs and a callee with a state

A meaning of the calls says which answers a state can give and which state comes of it. A program advances by
getting its calls answered; it leads to a target if it comes there whatever the answers are.
-/

namespace Calls

variable {σ ι α β : Type} {ρ : ι → Type}
variable {post : α → σ → Prop}

/-- The program makes these calls in a state, gets these answers, and leaves another program and state. -/
inductive Advances (meaning : σ → (i : ι) → ρ i → σ → Prop) :
    Calls ι ρ α → σ → List (Sigma ρ) → Calls ι ρ α → σ → Prop
  | done {x : Calls ι ρ α} {s : σ} : Advances meaning x s [] x s
  | call {i : ι} {next : ρ i → Calls ι ρ α} {r : ρ i} {s t u : σ} {rest : List (Sigma ρ)} {y : Calls ι ρ α}
    (means : meaning s i r t) (later : Advances meaning (next r) t rest y u) :
    Advances meaning (.call i next) s (⟨i, r⟩ :: rest) y u

/-- Whatever the answers are, the program comes to the target: it is there, or it makes a call that can be answered and
goes on to the target after every answer. -/
inductive LeadsTo (meaning : σ → (i : ι) → ρ i → σ → Prop) (target : Calls ι ρ α → σ → Prop) : Calls ι ρ α → σ → Prop
  | here {x : Calls ι ρ α} {s : σ} (there : target x s) : LeadsTo meaning target x s
  | call {i : ι} {next : ρ i → Calls ι ρ α} {s : σ} (answered : ∃ r t, meaning s i r t)
    (later : ∀ r t, meaning s i r t → LeadsTo meaning target (next r) t) : LeadsTo meaning target (.call i next) s

variable {meaning : σ → (i : ι) → ρ i → σ → Prop} {target : Calls ι ρ β → σ → Prop} {x : Calls ι ρ α} {s : σ}

/-- The program returns a value, in a state, with the property. -/
def Returns (post : α → σ → Prop) (x : Calls ι ρ α) (s : σ) : Prop := ∃ a, x = Pure.pure a ∧ post a s

/-- A sequence comes to the target if its head returns and what comes of it does. -/
theorem LeadsTo.bind {f : α → Calls ι ρ β} (first : LeadsTo meaning (Returns post) x s)
    (rest : ∀ a t, post a t → LeadsTo meaning target (f a) t) : LeadsTo meaning target (x >>= f) s := by
  induction first with
  | here there =>
    obtain ⟨a, rfl, holds⟩ := there
    exact rest a _ holds
  | call answered later ih => exact .call answered ih

theorem leadsTo_pure {a : α} (holds : post a s) :
    LeadsTo meaning (Returns post) (Pure.pure a : Calls ι ρ α) s := .here ⟨a, rfl, holds⟩

/-- A call returns its answer. -/
theorem leadsTo_send {i : ι} {post : ρ i → σ → Prop} (answered : ∃ r t, meaning s i r t)
    (holds : ∀ r t, meaning s i r t → post r t) : LeadsTo meaning (Returns post) (send i) s :=
  .call answered fun r t means => leadsTo_pure (holds r t means)

theorem Advances.trans {x y z : Calls ι ρ α} {s t u : σ} {before after : List (Sigma ρ)}
    (first : Advances meaning x s before y t) (rest : Advances meaning y t after z u) :
    Advances meaning x s (before ++ after) z u := by
  induction first with
  | done => exact rest
  | call means later ih => exact .call means (ih rest)

/-! ## What programs uphold -/

/-- Every call that the program makes is allowed in its state, and whenever the program returns, its value and the state
have the property. -/
def Upholds (meaning : σ → (i : ι) → ρ i → σ → Prop) (allowed : σ → ι → Prop) (post : α → σ → Prop) :
    Calls ι ρ α → σ → Prop
  | .pure a, s => post a s
  | .call i next, s => allowed s i ∧ ∀ r t, meaning s i r t → Upholds meaning allowed post (next r) t

variable {allowed : σ → ι → Prop}

theorem upholds_send {i : ι} {post : ρ i → σ → Prop} (isAllowed : allowed s i)
    (holds : ∀ r t, meaning s i r t → post r t) : Upholds meaning allowed post (send i) s := ⟨isAllowed, holds⟩

theorem Upholds.bind {last : β → σ → Prop} {f : α → Calls ι ρ β} (first : Upholds meaning allowed post x s)
    (rest : ∀ a t, post a t → Upholds meaning allowed last (f a) t) : Upholds meaning allowed last (x >>= f) s := by
  induction x generalizing s with
  | pure a => exact rest a s first
  | call i next ih => exact ⟨first.1, fun r t means => ih r (first.2 r t means)⟩

theorem Upholds.ite {c : Prop} [Decidable c] {y : Calls ι ρ α} (yes : c → Upholds meaning allowed post x s)
    (no : ¬ c → Upholds meaning allowed post y s) : Upholds meaning allowed post (if c then x else y) s := by
  split
  · next holds => exact yes holds
  · next fails => exact no fails

/-- What the calls of a program keep, the program keeps. -/
theorem Every.upholds {p : ι → Prop} {kept : σ → Prop} (every : Every p x) (allows : ∀ s i, p i → kept s → allowed s i)
    (keeps : ∀ s i r t, p i → kept s → meaning s i r t → kept t) (holds : kept s) :
    Upholds meaning allowed (fun _ => kept) x s := by
  induction x generalizing s with
  | pure a => exact holds
  | call i next ih =>
    exact ⟨allows s i every.1 holds, fun r t means => ih r (every.2 r) (keeps s i r t every.1 holds means)⟩

/-- Where a program has come to, it still upholds the contract. -/
theorem Upholds.advances {y : Calls ι ρ α} {t : σ} {trace : List (Sigma ρ)} (upholds : Upholds meaning allowed post x s)
    (run : Advances meaning x s trace y t) : Upholds meaning allowed post y t := by
  induction run with
  | done => exact upholds
  | call means later ih => exact ih (upholds.2 _ _ means)

end Calls
