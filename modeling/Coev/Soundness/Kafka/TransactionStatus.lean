import Coev.Model.Kafka.TransactionManager

/-! # The transaction status machine

A status is a set of flags. A row of the transition table applies when the status contains its flag, and it
permits every target that contains a flag of the row. So a status that combines `FatalError` with a flag that
has a row of its own can be left by that row; with any other flags `FatalError` is final.
-/

namespace Coev.Kafka.TransactionManager

variable {m m' : TransactionManager} {target : TxnStatus} {err code : KError}

/-- Some row of the table, whose flag meets a condition, permits the target. -/
def PermittedBy (m : TransactionManager) (condition : TxnStatus → Prop) (target : TxnStatus) : Prop :=
  ∃ row ∈ producerTxnTransitions, condition row.1 ∧ m.has row.1 ∧ ∃ allowed ∈ row.2, target &&& allowed ≠ 0

/-- The transition table permits the target. -/
def Permitted (m : TransactionManager) (target : TxnStatus) : Prop := m.PermittedBy (fun _ => True) target

/-- A target that contains `FatalError` contains no other flag with a row in the table. -/
def FatalAlone (target : TxnStatus) : Prop :=
  target &&& ProducerTxnFlagFatalError ≠ 0 →
    ∀ row ∈ producerTxnTransitions, target &&& row.1 ≠ 0 → row.1 = ProducerTxnFlagFatalError

/-- The last error that an accepted transition records. -/
def recorded (target : TxnStatus) (err : KError) : KError :=
  if target &&& ProducerTxnFlagInError ≠ 0 then err else 0

/-- What a call of `transition_to` comes to: it is refused and nothing changes, or it is permitted and takes place. -/
inductive Outcome (m : TransactionManager) (target : TxnStatus) (err : KError) : KError × TransactionManager → Prop where
  | notAllowed (barred : ¬ m.Permitted target) : Outcome m target err (ErrTransitionNotAllowed, m)
  | nilError (inError : target &&& ProducerTxnFlagInError ≠ 0) (nil : err = 0) :
    Outcome m target err (ErrCannotTransitionNilError, m)
  | accepted (permitted : m.Permitted target) (error : target &&& ProducerTxnFlagInError ≠ 0 → err ≠ 0) :
    Outcome m target err (err, { m with lastError := recorded target err, status := target })

/-- Some calls of `transition_to`, one after the other. -/
def transitions (m : TransactionManager) (calls : List (TxnStatus × KError)) : TransactionManager :=
  calls.foldl (fun m call => (m.transitionTo call.1 call.2).2) m

/-- What holds of a manager and of the next call of `transition_to`. -/
structure StatusLaw (m : TransactionManager) : Prop where
  coherent : m.has ProducerTxnFlagInError → m.lastError ≠ 0
  outcome : ∀ target err, Outcome m target err (m.transitionTo target err)
  left : ∀ target err, m.has ProducerTxnFlagFatalError →
    (m.transitionTo target err).2.has ProducerTxnFlagFatalError ∨
      m.PermittedBy (· ≠ ProducerTxnFlagFatalError) target

/-! ## One transition -/

private theorem isTransitionValid_iff : m.isTransitionValid target ↔ m.Permitted target := by
  simp only [isTransitionValid, Permitted, PermittedBy, List.any_eq_true, Bool.and_eq_true, decide_eq_true_eq,
    true_and]

private theorem outcome_transitionTo (m : TransactionManager) (target : TxnStatus) (err : KError) :
    Outcome m target err (m.transitionTo target err) := by
  unfold transitionTo
  by_cases permitted : m.isTransitionValid target
  · have allowed := isTransitionValid_iff.mp permitted
    rw [permitted, Bool.not_true, if_neg Bool.false_ne_true]
    split
    next inError =>
      split
      next nil => exact .nilError inError nil
      next error =>
        have taken := Outcome.accepted allowed fun _ => error
        rwa [recorded, if_pos inError] at taken
    next other =>
      have taken : Outcome m target err _ := .accepted allowed fun inError => absurd inError other
      rwa [recorded, if_neg other] at taken
  · rw [if_pos (by simpa using permitted)]
    exact .notAllowed fun allowed => permitted (isTransitionValid_iff.mpr allowed)

/-- The row of `FatalError` permits nothing without it. -/
theorem fatal_row {row : TxnStatus × List TxnStatus} (member : row ∈ producerTxnTransitions)
    (fatal : row.1 = ProducerTxnFlagFatalError) : row.2 = [ProducerTxnFlagFatalError] := by
  have rows : ∀ row ∈ producerTxnTransitions,
      row.1 = ProducerTxnFlagFatalError → row.2 = [ProducerTxnFlagFatalError] := by decide
  exact rows row member fatal

/-- A permitted target contains `FatalError`, or a row of another flag permits it. -/
theorem Permitted.fatal_or (permitted : m.Permitted target) :
    target &&& ProducerTxnFlagFatalError ≠ 0 ∨ m.PermittedBy (· ≠ ProducerTxnFlagFatalError) target := by
  obtain ⟨row, member, -, contained, allowed, listed, meets⟩ := permitted
  by_cases fatal : row.1 = ProducerTxnFlagFatalError
  · rw [fatal_row member fatal, List.mem_singleton] at listed
    exact .inl (listed ▸ meets)
  · exact .inr ⟨row, member, fatal, contained, allowed, listed, meets⟩

namespace Outcome

variable {result : KError × TransactionManager}

/-- `InError` comes with an error. -/
theorem coherent (outcome : Outcome m target err result) (before : m.has ProducerTxnFlagInError → m.lastError ≠ 0) :
    result.2.has ProducerTxnFlagInError → result.2.lastError ≠ 0 := by
  cases outcome with
  | notAllowed | nilError => exact before
  | accepted _ error =>
    intro inError
    have contained : target &&& ProducerTxnFlagInError ≠ 0 := by simpa only [has, decide_eq_true_eq] using inError
    change recorded target err ≠ 0
    rw [recorded, if_pos contained]
    exact error contained

/-- `FatalError` is kept, or a row of another flag of the status permits the target. -/
theorem fatal_or (outcome : Outcome m target err result) (fatal : m.has ProducerTxnFlagFatalError) :
    result.2.has ProducerTxnFlagFatalError ∨ m.PermittedBy (· ≠ ProducerTxnFlagFatalError) target := by
  cases outcome with
  | notAllowed | nilError => exact .inl fatal
  | accepted permitted =>
    refine permitted.fatal_or.imp_left fun contained => ?_
    simpa only [has, decide_eq_true_eq] using contained

/-- Statuses without another row beside `FatalError` go on to such statuses. -/
theorem fatalAlone (outcome : Outcome m target err result) (before : FatalAlone m.status) (alone : FatalAlone target) :
    FatalAlone result.2.status := by
  cases outcome with
  | notAllowed | nilError => exact before
  | accepted => exact alone

end Outcome

/-- No other row applies to a status that has none beside `FatalError`. -/
theorem FatalAlone.not_permittedBy (alone : FatalAlone m.status) (fatal : m.has ProducerTxnFlagFatalError) :
    ¬ m.PermittedBy (· ≠ ProducerTxnFlagFatalError) target := by
  rintro ⟨row, member, other, contained, -⟩
  simp only [has, decide_eq_true_eq] at fatal contained
  exact other (alone fatal row member contained)

/-! ## A run -/

private theorem coherent_transitions (before : m.has ProducerTxnFlagInError → m.lastError ≠ 0)
    (calls : List (TxnStatus × KError)) :
    (transitions m calls).has ProducerTxnFlagInError → (transitions m calls).lastError ≠ 0 := by
  induction calls generalizing m with
  | nil => exact before
  | cons call calls ih => exact ih ((outcome_transitionTo m call.1 call.2).coherent before)

private theorem fatalAlone_transitions (before : FatalAlone m.status) {calls : List (TxnStatus × KError)}
    (alone : ∀ call ∈ calls, FatalAlone call.1) : FatalAlone (transitions m calls).status := by
  induction calls generalizing m with
  | nil => exact before
  | cons call calls ih =>
    have next := (outcome_transitionTo m call.1 call.2).fatalAlone before (alone call List.mem_cons_self)
    exact ih next fun later member => alone later (List.mem_cons_of_mem _ member)

/-- `FatalError` is final along calls with such targets. -/
theorem fatal_transitions (before : FatalAlone m.status) (fatal : m.has ProducerTxnFlagFatalError)
    {calls : List (TxnStatus × KError)} (alone : ∀ call ∈ calls, FatalAlone call.1) :
    (transitions m calls).has ProducerTxnFlagFatalError := by
  induction calls generalizing m with
  | nil => exact fatal
  | cons call calls ih =>
    have outcome := outcome_transitionTo m call.1 call.2
    have next := outcome.fatalAlone before (alone call List.mem_cons_self)
    have kept := (outcome.fatal_or fatal).resolve_right (before.not_permittedBy fatal)
    exact ih next kept fun later member => alone later (List.mem_cons_of_mem _ member)

private theorem not_inError_create (conf : TxnConfig) : ¬ (create conf).has ProducerTxnFlagInError := by
  change ¬ decide (ProducerTxnFlagUninitialized &&& ProducerTxnFlagInError ≠ 0)
  decide

private theorem statusLaw_transitions (conf : TxnConfig) (calls : List (TxnStatus × KError)) :
    StatusLaw (transitions (create conf) calls) where
  coherent := coherent_transitions (fun inError => absurd inError (not_inError_create conf)) calls
  outcome := outcome_transitionTo _
  left target err fatal := (outcome_transitionTo _ target err).fatal_or fatal

/-- In every run of `transition_to` calls the status law holds, and `FatalError` is never left while no target
combines it with another flag that has a row. -/
theorem status_machine (conf : TxnConfig) (calls : List (TxnStatus × KError)) :
    StatusLaw (transitions (create conf) calls) ∧ ∀ later, (∀ call ∈ calls ++ later, FatalAlone call.1) →
        (transitions (create conf) calls).has ProducerTxnFlagFatalError →
          (transitions (create conf) (calls ++ later)).has ProducerTxnFlagFatalError := by
  refine ⟨statusLaw_transitions conf calls, fun later alone fatal => ?_⟩
  have start : FatalAlone (create conf).status := by
    intro contained
    exact absurd (by decide : ProducerTxnFlagUninitialized &&& ProducerTxnFlagFatalError = 0) contained
  have before := fatalAlone_transitions start fun call member => alone call (List.mem_append_left _ member)
  rw [transitions, List.foldl_append]
  exact fatal_transitions before fatal fun call member => alone call (List.mem_append_right _ member)

/-- Through `FatalError | Ready` the fatal state is left for a transaction. -/
theorem fatal_left :
    let conf : TxnConfig := { version := V2_1_0_0, idempotent := true, transactionID := [], retryMax := 3 }
    (transitions (create conf) [(fatal, 48)]).has ProducerTxnFlagFatalError ∧
      ¬ (transitions (create conf) [(fatal, 48), (ProducerTxnFlagFatalError ||| ProducerTxnFlagReady, 0),
        (ProducerTxnFlagInTransaction, 0)]).has ProducerTxnFlagFatalError := by
  decide

end Coev.Kafka.TransactionManager
