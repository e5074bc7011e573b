import Coev.Model.Kafka.TransactionManager
import Coev.ToMathlib.EStateM

/-! # What `Retry` returns

The error of an attempt is returned only when the attempt does not ask for another one. The code that is returned behind
the loop is never set, so a `Retry` that runs out of attempts returns zero.
-/

namespace Coev.Kafka.TransactionManager

variable {attempt : Txn TxnResult} {w w' : TxnWorld} {code : KError} {n : ℕ}

/-- The results of the attempts that are made one after the other, each because the one before asked for it. -/
inductive Ran (attempt : Txn TxnResult) : TxnWorld → List TxnResult → TxnWorld → Prop
  | none (w : TxnWorld) : Ran attempt w [] w
  | last {w w' : TxnWorld} {r : TxnResult} (made : attempt w = .ok r w') (done : r.retry = false) : Ran attempt w [r] w'
  | again {w w' w'' : TxnWorld} {r : TxnResult} {rs : List TxnResult} (made : attempt w = .ok r w') (asked : r.retry = true)
      (others : Ran attempt w' rs w'') : Ran attempt w (r :: rs) w''

/-- The code that is returned is that of the attempts. -/
structure Tells (results : List TxnResult) (code : KError) : Prop where
  success : code = 0 → ∃ last, results.getLast? = some last ∧ last.error = 0 ∧ last.retry = false
  exhausted : (∀ r ∈ results, r.retry = true) → ∀ last, results.getLast? = some last → code = last.error

/-- `Retry` makes one attempt more than the budget at most, and returns what they say. -/
def InventsNothing (attempt : Txn TxnResult) (budget : Int32) (w : TxnWorld) (code : KError) (w' : TxnWorld) : Prop :=
  ∃ results, Ran attempt w results w' ∧ results.length ≤ (budget.toInt + 1).toNat ∧ Tells results code

/-- One of so many attempts does not ask for another. -/
def Concludes (attempt : Txn TxnResult) : ℕ → TxnWorld → Prop
  | 0, _ => False
  | n + 1, w => ∃ r w', attempt w = .ok r w' ∧ (r.retry = false ∨ Concludes attempt n w')

/-- Every result is one of an attempt. -/
theorem Ran.made {results : List TxnResult} (ran : Ran attempt w results w') :
    ∀ r ∈ results, ∃ v v', attempt v = .ok r v' := by
  induction ran with
  | none w => nofun
  | last made ended => exact List.forall_mem_singleton.mpr ⟨_, _, made⟩
  | again made asked others ih => exact List.forall_mem_cons.mpr ⟨⟨_, _, made⟩, ih⟩

/-- An attempt that is done is among the attempts there are. -/
theorem Ran.concludes {results : List TxnResult} (ran : Ran attempt w results w') (few : results.length ≤ n)
    (done : ∃ last, results.getLast? = some last ∧ last.retry = false) : Concludes attempt n w := by
  induction ran generalizing n with
  | none w =>
    obtain ⟨last, isLast, -⟩ := done
    cases isLast
  | last made ended =>
    obtain ⟨n, rfl⟩ := Nat.exists_eq_succ_of_ne_zero (Nat.one_le_iff_ne_zero.mp few)
    exact ⟨_, _, made, .inl ended⟩
  | @again w w' w'' r rs made asked others ih =>
    obtain ⟨n, rfl⟩ := Nat.exists_eq_succ_of_ne_zero (Nat.ne_zero_of_lt few)
    refine ⟨r, w', made, .inr (ih (Nat.le_of_succ_le_succ few) ?_)⟩
    obtain ⟨last, isLast, done⟩ := done
    cases rs with
    | nil =>
      rw [← Option.some.inj isLast, List.getLast_singleton, asked] at done
      cases done
    | cons next rest => exact ⟨last, by rwa [List.getLast?_cons_cons] at isLast, done⟩

/-- The attempts of the loop, and why it ends. -/
theorem ran_retryLoop (run : retryLoop attempt n w = .ok code w') :
    ∃ results, Ran attempt w results w' ∧ results.length ≤ n ∧
    ((∃ last, results.getLast? = some last ∧ last.retry = false ∧ code = last.error) ∨
      (∀ r ∈ results, r.retry = true) ∧ code = 0 ∧ ¬ Concludes attempt n w) := by
  induction n generalizing w with
  | zero =>
    obtain ⟨rfl, rfl⟩ := EStateM.pure_eq_ok_iff.mp run
    exact ⟨[], .none w, le_rfl, .inr ⟨nofun, rfl, id⟩⟩
  | succ n ih =>
    obtain ⟨r, v, made, rest⟩ := EStateM.bind_eq_ok_iff.mp run
    cases asked : r.retry with
    | false =>
      rw [asked] at rest
      obtain ⟨rfl, rfl⟩ := EStateM.pure_eq_ok_iff.mp rest
      exact ⟨[r], .last made asked, Nat.le_add_left _ _, .inl ⟨r, rfl, asked, rfl⟩⟩
    | true =>
      rw [asked] at rest
      obtain ⟨results, ran, few, ends⟩ := ih rest
      refine ⟨r :: results, .again made asked ran, Nat.succ_le_succ few, ?_⟩
      obtain ⟨last, isLast, done, same⟩ | ⟨all, zero, never⟩ := ends
      · refine .inl ⟨last, ?_, done, same⟩
        rw [List.getLast?_cons, isLast]
        rfl
      · refine .inr ⟨List.forall_mem_cons.mpr ⟨asked, all⟩, zero, ?_⟩
        rintro ⟨r', v', made', either⟩
        rw [made] at made'
        obtain ⟨rfl, rfl⟩ := EStateM.Result.ok.inj made'
        obtain done | concludes := either
        · rw [asked] at done
          cases done
        · exact never concludes

/-- `Retry` returns what its attempts say if and only if one of them does not ask for another. -/
theorem retry_invents_nothing_iff (run : retry attempt w = .ok code w') :
    InventsNothing attempt w.manager.conf.retryMax w code w' ↔ Concludes attempt (attempts w.manager.conf) w := by
  have loop : retryLoop attempt (attempts w.manager.conf) w = .ok code w' := run
  obtain ⟨results, ran, few, ends⟩ := ran_retryLoop loop
  constructor
  · rintro ⟨results', ran', few', tells⟩
    obtain ⟨last, isLast, done, -⟩ | ⟨-, zero, -⟩ := ends
    · exact ran.concludes few ⟨last, isLast, done⟩
    · obtain ⟨last, isLast, -, done⟩ := tells.success zero
      exact ran'.concludes few' ⟨last, isLast, done⟩
  · intro concludes
    obtain ⟨last, isLast, done, same⟩ | ⟨-, -, never⟩ := ends
    · refine ⟨results, ran, few, fun zero => ⟨last, isLast, same ▸ zero, done⟩, fun all other isOther => ?_⟩
      rwa [← Option.some.inj (isLast.symm.trans isOther)]
    · exact absurd concludes never

/-- A manager that may retry once. -/
def retrying : TxnWorld :=
  { manager := create { version := V2_1_0_0, idempotent := true, transactionID := [0x69], retryMax := 1 } }

theorem refused_invents_nothing : InventsNothing (pure { error := 7 }) 1 retrying 7 retrying ↔
    Concludes (pure { error := 7 }) 2 retrying :=
  retry_invents_nothing_iff (w := retrying) rfl

/-- Two attempts fail, and the code is zero. -/
theorem exhaustion_succeeds : retry (pure { retry := true, error := 7 }) retrying = .ok 0 retrying ∧
    ¬ InventsNothing (pure { retry := true, error := 7 }) 1 retrying 0 retrying := by
  refine ⟨rfl, ?_⟩
  rintro ⟨results, ran, -, tells⟩
  obtain ⟨last, isLast, -, done⟩ := tells.success rfl
  obtain ⟨v, v', made⟩ := ran.made last (List.mem_of_getLast? isLast)
  obtain ⟨rfl, -⟩ := EStateM.pure_eq_ok_iff.mp made
  cases done

end Coev.Kafka.TransactionManager
