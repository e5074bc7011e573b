import Coev.Model.Kafka.MetadataRefresh

/-! # One round of a refresh

Each round reads the clock, and either ends the refresh, drops a broker and goes on, or is followed by a retry.
-/

namespace Coev.Kafka.Refresh

open Calls (Ends Every Runs ends_bind_iff)

variable {conf : MetadataConfig} {topics : List Bytes} {deadline : ℤ} {α β : Type} {x : Refresh α} {f : α → Refresh β}
variable {attemptsRemaining : Int32} {result : Option KError} {broker : Option BrokerRef}

abbrev Trace := List (Sigma RefreshCall.Answer)

/-- A reading of the clock up to the deadline. -/
def isEarly (deadline : ℤ) : Sigma RefreshCall.Answer → Bool
  | ⟨.now, now⟩ => decide ((now : ℤ) ≤ deadline)
  | _ => false

/-- Every retry looks when the last update was. -/
def isRetry : Sigma RefreshCall.Answer → Bool
  | ⟨.loadUpdateMetadataMs, _⟩ => true
  | _ => false

/-- The readings of the clock up to the deadline. -/
def early (deadline : ℤ) (trace : Trace) : ℕ := trace.countP (isEarly deadline)

def retries (trace : Trace) : ℕ := trace.countP isRetry

theorem early_append (deadline : ℤ) (pre post : Trace) :
    early deadline (pre ++ post) = early deadline pre + early deadline post := List.countP_append

theorem retries_append (pre post : Trace) : retries (pre ++ post) = retries pre + retries post := List.countP_append

/-- A call of a round that is none of a retry. -/
def Ordinary (call : RefreshCall) : Prop := call ≠ .exhausted ∧ call ≠ .loadUpdateMetadataMs

/-- An ordinary call that is no update. -/
def Quiet (call : RefreshCall) : Prop := Ordinary call ∧ ∀ data all, call ≠ .updateMetadata data all

theorem every_ask {call : RefreshCall} (quiet : Quiet call) : Every Quiet (ask call) :=
  Calls.every_send quiet

theorem Quiet.ordinary (every : Every Quiet x) : Every Ordinary x := every.mono fun _ => And.left

variable {trace : Trace}

/-- A program of ordinary calls returns, after no retries. -/
theorem ends_bind_of_ordinary (every : Every Ordinary x) {result : Option β} (ends : Ends (x >>= f) trace result) :
    ∃ before after a, trace = before ++ after ∧ Runs x before a ∧ retries before = 0 ∧ Ends (f a) after result := by
  have answers (call : RefreshCall) (ordinary : Ordinary call) : Nonempty call.Answer := by
    cases call with
    | exhausted => exact absurd rfl ordinary.1
    | getMetadata _ _ => exact ⟨0, {}⟩
    | closed | updateMetadata _ _ => exact ⟨false⟩
    | now | loadUpdateMetadataMs | open_ _ => exact ⟨(0 : ℤ)⟩
    | lastBroker | firstSeed => exact ⟨none⟩
    | metadataTopics | addTopics _ => exact ⟨(0 : ℤ), []⟩
    | sleepFor _ | buryFirstSeed _ | close _ | deregisterBroker _ | storeUpdateMetadataMs _ => exact ⟨()⟩
  rcases ends_bind_iff.mp ends with ⟨stuck, -⟩ | ⟨before, after, a, split, head, tail⟩
  · exact absurd stuck (every.not_ends_none answers)
  · refine ⟨before, after, a, split, head, List.countP_eq_zero.mpr fun entry member => ?_, tail⟩
    have ordinary := every.run head entry member
    obtain ⟨call, reply⟩ := entry
    cases call with
    | loadUpdateMetadataMs => exact absurd rfl ordinary.2
    | _ => exact Bool.false_ne_true

theorem every_trySeed (broker : Option BrokerRef) : Every Quiet (trySeed broker) := by
  refine (every_ask (by simp [Quiet, Ordinary])).bind fun seed => ?_
  cases seed with
  | none => exact Calls.every_pure
  | some seed =>
    refine (every_ask (by simp [Quiet, Ordinary])).bind fun err => .ite ?_ Calls.every_pure
    exact (every_ask (by simp [Quiet, Ordinary])).bind fun _ => Calls.every_pure

theorem every_leastLoadedBroker (broker : Option BrokerRef) : Every Quiet (leastLoadedBroker broker) := by
  refine (every_ask (by simp [Quiet, Ordinary])).bind fun last => ?_
  cases (last.map BrokerRef.registered).or broker with
  | none => exact every_trySeed none
  | some broker =>
    exact (every_ask (by simp [Quiet, Ordinary])).bind fun err => .ite Calls.every_pure (every_trySeed _)

theorem every_pastDeadline (deadline backoff : ℤ) : Every Quiet (pastDeadline deadline backoff) :=
  .ite Calls.every_pure ((every_ask (by simp [Quiet, Ordinary])).bind fun _ => Calls.every_pure)

theorem every_backOff (backoff : ℤ) : Every Quiet (backOff backoff) :=
  .ite (every_ask (by simp [Quiet, Ordinary])) Calls.every_pure

theorem every_fetchMetadata (broker : BrokerRef) : Every Quiet (fetchMetadata conf topics broker) := by
  refine (every_ask (by simp [Quiet, Ordinary])).bind fun now => ?_
  exact (every_ask (by simp [Quiet, Ordinary])).bind fun _ => every_ask (by simp [Quiet, Ordinary])

theorem every_dropBroker (broker : BrokerRef) : Every Quiet (dropBroker broker) :=
  (every_ask (by simp [Quiet, Ordinary])).bind fun _ => every_ask (by simp [Quiet, Ordinary])

/-- A deadline that is not past was checked against the clock. -/
theorem early_of_not_past (some_ : deadline ≠ 0) (run : Runs (pastDeadline deadline 0) trace false) :
    1 ≤ early deadline trace := by
  unfold pastDeadline at run
  rw [if_neg some_] at run
  obtain ⟨before, after, now, rfl, head, tail⟩ := Calls.runs_bind_iff.mp run
  obtain rfl := Calls.runs_send_iff.mp head
  obtain ⟨rfl, inTime⟩ := tail
  have notPast : now ≤ deadline := by simpa using inTime
  simp [early, isEarly, notPast]

theorem attemptUnlessUpdated_ends {attempt : Int32 → Refresh KError} {backoff : ℤ} {err : KError}
    (ends : Ends (attemptUnlessUpdated attempt backoff attemptsRemaining err) trace result) :
    (∃ code, result = some code ∧ retries trace = 1) ∨
      ∃ pre post, trace = pre ++ post ∧ retries pre = 1 ∧ Ends (attempt (attemptsRemaining - 1)) post result := by
  obtain ⟨noAnswer, -, -⟩ | ⟨t, trace, rfl, ends⟩ := ends
  · exact (noAnswer.false (0 : ℤ)).elim
  obtain ⟨noAnswer, -, -⟩ | ⟨now, trace, rfl, ends⟩ := ends
  · exact (noAnswer.false (0 : ℤ)).elim
  change Ends (if _ then _ else _) trace result at ends
  split at ends
  · obtain ⟨rfl, same⟩ := ends
    exact .inl ⟨err, same.symm, rfl⟩
  · exact .inr ⟨[⟨.loadUpdateMetadataMs, t⟩, ⟨.now, now⟩], trace, rfl, rfl, ends⟩

/-- How a retry goes on: it returns, or makes another attempt. -/
theorem retryRefreshMetadata_ends {attempt : Int32 → Refresh KError} {err : KError}
    (ends : Ends (retryRefreshMetadata conf deadline attempt attemptsRemaining err) trace result) :
    (∃ code, result = some code ∧ (retries trace = 0 ∨ attemptsRemaining > 0 ∧ retries trace = 1)) ∨
      ∃ pre post, trace = pre ++ post ∧ attemptsRemaining > 0 ∧ retries pre = 1 ∧
        Ends (attempt (attemptsRemaining - 1)) post result := by
  unfold retryRefreshMetadata at ends
  split at ends
  swap
  · exact .inl ⟨err, ends.2.symm, .inl (by rw [ends.1]; rfl)⟩
  next remain =>
  obtain ⟨first, trace, past, rfl, -, none₁, ends⟩ := ends_bind_of_ordinary (Quiet.ordinary (every_pastDeadline _ _)) ends
  cases past with
  | true => exact .inl ⟨err, ends.2.symm, .inl (by rw [ends.1, List.append_nil, none₁])⟩
  | false =>
    change Ends (backOff _ >>= fun _ => _) trace result at ends
    obtain ⟨pre, post, -, rfl, -, none₂, ends⟩ := ends_bind_of_ordinary (Quiet.ordinary (every_backOff _)) ends
    rcases attemptUnlessUpdated_ends ends with ⟨code, returned, one⟩ | ⟨mid, post, rfl, one, ends⟩
    · exact .inl ⟨code, returned, .inr ⟨remain, by rw [retries_append, retries_append, none₁, none₂, one]⟩⟩
    · refine .inr ⟨first ++ pre ++ mid, post, by simp only [List.append_assoc], remain, ?_, ends⟩
      rw [retries_append, retries_append, none₁, none₂, one]

/-- How a round goes on. -/
inductive Round (conf : MetadataConfig) (topics : List Bytes) (deadline : ℤ) (fuel : ℕ) (attemptsRemaining : Int32)
    (trace : Trace) (result : Option KError) : Prop
  | returns (code : KError) (returned : result = some code)
      (made : retries trace = 0 ∨ attemptsRemaining > 0 ∧ retries trace = 1)
  | next (pre post : Trace) (broker : BrokerRef) (split : trace = pre ++ post) (none_ : retries pre = 0)
    (inTime : deadline ≠ 0 → 1 ≤ early deadline pre)
    (ends : Ends (tryRefreshMetadata conf topics deadline fuel attemptsRemaining (some broker)) post result)
  | retry (pre post : Trace) (split : trace = pre ++ post) (remain : attemptsRemaining > 0) (one : retries pre = 1)
    (inTime : deadline ≠ 0 → 1 ≤ early deadline pre)
    (ends : Ends (tryRefreshMetadata conf topics deadline fuel (attemptsRemaining - 1) none) post result)

theorem tryRefreshMetadata_ends {fuel : ℕ}
    (ends : Ends (tryRefreshMetadata conf topics deadline (fuel + 1) attemptsRemaining broker) trace result) :
    Round conf topics deadline fuel attemptsRemaining trace result := by
  obtain ⟨least, trace, ⟨err, broker⟩, rfl, -, none₁, ends⟩ :=
    ends_bind_of_ordinary (Quiet.ordinary (every_leastLoadedBroker _)) ends
  have returned {pre post : Trace} {code : KError} (none_ : retries pre = 0)
      (ends : Ends (pure code : Refresh KError) post result) :
      Round conf topics deadline fuel attemptsRemaining (pre ++ post) result :=
    .returns code ends.2.symm (.inl (by rw [ends.1, List.append_nil, none_]))
  change Ends (if _ then _ else _) trace result at ends
  split at ends
  · exact returned none₁ ends
  cases broker with
  | none => exact returned none₁ ends
  | some broker =>
    change Ends (pastDeadline deadline 0 >>= fun _ => _) trace result at ends
    obtain ⟨checked, trace, past, rfl, check, none₂, ends⟩ :=
      ends_bind_of_ordinary (Quiet.ordinary (every_pastDeadline _ _)) ends
    rw [← List.append_assoc]
    have none₁₂ : retries (least ++ checked) = 0 := by rw [retries_append, none₁, none₂]
    cases past with
    | true => exact returned none₁₂ ends
    | false =>
    change Ends (fetchMetadata conf topics broker >>= fun _ => _) trace result at ends
    obtain ⟨fetched, trace, ⟨code, response⟩, rfl, -, none₃, ends⟩ :=
      ends_bind_of_ordinary (Quiet.ordinary (every_fetchMetadata _)) ends
    rw [← List.append_assoc]
    have none₁₃ : retries (least ++ checked ++ fetched) = 0 := by rw [retries_append, none₁₂, none₃]
    have inTime (rest : Trace) (some_ : deadline ≠ 0) : 1 ≤ early deadline (least ++ checked ++ fetched ++ rest) := by
      have one := early_of_not_past some_ check
      simp only [early_append]
      omega
    have dropped (ends : Ends (dropBroker broker >>= fun _ => tryRefreshMetadata conf topics deadline fuel attemptsRemaining
        (some broker)) trace result) :
        Round conf topics deadline fuel attemptsRemaining (least ++ checked ++ fetched ++ trace) result := by
      obtain ⟨drops, trace, -, rfl, -, none₄, ends⟩ := ends_bind_of_ordinary (Quiet.ordinary (every_dropBroker _)) ends
      refine .next (least ++ checked ++ fetched ++ drops) trace broker (by simp only [List.append_assoc]) ?_
        (inTime drops) ends
      rw [retries_append, none₁₃, none₄]
    change Ends (if code = 0 then (if _ then _ else _) else _) trace result at ends
    split_ifs at ends
    · exact dropped ends
    · obtain ⟨updates, trace, shouldRetry, rfl, -, none₄, ends⟩ :=
        ends_bind_of_ordinary (Calls.every_send (by simp [Ordinary])) ends
      have none₁₄ : retries (least ++ checked ++ fetched ++ updates) = 0 := by rw [retries_append, none₁₃, none₄]
      rw [← List.append_assoc]
      cases shouldRetry with
      | false => exact returned none₁₄ ends
      | true =>
        rcases retryRefreshMetadata_ends ends with ⟨code, returned, made⟩ | ⟨pre, post, rfl, remain, one, ends⟩
        · exact .returns code returned (by rwa [retries_append, none₁₄, Nat.zero_add])
        · refine .retry (least ++ checked ++ fetched ++ updates ++ pre) post ?_ remain ?_ (fun some_ => ?_) ends
          · simp only [List.append_assoc]
          · rw [retries_append, none₁₄, one]
          · rw [List.append_assoc]
            exact inTime _ some_
    · exact returned none₁₃ ends
    · exact returned none₁₃ ends
    · exact dropped ends

/-- Only a clock that has not passed the deadline by then keeps a refresh going. -/
theorem fuel_le_early {fuel : ℕ} (some_ : deadline ≠ 0)
    (ends : Ends (tryRefreshMetadata conf topics deadline fuel attemptsRemaining broker) trace none) :
    fuel ≤ early deadline trace := by
  induction fuel generalizing attemptsRemaining broker trace with
  | zero => exact Nat.zero_le _
  | succ fuel ih =>
    cases tryRefreshMetadata_ends ends with
    | returns code returned => cases returned
    | next pre post broker split none_ inTime ends =>
      have later := ih ends
      have now := inTime some_
      rw [split, early_append]
      omega
    | retry pre post split remain one inTime ends =>
      have later := ih ends
      have now := inTime some_
      rw [split, early_append]
      omega

/-- A refresh retries at most as often as it has attempts remaining. -/
theorem retries_le {fuel : ℕ}
    (ends : Ends (tryRefreshMetadata conf topics deadline fuel attemptsRemaining broker) trace result) :
    (retries trace : ℤ) ≤ max 0 attemptsRemaining.toInt := by
  induction fuel generalizing attemptsRemaining broker trace with
  | zero =>
    obtain ⟨-, rfl, -⟩ | ⟨reply, -⟩ := ends
    · exact le_max_left _ _
    · exact reply.elim
  | succ fuel ih =>
    cases tryRefreshMetadata_ends ends with
    | returns code returned made =>
      rcases made with none_ | ⟨remain, one⟩
      · rw [none_]
        exact le_max_left _ _
      · have := (toInt_sub_one remain).1
        rw [one]
        omega
    | next pre post broker split none_ inTime ends =>
      rw [split, retries_append, none_, Nat.zero_add]
      exact ih ends
    | retry pre post split remain one inTime ends =>
      have later := ih ends
      obtain ⟨some_, decreases⟩ := toInt_sub_one remain
      rw [decreases] at later
      rw [split, retries_append, one]
      push_cast
      omega

end Coev.Kafka.Refresh
