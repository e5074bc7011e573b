import Coev.Model.Kafka.ConsumerGroup
import Mathlib.Data.Nat.Count

/-! # Joining a group: whether it ends, and with what

`JoinGroup` fails before it sends, as no protocol can be added to its request, and the wait of `RetryNewSession` returns
0, which is the id of none of its coroutines. So a call looks for a coordinator as long as that fails and there are
retries, and then returns an error; what the coordinator would answer, and a context or a group that ends meanwhile, do
not matter.
-/

namespace Coev.Kafka

/-- The wait returns 0, whichever coroutine ends first, and the ids are 1 and 2. -/
theorem Wakening.select_eq (wakening : Wakening) : wakening.select = some (0, 1, 2) := by
  obtain ⟨done, closed, ended, reserved, refreshed, alive⟩ := wakening
  obtain ⟨undone, unclosed⟩ := alive
  cases ended with
  | __get =>
    cases undone rfl
    cases closed <;> rfl
  | __close =>
    cases unclosed rfl
    cases done <;> rfl
  | __config => cases done <;> cases closed <;> rfl

/-- The partitions that an answer to `SyncGroup` assigns. -/
def SyncGroupAnswer.assigned (getMemberAssignment : Bytes → KError × MemberAssignment) (answer : SyncGroupAnswer) :
    Std.ExtTreeMap Bytes (List Int32) :=
  if answer.memberAssignment.isEmpty then ∅ else (getMemberAssignment answer.memberAssignment).2.topics

/-- The first protocol of a valid configuration cannot be added. -/
theorem JoiningAnswers.joinGroup_fails (conf : ValidGroupConfig) (answer : KError × JoinGroupAnswer) :
    joinGroup conf.toConsumerGroupConfig answer = (-1, {}) := by
  have refused (name : Bytes) (rest : List Bytes) : addGroupProtocols (name :: rest) = -1 := rfl
  unfold joinGroup
  cases strategy : conf.strategy with
  | some name => rfl
  | none =>
    cases groups : conf.groupStrategies with
    | nil =>
      obtain set | listed := conf.strategised
      · rw [strategy] at set
        cases set
      · exact absurd groups listed
    | cons name rest => exact if_pos (by rw [Option.elim_none, refused]; decide)

namespace Joining

/-- The call is over. -/
def Over (j : Joining) : Prop := (∃ err, j.place = .returned err) ∨ j.place = .thrown

/-- The session is live: it is that of the last answers to `JoinGroup` and `SyncGroup`, and not released. -/
def Live (getMemberAssignment : Bytes → KError × MemberAssignment) (j : Joining) : Prop :=
  ∃ response answer, j.joined = some response ∧ j.synced = some answer ∧
    j.session = some { memberId := response.memberId, generationId := response.generationId,
                       claims := sorted (answer.assigned getMemberAssignment), released := false }

/-- The call returned an error, or success with a live session. -/
def Delivers (getMemberAssignment : Bytes → KError × MemberAssignment) (j : Joining) : Prop :=
  ∃ err, j.place = .returned err ∧ (err = ErrNoError → j.Live getMemberAssignment)

/-- The call returned an error or a session. -/
def Settled (j : Joining) : Prop := ∃ err, j.place = .returned err ∧ (err = ErrNoError → j.session.isSome)

def Attempts (j : Joining) : Prop := ∃ retries, j.place = .newSession retries

/-- There is no session, no exception was thrown, and no success returned. -/
structure Vain (j : Joining) : Prop where
  session : j.session = none
  thrown : j.place ≠ .thrown
  success : j.place ≠ .returned ErrNoError

variable (conf : ValidGroupConfig) (getMemberAssignment : Bytes → KError × MemberAssignment) {j j' : Joining} {retries : ℤ}

/-! ## Steps -/

private theorem newSession_eq (answers : JoiningAnswers) :
    j.newSession conf.toConsumerGroupConfig getMemberAssignment retries answers =
      if answers.coordinator ≠ 0 then j.retryOr retries answers.coordinator else j.goTo (.returned (-1)) := by
  unfold newSession
  rw [JoiningAnswers.joinGroup_fails]
  rfl

private theorem retryNewSession_eq (wakening : Wakening) :
    j.retryNewSession retries wakening = if wakening.refreshed ≠ 0 then
      if retries ≤ 0 then j.goTo (.returned wakening.refreshed) else j.goTo (.retryNewSession (retries - 1))
    else j.goTo (.newSession (retries - 1)) := by
  unfold retryNewSession
  rw [wakening.select_eq]
  dsimp only
  rw [if_neg (by decide), if_neg (by decide)]

/-- Where a step leads. -/
inductive Moves (j : Joining) : Joining → Prop
  | stays (over_ : j.Over) : Moves j j
  | fails (err : KError) (failed : err ≠ ErrNoError) : Moves j (j.goTo (.returned err))
  | waits (retries : ℤ) (place : j.place = .newSession retries) (left : 0 < retries) :
    Moves j (j.goTo (.retryNewSession retries))
  | waitsAgain (retries : ℤ) (place : j.place = .retryNewSession retries) (left : 0 < retries) :
    Moves j (j.goTo (.retryNewSession (retries - 1)))
  | attempts (retries : ℤ) (place : j.place = .retryNewSession retries) : Moves j (j.goTo (.newSession (retries - 1)))

theorem moves (j : Joining) (answers : GroupAnswers) :
    j.Moves (j.step conf.toConsumerGroupConfig getMemberAssignment answers) := by
  cases place : j.place with
  | newSession retries =>
    simp only [step, place]
    rw [newSession_eq, retryOr]
    split_ifs with unknown spent
    · exact .fails _ unknown
    · exact .waits retries place (not_le.mp spent)
    · exact .fails _ (by decide)
  | retryNewSession retries =>
    simp only [step, place]
    rw [retryNewSession_eq]
    split_ifs with unrefreshed spent
    · exact .fails _ unrefreshed
    · exact .waitsAgain retries place (not_le.mp spent)
    · exact .attempts retries place
  | returned err =>
    simp only [step, place]
    exact .stays (.inl ⟨err, place⟩)
  | thrown =>
    simp only [step, place]
    exact .stays (.inr place)

theorem Over.step {conf : ConsumerGroupConfig} {getMemberAssignment : Bytes → KError × MemberAssignment} (over_ : j.Over)
    (answers : GroupAnswers) : j.step conf getMemberAssignment answers = j := by
  obtain ⟨err, place⟩ | place := over_ <;> simp only [Joining.step, place]

/-- Only the codes of the coordinator requests matter. -/
private theorem step_congr (j : Joining) {answers answers' : GroupAnswers}
    (coordinator : answers.attempt.coordinator = answers'.attempt.coordinator)
    (refreshed : answers.wakening.refreshed = answers'.wakening.refreshed) :
    j.step conf.toConsumerGroupConfig getMemberAssignment answers =
      j.step conf.toConsumerGroupConfig getMemberAssignment answers' := by
  unfold step
  split
  · rw [newSession_eq, newSession_eq, coordinator]
  · rw [retryNewSession_eq, retryNewSession_eq, refreshed]
  · rfl
  · rfl

theorem Vain.moves (vain : j.Vain) (moves : j.Moves j') : j'.Vain := by
  cases moves with
  | stays => exact vain
  | fails err failed => exact ⟨vain.session, nofun, fun success => failed (JoiningPlace.returned.inj success)⟩
  | waits | waitsAgain | attempts => exact ⟨vain.session, nofun, nofun⟩

/-- A call that is over returned an error. -/
theorem Vain.failed (vain : j.Vain) (over_ : j.Over) : ∃ err, j.place = .returned err ∧ err ≠ ErrNoError := by
  obtain ⟨err, place⟩ | thrown := over_
  · refine ⟨err, place, ?_⟩
    rintro rfl
    exact vain.success place
  · exact absurd thrown vain.thrown

/-! ## The number of attempts -/

/-- The most attempts that may still come. -/
def potential : JoiningPlace → ℕ
  | .newSession retries => retries.toNat + 1
  | .retryNewSession retries => max retries.toNat 1
  | .returned _ | .thrown => 0

/-- What every step makes less. -/
def rank : JoiningPlace → ℕ
  | .newSession retries => 2 * (retries + 1).toNat + 1
  | .retryNewSession retries => 2 * (retries.toNat + 1)
  | .returned _ | .thrown => 0

theorem Moves.rank_lt (moves : j.Moves j') (continues : ¬ j.Over) : rank j'.place < rank j.place := by
  cases moves with
  | stays over_ => exact absurd over_ continues
  | fails err failed =>
    cases place : j.place with
    | newSession | retryNewSession => exact Nat.succ_pos _
    | returned err => exact absurd (.inl ⟨err, place⟩) continues
    | thrown => exact absurd (.inr place) continues
  | waits retries place left | waitsAgain retries place left | attempts retries place =>
    simp only [goTo, place, rank]
    omega

open scoped Classical in
theorem Moves.potential_le (moves : j.Moves j') :
    potential j'.place + (if j.Attempts then 1 else 0) ≤ potential j.place := by
  cases moves with
  | stays over_ =>
    have quiet : ¬ j.Attempts := by
      rintro ⟨retries, place⟩
      obtain ⟨err, returned⟩ | thrown := over_
      · exact absurd (place.symm.trans returned) nofun
      · exact absurd (place.symm.trans thrown) nofun
    rw [if_neg quiet]
    exact le_rfl
  | fails err failed =>
    split_ifs with attempts
    · obtain ⟨retries, place⟩ := attempts
      rw [place]
      exact Nat.succ_le_succ (Nat.zero_le _)
    · exact Nat.zero_le _
  | waits retries place left =>
    rw [if_pos ⟨retries, place⟩, place]
    simp only [goTo, potential]
    omega
  | waitsAgain retries place left | attempts retries place =>
    rw [if_neg (by rintro ⟨other, attempts⟩; exact absurd (place.symm.trans attempts) nofun), place]
    simp only [goTo, potential]
    omega

/-! ## Whole calls -/

section Runs

variable (memberId userData : Bytes) (answers answers' : ℕ → GroupAnswers)

/-- A call of `NewSession` after so many answers. -/
abbrev call (n : ℕ) : Joining :=
  after conf.toConsumerGroupConfig getMemberAssignment (start conf.toConsumerGroupConfig memberId userData) answers n

private theorem call_vain (n : ℕ) : (call conf getMemberAssignment memberId userData answers n).Vain := by
  induction n with
  | zero => exact ⟨rfl, nofun, nofun⟩
  | succ n ih => exact ih.moves (moves conf getMemberAssignment _ (answers n))

private theorem call_over_or (n : ℕ) : (call conf getMemberAssignment memberId userData answers n).Over ∨
    rank (call conf getMemberAssignment memberId userData answers n).place + n ≤ rank (.newSession conf.retryMax) := by
  induction n with
  | zero => exact .inr le_rfl
  | succ n ih =>
    have moves := moves conf getMemberAssignment (call conf getMemberAssignment memberId userData answers n) (answers n)
    by_cases over_ : (call conf getMemberAssignment memberId userData answers n).Over
    · left
      change (step _ _ (call conf getMemberAssignment memberId userData answers n) (answers n)).Over
      rwa [over_.step]
    · right
      have bound := ih.resolve_left over_
      have less := moves.rank_lt over_
      exact (Nat.add_succ _ n).trans_le ((Nat.succ_add _ n).symm.trans_le ((Nat.add_le_add_right less n).trans bound))

/-- Every call comes to an end. -/
private theorem call_over : ∃ n, (call conf getMemberAssignment memberId userData answers n).Over := by
  refine ⟨rank (.newSession conf.retryMax) + 1, ?_⟩
  refine (call_over_or conf getMemberAssignment memberId userData answers _).resolve_right fun bound => ?_
  omega

open scoped Classical in
private theorem attempts_le (n : ℕ) :
    Nat.count (fun m => (call conf getMemberAssignment memberId userData answers m).Attempts) n +
      potential (call conf getMemberAssignment memberId userData answers n).place ≤ conf.retryMax.toNat + 1 := by
  induction n with
  | zero => simp only [Nat.count_zero, zero_add, after, start, potential, le_refl]
  | succ n ih =>
    have moves := moves conf getMemberAssignment (call conf getMemberAssignment memberId userData answers n) (answers n)
    have less := moves.potential_le
    rw [Nat.count_succ]
    change _ + potential (step _ _ (call conf getMemberAssignment memberId userData answers n) (answers n)).place ≤ _
    omega

/-- A call that has come to its end returned an error, or success with a live session. -/
theorem joining_delivers (n : ℕ) (over_ : (call conf getMemberAssignment memberId userData answers n).Over) :
    (call conf getMemberAssignment memberId userData answers n).Delivers getMemberAssignment := by
  obtain ⟨err, place, failed⟩ := (call_vain conf getMemberAssignment memberId userData answers n).failed over_
  exact ⟨err, place, fun success => absurd success failed⟩

/-- Whatever the cluster answers, no member of a group ever comes to a session; and a call goes the same way as any other
whose requests for the coordinator are answered with the same codes, whatever the coordinators answer to both and
whenever the context or the group ends in the waits. -/
theorem never_starts (coordinator : ∀ n, (answers n).attempt.coordinator = (answers' n).attempt.coordinator)
    (refreshed : ∀ n, (answers n).wakening.refreshed = (answers' n).wakening.refreshed) (n : ℕ) :
    (call conf getMemberAssignment memberId userData answers n).Vain ∧
      call conf getMemberAssignment memberId userData answers n =
        call conf getMemberAssignment memberId userData answers' n := by
  refine ⟨call_vain conf getMemberAssignment memberId userData answers n, ?_⟩
  induction n with
  | zero => rfl
  | succ n ih =>
    have same := step_congr conf getMemberAssignment (call conf getMemberAssignment memberId userData answers n)
      (coordinator n) (refreshed n)
    exact same.trans (congrArg (fun j => step _ _ j (answers' n)) ih)

end Runs

/-! ## A group that loses its coordinator -/

/-- A group with the range strategy. -/
def rangeConfig : ValidGroupConfig := { groupStrategies := [[0x72]], strategised := .inr (by decide) }

/-- No coordinator is found at first, the context is cancelled in the wait, and the coordinator that is found then would
make the member leader. -/
def coordinatorLate : ℕ → GroupAnswers
  | 0 => { attempt := { coordinator := ErrConsumerCoordinatorNotAvailable } }
  | 1 => { wakening := { ended := .__get } }
  | _ => { attempt := { join := (0, { groupProtocol := [0x72], leaderId := [0x6d], memberId := [0x6d] }) } }

/-- The same answers to the requests for the coordinator, which then says that the member is not known. -/
def coordinatorForgets : ℕ → GroupAnswers
  | 0 => { attempt := { coordinator := ErrConsumerCoordinatorNotAvailable } }
  | 1 => { wakening := { ended := .__config, reserved := 7 } }
  | _ => { attempt := { join := (0, { err := ErrUnknownMemberId }) } }

theorem joining_delivers_late :
    (call rangeConfig (fun _ => (0, {})) [] [] coordinatorLate 3).Delivers fun _ => (0, {}) :=
  joining_delivers rangeConfig (fun _ => (0, {})) [] [] coordinatorLate 3 (.inl ⟨-1, by decide⟩)

theorem never_starts_forgets : (call rangeConfig (fun _ => (0, {})) [] [] coordinatorLate 3).Vain ∧
    call rangeConfig (fun _ => (0, {})) [] [] coordinatorLate 3 =
      call rangeConfig (fun _ => (0, {})) [] [] coordinatorForgets 3 := by
  have coordinator : ∀ n, (coordinatorLate n).attempt.coordinator = (coordinatorForgets n).attempt.coordinator
    | 0 | 1 | _ + 2 => rfl
  have refreshed : ∀ n, (coordinatorLate n).wakening.refreshed = (coordinatorForgets n).wakening.refreshed
    | 0 | 1 | _ + 2 => rfl
  exact never_starts rangeConfig (fun _ => (0, {})) [] [] coordinatorLate coordinatorForgets coordinator refreshed 3

end Joining

end Coev.Kafka
