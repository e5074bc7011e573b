import Coev.Proofs.Kafka.Consumer
import Coev.ToMathlib.Transition

/-! # A close that is not lost

`AsyncClose` leaves one token, and whoever looks first takes it: the dispatcher, an update or a feeder. Only the
dispatcher ends by it. So the close holds exactly as long as nobody takes the last token of a child that others still
have to do with; a single call of `AsyncClose` is therefore lost at the first update of the worker of a subscribed child.
-/

namespace Coev.Kafka.ConsumerWorld

open Transition

variable {s s' : ConsumerWorld} {w c : ℕ} {event : Event}

/-- What a turn after `AsyncClose` may not do: leave the child subscribed after an update, subscribe it, dispatch it, or
deliver a message of a response that came later. -/
structure Honoured (s : ConsumerWorld) (event : Event) (s' : ConsumerWorld) (c : ℕ) : Prop where
  removed : ∀ w, event = .update w → c ∉ (s'.workers w).subscriptions
  unsubscribed : ∀ w, c ∈ (s'.workers w).subscriptions → c ∈ (s.workers w).subscriptions
  undispatched : ∀ refreshed answers, event = .dispatch c refreshed answers →
    ∃ err, ((s.children c).consumer.dispatchTarget refreshed answers).1 = .error err
  undelivered : ∀ w expired feeder, event = .feed w c expired → s.Feeds w c feeder → feeder.late = true →
    (s'.children c).messages = (s.children c).messages

/-- No worker knows the child. -/
def Nowhere (s : ConsumerWorld) (c : ℕ) : Prop := ∀ w, ¬ (s.workers w).Knows c

/-- No worker knows the child but for its subscriptions to one, old and new. -/
def OnlySubscribed (s : ConsumerWorld) (w c : ℕ) : Prop :=
  (∀ v, v ≠ w → ¬ (s.workers v).Knows c) ∧ c ∉ (s.workers w).input ∧ c ∉ (s.workers w).batch

/-- The turns that keep a close. -/
def Informs (s : ConsumerWorld) : Event → Prop
  -- the dispatcher is not on its way to a worker
  | .asyncClose c => (s.children c).dispatcher = .waiting ∨ (s.children c).dispatcher = .done
  -- the dispatcher takes the last token when no worker knows the child
  | .wake c => (s.children c).dying = 1 → s.Nowhere c
  -- an update takes the last token when the dispatcher is done and no other place knows the child
  | .update w => ∀ c ∈ (s.workers w).gathered, (s.children c).dying = 1 →
    (s.children c).dispatcher = .done ∧ s.OnlySubscribed w c
  -- a feeder leaves a token
  | .feed w c false => ∀ feeder, s.Feeds w c feeder → feeder.messages ≠ [] → (s.children c).dying ≠ 1
  -- the interceptors of the second attempt are in time for a late response
  | .feed w c true => ∀ feeder, s.Feeds w c feeder → feeder.late = true → feeder.messages = [] ∨ feeder.firstAttempt = true
  | _ => True

/-- A closed child will hear of it: it has a token and its dispatcher is at the trigger or done, or its dispatcher is
done and no worker knows it. -/
def Informed (s : ConsumerWorld) (c : ℕ) : Prop :=
  c < s.made ∧ ((0 < (s.children c).dying ∧ ((s.children c).dispatcher = .waiting ∨ (s.children c).dispatcher = .done)) ∨
    ((s.children c).dispatcher = .done ∧ s.Nowhere c))

theorem Informed.waits (informed : s.Informed c) :
    (s.children c).dispatcher = .done ∨ (s.children c).dispatcher = .waiting ∧ 0 < (s.children c).dying := by
  rcases informed.2 with ⟨some_, waiting | done⟩ | ⟨done, -⟩
  · exact .inr ⟨waiting, some_⟩
  · exact .inl done
  · exact .inl done

theorem Informed.undispatching (informed : s.Informed c) : (s.children c).dispatcher ≠ .dispatching := by
  rcases informed.waits with done | ⟨waiting, -⟩
  · rw [done]
    exact Dispatcher.noConfusion
  · rw [waiting]
    exact Dispatcher.noConfusion

/-- A child without a token is known nowhere. -/
theorem Informed.nowhere (informed : s.Informed c) (taken : (s.children c).dying = 0) : s.Nowhere c := by
  rcases informed.2 with ⟨some_, -⟩ | ⟨-, nowhere⟩
  · exact absurd some_ (by omega)
  · exact nowhere

/-- Nobody hears of a child that was made before and is not being dispatched. -/
theorem Nowhere.step (nowhere : s.Nowhere c) (informed : s.Informed c) (step : Step s event s') : s'.Nowhere c := by
  intro v knows
  rcases known_of_step step knows with ⟨u, known⟩ | new | dispatching
  · exact nowhere u known
  · exact absurd informed.1 (by omega)
  · exact informed.undispatching dispatching

/-- An update that takes the last token leaves a child that only its worker had subscribed known nowhere. -/
theorem OnlySubscribed.update (only : s.OnlySubscribed w c) (dying : 0 < (s.children c).dying)
    (step : Step s (.update w) s') : s'.Nowhere c := by
  obtain ⟨elsewhere, input, batch⟩ := only
  cases step with
  | update hired at_ =>
    intro v knows
    by_cases this : v = w
    · subst this
      rw [workers_setBoth_self] at knows
      rcases BrokerConsumer.knows_updateSubscriptions knows with queued | batched | kept
      · exact input queued
      · exact batch batched
      · exact absurd kept.2 (by omega)
    · rw [workers_setBoth_of_ne s _ this] at knows
      exact elsewhere v this knows

/-- A turn that keeps closes keeps a closed child informed. -/
theorem Informed.step (informed : s.Informed c) (informs : s.Informs event) (step : Step s event s') : s'.Informed c := by
  refine ⟨informed.1.trans_le (made_of_step step), ?_⟩
  have touch : Touch s c event (s'.children c) := touch_of_step step
  generalize s'.children c = child at touch
  cases touch with
  | untouched same =>
    rw [same.dying, same.dispatcher]
    rcases informed.2 with token | ⟨done, nowhere⟩
    · exact .inl token
    · exact .inr ⟨done, nowhere.step informed step⟩
  | made new _ => exact absurd informed.1 (by omega)
  | closed =>
    refine .inl ⟨Nat.succ_pos _, ?_⟩
    rcases informed.waits with done | ⟨waiting, -⟩
    · exact .inr done
    · exact .inl waiting
  | ended waits closing done taken =>
    rcases Nat.eq_zero_or_pos child.dying with last | more
    · have nowhere : s.Nowhere c := informs (by omega)
      exact .inr ⟨done, nowhere.step informed step⟩
    · exact .inl ⟨more, .inr done⟩
  | woken waits alive closing =>
    rcases informed.waits with done | ⟨-, some_⟩
    · exact absurd (done.symm.trans waits) Dispatcher.noConfusion
    · exact absurd some_ (by omega)
  | moved busy closing =>
    rcases informed.waits with done | ⟨waiting, -⟩
    · rw [done] at busy
      rcases busy with busy | busy <;> exact Dispatcher.noConfusion busy
    · rw [waiting] at busy
      rcases busy with busy | busy <;> exact Dispatcher.noConfusion busy
  | retired gathered dying =>
    by_cases last : (s.children c).dying = 1
    · obtain ⟨done, only⟩ := informs c gathered last
      exact .inr ⟨done, only.update dying step⟩
    · refine .inl ⟨Nat.sub_pos_of_lt (by omega), ?_⟩
      rcases informed.waits with done | ⟨waiting, -⟩
      · exact .inr done
      · exact .inl waiting
  | died feeds some_ closing dispatcher taken =>
    have more : (s.children c).dying ≠ 1 := informs _ feeds some_
    rw [dispatcher]
    refine .inl ⟨by omega, ?_⟩
    rcases informed.waits with done | ⟨waiting, -⟩
    · exact .inr done
    · exact .inl waiting

/-- A child is closed by `AsyncClose` alone. -/
private theorem closed_of_step (step : Step s event s') (closing : (s'.children c).closing = true) :
    (s.children c).closing = true ∨ event = .asyncClose c := by
  have touch : Touch s c event (s'.children c) := touch_of_step step
  generalize s'.children c = child at touch closing
  cases touch with
  | untouched same => exact .inl (same.closing.symm.trans closing)
  | made new isOpen => exact absurd (closing.symm.trans isOpen) Bool.noConfusion
  | closed => exact .inr rfl
  | ended waits same done taken => exact .inl (same.symm.trans closing)
  | woken waits alive same => exact .inl (same.symm.trans closing)
  | moved busy same => exact .inl (same.symm.trans closing)
  | retired gathered dying => exact .inl closing
  | died feeds some_ same dispatcher taken => exact .inl (same.symm.trans closing)

/-- `AsyncClose` leaves a token. -/
private theorem informed_asyncClose (waits : s.Informs (.asyncClose c)) (step : Step s (.asyncClose c) s') :
    s'.Informed c := by
  cases step with
  | asyncClose made =>
    refine ⟨made, .inl ?_⟩
    rw [children_setChild_self]
    exact ⟨Nat.succ_pos _, waits⟩

/-- In every run of turns that keep closes the closed children are informed. -/
private theorem informed_of_run {initialOffset : Int64} {returnErrors : Bool}
    (run : Reaches (When Informs Step) { initialOffset, returnErrors } s) :
    ∀ c, (s.children c).closing = true → s.Informed c := by
  apply run.invariant _ (fun c closing => Bool.noConfusion closing)
  rintro s event s' informed ⟨informs, step⟩ c closing
  rcases closed_of_step step closing with before | rfl
  · exact (informed c before).step informs step
  · exact informed_asyncClose informs step

/-! ## What a turn does to an informed child -/

theorem Informed.removed (informed : s.Informed c) (step : Step s (.update w) s') : c ∉ (s'.workers w).subscriptions := by
  cases step with
  | update hired at_ =>
    intro kept
    rw [workers_setBoth_self] at kept
    obtain ⟨gathered, taken⟩ := Finset.mem_filter.mp kept
    exact informed.nowhere taken w (BrokerConsumer.knows_of_gathered gathered)

theorem Informed.undelivered {expired : Bool} {feeder : Feeder} (informed : s.Informed c)
    (informs : s.Informs (.feed w c expired))
    (feeds : s.Feeds w c feeder) (late : feeder.late = true) (step : Step s (.feed w c expired) s') :
    (s'.children c).messages = (s.children c).messages := by
  cases step with
  | feedEnd _ _ _ => rw [children_endFeeder]
  | feedAgain _ _ _ _ => rw [children_setFeeder]
  | feedExpired hired other some_ second =>
    have same := feeds.unique other
    subst same
    rcases informs _ feeds late with none_ | first
    · exact absurd none_ some_
    · exact absurd (first.symm.trans second) Bool.noConfusion
  | feedDied _ _ _ _ => rw [children_endFeeder, children_setChild_self]
  | feedDelivered _ _ _ alive => exact absurd feeds.knows (informed.nowhere alive w)

/-- In every run of turns that keep closes, every such turn that follows honours the close of every closed child. -/
theorem close_honoured {initialOffset : Int64} {returnErrors : Bool}
    (run : Reaches (When Informs Step) { initialOffset, returnErrors } s) (closing : (s.children c).closing = true)
    (informs : s.Informs event) (step : Step s event s') : Honoured s event s' c := by
  have informed : s.Informed c := informed_of_run run c closing
  constructor
  · rintro w rfl
    exact informed.removed step
  · intro w subscribed
    rcases subscribed_of_step step subscribed with before | rfl
    · exact before
    · exact absurd subscribed (informed.removed step)
  · rintro refreshed answers rfl
    cases step with
    | dispatchFailed dispatching _ => exact absurd dispatching informed.undispatching
    | dispatched dispatching _ => exact absurd dispatching informed.undispatching
  · rintro w expired feeder rfl feeds late
    exact informed.undelivered informs feeds late step

/-- The state of a partition that starts at the newest offset of an empty log. -/
private def idle : PartitionConsumer := { topic := [116], partition := 0 }

private theorem idle_starts : idle.chooseStartingOffset OffsetNewest ⟨.ok 0, .ok 0⟩ = (0, idle) := rfl

/-- An update that takes no last token. -/
private theorem informs_update (more : ∀ c ∈ (s.workers w).gathered, (s.children c).dying ≠ 1) : s.Informs (.update w) :=
  fun c member last => absurd last (more c member)

/-- A subscribed child that was closed twice: the update leaves a token to the dispatcher. -/
theorem close_honoured_twice : ∃ s s' : ConsumerWorld, 0 ∈ (s.workers 0).subscriptions ∧ Honoured s (.update 0) s' 0 := by
  have run := (@Reaches.refl _ _ (When Informs Step) {}).tail_when
    (@Step.consumePartition _ _ _ _ _ 1 idle_starts (by decide)) trivial
  have run := run.tail_when (@Step.receive _ 0 0 [] (by decide) rfl rfl) trivial
  have run := run.tail_when (@Step.file _ 0 [0] (by decide) rfl) trivial
  have run := run.tail_when (@Step.update _ 0 (by decide) rfl) (informs_update (by decide))
  have run := run.tail_when (@Step.asyncClose _ 0 (by decide)) (.inl (by decide))
  have run := run.tail_when (@Step.asyncClose _ 0 (by decide)) (.inl (by decide))
  have run := run.tail_when (@Step.fetched _ 0 {} (by decide) rfl (by decide)) trivial
  have run := run.tail_when (@Step.fed _ 0 _ (by decide) rfl) trivial
  have run := run.tail_when (@Step.examineFine _ 0 0 _ (by decide) rfl (by decide) rfl) trivial
  have run := run.tail_when (@Step.preferredHere _ 0 0 _ { leader := .ok 1 } _ _ (by decide) rfl rfl (.inl rfl)) trivial
  have run := run.tail_when (@Step.handled _ 0 (by decide) rfl) trivial
  refine ⟨_, _, ?_, close_honoured run (by decide) ?_ (@Step.update _ 0 (by decide) rfl)⟩
  · decide
  · apply informs_update
    decide

/-- A subscribed child is closed once: the update takes the token and wakes the dispatcher, which finds none and dispatches
the child again. -/
theorem close_lost : ∃ s event s' c, Reaches Step {} s ∧ (s.children c).closing = true ∧ Step s event s' ∧
    ¬ Honoured s event s' c := by
  have run := (@Reaches.refl _ _ Step {}).tail (@Step.consumePartition _ _ _ _ _ 1 idle_starts (by decide))
  have run := run.tail (@Step.receive _ 0 0 [] (by decide) rfl rfl)
  have run := run.tail (@Step.file _ 0 [0] (by decide) rfl)
  have run := run.tail (@Step.update _ 0 (by decide) rfl)
  have run := run.tail (@Step.asyncClose _ 0 (by decide))
  have run := run.tail (@Step.fetched _ 0 {} (by decide) rfl (by decide))
  have run := run.tail (@Step.fed _ 0 _ (by decide) rfl)
  have run := run.tail (@Step.examineFine _ 0 0 _ (by decide) rfl (by decide) rfl)
  have run := run.tail (@Step.preferredHere _ 0 0 _ { leader := .ok 1 } _ _ (by decide) rfl rfl (.inl rfl))
  have run := run.tail (@Step.handled _ 0 (by decide) rfl)
  have run := run.tail (@Step.update _ 0 (by decide) rfl)
  have run := run.tail (@Step.wake _ 0 (by decide) (by decide) (by decide))
  have run := run.tail (@Step.backedOff _ 0 (by decide))
  refine ⟨_, _, _, 0, run, by decide, @Step.dispatched _ 0 0 { leader := .ok 1 } 1 idle (by decide) rfl, fun honoured => ?_⟩
  obtain ⟨err, failed⟩ := honoured.undispatched _ _ rfl
  cases failed

end Coev.Kafka.ConsumerWorld
