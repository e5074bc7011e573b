import Coev.Model.Kafka.Consumer

/-! # What a turn can do to a child and to a worker

Children only move between workers when a dispatcher hands them over or an expired feeder hands them back; every other
turn keeps a child where it was known before.
-/

namespace Coev.Kafka

namespace BrokerConsumer

variable {worker : BrokerConsumer}

/-- The batch that `SubscriptionManager` fills. -/
def batch (worker : BrokerConsumer) : List ℕ :=
  match worker.manager with
  | .receiving => []
  | .batching batch => batch

/-- The children whose feeders have not returned. -/
def running (worker : BrokerConsumer) : Finset ℕ :=
  match worker.consumer with
  | .feeding running _ => running
  | _ => ∅

/-- The worker knows the child. -/
def Knows (worker : BrokerConsumer) (c : ℕ) : Prop :=
  c ∈ worker.input ∨ c ∈ worker.batch ∨ c ∈ worker.newSubscriptions ∨ c ∈ worker.subscriptions ∨ c ∈ worker.running

theorem knows_of_consumer {next : SubscriptionConsumer} {c : ℕ}
    (running : ({ worker with consumer := next } : BrokerConsumer).running ⊆ worker.running)
    (knows : ({ worker with consumer := next } : BrokerConsumer).Knows c) : worker.Knows c := by
  rcases knows with input | batch | new | subscribed | feeds
  · exact .inl input
  · exact .inr (.inl batch)
  · exact .inr (.inr (.inl new))
  · exact .inr (.inr (.inr (.inl subscribed)))
  · exact .inr (.inr (.inr (.inr (running feeds))))

theorem knows_unsubscribe {todo : Finset ℕ} {c d : ℕ} (knows : (worker.unsubscribe d todo).Knows c) :
    worker.Knows c := by
  rcases knows with input | batch | new | subscribed | feeds
  · exact .inl input
  · exact .inr (.inl batch)
  · exact .inr (.inr (.inl new))
  · exact .inr (.inr (.inr (.inl (Finset.mem_of_mem_erase subscribed))))
  · exact absurd feeds (Finset.notMem_empty c)

theorem knows_updateSubscriptions {children : ℕ → Child} {c : ℕ}
    (knows : (worker.updateSubscriptions children).2.Knows c) :
    c ∈ worker.input ∨ c ∈ worker.batch ∨ (c ∈ worker.gathered ∧ (children c).dying = 0) := by
  rcases knows with input | batch | new | subscribed | feeds
  · exact .inl input
  · exact .inr (.inl batch)
  · exact absurd new List.not_mem_nil
  · exact .inr (.inr (Finset.mem_filter.mp subscribed))
  · simp only [running, updateSubscriptions] at feeds
    split_ifs at feeds
    · exact absurd feeds (Finset.notMem_empty c)
    · exact absurd feeds (Finset.notMem_empty c)

theorem knows_of_gathered {c : ℕ} (gathered : c ∈ worker.gathered) : worker.Knows c := by
  rcases Finset.mem_union.mp gathered with subscribed | new
  · exact .inr (.inr (.inr (.inl subscribed)))
  · exact .inr (.inr (.inl (List.mem_toFinset.mp new)))

theorem running_of_consumer {running : Finset ℕ} {feeders : ℕ → Feeder}
    (at_ : worker.consumer = .feeding running feeders) : worker.running = running := by
  rw [BrokerConsumer.running, at_]

end BrokerConsumer

namespace ConsumerWorld

variable {s s' : ConsumerWorld} {v w c d : ℕ} {event : Event}

/-! ## Frames -/

@[simp] theorem children_setChild_self (s : ConsumerWorld) (c : ℕ) (child : Child) :
    (s.setChild c child).children c = child :=
  Function.update_self ..

@[simp] theorem setChild_setChild (s : ConsumerWorld) (c : ℕ) (first second : Child) :
    (s.setChild c first).setChild c second = s.setChild c second := by
  simp only [setChild, Function.update_idem]

@[simp] theorem returnErrors_setChild (s : ConsumerWorld) (c : ℕ) (child : Child) :
    (s.setChild c child).returnErrors = s.returnErrors := rfl

theorem workers_setWorker_self (s : ConsumerWorld) (w : ℕ) (worker : BrokerConsumer) :
    (s.setWorker w worker).workers w = worker :=
  Function.update_self ..

theorem workers_setWorker_of_ne (s : ConsumerWorld) {v w : ℕ} (worker : BrokerConsumer) (other : v ≠ w) :
    (s.setWorker w worker).workers v = s.workers v := Function.update_of_ne other ..

theorem workers_setBoth_self (s : ConsumerWorld) (w : ℕ) (both : (ℕ → Child) × BrokerConsumer) :
    (s.setBoth w both).workers w = both.2 := Function.update_self ..

theorem workers_setBoth_of_ne (s : ConsumerWorld) {v w : ℕ} (both : (ℕ → Child) × BrokerConsumer) (other : v ≠ w) :
    (s.setBoth w both).workers v = s.workers v := Function.update_of_ne other ..

theorem refBrokerConsumer_frame (s : ConsumerWorld) (broker : Int32) :
    (s.refBrokerConsumer broker).2.children = s.children ∧ (s.refBrokerConsumer broker).2.made = s.made := by
  unfold refBrokerConsumer
  split <;> exact ⟨rfl, rfl⟩

/-- A worker that is found or hired knows nobody that it did not know. -/
theorem refBrokerConsumer_workers (s : ConsumerWorld) (broker : Int32) (v : ℕ) :
    (s.refBrokerConsumer broker).2.workers v = s.workers v ∨ (s.refBrokerConsumer broker).2.workers v = { broker } := by
  unfold refBrokerConsumer
  split
  · exact .inl rfl
  · by_cases this : v = s.hired
    · subst this
      exact .inr (Function.update_self ..)
    · exact .inl (Function.update_of_ne this ..)

/-- A new child is handed to the worker of its leader, and nothing else changes for the workers. -/
theorem consumePartition_handed (s : ConsumerWorld) (pc : PartitionConsumer) (leader : Int32) : ∃ t : ConsumerWorld,
    s.consumePartition pc leader = t.handTo leader s.made ∧
      (∃ child : Child, t.children = Function.update s.children s.made child ∧ child.closing = false ∧ child.dying = 0 ∧
        child.dispatcher = .waiting ∧ child.trigger = 0) ∧
      t.workers = s.workers ∧ t.hired = s.hired ∧ t.made = s.made + 1 ∧ t.brokerConsumers = s.brokerConsumers :=
  ⟨_, rfl, ⟨_, rfl, rfl, rfl, rfl, rfl⟩, rfl, rfl, rfl, rfl⟩

theorem knows_enqueue (knows : ((s.enqueue w c).workers v).Knows d) : (s.workers v).Knows d ∨ d = c := by
  rw [enqueue] at knows
  by_cases this : v = w
  · subst this
    rw [workers_setWorker_self] at knows
    rcases knows with input | others
    · rcases List.mem_append.mp input with input | same
      · exact .inl (.inl input)
      · exact .inr (List.mem_singleton.mp same)
    · exact .inl (.inr others)
  · rw [workers_setWorker_of_ne s _ this] at knows
    exact .inl knows

theorem knows_handTo {broker : Int32} (knows : ((s.handTo broker c).workers v).Knows d) : (s.workers v).Knows d ∨ d = c := by
  have handed : s.handTo broker c = (s.refBrokerConsumer broker).2.enqueue (s.refBrokerConsumer broker).1 c := rfl
  rw [handed] at knows
  rcases knows_enqueue knows with known | same
  · rcases s.refBrokerConsumer_workers broker v with here | new
    · rw [here] at known
      exact .inl known
    · rw [new] at known
      simp [BrokerConsumer.Knows, BrokerConsumer.batch, BrokerConsumer.running] at known
  · exact .inr same

/-- What a worker knows after a turn of its own. -/
theorem knows_update {x : BrokerConsumer} (keeps : x.Knows c → (s.workers w).Knows c)
    (knows : (Function.update s.workers w x v).Knows c) : ∃ v, (s.workers v).Knows c := by
  by_cases this : v = w
  · subst this
    rw [Function.update_self] at knows
    exact ⟨v, keeps knows⟩
  · rw [Function.update_of_ne this] at knows
    exact ⟨v, knows⟩

theorem Feeds.knows {feeder : Feeder} (feeds : s.Feeds w c feeder) : (s.workers w).Knows c := by
  obtain ⟨running, feeders, at_, member, -⟩ := feeds
  refine .inr (.inr (.inr (.inr ?_)))
  rwa [BrokerConsumer.running_of_consumer at_]

theorem Feeds.unique {feeder other : Feeder} (feeds : s.Feeds w c feeder) (again : s.Feeds w c other) : feeder = other := by
  obtain ⟨running, feeders, at_, -, rfl⟩ := feeds
  obtain ⟨running', feeders', at_', -, rfl⟩ := again
  have same := at_.symm.trans at_'
  injection same with _ same
  rw [same]

theorem knows_endFeeder {feeder : Feeder} (feeds : s.Feeds w d feeder)
    (knows : ((s'.endFeeder w d).workers v).Knows c) (workers : s'.workers = s.workers) : ∃ v, (s.workers v).Knows c := by
  obtain ⟨running, feeders, at_, member, -⟩ := feeds
  simp only [endFeeder, workers, at_, setWorker] at knows
  refine knows_update (BrokerConsumer.knows_of_consumer ?_) knows
  rw [BrokerConsumer.running_of_consumer at_]
  exact Finset.erase_subset _ _

theorem knows_setFeeder {feeder next : Feeder} (feeds : s.Feeds w d feeder)
    (knows : ((s'.setFeeder w d next).workers v).Knows c) (workers : s'.workers = s.workers) :
    ∃ v, (s.workers v).Knows c := by
  obtain ⟨running, feeders, at_, member, -⟩ := feeds
  simp only [setFeeder, workers, at_, setWorker] at knows
  refine knows_update (BrokerConsumer.knows_of_consumer ?_) knows
  rw [BrokerConsumer.running_of_consumer at_]
  exact Finset.Subset.refl _

/-- A child is known only if it was known before, or was handed over. -/
theorem known_of_step (step : Step s event s') (knows : (s'.workers v).Knows c) : (∃ v, (s.workers v).Knows c) ∨
    c = s.made ∨ (s.children c).dispatcher = .dispatching := by
  cases step with
  | consumePartition _ _ =>
    rcases knows_handTo knows with known | same
    · exact .inl ⟨v, known⟩
    · exact .inr (.inl same)
  | asyncClose made => exact .inl ⟨v, knows⟩
  | wakeDying waits trigger dying => exact .inl ⟨v, knows⟩
  | wake waits trigger alive => exact .inl ⟨v, knows⟩
  | backedOff sleeps => exact .inl ⟨v, knows⟩
  | dispatchFailed dispatching fails => exact .inl ⟨v, knows⟩
  | dispatched dispatching finds =>
    rcases knows_handTo knows with known | same
    · exact .inl ⟨v, known⟩
    · exact .inr (.inr (same ▸ dispatching))
  | receive hired waits front =>
    refine .inl (knows_update ?_ knows)
    simp only [BrokerConsumer.Knows, BrokerConsumer.batch, waits, front, List.mem_cons, List.not_mem_nil, or_false, false_or]
    tauto
  | collect hired waits front =>
    refine .inl (knows_update ?_ knows)
    simp only [BrokerConsumer.Knows, BrokerConsumer.batch, waits, front, List.mem_append, List.mem_cons,
      List.not_mem_nil, or_false]
    tauto
  | file hired waits =>
    refine .inl (knows_update ?_ knows)
    simp only [BrokerConsumer.Knows, BrokerConsumer.batch, waits, List.not_mem_nil, false_or]
    tauto
  | update hired at_ =>
    refine .inl (knows_update (fun known => ?_) knows)
    rcases BrokerConsumer.knows_updateSubscriptions known with input | batch | gathered
    · exact .inl input
    · exact .inr (.inl batch)
    · exact BrokerConsumer.knows_of_gathered gathered.1
  | slept hired at_ => exact .inl (knows_update (BrokerConsumer.knows_of_consumer (Finset.empty_subset _)) knows)
  | fetchFailed hired at_ =>
    refine .inl (knows_update (BrokerConsumer.knows_of_consumer ?_) knows)
    simp only [BrokerConsumer.running]
    split_ifs <;> exact Finset.empty_subset _
  | fetched hired at_ parses =>
    refine .inl (knows_update (fun known => ?_) knows)
    rcases known with input | batch | new | subscribed | feeds
    · exact .inl input
    · exact .inr (.inl batch)
    · exact .inr (.inr (.inl new))
    · exact .inr (.inr (.inr (.inl subscribed)))
    · exact .inr (.inr (.inr (.inl (Finset.mem_of_mem_filter c feeds))))
  | feedEnd hired feeds none_ => exact .inl (knows_endFeeder feeds knows rfl)
  | feedAgain hired feeds some_ first => exact .inl (knows_setFeeder feeds knows rfl)
  | feedExpired hired feeds some_ second =>
    rcases knows_enqueue knows with known | rfl
    · exact .inl (knows_endFeeder feeds known rfl)
    · exact .inl ⟨_, feeds.knows⟩
  | feedDied hired feeds some_ dying => exact .inl (knows_endFeeder feeds knows rfl)
  | feedDelivered hired feeds front alive => exact .inl (knows_setFeeder feeds knows rfl)
  | fed hired at_ => exact .inl (knows_update (BrokerConsumer.knows_of_consumer (Finset.empty_subset _)) knows)
  | examineFine hired at_ member fine =>
    exact .inl (knows_update (BrokerConsumer.knows_of_consumer (Finset.empty_subset _)) knows)
  | examineTimedOut hired at_ member timedOut => exact .inl (knows_update BrokerConsumer.knows_unsubscribe knows)
  | examineOutOfRange hired at_ member outOfRange =>
    exact .inl (knows_update (BrokerConsumer.knows_of_consumer (Finset.empty_subset _)) knows)
  | examineSeeking hired at_ member seeks => exact .inl (knows_update BrokerConsumer.knows_unsubscribe knows)
  | examineFailed hired at_ member result_ other => exact .inl (knows_update BrokerConsumer.knows_unsubscribe knows)
  | preferredElsewhere hired at_ asks elsewhere => exact .inl (knows_update BrokerConsumer.knows_unsubscribe knows)
  | preferredHere hired at_ asks stays =>
    exact .inl (knows_update (BrokerConsumer.knows_of_consumer (Finset.empty_subset _)) knows)
  | resetFailed hired at_ resets fails => exact .inl (knows_update BrokerConsumer.knows_unsubscribe knows)
  | resetDone hired at_ resets => exact .inl (knows_update (BrokerConsumer.knows_of_consumer (Finset.empty_subset _)) knows)
  | handled hired at_ => exact .inl (knows_update (BrokerConsumer.knows_of_consumer (Finset.empty_subset _)) knows)
  | abortSlept hired at_ => exact .inl (knows_update (BrokerConsumer.knows_of_consumer (Finset.empty_subset _)) knows)

/-! ## The dispatcher and the close token of a child -/

/-- The dispatcher and the token channel of a child are left alone. -/
structure Untouched (child child' : Child) : Prop where
  closing : child'.closing = child.closing
  dispatcher : child'.dispatcher = child.dispatcher
  dying : child'.dying = child.dying

theorem Untouched.refl (child : Child) : Untouched child child := ⟨rfl, rfl, rfl⟩

theorem Untouched.sendError {child child' : Child} (untouched : Untouched child child') (returnErrors : Bool)
    (err : KError) : Untouched child (child'.sendError returnErrors err) := by
  obtain ⟨closing, dispatcher, dying⟩ := untouched
  unfold Child.sendError
  split <;> exact ⟨closing, dispatcher, dying⟩

theorem Untouched.setTrigger {child child' : Child} (untouched : Untouched child child') :
    Untouched child child'.setTrigger :=
  ⟨untouched.closing, untouched.dispatcher, untouched.dying⟩

theorem untouched_fail (returnErrors : Bool) (err : KError) (child : Child) (n : ℕ) :
    Untouched child ((Child.fail returnErrors err)^[n] child) := by
  induction n with
  | zero => exact .refl child
  | succ n ih =>
    rw [Function.iterate_succ_apply']
    exact (ih.sendError returnErrors err).setTrigger

/-- What a turn makes of a child. -/
inductive Touch (s : ConsumerWorld) (c : ℕ) : Event → Child → Prop
  | untouched {event : Event} {child : Child} (same : Untouched (s.children c) child) : Touch s c event child
  | made {event : Event} {child : Child} (new : c = s.made) (isOpen : child.closing = false) : Touch s c event child
  | closed : Touch s c (.asyncClose c) (s.children c).asyncClose
  | ended {child : Child} (waits : (s.children c).dispatcher = .waiting) (closing : child.closing = (s.children c).closing)
      (done : child.dispatcher = .done) (taken : (s.children c).dying = child.dying + 1) : Touch s c (.wake c) child
  | woken {child : Child} (waits : (s.children c).dispatcher = .waiting) (alive : (s.children c).dying = 0)
      (closing : child.closing = (s.children c).closing) : Touch s c (.wake c) child
  | moved {event : Event} {child : Child}
      (busy : (s.children c).dispatcher = .backoff ∨ (s.children c).dispatcher = .dispatching)
      (closing : child.closing = (s.children c).closing) : Touch s c event child
  | retired {w : ℕ} (gathered : c ∈ (s.workers w).gathered) (dying : 0 < (s.children c).dying) :
    Touch s c (.update w) (s.children c).retire
  | died {w : ℕ} {feeder : Feeder} {child : Child} (feeds : s.Feeds w c feeder) (some_ : feeder.messages ≠ [])
      (closing : child.closing = (s.children c).closing) (dispatcher : child.dispatcher = (s.children c).dispatcher)
      (taken : (s.children c).dying = child.dying + 1) : Touch s c (.feed w c false) child

@[simp] theorem children_setFeeder (s : ConsumerWorld) (w c : ℕ) (feeder : Feeder) :
    (s.setFeeder w c feeder).children = s.children := by
  unfold setFeeder
  split <;> rfl

@[simp] theorem children_endFeeder (s : ConsumerWorld) (w c : ℕ) : (s.endFeeder w c).children = s.children := by
  unfold endFeeder
  split <;> rfl

theorem handTo_children (s : ConsumerWorld) (broker : Int32) (c : ℕ) : (s.handTo broker c).children = s.children :=
  (s.refBrokerConsumer_frame broker).1

/-- A turn at a child. -/
theorem Touch.of_update {child : Child} (children : s'.children = Function.update s.children d child)
    (here : c = d → Touch s c event child) : Touch s c event (s'.children c) := by
  rw [children]
  by_cases this : c = d
  · subst this
    rw [Function.update_self]
    exact here rfl
  · rw [Function.update_of_ne this]
    exact .untouched (.refl _)

/-- A turn that leaves dispatchers and tokens alone. -/
theorem Touch.of_untouched {child : Child} (children : s'.children = Function.update s.children d child)
    (here : Untouched (s.children d) child) : Touch s c event (s'.children c) :=
  .of_update children fun same => .untouched (same ▸ here)

theorem Touch.of_same (children : s'.children = s.children) : Touch s c event (s'.children c) := by
  rw [children]
  exact .untouched (.refl _)

theorem touch_of_step (step : Step s event s') : Touch s c event (s'.children c) := by
  cases step with
  | @consumePartition _ pc _ _ leader _ _ =>
    obtain ⟨t, handed, ⟨child, there, isOpen, -⟩, -⟩ := s.consumePartition_handed pc leader
    rw [handed]
    refine .of_update ((handTo_children ..).trans there) fun same => ?_
    exact .made same isOpen
  | asyncClose _ =>
    refine .of_update rfl ?_
    rintro rfl
    exact .closed
  | wakeDying waits trigger dying =>
    refine .of_update rfl ?_
    rintro rfl
    exact .ended waits rfl rfl (Nat.sub_add_cancel dying).symm
  | wake waiting trigger alive =>
    refine .of_update rfl ?_
    rintro rfl
    exact .woken waiting alive rfl
  | backedOff sleeps =>
    refine .of_update rfl ?_
    rintro rfl
    exact .moved (.inl sleeps) rfl
  | @dispatchFailed d _ err _ pc dispatching _ =>
    have told : Untouched { s.children d with consumer := pc }
        (Child.sendError s.returnErrors err { s.children d with consumer := pc }) := (Untouched.refl _).sendError _ _
    simp only [setDispatcher, trigger, sendError, setConsumer, setChild_setChild, children_setChild_self,
      returnErrors_setChild]
    refine .of_update rfl ?_
    rintro rfl
    exact .moved (.inr dispatching) told.closing
  | dispatched dispatching _ =>
    simp only [setDispatcher, setConsumer, setChild_setChild, children_setChild_self]
    refine .of_update (handTo_children ..) ?_
    rintro rfl
    exact .moved (.inr dispatching) rfl
  | receive hired waits front => exact .of_same rfl
  | collect hired waits front => exact .of_same rfl
  | file hired waits => exact .of_same rfl
  | update hired at_ =>
    change Touch s c _ (if _ then _ else _)
    split_ifs with retires
    · exact .retired retires.1 retires.2
    · exact .untouched (.refl _)
  | slept hired at_ => exact .of_same rfl
  | fetchFailed hired at_ => exact .untouched (untouched_fail ..)
  | fetched hired at_ parses =>
    change Touch s c _ (if _ then _ else _)
    split_ifs
    · exact .untouched ⟨rfl, rfl, rfl⟩
    · exact .untouched (.refl _)
  | feedEnd hired feeds none_ => exact .of_same (children_endFeeder ..)
  | feedAgain hired feeds some_ first => exact .of_same (children_setFeeder ..)
  | feedExpired hired feeds some_ second => exact .of_untouched (children_endFeeder ..) ⟨rfl, rfl, rfl⟩
  | feedDied hired feeds some_ dying =>
    refine .of_update (children_endFeeder ..) ?_
    rintro rfl
    exact .died feeds some_ rfl rfl (Nat.sub_add_cancel dying).symm
  | feedDelivered hired feeds front alive => exact .of_untouched (children_setFeeder ..) ⟨rfl, rfl, rfl⟩
  | fed hired at_ => exact .of_same rfl
  | examineFine hired at_ member fine => exact .of_same rfl
  | examineTimedOut hired at_ member timedOut =>
    simp only [forgetReplica, takeResult, setChild_setChild, children_setChild_self]
    exact .of_untouched rfl ⟨rfl, rfl, rfl⟩
  | examineOutOfRange hired at_ member outOfRange =>
    simp only [forgetReplica, takeResult, setChild_setChild, children_setChild_self]
    exact .of_untouched rfl ⟨rfl, rfl, rfl⟩
  | examineSeeking hired at_ member seeks =>
    simp only [trigger, forgetReplica, takeResult, setChild_setChild, children_setChild_self]
    exact .of_untouched rfl (Untouched.setTrigger ⟨rfl, rfl, rfl⟩)
  | examineFailed hired at_ member result_ other =>
    simp only [trigger, sendError, forgetReplica, takeResult, setChild_setChild, children_setChild_self]
    refine .of_untouched rfl (Untouched.setTrigger ?_)
    apply Untouched.sendError
    exact ⟨rfl, rfl, rfl⟩
  | preferredElsewhere hired at_ asks elsewhere =>
    simp only [trigger, setConsumer, setChild_setChild, children_setChild_self]
    exact .of_untouched rfl (Untouched.setTrigger ⟨rfl, rfl, rfl⟩)
  | preferredHere hired at_ asks stays => exact .of_untouched rfl ⟨rfl, rfl, rfl⟩
  | resetFailed hired at_ resets fails =>
    simp only [trigger, sendError, setConsumer, setChild_setChild, children_setChild_self]
    refine .of_untouched rfl (Untouched.setTrigger ?_)
    apply Untouched.sendError
    exact ⟨rfl, rfl, rfl⟩
  | resetDone hired at_ resets =>
    simp only [trigger, setConsumer, setChild_setChild, children_setChild_self]
    exact .of_untouched rfl (Untouched.setTrigger ⟨rfl, rfl, rfl⟩)
  | handled hired at_ => exact .of_same rfl
  | abortSlept hired at_ => exact .of_same rfl

/-! ## The children that were made -/

theorem made_setFeeder (s : ConsumerWorld) (w c : ℕ) (feeder : Feeder) : (s.setFeeder w c feeder).made = s.made := by
  unfold setFeeder
  split <;> rfl

theorem made_endFeeder (s : ConsumerWorld) (w c : ℕ) : (s.endFeeder w c).made = s.made := by
  unfold endFeeder
  split <;> rfl

theorem made_handTo (s : ConsumerWorld) (broker : Int32) (c : ℕ) : (s.handTo broker c).made = s.made :=
  (s.refBrokerConsumer_frame broker).2

theorem made_of_step (step : Step s event s') : s.made ≤ s'.made := by
  cases step with
  | @consumePartition _ pc _ _ leader _ _ =>
    obtain ⟨t, handed, -, -, -, made, -⟩ := s.consumePartition_handed pc leader
    rw [handed, made_handTo, made]
    exact Nat.le_succ _
  | dispatched dispatching finds =>
    rw [made_handTo]
    exact Nat.le_refl _
  | feedEnd hired feeds none_ => exact (made_endFeeder ..).ge
  | feedAgain hired feeds some_ first => exact (made_setFeeder ..).ge
  | feedExpired hired feeds some_ second =>
    change s.made ≤ (endFeeder _ _ _).made
    rw [made_endFeeder]
    exact Nat.le_refl _
  | feedDied hired feeds some_ dying =>
    rw [made_endFeeder]
    exact Nat.le_refl _
  | feedDelivered hired feeds front alive =>
    rw [made_setFeeder]
    exact Nat.le_refl _
  | _ => exact Nat.le_refl _

/-! ## Subscriptions -/

theorem subscribed_enqueue (subscribed : c ∈ ((s.enqueue v d).workers w).subscriptions) :
    c ∈ (s.workers w).subscriptions := by
  rw [enqueue] at subscribed
  by_cases this : w = v
  · subst this
    rwa [workers_setWorker_self] at subscribed
  · rwa [workers_setWorker_of_ne s _ this] at subscribed

theorem subscribed_handTo {broker : Int32} (subscribed : c ∈ ((s.handTo broker d).workers w).subscriptions) :
    c ∈ (s.workers w).subscriptions := by
  have handed : s.handTo broker d = (s.refBrokerConsumer broker).2.enqueue (s.refBrokerConsumer broker).1 d := rfl
  rw [handed] at subscribed
  have before := subscribed_enqueue subscribed
  rcases s.refBrokerConsumer_workers broker w with here | new
  · rwa [here] at before
  · rw [new] at before
    exact absurd before (Finset.notMem_empty c)

theorem subscribed_update {x : BrokerConsumer} (subscribed : c ∈ (Function.update s.workers v x w).subscriptions)
    (keeps : x.subscriptions ⊆ (s.workers v).subscriptions) : c ∈ (s.workers w).subscriptions := by
  by_cases this : w = v
  · subst this
    rw [Function.update_self] at subscribed
    exact keeps subscribed
  · rwa [Function.update_of_ne this] at subscribed

@[simp] theorem subscriptions_setFeeder (s : ConsumerWorld) (v c w : ℕ) (feeder : Feeder) :
    ((s.setFeeder v c feeder).workers w).subscriptions = (s.workers w).subscriptions := by
  unfold setFeeder
  split
  · by_cases this : w = v
    · subst this
      rw [workers_setWorker_self]
    · rw [workers_setWorker_of_ne s _ this]
  · rfl

@[simp] theorem subscriptions_endFeeder (s : ConsumerWorld) (v c w : ℕ) :
    ((s.endFeeder v c).workers w).subscriptions = (s.workers w).subscriptions := by
  unfold endFeeder
  split
  · by_cases this : w = v
    · subst this
      rw [workers_setWorker_self]
    · rw [workers_setWorker_of_ne s _ this]
  · rfl

/-- Only an update subscribes. -/
theorem subscribed_of_step (step : Step s event s') (subscribed : c ∈ (s'.workers w).subscriptions) :
    c ∈ (s.workers w).subscriptions ∨ event = .update w := by
  cases step with
  | @consumePartition _ pc _ _ leader _ _ =>
    obtain ⟨t, handed, -, workers, -⟩ := s.consumePartition_handed pc leader
    rw [handed] at subscribed
    have before := subscribed_handTo subscribed
    rw [workers] at before
    exact .inl before
  | asyncClose _ => exact .inl subscribed
  | wakeDying _ _ _ => exact .inl subscribed
  | wake _ _ _ => exact .inl subscribed
  | backedOff _ => exact .inl subscribed
  | dispatchFailed _ _ => exact .inl subscribed
  | dispatched _ _ =>
    have before := subscribed_handTo subscribed
    exact .inl before
  | @update v _ _ =>
    by_cases this : w = v
    · exact .inr (congrArg _ this.symm)
    · refine .inl ?_
      rwa [workers_setBoth_of_ne s _ this] at subscribed
  | feedEnd _ _ _ =>
    rw [subscriptions_endFeeder] at subscribed
    exact .inl subscribed
  | feedAgain _ _ _ _ =>
    rw [subscriptions_setFeeder] at subscribed
    exact .inl subscribed
  | feedExpired _ _ _ _ =>
    have before := subscribed_enqueue subscribed
    rw [subscriptions_endFeeder] at before
    exact .inl before
  | feedDied _ _ _ _ =>
    rw [subscriptions_endFeeder] at subscribed
    exact .inl subscribed
  | feedDelivered _ _ _ _ =>
    rw [subscriptions_setFeeder] at subscribed
    exact .inl subscribed
  | receive _ _ _ => exact .inl (subscribed_update subscribed (Finset.Subset.refl _))
  | collect _ _ _ => exact .inl (subscribed_update subscribed (Finset.Subset.refl _))
  | file _ _ => exact .inl (subscribed_update subscribed (Finset.Subset.refl _))
  | slept _ _ => exact .inl (subscribed_update subscribed (Finset.Subset.refl _))
  | fetchFailed _ _ => exact .inl (subscribed_update subscribed (Finset.Subset.refl _))
  | fetched _ _ _ => exact .inl (subscribed_update subscribed (Finset.Subset.refl _))
  | fed _ _ => exact .inl (subscribed_update subscribed (Finset.Subset.refl _))
  | examineFine _ _ _ _ => exact .inl (subscribed_update subscribed (Finset.Subset.refl _))
  | examineTimedOut _ _ _ _ => exact .inl (subscribed_update subscribed (Finset.erase_subset _ _))
  | examineOutOfRange _ _ _ _ => exact .inl (subscribed_update subscribed (Finset.Subset.refl _))
  | examineSeeking _ _ _ _ => exact .inl (subscribed_update subscribed (Finset.erase_subset _ _))
  | examineFailed _ _ _ _ _ => exact .inl (subscribed_update subscribed (Finset.erase_subset _ _))
  | preferredElsewhere _ _ _ _ => exact .inl (subscribed_update subscribed (Finset.erase_subset _ _))
  | preferredHere _ _ _ _ => exact .inl (subscribed_update subscribed (Finset.Subset.refl _))
  | resetFailed _ _ _ _ => exact .inl (subscribed_update subscribed (Finset.erase_subset _ _))
  | resetDone _ _ _ => exact .inl (subscribed_update subscribed (Finset.Subset.refl _))
  | handled _ _ => exact .inl (subscribed_update subscribed (Finset.Subset.refl _))
  | abortSlept _ _ => exact .inl (subscribed_update subscribed (Finset.Subset.refl _))

end ConsumerWorld

end Coev.Kafka
