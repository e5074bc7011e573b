import Coev.Proofs.Kafka.Consumer
import Coev.ToMathlib.Transition

/-! # Every child has one place

A child that is not closed waits for one worker, or is subscribed at one, or waits to be dispatched again. Five turns of
the code break this: a batch that is filed over one that was not taken yet, an abort while children wait for the worker,
a reset of the offset that triggers the child and keeps it, a feeder that gives up and hands the child back while it is
subscribed, and a timeout code of the broker, which drops the child.
-/

namespace Coev.Kafka

open Transition

/-! ## Places -/

/-- The child waits for its dispatcher, which is at work or has been triggered. -/
def Child.awaiting (child : Child) : ℕ :=
  match child.dispatcher with
  | .waiting => child.trigger
  | .backoff | .dispatching => child.trigger + 1
  | .done => 0

namespace BrokerConsumer

/-- `SubscriptionConsumer` still serves its subscriptions. -/
def Serving (worker : BrokerConsumer) : Prop :=
  match worker.consumer with
  | .aborting | .returned => False
  | _ => True

instance (worker : BrokerConsumer) : Decidable worker.Serving := by
  unfold Serving
  split <;> infer_instance

/-- How often a child waits to be subscribed. -/
def queued (worker : BrokerConsumer) (c : ℕ) : ℕ :=
  worker.input.count c + worker.batch.count c + worker.newSubscriptions.count c

def subscribed (worker : BrokerConsumer) (c : ℕ) : ℕ := if c ∈ worker.subscriptions then 1 else 0

/-- The places of a child at a worker; one that has given up holds nobody. -/
def held (worker : BrokerConsumer) (c : ℕ) : ℕ := if worker.Serving then worker.queued c + worker.subscribed c else 0

/-- `HandleResponses` goes through the subscriptions. -/
def Handles (worker : BrokerConsumer) : Prop :=
  match worker.consumer with
  | .handling todo => todo ⊆ worker.subscriptions
  | .preferring c todo | .resetting c todo => c ∈ worker.subscriptions ∧ todo ⊆ worker.subscriptions.erase c
  | _ => True

variable {worker x : BrokerConsumer} {c : ℕ}

private theorem held_of_serving (serving : worker.Serving) : worker.held c = worker.queued c + worker.subscribed c :=
  if_pos serving

private theorem held_congr (serving : x.Serving ↔ worker.Serving) (queued : x.queued c = worker.queued c)
    (subscriptions : x.subscriptions = worker.subscriptions) : x.held c = worker.held c := by
  simp only [held, subscribed, serving, queued, subscriptions]

end BrokerConsumer

namespace ConsumerWorld

variable {s s' : ConsumerWorld} {w c : ℕ}

/-- How often a child is queued for a worker or subscribed at one. -/
def held (s : ConsumerWorld) (c : ℕ) : ℕ := ∑ w ∈ Finset.range s.hired, (s.workers w).held c

/-- The child is queued for one worker, or subscribed at one, or awaits its dispatcher, and only one of these. -/
def Placed (s : ConsumerWorld) (c : ℕ) : Prop := s.held c + (s.children c).awaiting = 1
deriving Decidable

/-- The turns that keep every child in its place. -/
def Orderly (s : ConsumerWorld) : Event → Prop
  -- the batch before was taken
  | .file w => (s.workers w).newSubscriptions = []
  -- nobody waits for a worker that gives up
  | .fetch w (.error _) => (s.workers w).input = [] ∧ (s.workers w).manager = .receiving
  -- the interceptors of the second attempt are in time
  | .feed w c true => ∀ feeder, s.Feeds w c feeder → feeder.messages = [] ∨ feeder.firstAttempt = true
  -- no broker answers with the code of an expired feeder
  | .examine _ c => (s.children c).responseResult ≠ ErrTimedOut
  -- the offset of a child that is out of range is not found
  | .reset w answers => ∀ c todo, (s.workers w).consumer = .resetting c todo →
    ((s.children c).consumer.chooseStartingOffset s.initialOffset answers).1 ≠ 0
  | _ => True

/-- The workers that are found serve, and handle only their own children. -/
structure Staffed (s : ConsumerWorld) : Prop where
  serving : ∀ (broker : Int32) (w : ℕ), s.brokerConsumers[broker]? = some w →
    w < s.hired ∧ (s.workers w).Serving ∧ (s.workers w).broker = broker
  handles : ∀ w, (s.workers w).Handles

/-- Every open child has its place, is awake and has a dispatcher. -/
structure Kept (s : ConsumerWorld) : Prop where
  placed : ∀ c, (s.children c).closing = false → s.held c + (s.children c).awaiting = if c < s.made then 1 else 0
  alive : ∀ c, (s.children c).closing = false → (s.children c).dying = 0 ∧ (s.children c).dispatcher ≠ .done
  unmade : ∀ c, s.made ≤ c → (s.children c).closing = false
  staffed : s.Staffed

/-! ## Accounting -/

private theorem sum_update {α β : Type*} [DecidableEq α] {places : Finset α} {i : α} (member : i ∈ places) (f : β → ℕ)
    (g : α → β) (x : β) : ∑ j ∈ places, f (Function.update g i x j) + f (g i) = ∑ j ∈ places, f (g j) + f x := by
  have others : ∑ j ∈ places.erase i, f (Function.update g i x j) = ∑ j ∈ places.erase i, f (g j) := by
    apply Finset.sum_congr rfl
    intro j other
    rw [Function.update_of_ne (Finset.ne_of_mem_erase other)]
  rw [← Finset.add_sum_erase _ _ member, ← Finset.add_sum_erase _ (fun j => f (g j)) member, Function.update_self, others]
  omega

private theorem held_update {x : BrokerConsumer} (hired : w < s.hired) (workers : s'.workers = Function.update s.workers w x)
    (same : s'.hired = s.hired) (c : ℕ) : s'.held c + (s.workers w).held c = s.held c + x.held c := by
  rw [held, held, workers, same]
  exact sum_update (Finset.mem_range.mpr hired) (fun worker => worker.held c) s.workers x

private theorem held_le (hired : w < s.hired) (c : ℕ) : (s.workers w).held c ≤ s.held c :=
  Finset.single_le_sum (f := fun w => (s.workers w).held c) (fun _ _ => Nat.zero_le _) (Finset.mem_range.mpr hired)

theorem Staffed.update (staffed : s.Staffed) {x : BrokerConsumer} (workers : s'.workers = Function.update s.workers w x)
    (hired : s'.hired = s.hired) (broker : x.broker = (s.workers w).broker)
    (known : ∀ (broker : Int32) (v : ℕ), s'.brokerConsumers[broker]? = some v →
      s.brokerConsumers[broker]? = some v ∧ (v = w → (s.workers w).Serving → x.Serving))
    (handles : (s.workers w).Handles → x.Handles) : s'.Staffed := by
  constructor
  · intro id v found
    obtain ⟨before, serves⟩ := known id v found
    obtain ⟨within, serving, same⟩ := staffed.serving id v before
    rw [hired, workers]
    refine ⟨within, ?_⟩
    by_cases this : v = w
    · subst this
      rw [Function.update_self, broker]
      exact ⟨serves rfl serving, same⟩
    · rw [Function.update_of_ne this]
      exact ⟨serving, same⟩
  · intro v
    rw [workers]
    by_cases this : v = w
    · subst this
      rw [Function.update_self]
      exact handles (staffed.handles v)
    · rw [Function.update_of_ne this]
      exact staffed.handles v

/-- The child is as open and as alive as before. -/
def Lasts (child child' : Child) : Prop :=
  child'.closing = child.closing ∧ (child.dying = 0 → child'.dying = 0) ∧
    (child'.dispatcher = .done → child.dispatcher = .done)

theorem Lasts.refl (child : Child) : Lasts child child := ⟨rfl, id, id⟩

/-- One worker and the children change, and every open child has as many places afterwards as before. -/
theorem Kept.turn (kept : s.Kept) {x : BrokerConsumer} (hired : w < s.hired)
    (workers : s'.workers = Function.update s.workers w x) (frame : s'.hired = s.hired ∧ s'.made = s.made)
    (staffed : s'.Staffed) (children : ∀ c, Lasts (s.children c) (s'.children c))
    (balance : ∀ c, (s.children c).dying = 0 → (s.children c).dispatcher ≠ .done →
      (s.workers w).held c + (s.children c).awaiting ≤ 1 →
      x.held c + (s'.children c).awaiting = (s.workers w).held c + (s.children c).awaiting) : s'.Kept := by
  constructor
  · intro c isOpen
    rw [(children c).1] at isOpen
    have placed := kept.placed c isOpen
    have sum := held_update hired workers frame.1 c
    have part := held_le hired c
    have one : (s.workers w).held c + (s.children c).awaiting ≤ 1 := by
      split at placed <;> omega
    have same := balance c (kept.alive c isOpen).1 (kept.alive c isOpen).2 one
    rw [frame.2]
    omega
  · intro c isOpen
    obtain ⟨closing, dying, dispatcher⟩ := children c
    rw [closing] at isOpen
    obtain ⟨none_, runs⟩ := kept.alive c isOpen
    exact ⟨dying none_, fun done => runs (dispatcher done)⟩
  · intro c unmade
    rw [frame.2] at unmade
    exact (children c).1.trans (kept.unmade c unmade)
  · exact staffed

/-- The child is as before for its dispatcher. -/
structure Rests (child child' : Child) : Prop where
  closing : child'.closing = child.closing
  dying : child.dying = 0 → child'.dying = 0
  trigger : child'.trigger = child.trigger
  dispatcher : child'.dispatcher = child.dispatcher

theorem Rests.refl (child : Child) : Rests child child := ⟨rfl, id, rfl, rfl⟩

theorem Rests.lasts {child child' : Child} (rests : Rests child child') : Lasts child child' :=
  ⟨rests.closing, rests.dying, fun done => rests.dispatcher.symm.trans done⟩

theorem Rests.awaiting {child child' : Child} (rests : Rests child child') : child'.awaiting = child.awaiting := by
  rw [Child.awaiting, Child.awaiting, rests.dispatcher, rests.trigger]

theorem Rests.sendError {child child' : Child} (rests : Rests child child') (returnErrors : Bool) (err : KError) :
    Rests child (child'.sendError returnErrors err) := by
  obtain ⟨closing, dying, trigger, dispatcher⟩ := rests
  unfold Child.sendError
  split <;> exact ⟨closing, dying, trigger, dispatcher⟩

/-- A child that is triggered waits once more. -/
theorem Rests.setTrigger {child child' : Child} (rests : Rests child child') : Lasts child child'.setTrigger ∧
    (child.dispatcher ≠ .done → child'.setTrigger.awaiting = child.awaiting + 1) := by
  refine ⟨⟨rests.closing, rests.dying, fun done => rests.dispatcher.symm.trans done⟩, ?_⟩
  intro runs
  have trigger : child'.setTrigger.trigger = child.trigger + 1 := congrArg (· + 1) rests.trigger
  have dispatcher : child'.setTrigger.dispatcher = child.dispatcher := rests.dispatcher
  rw [Child.awaiting, Child.awaiting, trigger, dispatcher]
  cases at_ : child.dispatcher with
  | done => exact absurd at_ runs
  | waiting => rfl
  | backoff => rfl
  | dispatching => rfl

private theorem rests_update {children : ℕ → Child} {child : Child} (here : Rests (children c) child) (d : ℕ) :
    Rests (children d) (Function.update children c child d) := by
  by_cases this : d = c
  · subst this
    rwa [Function.update_self]
  · rw [Function.update_of_ne this]
    exact .refl _

/-- A turn of a worker that moves no child. -/
theorem Kept.quiet (kept : s.Kept) {x : BrokerConsumer} (hired : w < s.hired)
    (workers : s'.workers = Function.update s.workers w x)
    (frame : s'.hired = s.hired ∧ s'.made = s.made ∧ s'.brokerConsumers = s.brokerConsumers)
    (broker : x.broker = (s.workers w).broker) (serving : x.Serving ↔ (s.workers w).Serving)
    (queued : ∀ c, x.queued c = (s.workers w).queued c) (subscriptions : x.subscriptions = (s.workers w).subscriptions)
    (handles : (s.workers w).Handles → x.Handles) (children : ∀ c, Rests (s.children c) (s'.children c)) : s'.Kept := by
  have staffed : s'.Staffed := by
    apply kept.staffed.update workers frame.1 broker _ handles
    intro id v found
    rw [frame.2.2] at found
    exact ⟨found, fun _ => serving.mpr⟩
  apply kept.turn hired workers ⟨frame.1, frame.2.1⟩ staffed fun c => (children c).lasts
  intro c _ _ _
  rw [(children c).awaiting, BrokerConsumer.held_congr serving (queued c) subscriptions]

/-- A child leaves the subscriptions of a worker and its dispatcher is triggered. -/
theorem Kept.leave (kept : s.Kept) {todo : Finset ℕ} (hired : w < s.hired)
    (workers : s'.workers = Function.update s.workers w ((s.workers w).unsubscribe c todo))
    (frame : s'.hired = s.hired ∧ s'.made = s.made ∧ s'.brokerConsumers = s.brokerConsumers)
    (serving : (s.workers w).Serving) (subscribed : c ∈ (s.workers w).subscriptions)
    (handles : todo ⊆ (s.workers w).subscriptions.erase c) {child : Child}
    (children : s'.children = Function.update s.children c child) (triggered : Lasts (s.children c) child ∧
      ((s.children c).dispatcher ≠ .done → child.awaiting = (s.children c).awaiting + 1)) : s'.Kept := by
  have serves : ((s.workers w).unsubscribe c todo).Serving := trivial
  have staffed : s'.Staffed := by
    apply kept.staffed.update workers frame.1 rfl _ fun _ => handles
    intro id v found
    rw [frame.2.2] at found
    exact ⟨found, fun _ _ => serves⟩
  apply kept.turn hired workers ⟨frame.1, frame.2.1⟩ staffed
  · intro d
    rw [children]
    by_cases this : d = c
    · subst this
      rw [Function.update_self]
      exact triggered.1
    · rw [Function.update_of_ne this]
      exact .refl _
  · intro d _ runs _
    rw [BrokerConsumer.held_of_serving serves, BrokerConsumer.held_of_serving serving, children]
    have queued : ((s.workers w).unsubscribe c todo).queued d = (s.workers w).queued d := rfl
    have subscriptions : ((s.workers w).unsubscribe c todo).subscriptions = (s.workers w).subscriptions.erase c := rfl
    rw [queued, BrokerConsumer.subscribed, BrokerConsumer.subscribed, subscriptions]
    by_cases this : d = c
    · subst this
      rw [Function.update_self, if_neg (Finset.notMem_erase d _), if_pos subscribed, triggered.2 runs]
      omega
    · rw [Function.update_of_ne this]
      simp only [Finset.mem_erase, this, ne_eq, not_false_iff, true_and]

/-! ## Turns of a worker -/

private theorem handles_iff {worker : BrokerConsumer} {control : SubscriptionConsumer} (at_ : worker.consumer = control) :
    worker.Handles ↔ ({ worker with consumer := control } : BrokerConsumer).Handles := by
  subst at_
  exact Iff.rfl

private theorem serving_of {worker : BrokerConsumer} {control : SubscriptionConsumer} (at_ : worker.consumer = control)
    (serves : ({ worker with consumer := control } : BrokerConsumer).Serving) : worker.Serving := by
  subst at_
  exact serves

theorem Kept.receive {rest : List ℕ} (kept : s.Kept) (hired : w < s.hired) (waits : (s.workers w).manager = .receiving)
    (front : (s.workers w).input = c :: rest) :
    (s.setWorker w { s.workers w with input := rest, manager := .batching [c] }).Kept := by
  refine kept.quiet hired rfl ⟨rfl, rfl, rfl⟩ rfl Iff.rfl ?_ rfl id fun _ => .refl _
  intro d
  simp only [BrokerConsumer.queued, BrokerConsumer.batch, waits, front, List.count_cons, List.count_nil]
  omega

theorem Kept.collect {rest batch : List ℕ} (kept : s.Kept) (hired : w < s.hired)
    (waits : (s.workers w).manager = .batching batch) (front : (s.workers w).input = c :: rest) :
    (s.setWorker w { s.workers w with input := rest, manager := .batching (batch ++ [c]) }).Kept := by
  refine kept.quiet hired rfl ⟨rfl, rfl, rfl⟩ rfl Iff.rfl ?_ rfl id fun _ => .refl _
  intro d
  simp only [BrokerConsumer.queued, BrokerConsumer.batch, waits, front, List.count_append, List.count_cons, List.count_nil]
  omega

/-- A batch takes the place of one that was taken. -/
theorem Kept.file {batch : List ℕ} (kept : s.Kept) (hired : w < s.hired) (waits : (s.workers w).manager = .batching batch)
    (taken : (s.workers w).newSubscriptions = []) :
    (s.setWorker w { s.workers w with newSubscriptions := batch, manager := .receiving }).Kept := by
  refine kept.quiet hired rfl ⟨rfl, rfl, rfl⟩ rfl Iff.rfl ?_ rfl id fun _ => .refl _
  intro d
  simp only [BrokerConsumer.queued, BrokerConsumer.batch, waits, taken, List.count_nil]
  omega

/-- `SubscriptionConsumer` moves on, and nobody's dispatcher notices. -/
theorem Kept.moveOn {control next : SubscriptionConsumer} (kept : s.Kept) (hired : w < s.hired)
    (at_ : (s.workers w).consumer = control)
    (workers : s'.workers = Function.update s.workers w { s.workers w with consumer := next })
    (frame : s'.hired = s.hired ∧ s'.made = s.made ∧ s'.brokerConsumers = s.brokerConsumers)
    (serving : ({ s.workers w with consumer := next } : BrokerConsumer).Serving ↔
      ({ s.workers w with consumer := control } : BrokerConsumer).Serving)
    (handles : ({ s.workers w with consumer := control } : BrokerConsumer).Handles →
      ({ s.workers w with consumer := next } : BrokerConsumer).Handles)
    (children : ∀ c, Rests (s.children c) (s'.children c)) : s'.Kept := by
  subst at_
  exact kept.quiet hired workers frame rfl serving (fun _ => rfl) rfl handles children

theorem Kept.update (kept : s.Kept) (hired : w < s.hired) (at_ : (s.workers w).consumer = .updating) :
    (s.setBoth w ((s.workers w).updateSubscriptions s.children)).Kept := by
  have serves : ((s.workers w).updateSubscriptions s.children).2.Serving := by
    simp only [BrokerConsumer.updateSubscriptions, BrokerConsumer.Serving]
    split_ifs <;> trivial
  have handles : ((s.workers w).updateSubscriptions s.children).2.Handles := by
    simp only [BrokerConsumer.updateSubscriptions, BrokerConsumer.Handles]
    split_ifs <;> trivial
  have serving : (s.workers w).Serving := serving_of at_ trivial
  have staffed : (s.setBoth w ((s.workers w).updateSubscriptions s.children)).Staffed :=
    kept.staffed.update rfl rfl rfl (fun _ _ found => ⟨found, fun _ _ => serves⟩) fun _ => handles
  have children (c : ℕ) : Lasts (s.children c) (((s.workers w).updateSubscriptions s.children).1 c) := by
    change Lasts (s.children c) (if _ then _ else _)
    split_ifs with retires
    · exact ⟨rfl, fun none_ => absurd retires.2 (by omega), id⟩
    · exact .refl _
  refine kept.turn hired rfl ⟨rfl, rfl⟩ staffed children ?_
  intro c none_ _ one
  have stays : ((s.workers w).updateSubscriptions s.children).1 c = s.children c := if_neg (by omega)
  have member : c ∈ ((s.workers w).updateSubscriptions s.children).2.subscriptions ↔
      c ∈ (s.workers w).subscriptions ∨ 0 < (s.workers w).newSubscriptions.count c := by
    simp [BrokerConsumer.updateSubscriptions, BrokerConsumer.gathered, none_]
  have queued : ((s.workers w).updateSubscriptions s.children).2.queued c =
      (s.workers w).input.count c + (s.workers w).batch.count c := rfl
  rw [BrokerConsumer.held_of_serving serving, BrokerConsumer.queued, BrokerConsumer.subscribed] at one
  rw [BrokerConsumer.held_of_serving serves, BrokerConsumer.held_of_serving serving, queued]
  change _ + (((s.workers w).updateSubscriptions s.children).1 c).awaiting = _
  rw [stays]
  simp only [BrokerConsumer.queued, BrokerConsumer.subscribed, member]
  by_cases mine : c ∈ (s.workers w).subscriptions
  · simp only [mine, true_or, if_true] at one ⊢
    omega
  · simp only [mine, false_or, if_false] at one ⊢
    split_ifs <;> omega

/-! ## Giving up -/

private theorem fail_iterate (returnErrors : Bool) (err : KError) (child : Child) (n : ℕ) :
    Lasts child ((Child.fail returnErrors err)^[n] child) ∧
      (child.dispatcher ≠ .done → ((Child.fail returnErrors err)^[n] child).awaiting = child.awaiting + n) := by
  induction n with
  | zero => exact ⟨.refl _, fun _ => rfl⟩
  | succ n ih =>
    rw [Function.iterate_succ_apply']
    obtain ⟨⟨wasClosing, wasDying, wasDone⟩, before⟩ := ih
    have told := (Rests.refl ((Child.fail returnErrors err)^[n] child)).sendError returnErrors err
    obtain ⟨⟨closing, dying, done_⟩, once⟩ := told.setTrigger
    refine ⟨⟨closing.trans wasClosing, fun none_ => dying (wasDying none_), fun done => wasDone (done_ done)⟩,
      fun runs => ?_⟩
    have more := once fun done => runs (wasDone done)
    rw [before runs] at more
    exact more

theorem Kept.abort {err : KError} (kept : s.Kept) (hired : w < s.hired) (at_ : (s.workers w).consumer = .fetching)
    (noInput : (s.workers w).input = []) (noBatch : (s.workers w).manager = .receiving) :
    ((s.abandonBrokerConsumer w).setBoth w ((s.workers w).abort s.returnErrors err s.children)).Kept := by
  have gone : ¬ ((s.workers w).abort s.returnErrors err s.children).2.Serving := by
    simp only [BrokerConsumer.abort, BrokerConsumer.Serving]
    split_ifs <;> exact not_false
  have handles : ((s.workers w).abort s.returnErrors err s.children).2.Handles := by
    simp only [BrokerConsumer.abort, BrokerConsumer.Handles]
    split_ifs <;> trivial
  have serving : (s.workers w).Serving := serving_of at_ trivial
  have staffed : ((s.abandonBrokerConsumer w).setBoth w ((s.workers w).abort s.returnErrors err s.children)).Staffed := by
    refine kept.staffed.update rfl rfl rfl ?_ fun _ => handles
    intro id v found
    change (s.brokerConsumers.erase (s.workers w).broker)[id]? = some v at found
    rw [Std.ExtTreeMap.getElem?_erase] at found
    split_ifs at found with other
    refine ⟨found, ?_⟩
    rintro rfl
    have same := (kept.staffed.serving id v found).2.2
    rw [same] at other
    exact absurd Std.ReflCmp.compare_self other
  have children (c : ℕ) : Lasts (s.children c) (((s.workers w).abort s.returnErrors err s.children).1 c) :=
    (fail_iterate s.returnErrors err (s.children c) ((s.workers w).notices c)).1
  refine kept.turn hired rfl ⟨rfl, rfl⟩ staffed children ?_
  intro c _ runs _
  have told : (((s.workers w).abort s.returnErrors err s.children).1 c).awaiting =
      (s.children c).awaiting + (s.workers w).notices c :=
    (fail_iterate s.returnErrors err (s.children c) ((s.workers w).notices c)).2 runs
  have nobody : ((s.workers w).abort s.returnErrors err s.children).2.held c = 0 := if_neg gone
  change _ + (((s.workers w).abort s.returnErrors err s.children).1 c).awaiting = _
  rw [nobody, told, BrokerConsumer.held_of_serving serving]
  simp only [BrokerConsumer.notices, BrokerConsumer.queued, BrokerConsumer.subscribed, BrokerConsumer.batch, noInput,
    noBatch,
    List.count_nil]
  omega

/-! ## Turns of a dispatcher -/

private theorem held_of_workers (workers : s'.workers = s.workers) (hired : s'.hired = s.hired) (c : ℕ) :
    s'.held c = s.held c := by
  rw [held, held, workers, hired]

theorem Staffed.of_workers (staffed : s.Staffed) (workers : s'.workers = s.workers) (hired : s'.hired = s.hired)
    (known : s'.brokerConsumers = s.brokerConsumers) : s'.Staffed := by
  constructor
  · rw [known, workers, hired]
    exact staffed.serving
  · rw [workers]
    exact staffed.handles

/-- A child changes, and if it is open its dispatcher is as before. -/
theorem Kept.child (kept : s.Kept) (workers : s'.workers = s.workers)
    (frame : s'.hired = s.hired ∧ s'.made = s.made ∧ s'.brokerConsumers = s.brokerConsumers) {child : Child}
    (children : s'.children = Function.update s.children c child)
    (rests : child.closing = false → (s.children c).closing = false ∧
      ((s.children c).dying = 0 → Lasts (s.children c) child ∧ child.awaiting = (s.children c).awaiting))
    (made : s.made ≤ c → child.closing = false) : s'.Kept := by
  have other {d : ℕ} (isOpen : (s'.children d).closing = false) : (s.children d).closing = false ∧
      ((s.children d).dying = 0 → Lasts (s.children d) (s'.children d) ∧
        (s'.children d).awaiting = (s.children d).awaiting) := by
    rw [children] at isOpen ⊢
    by_cases this : d = c
    · subst this
      rw [Function.update_self] at isOpen ⊢
      exact rests isOpen
    · rw [Function.update_of_ne this] at isOpen ⊢
      exact ⟨isOpen, fun _ => ⟨.refl _, rfl⟩⟩
  constructor
  · intro d isOpen
    obtain ⟨was, rests⟩ := other isOpen
    rw [held_of_workers workers frame.1, frame.2.1, (rests (kept.alive d was).1).2]
    exact kept.placed d was
  · intro d isOpen
    obtain ⟨was, rests⟩ := other isOpen
    obtain ⟨none_, runs⟩ := kept.alive d was
    obtain ⟨-, dying, dispatcher⟩ := (rests none_).1
    exact ⟨dying none_, fun done => runs (dispatcher done)⟩
  · intro d unmade
    rw [frame.2.1] at unmade
    rw [children]
    by_cases this : d = c
    · subst this
      rw [Function.update_self]
      exact made unmade
    · rw [Function.update_of_ne this]
      exact kept.unmade d unmade
  · exact kept.staffed.of_workers workers frame.1 frame.2.2

/-! ## Handing a child over -/

private theorem refBrokerConsumer_spec (staffed : s.Staffed) (broker : Int32) :
    (s.refBrokerConsumer broker).2.Staffed ∧ (s.refBrokerConsumer broker).1 < (s.refBrokerConsumer broker).2.hired ∧
      ((s.refBrokerConsumer broker).2.workers (s.refBrokerConsumer broker).1).Serving ∧
      ∀ c, (s.refBrokerConsumer broker).2.held c = s.held c := by
  unfold refBrokerConsumer
  split
  · next w found =>
    obtain ⟨hired, serving, -⟩ := staffed.serving broker w found
    exact ⟨staffed, hired, serving, fun _ => rfl⟩
  · next none_ =>
    refine ⟨⟨?_, ?_⟩, Nat.lt_succ_self _, ?_, ?_⟩
    · intro id w found
      change (s.brokerConsumers.insert broker s.hired)[id]? = some w at found
      rw [Std.ExtTreeMap.getElem?_insert] at found
      change w < s.hired + 1 ∧ (Function.update s.workers s.hired { broker } w).Serving ∧
        (Function.update s.workers s.hired { broker } w).broker = id
      split_ifs at found with same
      · obtain rfl := Option.some.inj found
        rw [Function.update_self]
        exact ⟨Nat.lt_succ_self _, trivial, Std.LawfulEqCmp.eq_of_compare same⟩
      · obtain ⟨hired, serving, its⟩ := staffed.serving id w found
        rw [Function.update_of_ne (Nat.ne_of_lt hired)]
        exact ⟨Nat.lt_succ_of_lt hired, serving, its⟩
    · intro w
      change (Function.update s.workers s.hired { broker } w).Handles
      by_cases new : w = s.hired
      · subst new
        rw [Function.update_self]
        trivial
      · rw [Function.update_of_ne new]
        exact staffed.handles w
    · change (Function.update s.workers s.hired { broker } s.hired).Serving
      rw [Function.update_self]
      trivial
    · intro c
      change ∑ w ∈ Finset.range (s.hired + 1), (Function.update s.workers s.hired { broker } w).held c = _
      rw [Finset.sum_range_succ, Function.update_self]
      have nobody : ({ broker } : BrokerConsumer).held c = 0 := rfl
      rw [nobody, Nat.add_zero, held]
      apply Finset.sum_congr rfl
      intro w within
      rw [Function.update_of_ne (Nat.ne_of_lt (Finset.mem_range.mp within))]

private theorem handTo_spec (staffed : s.Staffed) (broker : Int32) (c : ℕ) : (s.handTo broker c).Staffed ∧
    (s.handTo broker c).children = s.children ∧ (s.handTo broker c).made = s.made ∧
    ∀ d, (s.handTo broker c).held d = s.held d + if d = c then 1 else 0 := by
  obtain ⟨staffed', hired, serving, held⟩ := refBrokerConsumer_spec staffed broker
  obtain ⟨children, made⟩ := s.refBrokerConsumer_frame broker
  set t := (s.refBrokerConsumer broker).2
  set w := (s.refBrokerConsumer broker).1
  have handed : s.handTo broker c = t.enqueue w c := rfl
  have enqueued : (t.enqueue w c).Staffed :=
    staffed'.update rfl rfl rfl (fun _ _ found => ⟨found, fun _ serving => serving⟩) id
  rw [handed]
  refine ⟨enqueued, children, made, ?_⟩
  intro d
  have sum := @held_update t (t.enqueue w c) w _ hired rfl rfl d
  have serves : ({ t.workers w with input := (t.workers w).input ++ [c] } : BrokerConsumer).Serving := serving
  rw [BrokerConsumer.held_of_serving serves, BrokerConsumer.held_of_serving serving, held] at sum
  simp only [BrokerConsumer.queued, BrokerConsumer.batch, BrokerConsumer.subscribed, List.count_append, List.count_singleton,
    beq_iff_eq] at sum
  split_ifs at sum ⊢ <;> omega

theorem Kept.dispatched {broker : Int32} {pc : PartitionConsumer} (kept : s.Kept)
    (dispatching : (s.children c).dispatcher = .dispatching) :
    (((s.setConsumer c pc).setDispatcher c .waiting).handTo broker c).Kept := by
  set t := (s.setConsumer c pc).setDispatcher c .waiting with t_def
  have there : t.children = Function.update s.children c { s.children c with consumer := pc, dispatcher := .waiting } := by
    simp only [t_def, setDispatcher, setConsumer, setChild, Function.update_self, Function.update_idem]
  have staffed : t.Staffed := kept.staffed.of_workers rfl rfl rfl
  obtain ⟨staffed, children, made, held⟩ := handTo_spec staffed broker c
  have before (d : ℕ) : t.held d = s.held d := rfl
  have same : t.made = s.made := rfl
  have closing (d : ℕ) : ((t.handTo broker c).children d).closing = (s.children d).closing := by
    rw [children, there]
    by_cases this : d = c
    · subst this
      rw [Function.update_self]
    · rw [Function.update_of_ne this]
  constructor
  · intro d isOpen
    rw [closing] at isOpen
    have placed := kept.placed d isOpen
    rw [held, before, made, same, children, there]
    by_cases this : d = c
    · subst this
      rw [Child.awaiting, dispatching] at placed
      rw [Function.update_self, if_pos rfl, Child.awaiting]
      dsimp only at placed ⊢
      omega
    · rw [Function.update_of_ne this, if_neg this]
      exact placed
  · intro d isOpen
    rw [closing] at isOpen
    obtain ⟨none_, runs⟩ := kept.alive d isOpen
    rw [children, there]
    by_cases this : d = c
    · subst this
      rw [Function.update_self]
      exact ⟨none_, Dispatcher.noConfusion⟩
    · rw [Function.update_of_ne this]
      exact ⟨none_, runs⟩
  · intro d unmade
    rw [made] at unmade
    rw [closing]
    exact kept.unmade d unmade
  · exact staffed

theorem Kept.consumePartition {pc : PartitionConsumer} {leader : Int32} (kept : s.Kept) :
    (s.consumePartition pc leader).Kept := by
  obtain ⟨t, handed, there, workers, hired, made, known⟩ := s.consumePartition_handed pc leader
  obtain ⟨child, there, isOpen, none_, waits, untriggered⟩ := there
  have staffed : t.Staffed := kept.staffed.of_workers workers hired known
  obtain ⟨staffed, children, made', held⟩ := handTo_spec staffed leader s.made
  have before (d : ℕ) : t.held d = s.held d := held_of_workers workers hired d
  rw [handed]
  constructor
  · intro d
    rw [held, before, made', made, children, there]
    by_cases this : d = s.made
    · subst this
      intro _
      have placed := kept.placed _ (kept.unmade _ le_rfl)
      rw [if_neg (lt_irrefl _)] at placed
      rw [Function.update_self, if_pos rfl, if_pos (Nat.lt_succ_self _), Child.awaiting, waits, untriggered]
      dsimp only
      omega
    · intro isOpen
      rw [Function.update_of_ne this] at isOpen ⊢
      have placed := kept.placed d isOpen
      rw [if_neg this]
      split_ifs at placed ⊢ <;> omega
  · intro d
    rw [children, there]
    by_cases this : d = s.made
    · subst this
      rw [Function.update_self, none_, waits]
      exact fun _ => ⟨rfl, Dispatcher.noConfusion⟩
    · rw [Function.update_of_ne this]
      exact kept.alive d
  · intro d unmade
    rw [made', made] at unmade
    rw [children, there, Function.update_of_ne (by omega)]
    exact kept.unmade d (by omega)
  · exact staffed

/-! ## One turn, and every run -/

/-- An orderly turn leaves every open child in one place. -/
theorem Kept.step {event : Event} (kept : s.Kept) (orderly : s.Orderly event) (step : Step s event s') : s'.Kept := by
  cases step with
  | consumePartition _ _ => exact kept.consumePartition
  | asyncClose made =>
    exact kept.child rfl ⟨rfl, rfl, rfl⟩ rfl (fun isOpen => Bool.noConfusion isOpen) fun unmade => absurd made (by omega)
  | wakeDying waits trigger dying =>
    exact kept.child rfl ⟨rfl, rfl, rfl⟩ rfl (fun isOpen => ⟨isOpen, fun none_ => absurd dying (by omega)⟩) (kept.unmade _)
  | wake waits trigger alive =>
    refine kept.child rfl ⟨rfl, rfl, rfl⟩ rfl (fun isOpen => ⟨isOpen, fun _ => ⟨⟨rfl, id, Dispatcher.noConfusion⟩, ?_⟩⟩)
      (kept.unmade _)
    rw [Child.awaiting, Child.awaiting, waits]
    dsimp only
    omega
  | backedOff sleeps =>
    refine kept.child rfl ⟨rfl, rfl, rfl⟩ rfl (fun isOpen => ⟨isOpen, fun _ => ⟨⟨rfl, id, Dispatcher.noConfusion⟩, ?_⟩⟩)
      (kept.unmade _)
    rw [Child.awaiting, Child.awaiting, sleeps]
  | @dispatchFailed c _ err _ pc dispatching fails =>
    have same : Rests (s.children c) { s.children c with consumer := pc } := ⟨rfl, id, rfl, rfl⟩
    have told := same.sendError s.returnErrors err
    simp only [setDispatcher, ConsumerWorld.trigger, sendError, setConsumer, setChild_setChild, children_setChild_self,
      returnErrors_setChild]
    refine kept.child rfl ⟨rfl, rfl, rfl⟩ rfl ?_ fun unmade => told.closing.trans (kept.unmade c unmade)
    refine fun isOpen => ⟨told.closing.symm.trans isOpen, fun _ => ⟨⟨told.closing, told.dying, Dispatcher.noConfusion⟩, ?_⟩⟩
    have before : (s.children c).awaiting = (s.children c).trigger + 1 := by rw [Child.awaiting, dispatching]
    rw [before]
    exact congrArg (· + 1) told.trigger
  | dispatched dispatching finds => exact kept.dispatched dispatching
  | receive hired waits front => exact kept.receive hired waits front
  | collect hired waits front => exact kept.collect hired waits front
  | file hired waits => exact kept.file hired waits orderly
  | update hired at_ => exact kept.update hired at_
  | slept hired at_ => exact kept.moveOn hired at_ rfl ⟨rfl, rfl, rfl⟩ Iff.rfl id fun _ => .refl _
  | fetchFailed hired at_ => exact kept.abort hired at_ orderly.1 orderly.2
  | fetched hired at_ parses =>
    refine kept.moveOn hired at_ rfl ⟨rfl, rfl, rfl⟩ Iff.rfl id fun c => ?_
    change Rests (s.children c) (if _ then _ else _)
    split_ifs
    · exact ⟨rfl, id, rfl, rfl⟩
    · exact .refl _
  | feedEnd hired feeds none_ =>
    obtain ⟨running, feeders, at_, member, rfl⟩ := feeds
    simp only [endFeeder, at_]
    exact kept.moveOn hired at_ rfl ⟨rfl, rfl, rfl⟩ Iff.rfl id fun _ => .refl _
  | feedAgain hired feeds some_ first =>
    obtain ⟨running, feeders, at_, member, rfl⟩ := feeds
    simp only [setFeeder, at_]
    exact kept.moveOn hired at_ rfl ⟨rfl, rfl, rfl⟩ Iff.rfl id fun _ => .refl _
  | feedExpired hired feeds some_ second =>
    rcases orderly _ feeds with none_ | first
    · exact absurd none_ some_
    · exact absurd (first.symm.trans second) Bool.noConfusion
  | @feedDied w c _ hired feeds some_ dying =>
    obtain ⟨running, feeders, at_, member, rfl⟩ := feeds
    have here : ((s.setChild c { s.children c with dying := (s.children c).dying - 1 }).workers w).consumer =
      .feeding running feeders := at_
    have fewer : Rests (s.children c) { s.children c with dying := (s.children c).dying - 1 } :=
      ⟨rfl, fun none_ => absurd dying (by omega), rfl, rfl⟩
    simp only [endFeeder, here]
    exact kept.moveOn hired at_ rfl ⟨rfl, rfl, rfl⟩ Iff.rfl id (rests_update fewer)
  | @feedDelivered w c _ message _ hired feeds front alive =>
    obtain ⟨running, feeders, at_, member, rfl⟩ := feeds
    have here : ((s.setChild c { s.children c with messages := (s.children c).messages ++ [message] }).workers w).consumer =
      .feeding running feeders := at_
    have more : Rests (s.children c) { s.children c with messages := (s.children c).messages ++ [message] } :=
      ⟨rfl, id, rfl, rfl⟩
    simp only [setFeeder, here]
    exact kept.moveOn hired at_ rfl ⟨rfl, rfl, rfl⟩ Iff.rfl id (rests_update more)
  | fed hired at_ => exact kept.moveOn hired at_ rfl ⟨rfl, rfl, rfl⟩ Iff.rfl (fun _ => Finset.Subset.refl _) fun _ => .refl _
  | examineFine hired at_ member fine =>
    exact kept.moveOn hired at_ rfl ⟨rfl, rfl, rfl⟩ Iff.rfl (fun all => ⟨all member, Finset.erase_subset_erase _ all⟩)
      fun _ => .refl _
  | examineTimedOut hired at_ member timedOut => exact absurd timedOut orderly
  | examineOutOfRange hired at_ member outOfRange =>
    simp only [forgetReplica, takeResult, setChild_setChild, children_setChild_self]
    exact kept.moveOn hired at_ rfl ⟨rfl, rfl, rfl⟩ Iff.rfl (fun all => ⟨all member, Finset.erase_subset_erase _ all⟩)
      (rests_update ⟨rfl, id, rfl, rfl⟩)
  | @examineSeeking w c todo hired at_ member seeks =>
    have all : todo ⊆ (s.workers w).subscriptions := (handles_iff at_).mp (kept.staffed.handles w)
    simp only [ConsumerWorld.trigger, forgetReplica, takeResult, setChild_setChild, children_setChild_self]
    exact kept.leave hired rfl ⟨rfl, rfl, rfl⟩ (serving_of at_ trivial) (all member) (Finset.erase_subset_erase _ all) rfl
      (Rests.setTrigger ⟨rfl, id, rfl, rfl⟩)
  | @examineFailed w c todo result hired at_ member result_ other =>
    have all : todo ⊆ (s.workers w).subscriptions := (handles_iff at_).mp (kept.staffed.handles w)
    simp only [ConsumerWorld.trigger, sendError, forgetReplica, takeResult, setChild_setChild, children_setChild_self,
      returnErrors_setChild]
    exact kept.leave hired rfl ⟨rfl, rfl, rfl⟩ (serving_of at_ trivial) (all member) (Finset.erase_subset_erase _ all) rfl
      (Rests.sendError ⟨rfl, id, rfl, rfl⟩ _ _).setTrigger
  | @preferredElsewhere w c todo _ _ pc hired at_ asks elsewhere =>
    obtain ⟨member, others⟩ := (handles_iff at_).mp (kept.staffed.handles w)
    simp only [ConsumerWorld.trigger, setConsumer, setChild_setChild, children_setChild_self]
    exact kept.leave hired rfl ⟨rfl, rfl, rfl⟩ (serving_of at_ trivial) member others rfl
      (Rests.setTrigger ⟨rfl, id, rfl, rfl⟩)
  | preferredHere hired at_ asks stays =>
    exact kept.moveOn hired at_ rfl ⟨rfl, rfl, rfl⟩ Iff.rfl (fun both => both.2.trans (Finset.erase_subset _ _))
      (rests_update ⟨rfl, id, rfl, rfl⟩)
  | @resetFailed w c todo _ _ _ hired at_ resets fails =>
    obtain ⟨member, others⟩ := (handles_iff at_).mp (kept.staffed.handles w)
    simp only [ConsumerWorld.trigger, sendError, setConsumer, setChild_setChild, children_setChild_self,
      returnErrors_setChild]
    exact kept.leave hired rfl ⟨rfl, rfl, rfl⟩ (serving_of at_ trivial) member others rfl
      (Rests.sendError ⟨rfl, id, rfl, rfl⟩ _ _).setTrigger
  | resetDone hired at_ resets =>
    have fails := orderly _ _ at_
    rw [resets] at fails
    exact absurd rfl fails
  | handled hired at_ => exact kept.moveOn hired at_ rfl ⟨rfl, rfl, rfl⟩ Iff.rfl (fun _ => trivial) fun _ => .refl _
  | abortSlept hired at_ => exact kept.moveOn hired at_ rfl ⟨rfl, rfl, rfl⟩ Iff.rfl id fun _ => .refl _

private theorem kept_initial (initialOffset : Int64) (returnErrors : Bool) : Kept { initialOffset, returnErrors } := by
  constructor
  · exact fun _ _ => rfl
  · exact fun _ _ => ⟨rfl, Dispatcher.noConfusion⟩
  · exact fun _ _ => rfl
  · constructor
    · intro broker w found
      rw [Std.ExtTreeMap.getElem?_empty] at found
      cases found
    · exact fun _ => trivial

/-- The state of a partition that starts at the newest offset of an empty log. -/
private def empty (partition : Int32) : PartitionConsumer := { topic := [116], partition }

private theorem starts (partition : Int32) :
    (empty partition).chooseStartingOffset OffsetNewest ⟨.ok 0, .ok 0⟩ = (0, empty partition) := rfl

end ConsumerWorld

end Coev.Kafka
