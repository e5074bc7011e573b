import Coev.Model.Kafka.ClientOperations
import Coev.Proofs.Kafka.Client

/-! # When a client is closed

`Closed()` asks whether any broker is left, and `Close()` leaves the live seeds. So a client closes when `Close()` finds no
live seed, and then for good: nothing brings a broker back to a client that has none, dead seeds included. What is asked
of a closed client fails before it reaches the cluster.
-/

namespace Coev.Kafka

open Std (ExtTreeMap)
open Transition

variable {c : Client}

namespace Client

/-- What keeps a broker: the last one, registered or a live seed, is not taken away. -/
def Keeps (c : Client) : LifeEvent → Prop
  | .change (.updateMetadata data _ _) => c.seedBrokers ≠ [] ∨ data.brokers ≠ []
  | .change (.deregisterBroker broker) =>
    if broker.id ∈ c.brokers then c.seedBrokers ≠ [] ∨ ∃ id ∈ c.brokers, id ≠ broker.id
    else c.brokers ≠ ∅ ∨ 1 < c.seedBrokers.length
  | .change .deregisterController => c.seedBrokers ≠ [] ∨ ∃ id ∈ c.brokers, id ≠ c.controllerId
  | .change (.refreshBrokers seeds) => seeds ≠ []
  | .seedDown _ => c.brokers ≠ ∅ ∨ 1 < c.seedBrokers.length
  | _ => True

private theorem closed_iff : c.closed = true ↔ c.brokers = ∅ ∧ c.seedBrokers = [] := by
  rw [closed, Bool.and_eq_true, List.isEmpty_iff, ExtTreeMap.isEmpty_iff]

/-- Without brokers of any kind. -/
def Bare (c : Client) : Prop := c.brokers = ∅ ∧ c.seedBrokers = [] ∧ c.deadSeeds = []

theorem Bare.closed (bare : c.Bare) : c.closed = true := closed_iff.mpr ⟨bare.1, bare.2.1⟩

/-- A client without brokers stays so. -/
theorem Bare.apply (bare : c.Bare) (event : Event) : (c.apply event).Bare := by
  have closed := bare.closed
  obtain ⟨noBroker, noSeed, noDead⟩ := bare
  cases event with
  | updateMetadata data all now =>
    rw [Client.apply, updateMetadata, if_pos closed]
    exact ⟨noBroker, noSeed, noDead⟩
  | close =>
    rw [Client.apply, close, if_pos closed]
    exact ⟨noBroker, noSeed, noDead⟩
  | addTopics topics now => exact ⟨noBroker, noSeed, noDead⟩
  | registerBroker broker =>
    rw [Client.apply, registerBroker, if_pos closed]
    exact ⟨noBroker, noSeed, noDead⟩
  | deregisterBroker broker =>
    rw [Client.apply, deregisterBroker, noBroker, if_neg ExtTreeMap.not_mem_empty, noSeed]
    exact ⟨noBroker, noSeed, noDead⟩
  | deregisterController =>
    refine ⟨?_, noSeed, noDead⟩
    rw [Client.apply, deregisterController, noBroker]
    exact ExtTreeMap.erase_empty
  | resurrectDeadBrokers =>
    refine ⟨noBroker, ?_, rfl⟩
    rw [Client.apply, resurrectDeadBrokers, noSeed, noDead]
    rfl
  | refreshBrokers seeds =>
    rw [Client.apply, refreshBrokers, if_pos closed]
    exact ⟨noBroker, noSeed, noDead⟩

theorem Bare.seedDown (bare : c.Bare) (seed : Seed) : (c.seedDown seed).Bare := by
  rw [Client.seedDown, if_neg (by rw [bare.2.1]; simp)]
  exact bare

/-! ## Clients with brokers -/

/-- A broker is registered or a live seed is listed. -/
def Alive (c : Client) : Prop := c.brokers ≠ ∅ ∨ c.seedBrokers ≠ []

private theorem closed_eq_false_iff : c.closed = false ↔ c.Alive := by
  rw [← Bool.not_eq_true, closed_iff, not_and_or, Alive]

private theorem ne_empty_of_mem {m : ExtTreeMap Int32 Broker} {id : Int32} (member : id ∈ m) : m ≠ ∅ := by
  rintro rfl
  exact ExtTreeMap.not_mem_empty member

private theorem mem_addBroker {brokers : ExtTreeMap Int32 Broker} {id : Int32} (broker : Broker)
    (member : id = broker.id ∨ id ∈ brokers) : id ∈ addBroker brokers broker := by
  have inserted : id ∈ brokers.insert broker.id broker := by
    rw [ExtTreeMap.mem_insert, Std.compare_eq_iff_eq]
    exact member.imp_left Eq.symm
  unfold addBroker
  split
  · exact inserted
  · next known found =>
    split
    · exact inserted
    · rcases member with rfl | member
      · exact ExtTreeMap.mem_iff_isSome_getElem?.mpr (by rw [found]; rfl)
      · exact member

private theorem mem_addBrokers {brokers : ExtTreeMap Int32 Broker} {id : Int32} (added : List Broker)
    (member : (∃ broker ∈ added, broker.id = id) ∨ id ∈ brokers) : id ∈ added.foldl addBroker brokers := by
  induction added generalizing brokers with
  | nil => exact member.resolve_left fun named => absurd named.choose_spec.1 List.not_mem_nil
  | cons broker rest ih =>
    refine ih ?_
    rcases member with ⟨named, among, same⟩ | known
    · rcases List.mem_cons.mp among with rfl | later
      · exact .inr (mem_addBroker named (.inl same.symm))
      · exact .inl ⟨named, later, same⟩
    · exact .inr (mem_addBroker broker (.inr known))

/-- A response that names a broker leaves one registered. -/
private theorem updateBroker_ne_empty (c : Client) {brokers : List Broker} (named : brokers ≠ []) :
    (c.updateBroker brokers).brokers ≠ ∅ := by
  obtain ⟨broker, rest, rfl⟩ := List.exists_cons_of_ne_nil named
  have member : broker.id ∈ (broker :: rest).foldl addBroker c.brokers :=
    mem_addBrokers (broker :: rest) (.inl ⟨broker, List.mem_cons_self, rfl⟩)
  obtain ⟨held, found⟩ := Option.isSome_iff_exists.mp (ExtTreeMap.mem_iff_isSome_getElem?.mp member)
  have kept : (c.updateBroker (broker :: rest)).brokers[broker.id]? = some held := by
    rw [updateBroker, ExtTreeMap.getElem?_filter', found]
    simp
  exact ne_empty_of_mem (ExtTreeMap.mem_iff_isSome_getElem?.mpr (by rw [kept]; rfl))

private theorem updateMetadata_collections (open_ : c.closed = false) (data : MetadataResponse) (all : Bool)
    (now : Bytes → TimePoint) : (c.updateMetadata data all now).2.brokers = (c.updateBroker data.brokers).brokers ∧
      (c.updateMetadata data all now).2.seedBrokers = c.seedBrokers := by
  rw [updateMetadata, if_neg (by rw [open_]; decide)]
  constructor
  · refine (updateTopics_registries now data.topics false _).1.trans ?_
    split <;> rfl
  · refine (updateTopics_registries now data.topics false _).2.trans ?_
    split <;> rfl

private theorem erase_ne_empty {m : ExtTreeMap Int32 Broker} {id other : Int32} (member : id ∈ m) (differs : id ≠ other) :
    m.erase other ≠ ∅ := by
  have kept : id ∈ m.erase other := by
    rw [ExtTreeMap.mem_erase]
    exact ⟨fun same => differs (Std.compare_eq_iff_eq.mp same).symm, member⟩
  exact ne_empty_of_mem kept

/-- A step that keeps a broker leaves an open client open, unless it is `Close()` without a live seed. -/
theorem Alive.apply (alive : c.Alive) {event : Event} (keeps : c.Keeps (.change event))
    (running : event = .close → c.seedBrokers ≠ []) : (c.apply event).Alive := by
  have open_ := closed_eq_false_iff.mpr alive
  cases event with
  | updateMetadata data all now =>
    obtain ⟨brokers, seeds⟩ := updateMetadata_collections open_ data all now
    rcases keeps with live | named
    · exact .inr (seeds ▸ live)
    · exact .inl (brokers ▸ updateBroker_ne_empty c named)
  | close =>
    refine .inr ?_
    rw [Client.apply, close, if_neg (by rw [open_]; decide)]
    exact running rfl
  | addTopics topics now => exact alive
  | registerBroker broker =>
    refine .inl ?_
    rw [Client.apply, registerBroker, if_neg (by rw [open_]; decide)]
    exact ne_empty_of_mem (mem_addBroker broker (.inl rfl))
  | deregisterBroker broker =>
    have keeps : if broker.id ∈ c.brokers then c.seedBrokers ≠ [] ∨ ∃ id ∈ c.brokers, id ≠ broker.id
        else c.brokers ≠ ∅ ∨ 1 < c.seedBrokers.length := keeps
    rw [Client.apply, deregisterBroker]
    split
    · next registered =>
      rw [if_pos registered] at keeps
      rcases keeps with live | ⟨id, member, other⟩
      · exact .inr live
      · exact .inl (erase_ne_empty member other)
    · next absent =>
      rw [if_neg absent] at keeps
      split
      · exact alive
      · next first rest seeds =>
        rw [seeds] at keeps
        split
        · exact keeps.imp_right fun more => List.length_pos_iff.mp (Nat.lt_of_succ_lt_succ more)
        · exact alive
  | deregisterController =>
    rcases keeps with live | ⟨id, member, other⟩
    · exact .inr live
    · exact .inl (erase_ne_empty member other)
  | resurrectDeadBrokers =>
    rcases alive with registered | live
    · exact .inl registered
    · exact .inr (List.append_ne_nil_of_left_ne_nil live _)
  | refreshBrokers seeds =>
    refine .inr ?_
    rw [Client.apply, refreshBrokers, if_neg (by rw [open_]; decide)]
    exact keeps

theorem Alive.seedDown (alive : c.Alive) {seed : Seed} (keeps : c.Keeps (.seedDown seed)) :
    (c.seedDown seed).Alive := by
  unfold Client.seedDown
  split
  · refine keeps.imp_right fun more => List.length_pos_iff.mp ?_
    rw [List.length_tail]
    omega
  · exact alive

end Client

/-! ## The answers of a closed client -/

open Calls (LeadsTo Returns leadsTo_pure)
open ClientState

/-- What finds the client closed fails, and leaves it as it is: the operations return `ErrClosedClient`; the constructor of
`OffsetManager` throws; an update does nothing, and the updater in the background ends. -/
structure AnswersClosed (cluster : Cluster) (s : ClientState) : Prop where
  close : s.client.close = (ErrClosedClient, s.client)
  topics : topics s = .ok (ErrClosedClient, []) s
  metadataTopics : s.client.metadataTopicsOf = (ErrClosedClient, [])
  getPartitions consistency topic refresh : s.client.getPartitions consistency topic refresh = .error ErrClosedClient
  getReplicas_ topic partitionId : getReplicas_ cluster topic partitionId s = .ok (ErrClosedClient, none) s
  replicas topic partitionId : replicas cluster topic partitionId s = .ok (ErrClosedClient, []) s
  inSyncReplicas topic partitionId : inSyncReplicas cluster topic partitionId s = .ok (ErrClosedClient, []) s
  offlineReplicas topic partitionId : offlineReplicas cluster topic partitionId s = .ok (ErrClosedClient, []) s
  leaderAndEpoch topic partitionId : leaderAndEpoch cluster topic partitionId s = .ok (ErrClosedClient, none) s
  refreshBrokers seeds : s.client.refreshBrokers seeds = (ErrClosedClient, s.client)
  refreshMetadata conf topics fuel : LeadsTo Client.Means (Returns fun err c => err = ErrClosedClient ∧ c = s.client)
    (Refresh.refreshMetadata conf topics fuel) s.client
  getOffset topic partitionId timestamp : getOffset cluster topic partitionId timestamp s = .ok (ErrClosedClient, -1) s
  controller version : controller cluster version s = .ok (ErrClosedClient, none) s
  refreshController : ClientState.refreshController cluster s = .ok (ErrClosedClient, none) s
  getCoordinator consumerGroup : ClientState.getCoordinator cluster consumerGroup s = .ok (ErrClosedClient, none) s
  refreshCoordinator consumerGroup : ClientState.refreshCoordinator cluster consumerGroup s = .ok ErrClosedClient s
  transactionCoordinator transactionId :
    transactionCoordinator cluster transactionId s = .ok (ErrClosedClient, none) s
  refreshTransactionCoordinator transactionId :
    refreshTransactionCoordinator cluster transactionId s = .ok ErrClosedClient s
  newAsyncProducer answers w : TransactionManager.newAsyncProducer s.client.closed answers w = .ok ErrClosedClient w
  newConsumer : newConsumer s = .ok ErrClosedClient s
  newOffsetManager : newOffsetManager s = .error (.fault (.thrown (.runtimeError "Client is closed"))) s
  updateMetadata data all now : s.client.updateMetadata data all now = (false, s.client)
  registerBroker broker : s.client.registerBroker broker = s.client
  backgroundMetadataUpdater frequency rounds :
    backgroundMetadataUpdater cluster frequency (rounds + 1) s = .ok (some 0) s

/-- An operation that begins with the test answers as a closed client does. -/
private theorem run_of_closed {α : Type} {s : ClientState} (closed : s.client.closed = true) (answer : α) (rest : Using α) :
    (get >>= fun s => if s.client.closed then pure answer else rest : Using α) s = .ok answer s := by
  rw [EStateM.get_bind_apply, if_pos closed]
  rfl

private theorem refreshMetadata_of_closed (closed : c.closed = true) (conf : MetadataConfig) (topics : List Bytes)
    (fuel : ℕ) :
    LeadsTo Client.Means (Returns fun err d => err = ErrClosedClient ∧ d = c)
      (Refresh.refreshMetadata conf topics fuel) c := by
  refine .call ⟨true, c, closed.symm, rfl⟩ ?_
  rintro _ d ⟨rfl, rfl⟩
  rw [closed]
  exact leadsTo_pure ⟨rfl, rfl⟩

private theorem answersClosed {s : ClientState} (closed : s.client.closed = true) (cluster : Cluster) :
    AnswersClosed cluster s := by
  have replicas select topic partitionId :
      selectReplicas cluster select topic partitionId s = .ok (ErrClosedClient, []) s :=
    EStateM.bind_of_ok (run_of_closed closed (ErrClosedClient, none) _) _
  constructor
  case close => rw [Client.close, if_pos closed]
  case topics => exact run_of_closed closed _ _
  case metadataTopics => rw [Client.metadataTopicsOf, if_pos closed]
  case getPartitions => exact fun _ _ _ => if_pos closed
  case getReplicas_ => exact fun _ _ => run_of_closed closed _ _
  case replicas => exact replicas _
  case inSyncReplicas => exact replicas _
  case offlineReplicas => exact replicas _
  case leaderAndEpoch => exact fun _ _ => run_of_closed closed _ _
  case refreshBrokers => exact fun _ => if_pos closed
  case refreshMetadata => exact refreshMetadata_of_closed closed
  case getOffset => exact fun _ _ _ => run_of_closed closed _ _
  case controller => exact fun _ => run_of_closed closed _ _
  case refreshController => exact run_of_closed closed _ _
  case getCoordinator => exact fun _ => run_of_closed closed _ _
  case refreshCoordinator => exact fun _ => run_of_closed closed _ _
  case transactionCoordinator => exact fun _ => run_of_closed closed _ _
  case refreshTransactionCoordinator => exact fun _ => run_of_closed closed _ _
  case newAsyncProducer =>
    intro answers w
    rw [TransactionManager.newAsyncProducer, if_pos closed]
    rfl
  case newConsumer => exact run_of_closed closed _ _
  case newOffsetManager =>
    rw [ClientState.newOffsetManager, EStateM.get_bind_apply, if_pos closed]
    rfl
  case updateMetadata => exact fun _ _ _ => if_pos closed
  case registerBroker => exact fun _ => if_pos closed
  case backgroundMetadataUpdater =>
    intro frequency rounds
    rw [ClientState.backgroundMetadataUpdater]
    split
    · rfl
    · exact run_of_closed closed _ _

namespace ClientLife

variable {event : Client.LifeEvent} {l l' : ClientLife}

/-- A client that was made with a seed. -/
structure Fresh (l : ClientLife) : Prop where
  seeded : l.client.seedBrokers ≠ []
  running : l.shutDown = false

/-- The last broker of an open client is not taken away, unless by `Close()`. -/
def Sustained (l : ClientLife) (event : Client.LifeEvent) : Prop := l.client.closed = false → l.client.Keeps event

/-- A client that was shut down has no brokers, and another is open. -/
def Settled (l : ClientLife) : Prop := if l.shutDown = true then l.client.Bare else l.client.Alive

theorem Fresh.settled {l : ClientLife} (fresh : l.Fresh) : l.Settled := by
  rw [Settled, if_neg (by rw [fresh.running]; decide)]
  exact .inr fresh.seeded

theorem Settled.closed_iff {l : ClientLife} (settled : l.Settled) : l.client.closed = true ↔ l.shutDown = true := by
  unfold Settled at settled
  split at settled
  · next shutDown => exact iff_of_true settled.closed shutDown
  · next running =>
    refine iff_of_false ?_ running
    rw [Client.closed_eq_false_iff.mpr settled]
    decide

/-- A client that was shut down stays so. -/
theorem Bare.step (bare : l.client.Bare ∧ l.shutDown = true) (step : Step l event l') :
    l'.client.Bare ∧ l'.shutDown = true := by
  obtain ⟨bare, shutDown⟩ := bare
  subst step
  cases event with
  | change event =>
    cases event with
    | close => exact ⟨bare.apply .close, by rw [apply, shutDown, Bool.true_or]⟩
    | updateMetadata data all now => exact ⟨bare.apply (.updateMetadata data all now), shutDown⟩
    | addTopics topics now => exact ⟨bare.apply (.addTopics topics now), shutDown⟩
    | registerBroker broker => exact ⟨bare.apply (.registerBroker broker), shutDown⟩
    | deregisterBroker broker => exact ⟨bare.apply (.deregisterBroker broker), shutDown⟩
    | deregisterController => exact ⟨bare.apply .deregisterController, shutDown⟩
    | resurrectDeadBrokers => exact ⟨bare.apply .resurrectDeadBrokers, shutDown⟩
    | refreshBrokers seeds => exact ⟨bare.apply (.refreshBrokers seeds), shutDown⟩
  | seedDown seed => exact ⟨bare.seedDown seed, shutDown⟩

/-- `Close()` shuts an open client down if it has no live seed, and else leaves it open. -/
private theorem settled_close {l : ClientLife} (alive : l.client.Alive) (running : l.shutDown = false) :
    (l.apply (.change .close)).Settled := by
  have open_ := Client.closed_eq_false_iff.mpr alive
  have closes : l.client.close =
      (0, { l.client with brokers := ∅, deadSeeds := [], metadata := ∅, metadataTopics := ∅ }) := by
    rw [Client.close, if_neg (by rw [open_]; decide)]
  rw [apply, running, Bool.false_or, closes, decide_eq_true rfl, Bool.true_and, Settled]
  split
  · next noSeed => exact ⟨rfl, List.isEmpty_iff.mp noSeed, rfl⟩
  · next live => exact .inr fun noSeed => live (List.isEmpty_iff.mpr noSeed)

theorem Settled.step (settled : l.Settled) (step : When Sustained Step l event l') : l'.Settled := by
  obtain ⟨sustained, step⟩ := step
  by_cases shutDown : l.shutDown = true
  · rw [Settled, if_pos shutDown] at settled
    obtain ⟨bare, kept⟩ := Bare.step ⟨settled, shutDown⟩ step
    rw [Settled, if_pos kept]
    exact bare
  rw [Settled, if_neg shutDown] at settled
  have running := Bool.eq_false_iff.mpr shutDown
  have keeps := sustained (Client.closed_eq_false_iff.mpr settled)
  have remains (alive : l'.client.Alive) (same : l'.shutDown = l.shutDown) : l'.Settled := by
    rw [Settled, if_neg (by rw [same]; exact shutDown)]
    exact alive
  subst step
  cases event with
  | seedDown seed => exact remains (settled.seedDown keeps) rfl
  | change event =>
    cases event with
    | close => exact settled_close settled running
    | _ => exact remains (settled.apply keeps (by simp)) rfl

/-- `Close()` that finds an open client without a live seed leaves it without any broker. -/
private theorem shutDown_step (before : l.shutDown = true → l.client.Bare) (step : Step l event l') :
    l'.shutDown = true → l'.client.Bare := by
  intro after
  by_cases shutDown : l.shutDown = true
  · exact (Bare.step ⟨before shutDown, shutDown⟩ step).1
  have running := Bool.eq_false_iff.mpr shutDown
  have closes : event = .change .close := by
    subst step
    cases event with
    | seedDown seed => exact absurd after shutDown
    | change event =>
      cases event with
      | close => rfl
      | _ => exact absurd after shutDown
  subst closes step
  rw [apply, running, Bool.false_or, Bool.and_eq_true] at after
  have open_ : l.client.closed = false := by
    by_contra closed
    rw [Client.close, if_pos (Bool.eq_true_of_not_eq_false closed)] at after
    exact absurd (of_decide_eq_true after.1 : ErrClosedClient = 0) (by decide)
  have settled := settled_close (Client.closed_eq_false_iff.mp open_) running
  rw [Settled, if_pos] at settled
  · exact settled
  · rw [apply, running, Bool.false_or, Bool.and_eq_true]
    exact after

/-- In every run, once `Close()` has closed the client it stays closed, and everything that is asked of it is answered so.
While no other step takes its last broker, a client is closed only then. -/
theorem closed_iff_shutDown {l l' : ClientLife} (fresh : l.Fresh) :
    (Reaches Step l l' → l'.shutDown = true → ∀ later, Reaches Step l' later → later.client.closed = true ∧
      ∀ cluster s, s.client = later.client → AnswersClosed cluster s) ∧
    (Reaches (When Sustained Step) l l' → (l'.client.closed = true ↔ l'.shutDown = true)) := by
  constructor
  · intro run shutDown later continued
    have bare : l'.client.Bare :=
      run.invariant (fun s event s' (before : s.shutDown = true → s.client.Bare) step => shutDown_step before step)
        (fun down => absurd (fresh.running.symm.trans down) nofun) shutDown
    have bare : later.client.Bare ∧ later.shutDown = true :=
      continued.invariant (fun s event s' (bare : s.client.Bare ∧ s.shutDown = true) step => Bare.step bare step)
        ⟨bare, shutDown⟩
    refine ⟨bare.1.closed, fun cluster s same => answersClosed ?_ cluster⟩
    rw [same]
    exact bare.1.closed
  · intro run
    have settled : l'.Settled :=
      run.invariant (fun s event s' (settled : s.Settled) step => settled.step step) fresh.settled
    exact settled.closed_iff

/-- A client with one seed. -/
def seeded : ClientLife := ⟨{ seedBrokers := [⟨0, []⟩] }, false⟩

/-- The seed answers, and then is lost. -/
def seedLost : ClientLife := (seeded.apply (.change (.registerBroker ⟨1, [], []⟩))).apply (.seedDown ⟨0, []⟩)

private theorem fresh_seeded : seeded.Fresh := ⟨List.cons_ne_nil _ _, rfl⟩

theorem seedLost_closes : (seedLost.apply (.change .close)).client.closed = true ∧
    ∀ later, Reaches Step (seedLost.apply (.change .close)) later → later.client.closed = true ∧
      ∀ cluster s, s.client = later.client → AnswersClosed cluster s := by
  have named : When Sustained Step seeded (.change (.registerBroker ⟨1, [], []⟩))
      (seeded.apply (.change (.registerBroker ⟨1, [], []⟩))) := ⟨fun open_ => trivial, rfl⟩
  have lost : When Sustained Step (seeded.apply (.change (.registerBroker ⟨1, [], []⟩))) (.seedDown ⟨0, []⟩) seedLost :=
    ⟨fun open_ => .inl (Client.ne_empty_of_mem (Client.mem_addBroker ⟨1, [], []⟩ (.inl rfl))), rfl⟩
  have closing : When Sustained Step seedLost (.change .close) (seedLost.apply (.change .close)) :=
    ⟨fun open_ => trivial, rfl⟩
  have shutDown : (seedLost.apply (.change .close)).shutDown = true := by decide +kernel
  have run := (((Reaches.refl seeded).tail named).tail lost).tail closing
  exact ⟨((closed_iff_shutDown fresh_seeded).2 run).mpr shutDown,
    (closed_iff_shutDown fresh_seeded).1 run.of_when shutDown⟩

/-- `Close()` leaves a client with a live seed open; a seed that is lost closes one without `Close()`, until it is
resurrected; and what tests for a closed client may throw instead. -/
theorem live_seed_keeps_open :
    ((Client.close { seedBrokers := [⟨0, []⟩] }).1 = 0 ∧ (Client.close { seedBrokers := [⟨0, []⟩] }).2.closed = false) ∧
    ((seeded.apply (.seedDown ⟨0, []⟩)).client.closed = true ∧ (seeded.apply (.seedDown ⟨0, []⟩)).shutDown = false ∧
      ((seeded.apply (.seedDown ⟨0, []⟩)).apply (.change .resurrectDeadBrokers)).client.closed = false) ∧
    newOffsetManager ⟨{}, ∅, ∅⟩ = .error (.fault (.thrown (.runtimeError "Client is closed"))) ⟨{}, ∅, ∅⟩ := by
  refine ⟨by decide, by decide, ?_⟩
  exact (answersClosed rfl ⟨fun _ => pure 0, fun _ => pure 0, fun _ _ _ => pure (0, 0), fun _ _ => pure (0, {}),
    fun _ => pure ()⟩).newOffsetManager

end ClientLife

end Coev.Kafka
