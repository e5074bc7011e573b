import Coev.Model.Kafka.MetadataRefresh
import Coev.Model.Kafka.OffsetMessages

/-! # The offset at which a partition begins

`fetch_initial_offset` as a program over what it asks of the client and of the coordinator, whose answers are free. The
pointer to the coordinator in it is a local variable, which `coordinator` gets as a reference.
-/

namespace Coev.Kafka

/-- The constructor for a version, a group and its partitions. -/
def OffsetFetchRequest.create (version : KafkaVersion) (group : Bytes) (partitions : Std.ExtTreeMap Bytes (List Int32)) :
    OffsetFetchRequest :=
  { consumerGroup := group
    partitions
    version :=
      if version.isAtLeast V2_5_0_0 then 7
      else if version.isAtLeast V2_4_0_0 then 6
      else if version.isAtLeast V2_1_0_0 then 5
      else if version.isAtLeast V2_0_0_0 then 4
      else if version.isAtLeast V0_11_0_0 then 3
      else if version.isAtLeast V0_10_2_0 then 2
      else if version.isAtLeast V0_8_2_0 then 1
      else 0 }

def OffsetFetchResponse.getBlock (response : OffsetFetchResponse) (topic : Bytes) (partition : Int32) :
    Option OffsetFetchResponseBlock :=
  response.blocks[topic]?.bind fun partitions => partitions[partition]?

namespace OffsetManager

inductive InitialCall where
  | refreshCoordinator
  | getCoordinator
  | fetchOffset (broker : ℕ) (request : OffsetFetchRequest)
  | sleepFor (backoff : ℤ)

abbrev InitialCall.Answer : InitialCall → Type
  | .refreshCoordinator => KError
  /- The code, and what `m_broker` becomes. -/
  | .getCoordinator => KError × Option ℕ
  /- The response counts when the code is zero. -/
  | .fetchOffset _ _ => KError × OffsetFetchResponse
  | .sleepFor _ => Unit

abbrev Initial := Calls InitialCall InitialCall.Answer

/-- The offset, the leader epoch and the metadata. -/
structure InitialOffset where
  offset : Int64
  leaderEpoch : Int32
  metadata : Bytes
deriving DecidableEq, Repr

/-- The manager, and how often `m_closed` was set. -/
structure InitialWorld where
  manager : OffsetManager
  closedSets : ℕ := 0

/-- What a call of `fetch_initial_offset` comes to: the code with what it stored, and the manager. -/
structure Fetched where
  result : Except Fault (KError × Option InitialOffset)
  world : InitialWorld

namespace Initial

def ask (c : InitialCall) : Initial c.Answer := Calls.send c

/-- `coordinator(broker)`: the broker of the manager is filled. -/
def coordinator (w : InitialWorld) (broker : Option ℕ) : Initial (KError × Option ℕ × InitialWorld) := do
  if broker.isSome then return (ErrNoError, broker, w)
  else
    let err ← ask .refreshCoordinator
    if err ≠ ErrNoError then return (err, broker, w)
    else
      let (err, found) ← ask .getCoordinator
      return (err, broker, { w with manager := { w.manager with broker := found } })

def releaseCoordinator (w : InitialWorld) (broker : ℕ) : InitialWorld :=
  { w with manager := w.manager.releaseCoordinator (some broker) }

def computeBackoff (conf : MetadataConfig) (retries : Int32) : ℤ :=
  match conf.backoffFunc with
  | some backoffFunc => backoffFunc retries conf.retryMax
  | none => conf.backoff

/-- The next attempt, in a world of its own, or the error when none is left. -/
def retry (again : Option (InitialWorld → Initial Fetched)) (err : KError) (w next : InitialWorld) : Initial Fetched :=
  match again with
  | none => return ⟨.ok (err, none), w⟩
  | some again => again next

/-- The wait while the offsets are loaded. -/
def awaitOffsets (backoff : ℤ) (again : Option (InitialWorld → Initial Fetched)) (err : KError) (w : InitialWorld) :
    Initial Fetched :=
  match again with
  | none => return ⟨.ok (err, none), w⟩
  | some again => do
    let w := { w with manager := { w.manager with closing := true } }
    ask (.sleepFor backoff)
    again { w with closedSets := w.closedSets + 1 }

/-- The answer of the coordinator for the partition. -/
def takeBlock (backoff : ℤ) (again : Option (InitialWorld → Initial Fetched)) (broker : ℕ) (w : InitialWorld)
    (block : OffsetFetchResponseBlock) : Initial Fetched :=
  let err := block.err.toInt
  if err = ErrNoError then return ⟨.ok (0, some ⟨block.offset, block.leaderEpoch, block.metadata⟩), w⟩
  else if err = ErrNotCoordinatorForConsumer then retry again err w (releaseCoordinator w broker)
  else if err = ErrOffsetsLoadInProgress then awaitOffsets backoff again err w
  else return ⟨.ok (err, none), w⟩

/-- One attempt. `broker` is never set, and the request goes through it. -/
def attempt (backoff : ℤ) (again : Option (InitialWorld → Initial Fetched)) (topic : Bytes) (partition : Int32)
    (w : InitialWorld) : Initial Fetched := do
  let (err, broker, w) ← coordinator w none
  if err ≠ 0 then retry again err w w
  else
    match broker with
    | none => return ⟨.error .nullPointer, w⟩
    | some broker =>
      let request := OffsetFetchRequest.create w.manager.conf.version w.manager.group
        ((∅ : Std.ExtTreeMap Bytes (List Int32)).insert topic [partition])
      let (err, response) ← ask (.fetchOffset broker request)
      if err ≠ 0 then retry again err w (releaseCoordinator w broker)
      else
        match response.getBlock topic partition with
        | none => return ⟨.ok (ErrIncompleteResponse, none), w⟩
        | some block => takeBlock backoff again broker w block

/-- The attempts, with `retries` of them behind the first. -/
def attempts (conf : MetadataConfig) (topic : Bytes) (partition : Int32) : ℕ → InitialWorld → Initial Fetched
  | 0 => attempt (computeBackoff conf 0) none topic partition
  | retries + 1 =>
    attempt (computeBackoff conf (Int32.ofNat (retries + 1))) (some (attempts conf topic partition retries)) topic partition

def fetchInitialOffset (conf : MetadataConfig) (topic : Bytes) (partition retries : Int32) (w : InitialWorld) :
    Initial Fetched :=
  attempts conf topic partition retries.toInt.toNat w

end Initial

end OffsetManager

end Coev.Kafka
