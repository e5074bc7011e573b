import Coev.Model.Kafka.Client
import Coev.Model.Kafka.ProducerMessage
import Coev.Model.Utils.Hash

/-! # Partitioners, and the partition of a message

A partitioner is an object: its state is a type of its own, and what it does with a message may depend on all of it. A
`TopicProducer` chooses the list by the kind of the partitioner, and the place in the list by its answer.
-/

namespace Coev.Kafka

def ErrInvalidPartition : KError := 1007

/-! ## Hash functions -/

/-- `Hash32`: `Reset` goes back to one state, whatever was hashed before. -/
structure Hash32 where
  State : Type
  reset : State → State
  update : State → Bytes → State
  final : State → UInt32
  reset_eq : ∀ s t, reset s = reset t

def FNV32a : Hash32 where
  State := UInt32
  reset _ := 2166136261
  update hash data := data.foldl (fun hash byte => (hash ^^^ byte.toUInt32) * 16777619) hash
  final hash := hash
  reset_eq _ _ := rfl

/-- `CRC32` with the IEEE table. -/
def CRC32 : Hash32 where
  State := UInt32
  reset _ := 0
  update crc data := Crc32.Update crc data (Crc32.SimpleMakeHandle Crc32.IEEE)
  final crc := crc
  reset_eq _ _ := rfl

/-! ## Partitioners -/

/-- `Partitioner`, and `DynamicConsistencyPartitioner` with the second question. `partition` answers a code and what it wrote
to the result, if anything. -/
structure Partitioner where
  State : Type
  partition : State → ProducerMessage → Int32 → (KError × Option Int32) × State
  requiresConsistency : Bool
  messageRequiresConsistency : Option (ProducerMessage → Bool) := none

def ManualPartitioner : Partitioner where
  State := Unit
  partition s message _ := ((0, some message.partition), s)
  requiresConsistency := true

/-- A generator with `uniform_int_distribution` from 0 on. -/
structure UniformInt where
  State : Type
  draw : State → (last : ℕ) → Fin (last + 1) × State

def RandomPartitioner (generator : UniformInt) : Partitioner where
  State := generator.State
  partition s _ numPartitions :=
    let (drawn, s) := generator.draw s (numPartitions - 1).toInt.toNat
    ((0, some (Int32.ofNat drawn)), s)
  requiresConsistency := false

/-- The first value of `m_partition` is 0. -/
def RoundRobinPartitioner : Partitioner where
  State := Int32
  partition s _ numPartitions :=
    let s := if numPartitions ≤ s then 0 else s
    ((0, some s), s + 1)
  requiresConsistency := false

/-- The members of `HashPartitioner`. -/
structure HashPartitionerConfig where
  randomPartitioner : Partitioner
  hasher : Hash32 := FNV32a
  referenceAbs : Bool := false
  hashUnsigned : Bool := false

/-- The partition of a hash value. -/
def HashPartitionerConfig.choose (h : HashPartitionerConfig) (hashValue : UInt32) (numPartitions : Int32) : Int32 :=
  if h.referenceAbs then (hashValue.toInt32 &&& 0x7fffffff) % numPartitions
  else if h.hashUnsigned then (hashValue % numPartitions.toUInt32).toInt32
  else
    let result := hashValue.toInt32 % numPartitions
    if result < 0 then -result else result

def HashPartitioner (h : HashPartitionerConfig) : Partitioner where
  State := h.hasher.State × h.randomPartitioner.State
  partition s message numPartitions :=
    if message.key.isEmpty then
      let (answer, random) := h.randomPartitioner.partition s.2 message numPartitions
      (answer, s.1, random)
    else
      let hasher := h.hasher.update (h.hasher.reset s.1) message.key
      ((0, some (h.choose (h.hasher.final hasher) numPartitions)), hasher, s.2)
  requiresConsistency := true
  messageRequiresConsistency := some fun message => !message.key.isEmpty

def NewHashPartitioner (generator : UniformInt) : Partitioner :=
  HashPartitioner { randomPartitioner := RandomPartitioner generator }

def NewReferenceHashPartitioner (generator : UniformInt) : Partitioner :=
  HashPartitioner { randomPartitioner := RandomPartitioner generator, referenceAbs := true }

def NewConsistentCRCHashPartitioner (generator : UniformInt) : Partitioner :=
  HashPartitioner { randomPartitioner := RandomPartitioner generator, hasher := CRC32, hashUnsigned := true }

namespace Partitioner

/-- Whether a message needs all partitions to choose from. -/
def consistencyOf (p : Partitioner) (message : ProducerMessage) : Bool :=
  match p.messageRequiresConsistency with
  | some messageRequiresConsistency => messageRequiresConsistency message
  | none => p.requiresConsistency

/-- The answers to messages with numbers of partitions, one after the other. -/
def answers (p : Partitioner) : p.State → List (ProducerMessage × Int32) → List (KError × Option Int32)
  | _, [] => []
  | s, (message, n) :: calls => (p.partition s message n).1 :: p.answers (p.partition s message n).2 calls

end Partitioner

/-! ## `TopicProducer` -/

namespace Client

/-- `_CachedPartitions` for a message that needs consistency, or does not. -/
def cachedPartitions (c : Client) (consistency : Bool) (topic : Bytes) : List Int32 :=
  if consistency then c.cachedAllPartitions topic else c.cachedWritablePartitions topic

/-- `_GetPartitions`; the refresh ends with a code, and leaves a client. -/
def getPartitions (c : Client) (consistency : Bool) (topic : Bytes) (refresh : KError × Client) :
    Except KError (List Int32) :=
  if c.closed then .error ErrClosedClient
  else if (c.cachedPartitions consistency topic).isEmpty then
    if refresh.1 ≠ 0 then .error refresh.1
    else if (refresh.2.cachedPartitions consistency topic).isEmpty then .error ErrUnknownTopicOrPartition
    else .ok (refresh.2.cachedPartitions consistency topic)
  else .ok (c.cachedPartitions consistency topic)

end Client

/-- `partition_message`: the code, the message and the partitioner. What `choice` holds when nothing is written to it is
left open, and the code of `partition` is not looked at. -/
def partitionMessage (p : Partitioner) (s : p.State) (c : Client) (refresh : KError × Client) (uninitialised : Int32)
    (msg : ProducerMessage) : (KError × ProducerMessage) × p.State :=
  match c.getPartitions (p.consistencyOf msg) msg.topic refresh with
  | .error err => ((err, msg), s)
  | .ok partitions =>
    let numPartitions := Int32.ofInt partitions.length
    if numPartitions = 0 then ((ErrLeaderNotAvailable, msg), s)
    else
      let (answer, s) := p.partition s msg numPartitions
      let choice := answer.2.getD uninitialised
      if choice < 0 ∨ numPartitions ≤ choice then ((ErrInvalidPartition, msg), s)
      else ((0, { msg with partition := partitions.getD choice.toInt.toNat 0 }), s)

end Coev.Kafka
