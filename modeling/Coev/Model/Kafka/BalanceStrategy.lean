import Coev.Model.Kafka.Basic
import Mathlib.Algebra.GroupWithZero.Nat
import Mathlib.Logic.Function.Basic

/-! # What the members of a consumer group tell each other

The records that the leader of a group reads and writes. Which fields are on the wire depends on the version.
-/

namespace Coev.Kafka

structure OwnedPartition where
  topic : Bytes := []
  partitions : List Int32 := []
deriving DecidableEq, Repr

structure ConsumerGroupMemberMetadata where
  version : Int16 := 0
  generationId : Int32 := 0
  userData : Bytes := []
  rackId : Bytes := []
  topics : List Bytes := []
  ownedPartitions : List OwnedPartition := []
deriving DecidableEq, Repr

end Coev.Kafka

/-! # Plans of a balance strategy

A strategy is given the subscriptions of the members and the partitions of the topics, and says which member consumes what.
-/

namespace Coev.Kafka

/-- The members of a group, and what they subscribe to. -/
abbrev Members := Std.ExtTreeMap Bytes ConsumerGroupMemberMetadata

/-- The topics and their partitions. -/
abbrev Topics := Std.ExtTreeMap Bytes (List Int32)

abbrev BalanceStrategyPlan := Std.ExtTreeMap Bytes (Std.ExtTreeMap Bytes (List Int32))

def addToPlan (p : BalanceStrategyPlan) (memberID topic : Bytes) (partitions : List Int32) : BalanceStrategyPlan :=
  if partitions.isEmpty then p
  else
    let assigned := p.getD memberID ∅
    p.insert memberID (assigned.insert topic (assigned.getD topic [] ++ partitions))

/-- The default of an assignment without a generation. -/
def defaultGeneration : ℤ := -1

/-- A plan gives a partition of a topic to a member. -/
def BalanceStrategyPlan.Assigns (p : BalanceStrategyPlan) (memberID : Bytes) (partition : TopicPartition) : Prop :=
  partition.2 ∈ (p.getD memberID ∅).getD partition.1 []

/-- A member subscribes to a topic. -/
def Members.Subscribes (members : Members) (memberID topic : Bytes) : Prop :=
  ∃ metadata, members[memberID]? = some metadata ∧ topic ∈ metadata.topics

/-- A topic has a partition. -/
def Topics.Has (topics : Topics) (partition : TopicPartition) : Prop :=
  ∃ partitions, topics[partition.1]? = some partitions ∧ partition.2 ∈ partitions

/-- No topic lists a partition twice. -/
def Topics.Distinct (topics : Topics) : Prop :=
  ∀ (topic : Bytes) (partitions : List Int32), topics[topic]? = some partitions → partitions.Nodup

/-- A plan for the subscriptions: each partition that has a subscriber goes to one member, and only subscribers are given
partitions, which exist. -/
structure BalanceStrategyPlan.Valid (plan : BalanceStrategyPlan) (members : Members) (topics : Topics) : Prop where
  complete : ∀ p, topics.Has p → (∃ m, members.Subscribes m p.1) → ∃! m, plan.Assigns m p
  subscribed : ∀ m p, plan.Assigns m p → members.Subscribes m p.1
  exists_ : ∀ m p, plan.Assigns m p → topics.Has p

end Coev.Kafka

/-! # `RangeBalancer`

The members of a topic, in the order of their names, get one range after the other of its partitions. The numbers of
members and partitions are those of vectors that come from arrays of a response, so they are in the range of an `int`,
and an exact `double`.
-/

namespace Coev.Kafka

/-- `mbt`: who names a topic, once for each time it does. -/
def membersByTopic (members : Members) : Std.ExtTreeMap Bytes (List Bytes) :=
  members.toList.foldl (fun mbt it =>
    it.2.topics.foldl (fun mbt topic => mbt.insert topic (mbt.getD topic [] ++ [it.1])) mbt) ∅

/-- `std::sort`. -/
def sortNames (ss : List Bytes) : List Bytes := ss.mergeSort fun a b => a ≤ b

/-- `std::unique`, and `erase` of what is behind. -/
def eraseRepeated : List Bytes → List Bytes
  | [] => []
  | [a] => [a]
  | a :: b :: rest => if a = b then eraseRepeated (b :: rest) else a :: eraseRepeated (b :: rest)

def uniq (ss : List Bytes) : List Bytes := if ss.length < 2 then ss else eraseRepeated (sortNames ss)

abbrev CoreFn := BalanceStrategyPlan → List Bytes → Bytes → List Int32 → BalanceStrategyPlan

/-- `Plan`. -/
def planBy (coreFn : CoreFn) (members : Members) (topics : Topics) : BalanceStrategyPlan :=
  (membersByTopic members).toList.foldl (fun plan it =>
    match topics[it.1]? with
    | none => plan
    | some partitions => coreFn plan (uniq it.2) it.1 partitions) ∅

namespace RangeBalancer

variable (partitions : List Int32) (members : ℕ)

/-- `min` of the member at a place. -/
def lower (i : ℕ) : ℕ := i * (partitions.length / members) + min (partitions.length % members) i

/-- `max` of it. -/
def upper (i : ℕ) : ℕ :=
  lower partitions members i + partitions.length / members + if i < partitions.length % members then 1 else 0

def slice (i : ℕ) : List Int32 :=
  (partitions.drop (lower partitions members i)).take (upper partitions members i - lower partitions members i)

/-- The core of the range strategy. -/
def core : CoreFn := fun plan memberIDs topic partitions =>
  (sortNames memberIDs).zipIdx.foldl (fun plan it =>
    addToPlan plan it.1 topic (slice partitions memberIDs.length it.2)) plan

def plan (members : Members) (topics : Topics) : BalanceStrategyPlan := planBy core members topics

end RangeBalancer

end Coev.Kafka

/-! # `RoundRobinBalancer`

The partitions are dealt out one after the other, and a member that does not subscribe to a topic is passed over. The members
stand in a vector, and the member at hand is a reference into it: to go on to the next member is to copy that member over the
one at hand. There are fewer than `2 ^ 64` rounds.
-/

namespace Coev.Kafka

/-- `std::to_string` of a partition. -/
def decimal (partition : Int32) : Bytes :=
  (if partition < 0 then [45] else []) ++ (Nat.toDigits 10 partition.toInt.natAbs).map fun digit => digit.toNat.toUInt8

/-- `comparedValue` of a `TopicAndPartition`: the topic, a hyphen and the partition. -/
def comparedValue (tp : TopicPartition) : Bytes := tp.1 ++ 45 :: decimal tp.2

/-- The partitions of all topics, before they are sorted. -/
def topicPartitions (topics : Topics) : List TopicPartition :=
  topics.toList.flatMap fun entry => entry.2.map fun partition => (entry.1, partition)

/-- What `std::sort` may make of the partitions; the order of two with one compared value is open. -/
structure SortsPartitions (order : List TopicPartition) (topics : Topics) : Prop where
  perm : order.Perm (topicPartitions topics)
  sorted : order.Pairwise fun first second => comparedValue first ≤ comparedValue second

structure MemberAndTopic where
  memberID : Bytes
  topics : List Bytes
deriving DecidableEq, Repr

def MemberAndTopic.hasTopic (m : MemberAndTopic) (topic : Bytes) : Bool := topic ∈ m.topics

/-- The members in the order of their names, which is that of the map. -/
def memberAndTopics (members : Members) : List MemberAndTopic :=
  members.toList.map fun entry => { memberID := entry.1, topics := entry.2.topics }

/-- The variables of the loop over the partitions. -/
structure RoundRobin (n : ℕ) where
  members : Fin n → MemberAndTopic
  i : ℕ := 0
  plan : BalanceStrategyPlan := ∅

namespace RoundRobin

variable {n : ℕ} [NeZero n]

def slot (s : RoundRobin n) : Fin n := Fin.ofNat n s.i

/-- The member at hand when a round begins. -/
def current (s : RoundRobin n) : MemberAndTopic := s.members s.slot

/-- The loop that looks for a subscriber, with so many attempts left. -/
def seekMember (topic : Bytes) (slot : Fin n) : ℕ → RoundRobin n → RoundRobin n
  | 0, s => s
  | attempts + 1, s =>
    if (s.members slot).hasTopic topic then s
    else
      seekMember topic slot attempts
        { s with
          i := s.i + 1
          members := Function.update s.members slot (s.members (Fin.ofNat n (s.i + 1))) }

/-- A round of the loop over the partitions. -/
def assignNext (s : RoundRobin n) (tp : TopicPartition) : RoundRobin n :=
  let slot := s.slot
  let s := seekMember tp.1 slot n s
  let m := s.members slot
  let s := if m.hasTopic tp.1 then { s with plan := addToPlan s.plan m.memberID tp.1 [tp.2] } else s
  { s with i := s.i + 1 }

def start (first : MemberAndTopic) (others : List MemberAndTopic) : RoundRobin (others.length + 1) :=
  { members := (first :: others).get }

instance (priority := high) (others : List MemberAndTopic) : NeZero (others.length + 1) := ⟨Nat.succ_ne_zero _⟩

end RoundRobin

/-- `Plan` of the round-robin strategy, when the sorted partitions are these. -/
def roundRobinPlan (order : List TopicPartition) (memberAndMetadata : Members) (topics : Topics) :
    Except ℤ BalanceStrategyPlan :=
  match memberAndTopics memberAndMetadata with
  | [] => .error (-1)
  | first :: others =>
    if topics.isEmpty then .ok ∅ else .ok (order.foldl RoundRobin.assignNext (RoundRobin.start first others)).plan

end Coev.Kafka
