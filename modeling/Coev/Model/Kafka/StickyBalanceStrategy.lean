import Coev.Model.Kafka.BalanceStrategy
import Mathlib.Data.List.Sort

/-! # `PartitionMovements`

What was moved since the plan was begun: for each partition the member it came from and the member that has it now, and the
same by topic and by these two members. A partition that comes back has no record.
-/

namespace Coev.Kafka

/-- `SrcMemberID` and `DstMemberID` of `consumer_movement`. -/
abbrev ConsumerMovement := Bytes × Bytes

instance : Ord ConsumerMovement := lexOrd

instance : Std.TransOrd ConsumerMovement := inferInstanceAs (Std.TransOrd (Bytes × Bytes))

instance : Std.LawfulEqOrd ConsumerMovement := inferInstanceAs (Std.LawfulEqOrd (Bytes × Bytes))

structure PartitionMovements where
  movements : TopicPartitionMap ConsumerMovement := ∅
  partitionMovementsByTopic : Std.ExtTreeMap Bytes (Std.ExtTreeMap ConsumerMovement (TopicPartitionMap Bool)) := ∅

namespace PartitionMovements

/-- `remove_movement_record_of_partition`, with `outPair`. -/
def removeMovementRecordOfPartition (s : PartitionMovements) (partition : TopicPartition) :
    ConsumerMovement × PartitionMovements :=
  let outPair := s.movements.getD partition ([], [])
  let topicMap := s.partitionMovementsByTopic.getD partition.1 ∅
  let moved := (topicMap.getD outPair ∅).erase partition
  let topicMap := if moved.isEmpty then topicMap.erase outPair else topicMap.insert outPair moved
  (outPair,
    { movements := s.movements.erase partition
      partitionMovementsByTopic :=
        if topicMap.isEmpty then s.partitionMovementsByTopic.erase partition.1
        else s.partitionMovementsByTopic.insert partition.1 topicMap })

def addPartitionMovementRecord (s : PartitionMovements) (partition : TopicPartition) (pair : ConsumerMovement) :
    PartitionMovements :=
  let topicMap := s.partitionMovementsByTopic.getD partition.1 ∅
  let moved := (topicMap.getD pair ∅).insert partition true
  { movements := s.movements.insert partition pair
    partitionMovementsByTopic := s.partitionMovementsByTopic.insert partition.1 (topicMap.insert pair moved) }

def movePartition (s : PartitionMovements) (partition : TopicPartition) (oldConsumer newConsumer : Bytes) :
    PartitionMovements :=
  if partition ∈ s.movements then
    let (existingPair, s) := s.removeMovementRecordOfPartition partition
    if existingPair.1 ≠ newConsumer then s.addPartitionMovementRecord partition (existingPair.1, newConsumer) else s
  else s.addPartitionMovementRecord partition (oldConsumer, newConsumer)

/-- `get_the_actual_partition_to_be_moved`; `none` where it takes the first entry of an empty map. -/
def getTheActualPartitionToBeMoved (s : PartitionMovements) (partition : TopicPartition)
    (oldConsumer newConsumer : Bytes) : Option TopicPartition :=
  match s.partitionMovementsByTopic[partition.1]? with
  | none => some partition
  | some topicMap =>
    let actualOld := match s.movements[partition]? with
      | none => oldConsumer
      | some movement => movement.1
    match topicMap[(newConsumer, actualOld)]? with
    | none => some partition
    | some moved => moved.keys.head?

end PartitionMovements

end Coev.Kafka

/-! # `StickyBalanceStrategy`

A plan is made in steps: what the members own already, then each partition without an owner to the member that has the least,
then moves from a member that has much to one that has little. An absent key for `at` ends the call (`none`), and so does the
reassignment when its `fuel` is used up. The sizes of the assignments are below `2 ^ 31`.
-/

namespace Coev.Kafka

/-- `currentAssignment`: the partitions of each member. -/
abbrev Assignment := Std.ExtTreeMap Bytes (List TopicPartition)

/-- The value that `operator[]` refers to. -/
def Assignment.of (assignment : Assignment) (memberID : Bytes) : List TopicPartition := assignment.getD memberID []

/-- `operator[]` makes an entry where there is none. -/
def Assignment.touch (assignment : Assignment) (memberID : Bytes) : Assignment := assignment.insertIfNew memberID []

structure ConsumerGenerationPair where
  memberID : Bytes
  generation : ℤ
deriving DecidableEq, Repr

/-- What the members and the topics allow. -/
structure Subscriptions where
  consumer2AllPotentialPartitions : Std.ExtTreeMap Bytes (List TopicPartition)
  partition2AllPotentialConsumers : TopicPartitionMap (List Bytes)

/-- What a reassignment changes. -/
structure Reassignment where
  currentAssignment : Assignment
  currentPartitionConsumer : TopicPartitionMap Bytes
  sortedCurrentSubscriptions : List Bytes
  movements : PartitionMovements

section

/-- Maps are compared by their entries. -/
local instance (priority := high) decidableEqEntries {κ ν : Type} [Ord κ] [Std.TransOrd κ] [Std.LawfulEqOrd κ]
    [DecidableEq κ] [DecidableEq ν] : DecidableEq (Std.ExtTreeMap κ ν) :=
  fun a b => decidable_of_iff (a.toList = b.toList) Std.ExtTreeMap.toList_inj

deriving instance DecidableEq for PartitionMovements

deriving instance DecidableEq for Reassignment

end

/-! ## Orders and scores -/

def sortMemberIDsByPartitionAssignments (assignments : Assignment) : List Bytes :=
  assignments.keys.insertionSort fun a b =>
    (assignments.of a).length < (assignments.of b).length ∨
      (assignments.of a).length = (assignments.of b).length ∧ (compare a b).isLE

def sortPartitionsByPotentialConsumerAssignments (consumers : TopicPartitionMap (List Bytes)) : List TopicPartition :=
  consumers.keys.insertionSort fun a b =>
    (consumers.getD a []).length < (consumers.getD b []).length ∨
      (consumers.getD a []).length = (consumers.getD b []).length ∧ (compare a b).isLE

/-- `getBalanceScore`; the sum is an integer and small enough for a `double`. -/
def getBalanceScore (assignment : Assignment) : ℕ :=
  (assignment.toList.map fun it1 =>
    ((assignment.erase it1.1).toList.map fun it2 => ((it1.2.length : ℤ) - it2.2.length).natAbs).sum).sum

/-- The member of each partition, the last one in the order of the members. -/
def allPartitions (assignment : Assignment) : TopicPartitionMap Bytes :=
  assignment.toList.foldl
    (fun owners entry => entry.2.foldl (fun owners partition => owners.insert partition entry.1) owners) ∅

/-- `isBalanced`; `none` where `at` throws. -/
def isBalanced (currentAssignment : Assignment) (allSubscriptions : Std.ExtTreeMap Bytes (List TopicPartition)) :
    Option Bool :=
  match sortMemberIDsByPartitionAssignments currentAssignment with
  | [] => some true
  | first :: rest =>
    let min := (currentAssignment.of first).length
    let max := (currentAssignment.of ((first :: rest).getLast (List.cons_ne_nil _ _))).length
    if max ≤ min + 1 then some true
    else (first :: rest).allM fun memberID => do
      let consumerPartitions ← currentAssignment[memberID]?
      let potentialTopicPartitions ← allSubscriptions[memberID]?
      if consumerPartitions.length = potentialTopicPartitions.length then return true
      potentialTopicPartitions.allM fun partition => do
        if partition ∈ consumerPartitions then return true
        let otherConsumer ← (allPartitions currentAssignment)[partition]?
        let otherPartitions ← currentAssignment[otherConsumer]?
        return otherPartitions.length ≤ consumerPartitions.length

/-! ## Who takes part -/

def canTopicPartitionParticipateInReassignment (partition : TopicPartition) (consumers : TopicPartitionMap (List Bytes)) :
    Bool :=
  match consumers[partition]? with
  | none => false
  | some consumers => 2 ≤ consumers.length

def canConsumerParticipateInReassignment (memberID : Bytes) (currentAssignment : Assignment) (s : Subscriptions) : Bool :=
  match s.consumer2AllPotentialPartitions[memberID]? with
  | none => false
  | some potential =>
    match currentAssignment[memberID]? with
    | none => !potential.isEmpty
    | some current =>
      current.length < potential.length ||
        current.any fun partition => canTopicPartitionParticipateInReassignment partition s.partition2AllPotentialConsumers

/-- `memberAssignmentsIncludeTopicPartition` for the potential partitions of a member, none where it has no entry. -/
def Subscriptions.include (s : Subscriptions) (memberID : Bytes) (partition : TopicPartition) : Bool :=
  (s.consumer2AllPotentialPartitions.getD memberID []).any fun p => p == partition

/-! ## Edits of an assignment -/

def assignPartition (s : Subscriptions) (r : Reassignment) (partition : TopicPartition) : Reassignment :=
  let r := match r.sortedCurrentSubscriptions.find? (s.include · partition) with
    | none => r
    | some memberID =>
      { r with
        currentAssignment := r.currentAssignment.insert memberID (r.currentAssignment.of memberID ++ [partition])
        currentPartitionConsumer := r.currentPartitionConsumer.insert partition memberID }
  { r with sortedCurrentSubscriptions := sortMemberIDsByPartitionAssignments r.currentAssignment }

/-- The member of a partition, the empty string where it has none; then it is noted. -/
def Reassignment.consumerOf (r : Reassignment) (partition : TopicPartition) : Bytes × Reassignment :=
  (r.currentPartitionConsumer.getD partition [],
    { r with currentPartitionConsumer := r.currentPartitionConsumer.insertIfNew partition [] })

def processPartitionMovement (partition : TopicPartition) (newConsumer : Bytes) (r : Reassignment) : Reassignment :=
  let (oldConsumer, r) := r.consumerOf partition
  let removed : Assignment := r.currentAssignment.insert oldConsumer ((r.currentAssignment.of oldConsumer).erase partition)
  let currentAssignment := removed.insert newConsumer (removed.of newConsumer ++ [partition])
  { currentAssignment
    currentPartitionConsumer := r.currentPartitionConsumer.insert partition newConsumer
    sortedCurrentSubscriptions := sortMemberIDsByPartitionAssignments currentAssignment
    movements := r.movements.movePartition partition oldConsumer newConsumer }

def reassignPartition (partition : TopicPartition) (newConsumer : Bytes) (r : Reassignment) : Option Reassignment := do
  let (consumer, r) := r.consumerOf partition
  let partitionToBeMoved ← r.movements.getTheActualPartitionToBeMoved partition consumer newConsumer
  return processPartitionMovement partitionToBeMoved newConsumer r

def reassignPartitionToNewConsumer (s : Subscriptions) (partition : TopicPartition) (r : Reassignment) :
    Option Reassignment :=
  go r.sortedCurrentSubscriptions
where
  /-- The loop over the members, the least loaded first. -/
  go : List Bytes → Option Reassignment
    | [] => some r
    | anotherConsumer :: rest => do
      let potential ← s.consumer2AllPotentialPartitions[anotherConsumer]?
      if partition ∈ potential then reassignPartition partition anotherConsumer r else go rest

/-! ## The reassignment -/

/-- The partition is moved if a member that could take it has at least two partitions less than `consumer`. -/
def tryOthers (s : Subscriptions) (partition : TopicPartition) (consumer : Bytes) :
    List Bytes → Reassignment → Option (Reassignment × Bool)
  | [], r => some (r, false)
  | otherConsumer :: others, r => do
    let currentAssignment := (r.currentAssignment.touch consumer).touch otherConsumer
    let r := { r with currentAssignment }
    if (currentAssignment.of otherConsumer).length + 1 < (currentAssignment.of consumer).length then
      return (← reassignPartitionToNewConsumer s partition r, true)
    else tryOthers s partition consumer others r

/-- A round of the loop over the reassignable partitions, and whether it modified something. -/
def tryPartition (prevAssignment : TopicPartitionMap ConsumerGenerationPair) (s : Subscriptions) (partition : TopicPartition)
    (r : Reassignment) : Option (Reassignment × Bool) := do
  let consumers ← s.partition2AllPotentialConsumers[partition]?
  if consumers.length ≤ 1 then return (r, false)
  let (consumer, r) := r.consumerOf partition
  if consumer.isEmpty then return (r, false)
  match prevAssignment[partition]? with
  | none => tryOthers s partition consumer consumers r
  | some prev =>
    let currentAssignment := (r.currentAssignment.touch consumer).touch prev.memberID
    let r := { r with currentAssignment }
    if (currentAssignment.of prev.memberID).length + 1 < (currentAssignment.of consumer).length then
      return (← reassignPartition partition prev.memberID r, true)
    else tryOthers s partition consumer consumers r

/-- The loop over the reassignable partitions, which a balanced assignment ends. -/
def tryPartitions (prevAssignment : TopicPartitionMap ConsumerGenerationPair) (s : Subscriptions) :
    List TopicPartition → Reassignment → Option (Reassignment × Bool)
  | [], r => some (r, false)
  | partition :: rest, r => do
    if ← isBalanced r.currentAssignment s.consumer2AllPotentialPartitions then return (r, false)
    let (r, modified) ← tryPartition prevAssignment s partition r
    let (r, more) ← tryPartitions prevAssignment s rest r
    return (r, modified || more)

/-- `performReassignments`; `fuel` bounds the rounds of the outer loop. -/
def performReassignments (prevAssignment : TopicPartitionMap ConsumerGenerationPair) (s : Subscriptions)
    (reassignablePartitions : List TopicPartition) : ℕ → Reassignment → Option (Reassignment × Bool)
  | 0, _ => none
  | fuel + 1, r => do
    let (r, modified) ← tryPartitions prevAssignment s reassignablePartitions r
    if modified then
      let (r, _) ← performReassignments prevAssignment s reassignablePartitions fuel r
      return (r, true)
    else return (r, false)

/-- A member that cannot take part is set aside with what it has. -/
def setAside (s : Subscriptions) (state : Reassignment × Assignment) (memberID : Bytes) : Reassignment × Assignment :=
  let (r, fixedAssignments) := state
  if canConsumerParticipateInReassignment memberID r.currentAssignment s then (r, fixedAssignments)
  else
    let currentAssignment := r.currentAssignment.erase memberID
    ({ r with currentAssignment, sortedCurrentSubscriptions := sortMemberIDsByPartitionAssignments currentAssignment },
      fixedAssignments.insert memberID (r.currentAssignment.of memberID))

/-- `initializing` of `balance`: the first member has nothing. -/
def Reassignment.initializing (r : Reassignment) : Bool :=
  match r.sortedCurrentSubscriptions with
  | [] => true
  | first :: _ => r.currentAssignment[first]? == some []

def balance (fuel : ℕ) (prevAssignment : TopicPartitionMap ConsumerGenerationPair) (s : Subscriptions)
    (sortedPartitions unassignedPartitions : List TopicPartition) (r : Reassignment) : Option Reassignment := do
  let initializing := r.initializing
  let assignable := unassignedPartitions.filter fun partition =>
    !(s.partition2AllPotentialConsumers.getD partition []).isEmpty
  let r := assignable.foldl (assignPartition s) r
  let sortedPartitions := s.partition2AllPotentialConsumers.keys.foldl
    (fun sorted partition =>
      if canTopicPartitionParticipateInReassignment partition s.partition2AllPotentialConsumers then sorted
      else sorted.filter (· ≠ partition)) sortedPartitions
  let (r, fixedAssignments) := s.consumer2AllPotentialPartitions.keys.foldl (setAside s) (r, ∅)
  let preBalance := r
  let (r, reassignmentPerformed) ← performReassignments prevAssignment s sortedPartitions fuel r
  let reverts := !initializing && reassignmentPerformed &&
    getBalanceScore preBalance.currentAssignment ≤ getBalanceScore r.currentAssignment
  let r := if reverts then
      { r with
        currentAssignment := preBalance.currentAssignment
        currentPartitionConsumer := preBalance.currentPartitionConsumer }
    else r
  return { r with
    currentAssignment :=
      fixedAssignments.toList.foldl (fun current entry => current.insert entry.1 entry.2) r.currentAssignment }

/-! ## The plan -/

/-- `sortedPartitionConsumersByGeneration`, after one more partition that a member says it owns. -/
def recordUserPartition (memberID : Bytes) (generation : ℤ) (hasGen : Bool)
    (sorted : TopicPartitionMap (Std.ExtTreeMap ℤ Bytes)) (partition : TopicPartition) :
    TopicPartitionMap (Std.ExtTreeMap ℤ Bytes) :=
  let consumers := sorted.getD partition ∅
  sorted.insert partition <|
    if consumers.isEmpty then consumers.insert generation memberID
    else if hasGen then consumers.insertIfNew generation memberID
    else consumers.insert defaultGeneration memberID

/-- `prepopulateCurrentAssignments`. The partitions that a member owns are not taken from its user data: the list stays
empty. -/
def prepopulateCurrentAssignments (members : Members) : Assignment × TopicPartitionMap ConsumerGenerationPair :=
  let sorted := members.toList.foldl (fun sorted it =>
    let userPartitions : List TopicPartition := []
    userPartitions.foldl (recordUserPartition it.1 defaultGeneration false) sorted) ∅
  sorted.toList.foldl (fun result it =>
    match it.2.toList.reverse with
    | [] => result
    | consumer :: others =>
      (result.1.insert consumer.2 (result.1.of consumer.2 ++ [it.1]),
        match others with
        | [] => result.2
        | previous :: _ => result.2.insert it.1 ⟨previous.2, previous.1⟩)) (∅, ∅)

/-- The partitions of the topics that a member subscribes to. -/
def potentialPartitions (topics : Topics) (metadata : ConsumerGroupMemberMetadata) : List TopicPartition :=
  metadata.topics.flatMap fun topic => (topics.getD topic []).map fun p => (topic, p)

/-- The loops of `Plan` over the topics and the members. -/
def subscriptions (members : Members) (topics : Topics) : Subscriptions :=
  let partition2AllPotentialConsumers : TopicPartitionMap (List Bytes) :=
    topics.toList.foldl (fun consumers it => it.2.foldl (fun consumers p => consumers.insert (it.1, p) []) consumers) ∅
  members.toList.foldl (fun s it =>
    let list := potentialPartitions topics it.2
    { consumer2AllPotentialPartitions := s.consumer2AllPotentialPartitions.insert it.1 list
      partition2AllPotentialConsumers :=
        list.foldl (fun consumers tpa => consumers.insert tpa (consumers.getD tpa [] ++ [it.1]))
          s.partition2AllPotentialConsumers }) ⟨∅, partition2AllPotentialConsumers⟩

/-- What `Plan` keeps of the assignments it starts from. -/
structure Kept where
  currentAssignment : Assignment
  currentPartitionConsumers : TopicPartitionMap Bytes
  unvisitedPartitions : List TopicPartition
  unassignedPartitions : List TopicPartition

/-- A partition that a member is assigned at the start; `none` where `at` throws. -/
def keepPartition (members : Members) (s : Subscriptions) (memberID : Bytes) (state : Kept × List TopicPartition)
    (partition : TopicPartition) : Option (Kept × List TopicPartition) := do
  let (kept, keepPartitions) := state
  if partition ∉ s.partition2AllPotentialConsumers then return (kept, keepPartitions)
  let kept := { kept with
    unvisitedPartitions := kept.unvisitedPartitions.filter (· ≠ partition)
    currentPartitionConsumers := kept.currentPartitionConsumers.insert partition memberID }
  let metadata ← members[memberID]?
  if partition.1 ∈ metadata.topics then return (kept, keepPartitions ++ [partition])
  else return ({ kept with unassignedPartitions := kept.unassignedPartitions ++ [partition] }, keepPartitions)

/-- A round of the loop of `Plan` over the assignments it starts from. -/
def keepAssignment (members : Members) (s : Subscriptions) (kept : Kept) (it : Bytes × List TopicPartition) :
    Option Kept := do
  let (kept, keepPartitions) ← it.2.foldlM (keepPartition members s it.1) (kept, [])
  return { kept with currentAssignment := kept.currentAssignment.insert it.1 keepPartitions }

/-- The plan of an assignment. -/
def planOf (assignment : Assignment) : BalanceStrategyPlan :=
  assignment.toList.foldl (fun plan it =>
    if it.2.isEmpty then plan.insert it.1 ∅
    else it.2.foldl (fun plan partition => addToPlan plan it.1 partition.1 [partition.2]) plan) ∅

/-- `Plan` of the sticky strategy. -/
def stickyPlan (fuel : ℕ) (members : Members) (topics : Topics) : Option BalanceStrategyPlan := do
  if topics.isEmpty then return ∅
  let (currentAssignment, prevAssignment) := prepopulateCurrentAssignments members
  let s := subscriptions members topics
  let currentAssignment := members.keys.foldl Assignment.touch currentAssignment
  let kept ← currentAssignment.toList.foldlM (keepAssignment members s)
    { currentAssignment, currentPartitionConsumers := ∅
      unvisitedPartitions := s.partition2AllPotentialConsumers.keys, unassignedPartitions := [] }
  let r ← balance fuel prevAssignment s (sortPartitionsByPotentialConsumerAssignments s.partition2AllPotentialConsumers)
    (kept.unassignedPartitions ++ kept.unvisitedPartitions)
    { currentAssignment := kept.currentAssignment
      currentPartitionConsumer := kept.currentPartitionConsumers
      sortedCurrentSubscriptions := sortMemberIDsByPartitionAssignments kept.currentAssignment
      movements := {} }
  return planOf r.currentAssignment

/-- `AssignmentData` of the sticky strategy: the user data is built, and what is returned is cleared. -/
def stickyAssignmentData (_memberID : Bytes) (_topics : Topics) (_generationID : Int32) : Bytes := []

end Coev.Kafka
