import Coev.Proofs.Kafka.ProduceRequest

/-! # What a produce set accounts for, and what its request contains

The counters of a set are `int`s: they agree with the totals over the partition sets modulo `2 ^ 32`, and exactly while
these are in the range of an `int`. A record batch numbers its records from zero; the blocks of an uncompressed message
set all have the offset zero, and a message set has no headers. Times are kept in whole milliseconds, and message sets
have none before version 0.10.
-/

namespace Coev.Kafka.ProduceSet

variable {conf : ProducerConfig} {s : ProduceSet}

/-! ## The accounts of a set -/

/-- A partition set has a record for each of its messages, in the same order. -/
def RecordsMatch (pset : PartitionSet) : Prop :=
  match pset.records with
  | .batch batch =>
    batch.records.map (fun record => (record.key, record.value, record.headers)) =
      pset.messages.map fun msg => (msg.key, msg.value, msg.headers)
  | .legacy set =>
    set.messages.map (fun block => (block.message.key, block.message.value)) =
      pset.messages.map fun msg => (msg.key, msg.value)
  | .unknown => False

/-- The accounts of a set, and what a refused message does to them. -/
structure Accounting (conf : ProducerConfig) (s : ProduceSet) : Prop where
  bytes : s.bufferBytes = Int32.ofInt s.partitionBytes
  bytes_exact : -2 ^ 31 ≤ s.partitionBytes → s.partitionBytes < 2 ^ 31 → s.bufferBytes.toInt = s.partitionBytes
  count : s.bufferCount = Int32.ofNat s.messageCount
  count_exact : s.messageCount < 2 ^ 31 → s.bufferCount.toInt = s.messageCount
  records : ∀ (tp : TopicPartition) pset, s.messages[tp]? = some pset → RecordsMatch pset
  refused : ∀ now msg, (s.add conf now msg).1 ≠ 0 → (s.add conf now msg).2 = s

private theorem recordsMatch_heldSet (conf : ProducerConfig) (s : ProduceSet) (first : Entry) (entries : List Entry) :
    RecordsMatch (heldSet conf s first entries) := by
  unfold RecordsMatch heldSet recordsOf
  split
  next records =>
    split at records
    next =>
      obtain rfl := Records.batch.inj records
      simp [recordOf, Function.comp_def]
    next => cases records
  next records =>
    split at records
    next => cases records
    next =>
      obtain rfl := Records.legacy.inj records
      simp only [List.map_map]
      refine List.map_congr_left fun entry _ => ?_
      simp only [Function.comp_apply, blockOf]
      split <;> rfl
  next records => split at records <;> cases records

theorem Holds.accounting {held : TopicPartition → List Entry} (holds : Holds conf s held) : Accounting conf s where
  bytes := holds.bytes
  bytes_exact low high := by rw [holds.bytes, Int32.toInt_ofInt_of_le low high]
  count := holds.count
  count_exact small := by rw [holds.count, Int32.toInt_ofNat_of_lt small]
  records tp pset found := by
    rw [holds.partitions] at found
    cases entries : held tp with
    | nil =>
      rw [entries] at found
      cases found
    | cons first rest =>
      rw [entries] at found
      obtain rfl := Option.some.inj found
      exact recordsMatch_heldSet conf s first (first :: rest)
  refused now msg failed := by
    by_cases rejected : Rejected conf held msg
    · rw [holds.add_rejected rejected]
    · exact absurd (holds.add_taken now rejected).1 failed

/-- After every sequence of additions and removals the accounts of the set are right. -/
theorem produce_set_accounts (conf : ProducerConfig) (producerId : Int64) (producerEpoch : Int16) (calls : List SetCall) :
    Accounting conf (setRun conf (create producerId producerEpoch) calls) := by
  obtain ⟨held, holds⟩ := holds_setRun (Holds.empty conf producerId producerEpoch) calls
  exact holds.accounting

/-! ## Additions that succeed -/

/-- An addition, with the clock at the time of it. -/
abbrev Addition := Timestamp × ProducerMessage

def addAll (conf : ProducerConfig) (s : ProduceSet) (additions : List Addition) : ProduceSet :=
  additions.foldl (fun s a => (s.add conf a.1 a.2).2) s

/-- The additions that succeed. -/
def taken (conf : ProducerConfig) : ProduceSet → List Addition → List Addition
  | _, [] => []
  | s, a :: rest =>
    if (s.add conf a.1 a.2).1 = 0 then a :: taken conf (s.add conf a.1 a.2).2 rest
    else taken conf (s.add conf a.1 a.2).2 rest

/-- Those for a partition. -/
def takenFor (conf : ProducerConfig) (s : ProduceSet) (additions : List Addition) (tp : TopicPartition) : List Addition :=
  (taken conf s additions).filter fun a => partitionOf a.2 = tp

/-- The time of a message, in milliseconds; one without a time gets that of the clock. -/
def sentMillis (a : Addition) : ℤ := (if a.2.timestamp = {} then a.1 else a.2.timestamp).time.toInt.tdiv 1000000

/-! ## What records contain -/

/-- Keys, values and headers. -/
def contentsOf : Records → List (Bytes × Bytes × List RecordHeader)
  | .batch batch => batch.records.map fun record => (record.key, record.value, record.headers)
  | .legacy set => set.messages.map fun block => (block.message.key, block.message.value, [])
  | .unknown => []

def offsetsOf : Records → List Int64
  | .batch batch => batch.records.map (·.offsetDelta)
  | .legacy set => set.messages.map (·.offset)
  | .unknown => []

/-- The times, in nanoseconds. -/
def timesOf : Records → List ℤ
  | .batch batch =>
    batch.records.map fun record => batch.firstTimestamp.time.toInt + record.timestampDelta.toInt * 1000000
  | .legacy set => set.messages.map (·.message.timestamp.time.toInt)
  | .unknown => []

/-- The records have all of the messages, numbered from zero. -/
structure CarriesExactly (additions : List Addition) (records : Records) : Prop where
  contents : contentsOf records = additions.map fun a => (a.2.key, a.2.value, a.2.headers)
  offsets : offsetsOf records = (List.range additions.length).map Int64.ofNat
  times : timesOf records = additions.map (·.2.timestamp.time.toInt)

/-- The times are close enough for a difference in nanoseconds. -/
def InRange (additions : List Addition) : Prop :=
  ∀ a ∈ additions, ∀ b ∈ additions, (sentMillis a - sentMillis b) * 1000000 < 2 ^ 63

/-- The records have of the messages what their format has room for. -/
structure CarriesInFormat (conf : ProducerConfig) (additions : List Addition) (records : Records) : Prop where
  contents : contentsOf records = additions.map fun a =>
    (a.2.key, a.2.value, if conf.version.isAtLeast V0_11_0_0 then a.2.headers else [])
  offsets : offsetsOf records = if conf.version.isAtLeast V0_11_0_0 then (List.range additions.length).map Int64.ofNat
    else List.replicate additions.length 0
  times : if conf.version.isAtLeast V0_11_0_0 then InRange additions →
    timesOf records = additions.map (sentMillis · * 1000000)
    else if conf.version.isAtLeast V0_10_0_0 then timesOf records = additions.map (sentMillis · * 1000000)
    else timesOf records = List.replicate additions.length 0

/-- A request has records for just the partitions that something was added for, and these have what was added. -/
def EachCarries (carries : List Addition → Records → Prop) (added : TopicPartition → List Addition) (req : ProduceRequest) :
    Prop :=
  ∀ tp, (added tp = [] → req.records[tp]? = none) ∧
    (added tp ≠ [] → ∃ records, req.records[tp]? = some records ∧ carries (added tp) records)

/-! ## What is held -/

/-- An addition as it is held. -/
def entryOf (a : Addition) : Entry := (a.2, messageTime a.1 a.2)

private theorem messageTime_millis (a : Addition) : (entryOf a).2.time.toInt = sentMillis a * 1000000 :=
  Timestamp.toInt_truncated _

private theorem holds_addAll {held : TopicPartition → List Entry} (holds : Holds conf s held) (additions : List Addition) :
    Holds conf (addAll conf s additions) fun tp => held tp ++ (takenFor conf s additions tp).map entryOf := by
  induction additions generalizing s held with
  | nil => simpa [takenFor, taken, addAll] using holds
  | cons a rest ih =>
    by_cases rejected : Rejected conf held a.2
    · have same : s.add conf a.1 a.2 = (-1, s) := holds.add_rejected rejected
      have refused : taken conf s (a :: rest) = taken conf s rest := by
        rw [taken, same]
        exact if_neg (show (-1 : KError) ≠ 0 by decide)
      simpa only [takenFor, refused, addAll, List.foldl_cons, same] using ih holds
    · obtain ⟨success, next⟩ := holds.add_taken a.1 rejected
      have accepted : taken conf s (a :: rest) = a :: taken conf (s.add conf a.1 a.2).2 rest := by
        rw [taken, if_pos success]
      have holds' := ih next
      refine cast (congrArg (Holds conf (addAll conf s (a :: rest))) (funext fun tp => ?_)) holds'
      rw [takenFor, takenFor, accepted, List.filter_cons]
      by_cases same : partitionOf a.2 = tp
      · subst same
        rw [Function.update_self, if_pos (by simp), List.map_cons, List.append_assoc]
        rfl
      · rw [Function.update_of_ne (Ne.symm same), if_neg (by simpa using same)]

/-! ## What is built -/

variable (first : Addition) (additions : List Addition)

/-- The batch that holds some additions, in the request. -/
abbrev batchOf (conf : ProducerConfig) (s : ProduceSet) (first : Addition) (additions : List Addition) : RecordBatch :=
  finishBatch conf { newBatch conf s first.2 (entryOf first).2 with
    records := additions.map fun a => recordOf (entryOf first).2 a.2 (entryOf a).2 }

private theorem contentsOf_batchOf : contentsOf (.batch (batchOf conf s first additions)) =
    additions.map fun a => (a.2.key, a.2.value, a.2.headers) := by
  rw [contentsOf, finishBatch_records]
  refine List.ext_getElem (by simp) fun i _ _ => ?_
  simp [recordOf]

private theorem offsetsOf_batchOf : offsetsOf (.batch (batchOf conf s first additions)) =
    (List.range additions.length).map Int64.ofNat := by
  rw [offsetsOf, finishBatch_records]
  refine List.ext_getElem (by simp) fun i _ _ => ?_
  simp

private theorem timesOf_batchOf (inRange : InRange additions) (member : first ∈ additions) :
    timesOf (.batch (batchOf conf s first additions)) = additions.map (sentMillis · * 1000000) := by
  rw [timesOf, finishBatch_records, finishBatch_firstTimestamp]
  refine List.ext_getElem (by simp) fun i _ within => ?_
  have held : i < additions.length := by simpa using within
  have present : additions[i] ∈ additions := List.getElem_mem held
  have exact_ := Timestamp.toInt_millisSince (messageTime_millis additions[i]) (messageTime_millis first)
    (by linarith [inRange _ member _ present]) (inRange _ present _ member)
  simp only [List.getElem_mapIdx, List.getElem_map, newBatch, recordOf]
  rw [exact_, messageTime_millis first]
  ring

/-- The message set that holds some additions. -/
abbrev setOf_ (conf : ProducerConfig) (additions : List Addition) : MessageSet :=
  { messages := additions.map fun a => blockOf conf a.2 (entryOf a).2 }

private theorem contentsOf_setOf :
    contentsOf (.legacy (setOf_ conf additions)) = additions.map fun a => (a.2.key, a.2.value, []) := by
  rw [contentsOf, List.map_map]
  refine List.map_congr_left fun a _ => ?_
  simp only [Function.comp_apply, blockOf]
  split <;> rfl

private theorem offsetsOf_setOf : offsetsOf (.legacy (setOf_ conf additions)) = List.replicate additions.length 0 := by
  rw [offsetsOf, List.map_map, ← List.map_const']
  rfl

private theorem timestamp_blockOf (a : Addition) : (blockOf conf a.2 (entryOf a).2).message.timestamp =
    if conf.version.isAtLeast V0_10_0_0 then (entryOf a).2 else {} := by
  unfold blockOf
  dsimp only
  split <;> rfl

private theorem timesOf_setOf : timesOf (.legacy (setOf_ conf additions)) =
    if conf.version.isAtLeast V0_10_0_0 then additions.map (sentMillis · * 1000000)
    else List.replicate additions.length 0 := by
  rw [timesOf, List.map_map]
  split
  next stamped =>
    refine List.map_congr_left fun a _ => ?_
    rw [Function.comp_apply, timestamp_blockOf, if_pos stamped]
    exact messageTime_millis a
  next unstamped =>
    rw [← List.map_const']
    refine List.map_congr_left fun a _ => ?_
    rw [Function.comp_apply, timestamp_blockOf, if_neg unstamped]
    exact Int64.toInt_zero

/-- The records of a partition in a request have what was added for it. -/
theorem carries_requestRecords (member : first ∈ additions) : CarriesInFormat conf additions
      (requestRecords conf (recordsOf conf s (entryOf first) (additions.map entryOf))) := by
  unfold recordsOf
  rw [List.map_map, List.map_map]
  split
  next modern =>
    refine ⟨?_, ?_, ?_⟩
    · simp only [if_pos modern]
      exact contentsOf_batchOf first additions
    · rw [if_pos modern]
      exact offsetsOf_batchOf first additions
    · rw [if_pos modern]
      exact fun inRange => timesOf_batchOf first additions inRange member
  next old =>
    refine ⟨?_, ?_, ?_⟩
    · simp only [if_neg old]
      exact contentsOf_setOf additions
    · rw [if_neg old]
      exact offsetsOf_setOf additions
    · rw [if_neg old]
      have times : timesOf (.legacy (setOf_ conf additions)) = _ := timesOf_setOf additions
      split
      next stamped => exact times.trans (if_pos stamped)
      next unstamped => exact times.trans (if_neg unstamped)

/-- The request built after any additions, when nothing is compressed or the batches are, has for each partition
what was added for it. -/
theorem build_request_faithful (producerId : Int64) (producerEpoch : Int16) (additions : List Addition)
    (plain : conf.version.isAtLeast V0_11_0_0 ∨ conf.compression = .None) :
    ∃ req, buildRequest conf (addAll conf (create producerId producerEpoch) additions) = .ok req ∧
      EachCarries (CarriesInFormat conf) (takenFor conf (create producerId producerEpoch) additions) req := by
  have holds := holds_addAll (Holds.empty conf producerId producerEpoch) additions
  obtain ⟨req, built, records⟩ := holds.buildRequest plain
  refine ⟨req, built, fun tp => ?_⟩
  rw [records]
  cases added : takenFor conf (create producerId producerEpoch) additions tp with
  | nil => exact ⟨fun _ => rfl, fun nonempty => absurd rfl nonempty⟩
  | cons first rest =>
    refine ⟨nofun, fun _ => ⟨_, rfl, ?_⟩⟩
    exact carries_requestRecords first (first :: rest) List.mem_cons_self

theorem build_two_faithful : ∃ req,
    buildRequest {} (addAll {} (create 1 0) [({}, { topic := [116] }), ({}, { topic := [117], key := [1] })]) = .ok req ∧
      EachCarries (CarriesInFormat {})
        (takenFor {} (create 1 0) [({}, { topic := [116] }), ({}, { topic := [117], key := [1] })]) req :=
  build_request_faithful 1 0 _ (.inl (by decide))

/-- The blocks of an uncompressed message set are not numbered. -/
theorem message_set_unnumbered : ¬ ∃ req,
    buildRequest { version := V0_10_0_0 } (addAll { version := V0_10_0_0 } (create 1 0)
      [(⟨0⟩, { topic := [116], timestamp := ⟨1000000⟩ }), (⟨0⟩, { topic := [116], timestamp := ⟨1000000⟩ })]) = .ok req ∧
      EachCarries CarriesExactly (takenFor { version := V0_10_0_0 } (create 1 0)
        [(⟨0⟩, { topic := [116], timestamp := ⟨1000000⟩ }), (⟨0⟩, { topic := [116], timestamp := ⟨1000000⟩ })]) req := by
  rintro ⟨req, built, carries⟩
  obtain rfl := Except.ok.inj built
  obtain ⟨records, found, carried⟩ := (carries ([116], 0)).2 (by decide)
  obtain rfl := Option.some.inj found
  exact absurd carried.offsets (by decide)

end Coev.Kafka.ProduceSet
