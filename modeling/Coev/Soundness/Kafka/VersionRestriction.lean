import Coev.Soundness.Kafka.RequestContents
import Coev.Soundness.Kafka.VersionOrder

/-! # Produce requests after their version is restricted

The records of a request are made for the configured version. Restricting the version changes no records, so a broker
that takes message sets only is sent record batches.
-/

namespace Coev.Kafka

/-! ## The selected version -/

private theorem toInt_min (a b : Int16) : (min a b).toInt = min a.toInt b.toInt := by
  change (if a ≤ b then a else b).toInt = _
  split
  · next le => exact (min_eq_left (Int16.le_iff_toInt_le.mp le)).symm
  · next not => exact (min_eq_right (le_of_not_ge fun le => not (Int16.le_iff_toInt_le.mpr le))).symm

private theorem toInt_max (a b : Int16) : (max a b).toInt = max a.toInt b.toInt := by
  change (if a ≤ b then b else a).toInt = _
  split
  · next le => exact (max_eq_right (Int16.le_iff_toInt_le.mp le)).symm
  · next not => exact (max_eq_left (le_of_not_ge fun le => not (Int16.le_iff_toInt_le.mpr le))).symm

theorem ApiVersionRange.toInt_selected (range : ApiVersionRange) (clientMax : Int16) : (range.selected clientMax).toInt =
    min clientMax.toInt (max range.minVersion.toInt (min clientMax.toInt range.maxVersion.toInt)) := by
  simp only [ApiVersionRange.selected, toInt_min, toInt_max]

namespace ProduceSet

variable {conf : ProducerConfig} {s : ProduceSet}
variable {held : TopicPartition → List Entry}

/-- The messages of a partition. -/
def messagesOf (s : ProduceSet) (tp : TopicPartition) : List ProducerMessage := s.messages[tp]?.elim [] (·.messages)

/-- Keys, values and headers, as a broker decodes them in a request of the version: it takes message sets below version
3, and record batches from version 3 on. -/
def decodedAt (version : Int16) : Option Records → Option (List (Bytes × Bytes × List RecordHeader))
  | none => some []
  | some (.batch batch) => if 3 ≤ version then some (contentsOf (.batch batch)) else none
  | some (.legacy set) => if 3 ≤ version then none else some (contentsOf (.legacy set))
  | some .unknown => none

/-- The request that is sent: its version is in the range of the broker if the range has a version that the client has,
and for each partition the broker decodes the messages that were added. -/
structure WellFormed (s : ProduceSet) (clientMax : Int16) (brokerVersions : ApiVersionMap) (req : ProduceRequest) :
    Prop where
  inRange : ∀ range, brokerVersions[apiKeyProduce]? = some range →
    (∃ version, range.minVersion ≤ version ∧ version ≤ range.maxVersion ∧ version ≤ clientMax) →
      range.minVersion ≤ req.version ∧ req.version ≤ range.maxVersion
  decoded : ∀ tp, decodedAt req.version req.records[tp]? =
    some ((s.messagesOf tp).map fun msg => (msg.key, msg.value, msg.headers))

/-- The range of the broker, if it names one, goes up to record batches. -/
def TakesBatches (brokerVersions : ApiVersionMap) : Prop :=
  ∀ range, brokerVersions[apiKeyProduce]? = some range → 3 ≤ range.minVersion ∨ 3 ≤ range.maxVersion

/-- Message sets have room for the messages, which are not compressed. -/
def FitsSets (conf : ProducerConfig) (s : ProduceSet) : Prop :=
  conf.compression = .None ∧ ∀ tp, ∀ msg ∈ s.messagesOf tp, msg.headers = []

/-! ## Versions -/

private theorem isAtLeast_trans {v o p : KafkaVersion} (first : v.isAtLeast o = true) (second : o.isAtLeast p = true) :
    v.isAtLeast p = true := by
  rw [KafkaVersion.isAtLeast_iff] at first second ⊢
  exact second.trans first

/-- Before batches the request has a version of message sets. -/
theorem requestVersion_lt (old : ¬ conf.version.isAtLeast V0_11_0_0 = true) : (requestVersion conf).toInt < 3 := by
  have not {v : KafkaVersion} (later : v.isAtLeast V0_11_0_0 = true) : ¬ conf.version.isAtLeast v = true :=
    fun atLeast => old (isAtLeast_trans atLeast later)
  unfold requestVersion
  rw [if_neg (not (by decide)), if_neg (not (by decide)), if_neg (not (by decide)), if_neg old]
  split <;> decide

private theorem toInt_restrict_le (key clientMax : Int16) (brokerVersions : ApiVersionMap) :
    (restrictApiVersion key clientMax brokerVersions).toInt ≤ clientMax.toInt := by
  unfold restrictApiVersion
  split
  · rw [ApiVersionRange.toInt_selected]
    exact min_le_left _ _
  · exact le_refl _

/-- A version of batches stays one if and only if the broker takes batches. -/
theorem three_le_restrict_iff {clientMax : Int16} (batches : 3 ≤ clientMax.toInt) (brokerVersions : ApiVersionMap) :
    3 ≤ restrictApiVersion apiKeyProduce clientMax brokerVersions ↔ TakesBatches brokerVersions := by
  simp only [TakesBatches, Int16.le_iff_toInt_le, show (3 : Int16).toInt = 3 from rfl]
  unfold restrictApiVersion
  cases brokerVersions[apiKeyProduce]? with
  | none => exact iff_of_true batches nofun
  | some range =>
    simp only [Option.some.injEq, forall_eq', ApiVersionRange.toInt_selected]
    omega

/-- The selected version is in the range of the broker whenever that has a version of the client's. -/
theorem restrict_inRange {clientMax : Int16} {brokerVersions : ApiVersionMap} {range : ApiVersionRange}
    (named : brokerVersions[apiKeyProduce]? = some range)
    (common : ∃ version, range.minVersion ≤ version ∧ version ≤ range.maxVersion ∧ version ≤ clientMax) :
    range.minVersion ≤ restrictApiVersion apiKeyProduce clientMax brokerVersions ∧
      restrictApiVersion apiKeyProduce clientMax brokerVersions ≤ range.maxVersion := by
  obtain ⟨version, low, high, mine⟩ := common
  rw [restrictApiVersion, named]
  simp only [Int16.le_iff_toInt_le] at low high mine ⊢
  rw [ApiVersionRange.toInt_selected]
  omega

/-! ## Records -/

theorem Holds.messagesOf (holds : Holds conf s held) (tp : TopicPartition) :
    s.messagesOf tp = (held tp).map Prod.fst := by
  rw [ProduceSet.messagesOf, holds.partitions]
  cases held tp <;> rfl

/-- The records of a partition in the request have the keys and values of its messages, and the headers if they are in a
batch. -/
theorem contentsOf_requestRecords (first : Entry) (entries : List Entry) :
    contentsOf (requestRecords conf (recordsOf conf s first entries)) = entries.map fun entry =>
      (entry.1.key, entry.1.value, if conf.version.isAtLeast V0_11_0_0 then entry.1.headers else []) := by
  unfold recordsOf
  split
  · rw [requestRecords, contentsOf, finishBatch_records]
    refine List.ext_getElem (by simp) fun i _ _ => ?_
    simp [recordOf]
  · change List.map _ (List.map _ entries) = _
    rw [List.map_map]
    refine List.map_congr_left fun entry _ => ?_
    simp only [Function.comp_apply, blockOf]
    split <;> rfl

/-- What a broker decodes of the records of a partition. -/
theorem decodedAt_requestRecords (version : Int16) (first : Entry) (entries : List Entry) :
    decodedAt version (some (requestRecords conf (recordsOf conf s first entries))) =
      if 3 ≤ version ↔ conf.version.isAtLeast V0_11_0_0 = true then some (entries.map fun entry =>
        (entry.1.key, entry.1.value, if conf.version.isAtLeast V0_11_0_0 then entry.1.headers else [])) else none := by
  have contents : contentsOf (requestRecords conf (recordsOf conf s first entries)) = _ :=
    contentsOf_requestRecords first entries
  unfold recordsOf at contents ⊢
  split at contents
  · next modern => simp only [modern, if_true, iff_true, requestRecords, decodedAt] at contents ⊢
                   rw [contents]
  · next old =>
    simp only [old, if_false, iff_false, requestRecords, decodedAt, Bool.false_eq_true] at contents ⊢
    rw [contents, ite_not]

/-! ## Requests -/

/-- A request is well formed if its records are decoded: the version is in the range whenever it can be. -/
theorem wellFormed_iff (s : ProduceSet) (brokerVersions : ApiVersionMap) (req : ProduceRequest) :
    s.WellFormed req.version brokerVersions (req.restricted brokerVersions) ↔
      ∀ tp, decodedAt (restrictApiVersion apiKeyProduce req.version brokerVersions) req.records[tp]? =
        some ((s.messagesOf tp).map fun msg => (msg.key, msg.value, msg.headers)) :=
  ⟨fun wellFormed => wellFormed.decoded, fun decoded => ⟨fun _ named common => restrict_inRange named common, decoded⟩⟩

/-- A message set that is to be compressed has no place in a new request. -/
theorem buildRequest_of_compressed (holds : Holds conf s held) (old : ¬ conf.version.isAtLeast V0_11_0_0 = true)
    (compressed : conf.compression ≠ .None) {tp : TopicPartition} (some_ : held tp ≠ []) :
    buildRequest conf s = .error .assertion := by
  obtain ⟨first, rest, entries⟩ := List.exists_cons_of_ne_nil some_
  have found := holds.partitions tp
  rw [entries] at found
  have member := Std.ExtTreeMap.mem_toList_iff_getElem?_eq_some.mpr found
  obtain ⟨entry, others, list⟩ := List.exists_cons_of_ne_nil (List.ne_nil_of_mem member)
  have isHeld := holds.partitions entry.1
  rw [Std.ExtTreeMap.mem_toList_iff_getElem?_eq_some.mp (list ▸ List.mem_cons_self)] at isHeld
  have legacy : ∃ set, entry.2.records = .legacy set := by
    cases entries : held entry.1 with
    | nil =>
      rw [entries] at isHeld
      cases isHeld
    | cons first rest =>
      rw [entries] at isHeld
      rw [Option.some.inj isHeld]
      exact ⟨_, if_neg old⟩
  obtain ⟨set, legacy⟩ := legacy
  rw [buildRequest, list, List.foldlM_cons, legacy, addRecords, if_neg compressed, ProduceRequest.emplaceMessage,
    emptyRequest, Std.ExtTreeMap.getElem?_empty]
  rfl

theorem decoded_iff (holds : Holds conf s held) (version : Int16) :
    (∀ tp, decodedAt version (s.messages.map fun _ pset => requestRecords conf pset.records)[tp]? =
      some ((s.messagesOf tp).map fun msg => (msg.key, msg.value, msg.headers))) ↔
    ∀ tp, s.messagesOf tp = [] ∨ (3 ≤ version ↔ conf.version.isAtLeast V0_11_0_0 = true) ∧
      (conf.version.isAtLeast V0_11_0_0 = true ∨ ∀ msg ∈ s.messagesOf tp, msg.headers = []) := by
  refine forall_congr' fun tp => ?_
  rw [Std.ExtTreeMap.getElem?_map, holds.partitions, holds.messagesOf]
  cases held tp with
  | nil => exact iff_of_true rfl (.inl rfl)
  | cons first rest =>
    have nonempty : ¬ (first :: rest).map Prod.fst = [] := by simp
    rw [or_iff_right nonempty, List.map_map]
    change decodedAt version (some (requestRecords conf (recordsOf conf s first (first :: rest)))) = _ ↔ _
    rw [decodedAt_requestRecords]
    split
    · next format =>
      rw [and_iff_right format, Option.some.injEq, List.map_inj_left, List.forall_mem_map]
      cases conf.version.isAtLeast V0_11_0_0 with
      | true => simp
      | false =>
        simp only [Bool.false_eq_true, if_false, false_or, Function.comp_apply, Prod.mk.injEq, true_and]
        exact forall₂_congr fun _ _ => eq_comm
    · next format => exact iff_of_false nofun fun both => format both.1

end ProduceSet

end Coev.Kafka
