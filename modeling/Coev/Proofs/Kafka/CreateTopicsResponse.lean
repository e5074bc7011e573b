import Coev.Model.Kafka.AdminMessages
import Coev.Proofs.Kafka.Costs

/-! # Answers to creations of topics: what comes back
The error of a configuration is not read from the bytes of its tagged field but from those behind it. Too few bytes are
left then for the answer that was sent, whatever they are read as.
-/

namespace Coev.Kafka

open EStateM (bind_eq_ok_iff)
open Std (ExtTreeMap)
open ByteString DecodeInto PacketDecoder PacketEncoder Leb128

variable {strict flexible : Bool}
variable {pd pd' : PacketDecoder}

/-! ## Errors -/

namespace TopicError

/-- What a version has of an error; the rest is as in a fresh one. -/
def atVersion (version : Int16) (topicError : TopicError) : TopicError :=
  { topicError with errMsg := if 1 ≤ version then topicError.errMsg else [] }

theorem carries (version : Int16) (topicError : TopicError) :
    CarriesInto strict flexible (topicError.encode version) (decode version) {} (topicError.atVersion version) 1 := by
  apply CarriesInto.encodeFailWith
  apply CarriesInto.decodeFailWith
  apply CarriesInto.conclude
  · apply CarriesInto.seq
    · exact (carries_putInt16 topicError.err).field _ _ _
    · exact CarriesInto.inVersions fun _ => (carries_putNullableString topicError.errMsg).field _ _ _
  · dsimp only [atVersion]
    split_ifs <;> rfl
  · omega

/-- What an error costs in the versions with a message. -/
def cost (topicError : TopicError) : ℕ := 2 + stringCost topicError.errMsg

theorem costs {version : Int16} (present : 1 ≤ version) : Costs (decode version) cost := by
  apply Costs.failWith
  rw [inVersions_of present]
  exact (charges_getInt16.field err fun _ _ => rfl).seq (charges_getString.field errMsg fun _ _ => rfl)
    (Keeps.fieldOr fun _ _ => rfl)

theorem weighs {version : Int16} (present : 1 ≤ version) (topicError : TopicError) :
    Weighs (topicError.encode version) topicError.cost := by
  apply Weighs.encodeFailWith
  rw [inVersions_of present]
  exact (weighs_putInt16 _).bind (weighs_putNullableString _)

end TopicError

/-! ## Configurations -/

namespace CreatableTopicConfigs

theorem encode_eq (config : CreatableTopicConfigs) : config.encode = failWith ErrEncodeError ((do
      putNullableString config.value
      putBool config.readOnly
      putInt8 config.configSource
      putBool config.isSensitive) >>= fun _ => putEmptyTaggedFieldArray) := by
  simp only [encode, bind_assoc]

theorem carries (config : CreatableTopicConfigs) : CarriesInto strict flexible config.encode decode {} config 1 := by
  rw [encode_eq]
  apply CarriesInto.encodeFailWith
  apply CarriesInto.conclude
  · apply CarriesInto.seq
    · apply CarriesInto.decodeFailWith
      apply CarriesInto.seq
      · exact (carries_putNullableString config.value).field _ _ _
      apply CarriesInto.seq
      · exact (carries_putBool config.readOnly).field _ _ _
      apply CarriesInto.seq
      · exact (carries_putInt8 config.configSource).field _ _ _
      · exact (carries_putBool config.isSensitive).field _ _ _
    · exact carries_putEmptyTaggedFieldArray.skip _
  · rfl
  · omega

/-- What a configuration costs. -/
def cost (config : CreatableTopicConfigs) : ℕ := stringCost config.value + (1 + (1 + 1)) + 1

theorem costs : Costs decode cost := by
  apply Costs.seq
  · apply Costs.failWith
    apply (charges_getString.field value fun _ _ => rfl).seq
    · apply (charges_getBool.field readOnly fun _ _ => rfl).seq
      · apply (charges_getInt8.field configSource fun _ _ => rfl).seq
        · exact charges_getBool.field isSensitive fun _ _ => rfl
        · exact Keeps.const 1 _
      · exact Keeps.const 1 _
    · apply Keeps.seq
      · exact Keeps.fieldOr fun _ _ => rfl
      apply Keeps.seq <;> exact Keeps.fieldOr fun _ _ => rfl
  · exact charges_getEmptyTaggedFieldArray.skip
  · exact Keeps.readOr _ _

theorem weighs (config : CreatableTopicConfigs) : Weighs config.encode config.cost := by
  rw [encode_eq]
  apply Weighs.encodeFailWith
  apply Weighs.bind
  · apply (weighs_putNullableString _).bind
    apply (weighs_putBool _).bind
    exact (weighs_putInt8 _).bind (weighs_putBool _)
  · exact weighs_putEmptyTaggedFieldArray

end CreatableTopicConfigs

namespace CreatableTopicResult

theorem carries_config (config : Bytes × CreatableTopicConfigs) (configs : ExtTreeMap Bytes CreatableTopicConfigs) :
    CarriesInto strict flexible (encodeConfig config) decodeConfig configs (configs.insert config.1 config.2) 1 := by
  exact ((carries_putString config.1).seqInto (config.2.carries.aside _ configs)).weaken (Nat.le_add_right _ _)

theorem sized_config (config : Bytes × CreatableTopicConfigs) : Sized flexible (encodeConfig config) 1 :=
  (@carries_config false flexible config ∅).sized

theorem carries_configs (result o : CreatableTopicResult) :
    CarriesInto false true result.encodeConfigs decodeConfigs o { o with configs := result.configs } 0 := by
  have all : result.configs.toList.foldl (fun m entry => m.insert entry.1 entry.2) ∅ = result.configs :=
    (ExtTreeMap.foldl_insert_order (.refl _) id).trans (ExtTreeMap.map_unchanged _)
  have loop :
      CarriesInto false true (result.configs.toList.forM encodeConfig)
        (rounds decodeConfig result.configs.toList.length) ∅
      result.configs result.configs.toList.length := by
    have inserted :
        CarriesInto false true (result.configs.toList.forM encodeConfig)
          (rounds decodeConfig result.configs.toList.length) ∅
        (result.configs.toList.foldl (fun m entry => m.insert entry.1 entry.2) ∅) result.configs.toList.length :=
      CarriesInto.rounds fun front config rest _ => carries_config config _
    rwa [all] at inserted
  have whole : CarriesInto false true (result.configs.toList.forM encodeConfig) (do
      update ({ · with configs := ∅ })
      part configs (fun configs result => { result with configs }) (rounds decodeConfig result.configs.toList.length)) o
      { o with configs := result.configs } result.configs.toList.length := by
    apply CarriesInto.afterUpdate
    exact CarriesInto.part loop
  rw [encodeConfigs, ← ExtTreeMap.length_toList]
  apply CarriesInto.counted (fun isFixed => Bool.noConfusion isFixed) whole
  intro small
  rw [int32_ofNat_loop small]

/-! ### Tagged fields -/

/-- What became of the tagged fields. -/
def untagged (tagged : CreatableTopicResult × Bool) : CreatableTopicResult :=
  if tagged.2 then tagged.1 else { tagged.1 with topicConfigErrorCode := 0 }

/-- The fields of the flexible mode, behind their number. -/
def decodeFields : DecodeInto (CreatableTopicResult × Bool) Unit :=
  read getUVariant >>= fun count => rounds (taggedField [(0, tag0)]) count.toNat

theorem decodeTags_eq_ok_iff {result result' : CreatableTopicResult} :
    decodeTags (result, pd) = .ok () (result', pd') ↔
      pd.flexible ≠ 0 ∧ ∃ tagged, decodeFields ((result, false), pd) = .ok () (tagged, pd') ∧ untagged tagged = result' := by
  rw [decodeTags, getTaggedFieldArray]
  by_cases isFixed : pd.flexible = 0
  · rw [if_pos isFixed]
    exact ⟨nofun, fun both => absurd isFixed both.1⟩
  rw [if_neg isFixed, and_iff_right isFixed]
  change _ ↔
    ∃ tagged, (read getUVariant >>= fun count => rounds (taggedField [(0, tag0)]) count.toNat) ((result, false), pd) =
    .ok () (tagged, pd') ∧ untagged tagged = result'
  rcases (read getUVariant >>= fun count => rounds (taggedField [(0, tag0)]) count.toNat) ((result, false), pd) with
    ⟨_, ⟨tagged, hasTag0⟩, pd₁⟩ | ⟨e, ⟨tagged, hasTag0⟩, pd₁⟩
  · constructor
    · intro run
      cases hasTag0 <;> cases run <;> exact ⟨_, rfl, rfl⟩
    · rintro ⟨_, ⟨⟩, rfl⟩
      cases hasTag0 <;> rfl
  · constructor
    · rintro ⟨⟩
    · rintro ⟨_, ⟨⟩, -⟩

theorem carries_putUVarint {x : UInt64} (small : x.toNat < 2 ^ 63) : Carries false true (putUVarint x) getUVariant x 1 := by
  refine ⟨_, writes_putUVarint x, ?_⟩
  rintro bytes ⟨⟩
  refine ⟨?_, fun _ => ⟨reads_getUVariant small, fun isStrict => Bool.noConfusion isStrict⟩⟩
  rw [length_encodeUVariant]
  exact size_pos _

theorem carries_noTags (result : CreatableTopicResult) :
    CarriesInto false true (encodeTags 0) decodeTags result { result with topicConfigErrorCode := 0 } 1 := by
  refine ⟨_, writes_putEmptyTaggedFieldArray, ?_⟩
  rintro bytes ⟨⟩
  rw [if_pos rfl]
  refine ⟨?_, fun _ => ⟨fun pd rest mode ahead => ?_, fun isStrict => Bool.noConfusion isStrict⟩⟩
  · rw [length_encodeUVariant]
    exact size_pos _
  · have count := reads_getUVariant (x := 0) (by decide) pd rest mode ahead
    have notFixed : pd.flexible ≠ 0 := fun isFixed => Bool.noConfusion (mode.mp isFixed)
    refine decodeTags_eq_ok_iff.mpr ⟨notFixed, (result, false), ?_, rfl⟩
    rw [decodeFields, EStateM.bind_of_ok (read_eq_ok_iff.mpr ⟨count, rfl⟩)]
    rfl

/-- The decoder of the field reads what stands behind it. -/
theorem decoder_consumes {tagged tagged' : CreatableTopicResult × Bool}
    (run : inFlexible tag0 (tagged, pd) = .ok () (tagged', pd')) : ∃ n, pd' = pd.advance n ∧ 2 ≤ n ∧ n ≤ pd.remaining := by
  rw [inFlexible] at run
  split at run
  · next o pd₁ inner =>
    have mode : InMode true { pd with flexible := pd.flexible + 1 } :=
      ⟨fun isFixed => absurd isFixed (Nat.succ_ne_zero _), nofun⟩
    have costs : Costs tag0 fun _ => 2 := charges_getInt16.field (fun tagged => tagged.1.topicConfigErrorCode) fun _ _ => rfl
    obtain ⟨n, rfl, enough, room⟩ := costs _ _ _ _ mode inner
    cases run
    exact ⟨n, rfl, enough, room⟩
  · cases run

theorem outruns_decoder (tagged : CreatableTopicResult × Bool) :
    Outruns (pure ()) (inFlexible tag0) tagged (fun _ => True) 2 := by
  refine ⟨_, Writes.pure (), ?_⟩
  rintro bytes ⟨⟩ - pd rest - - tagged' pd' run -
  exact decoder_consumes run

theorem carries_fieldBytes (code : Int16) :
    Carries false true (putInt16 code) (getRawBytes 2) (bigEndian 2 code.toUInt16.toNat) 2 := by
  refine ⟨_, writes_putInt16 code, ?_⟩
  rintro bytes ⟨⟩
  have two : Int32.ofNat (bigEndian 2 code.toUInt16.toNat).length = 2 := by
    rw [length_bigEndian]
    rfl
  have reads := @reads_getRawBytes true (bigEndian 2 code.toUInt16.toNat) (by rw [length_bigEndian]; decide)
  rw [two] at reads
  exact ⟨(length_bigEndian 2 _).ge, fun _ => ⟨reads, fun isStrict => Bool.noConfusion isStrict⟩⟩

theorem outruns_fields (code : Int16) (tagged : CreatableTopicResult × Bool) :
    Outruns (do putUVarint 1; putUVarint 0; putUVarint 2; putInt16 code) decodeFields tagged (fun _ => True) 2 := by
  have one : rounds (taggedField [(0, tag0)]) (1 : UInt64).toNat = (do
      let id ← read getUVariant
      let length ← read getUVariant
      let _ ← read (getRawBytes length.toInt64.toInt32)
      decoderOf [(0, tag0)] id) := by
    exact bind_pure_unit
  have last : (putInt16 code : Encode Unit) = putInt16 code >>= fun _ => pure () := (bind_pure_unit).symm
  rw [last]
  apply (carries_putUVarint (x := 1) (by decide)).outruns
  rw [one]
  apply (carries_putUVarint (x := 0) (by decide)).outruns
  apply (carries_putUVarint (x := 2) (by decide)).outruns
  exact (carries_fieldBytes code).outruns (outruns_decoder tagged)

/-- The field of an error is passed over, and the error is read behind it. -/
theorem outruns_tags {code : Int16} (some_ : code ≠ 0) (result : CreatableTopicResult) :
    Outruns (encodeTags code) decodeTags result (fun _ => True) 2 := by
  rw [encodeTags, if_neg some_]
  obtain ⟨output, writes, each⟩ := outruns_fields code (result, false)
  refine ⟨output, writes, fun bytes member small pd rest mode ahead result' pd' run _ => ?_⟩
  obtain ⟨-, tagged, fields, -⟩ := decodeTags_eq_ok_iff.mp run
  exact each bytes member small pd rest mode ahead tagged pd' fields trivial

/-- What an error costs: a field, but for none. -/
def tagCost (code : Int16) : ℕ := if code = 0 then 1 else 5

theorem decoderOf_tag0 (id : UInt64) : decoderOf [(0, tag0)] id = if id = 0 then inFlexible tag0 else return () := by
  by_cases zero : id = 0
  · rw [if_pos zero, zero]
    rfl
  · rw [if_neg zero, decoderOf, List.lookup_cons, beq_false_of_ne zero]
    rfl

theorem taggedField_consumes {tagged tagged' : CreatableTopicResult × Bool} (mode : InMode true pd)
    (run : taggedField [(0, tag0)] (tagged, pd) = .ok () (tagged', pd')) :
    ∃ n, pd' = pd.advance n ∧ n ≤ pd.remaining ∧ (tagged'.2 = true → tagged.2 = true ∨ 4 ≤ n) := by
  obtain ⟨id, ⟨t₁, pd₁⟩, first, run⟩ := bind_eq_ok_iff.mp run
  obtain ⟨length, ⟨t₂, pd₂⟩, second, run⟩ := bind_eq_ok_iff.mp run
  obtain ⟨bytes, ⟨t₃, pd₃⟩, third, last⟩ := bind_eq_ok_iff.mp run
  obtain ⟨read, rfl⟩ := read_eq_ok_iff.mp first
  obtain ⟨read', rfl⟩ := read_eq_ok_iff.mp second
  obtain ⟨read'', rfl⟩ := read_eq_ok_iff.mp third
  obtain ⟨i, rfl, enough, room⟩ := charges_some_getUVariant pd id pd₁ mode read
  obtain ⟨j, rfl, enough', room'⟩ := charges_some_getUVariant _ length pd₂ (mode.advance i) read'
  have some_ : 1 ≤ i := enough
  have some_' : 1 ≤ j := enough'
  obtain ⟨k, rfl, -, room''⟩ := charges_getRawBytes _ _ bytes pd₃ ((mode.advance i).advance j) read''
  simp only [remaining_advance] at room' room''
  rw [advance_advance, advance_advance, decoderOf_tag0] at last
  split at last
  · obtain ⟨n, rfl, two, room₄⟩ := decoder_consumes last
    rw [remaining_advance] at room₄
    exact ⟨i + (j + k) + n, advance_advance pd _ n, by omega, fun _ => .inr (by omega)⟩
  · cases last
    exact ⟨i + (j + k), rfl, by omega, .inl⟩

theorem pays_taggedField : Pays (taggedField [(0, tag0)])
      (fun (tagged : CreatableTopicResult × Bool) (_ : Unit) => tagged.2 = true) fun _ => 4 := by
  intro tagged pd tagged' pd' mode run
  obtain ⟨n, moved, room, pays⟩ := taggedField_consumes mode run
  exact ⟨(), n, moved, room, fun _ has => (pays has).imp id fun enough => ⟨rfl, enough⟩⟩

theorem costs_tags : Costs decodeTags fun result => tagCost result.topicConfigErrorCode := by
  intro result pd result' pd' mode run
  obtain ⟨-, tagged, fields, rfl⟩ := decodeTags_eq_ok_iff.mp run
  obtain ⟨count, ⟨start, pd₁⟩, first, others⟩ := bind_eq_ok_iff.mp fields
  obtain ⟨read, rfl⟩ := read_eq_ok_iff.mp first
  obtain ⟨m, rfl, enough, room⟩ := charges_some_getUVariant pd count pd₁ mode read
  have some_ : 1 ≤ m := enough
  cases has : tagged.2 with
  | false =>
    obtain ⟨n, rfl, -, room'⟩ := pays_taggedField.rounds count.toNat List.nodup_nil (mode.advance m) others nofun nofun
    have free : (untagged tagged).topicConfigErrorCode = 0 := by
      rw [untagged, has, if_neg Bool.false_ne_true]
    rw [remaining_advance] at room'
    refine ⟨m + n, advance_advance pd m n, ?_, by omega⟩
    dsimp only
    rw [free, tagCost, if_pos rfl]
    omega
  | true =>
    obtain ⟨n, rfl, enough', room'⟩ := pays_taggedField.rounds count.toNat (List.nodup_singleton ()) (mode.advance m) others
      (fun _ _ => Bool.false_ne_true) fun _ _ => has
    have most (code : Int16) : tagCost code ≤ 5 := by
      rw [tagCost]
      split <;> omega
    rw [remaining_advance] at room'
    rw [List.map_singleton, List.sum_singleton] at enough'
    exact ⟨m + n, advance_advance pd m n, (most _).trans (by omega), by omega⟩

theorem weighs_tags (code : Int16) : Weighs (encodeTags code) (tagCost code) := by
  rw [encodeTags, tagCost]
  split
  · exact weighs_putEmptyTaggedFieldArray
  · exact (weighs_putUVarint 1).bind ((weighs_putUVarint 0).bind ((weighs_putUVarint 2).bind (weighs_putInt16 code)))

/-! ### Costs -/

/-- What a configuration costs with its name. -/
def configCost (config : Bytes × CreatableTopicConfigs) : ℕ := stringCost config.1 + config.2.cost

/-- What the configurations cost. -/
def configsCost (configs : ExtTreeMap Bytes CreatableTopicConfigs) : ℕ :=
  size (configs.size + 1) + (configs.toList.map configCost).sum

theorem decodeConfig_inserts {configs configs' : ExtTreeMap Bytes CreatableTopicConfigs}
    (run : decodeConfig (configs, pd) = .ok () (configs', pd')) :
    ∃ name config pd₁, getString pd = .ok name pd₁ ∧ CreatableTopicConfigs.decode ({}, pd₁) = .ok () (config, pd') ∧
      configs' = configs.insert name config := by
  obtain ⟨name, ⟨start, pd₁⟩, first, last⟩ := bind_eq_ok_iff.mp run
  obtain ⟨read, rfl⟩ := read_eq_ok_iff.mp first
  obtain ⟨config, inner, rfl⟩ := aside_eq_ok_iff.mp last
  exact ⟨name, config, pd₁, read, inner, rfl⟩

theorem pays_decodeConfig : Pays decodeConfig (fun configs config => configs[config.1]? = some config.2) configCost := by
  intro configs pd configs' pd' mode run
  obtain ⟨name, config, pd₁, read, inner, rfl⟩ := decodeConfig_inserts run
  obtain ⟨m, rfl, enough, room⟩ := charges_getString pd name pd₁ mode read
  obtain ⟨n, rfl, enough', room'⟩ := CreatableTopicConfigs.costs _ _ config pd' (mode.advance m) inner
  rw [remaining_advance] at room'
  refine ⟨(name, config), m + n, advance_advance pd m n, by omega, ?_⟩
  rintro ⟨k, v⟩ found
  rw [ExtTreeMap.getElem?_insert] at found
  split at found
  · next same =>
    obtain rfl := Std.LawfulEqCmp.eq_of_compare same
    obtain rfl := Option.some.inj found
    exact .inr ⟨rfl, Nat.add_le_add enough enough'⟩
  · exact .inl found

theorem rounds_decodeConfig_size {n : ℕ} {configs configs' : ExtTreeMap Bytes CreatableTopicConfigs}
    (run : rounds decodeConfig n (configs, pd) = .ok () (configs', pd')) : configs'.size ≤ configs.size + n := by
  induction n generalizing configs pd with
  | zero =>
    cases run
    exact Nat.le_refl _
  | succ n ih =>
    obtain ⟨_, ⟨configs₁, pd₁⟩, first, others⟩ := bind_eq_ok_iff.mp run
    obtain ⟨name, config, -, -, -, rfl⟩ := decodeConfig_inserts first
    have one := ExtTreeMap.size_insert_le (t := configs) (k := name) (v := config)
    have more := ih others
    omega

theorem costs_configs : Costs decodeConfigs fun result => configsCost result.configs := by
  intro result pd result' pd' mode run
  obtain ⟨count, ⟨start, pd₁⟩, first, rest⟩ := bind_eq_ok_iff.mp run
  obtain ⟨read, rfl⟩ := read_eq_ok_iff.mp first
  obtain ⟨_, ⟨cleared, pd₂⟩, clears, last⟩ := bind_eq_ok_iff.mp rest
  obtain ⟨rfl, rfl⟩ := update_eq_ok_iff.mp clears
  obtain ⟨configs', loop, rfl⟩ := part_eq_ok_iff.mp last
  obtain ⟨m, rfl, enough, room⟩ := charges_getArrayLength configs'.size pd count pd₁ mode read
  have distinct : configs'.toList.Nodup :=
    (ExtTreeMap.pairwise_of_perm_toList (.refl configs'.toList)).imp fun apart same => apart (congrArg Prod.fst same)
  have few : configs'.size ≤ count.toInt.toNat := (rounds_decodeConfig_size loop).trans_eq (Nat.zero_add _)
  obtain ⟨n, rfl, enough', room'⟩ := pays_decodeConfig.rounds _ distinct (mode.advance m) loop
    (fun config _ found => nomatch ExtTreeMap.getElem?_empty.symm.trans found)
    fun config member => ExtTreeMap.mem_toList_iff_getElem?_eq_some.mp member
  rw [remaining_advance] at room'
  dsimp only at enough
  rw [if_pos few] at enough
  exact ⟨m + n, advance_advance pd m n, Nat.add_le_add enough enough', by omega⟩

theorem keeps_taggedField :
    Keeps (fun tagged : CreatableTopicResult × Bool => tagged.1.configs) (taggedField [(0, tag0)]) := by
  apply (Keeps.readOr _ _).bind
  intro id
  apply (Keeps.readOr _ _).bind
  intro length
  apply (Keeps.readOr _ _).bind
  intro bytes
  rw [decoderOf_tag0]
  split
  · intro tagged pd _ tagged' pd' run
    rw [inFlexible] at run
    split at run
    · next inner =>
      cases run
      have keeps : Keeps (fun tagged : CreatableTopicResult × Bool => tagged.1.configs) tag0 := Keeps.fieldOr fun _ _ => rfl
      exact keeps _ _ _ _ _ inner
    · cases run
  · exact Keeps.pure ()

/-- Tagged fields have nothing to do with the configurations. -/
theorem keeps_configs : Keeps (fun result => configsCost result.configs) decodeTags := by
  intro result pd _ result' pd' run
  obtain ⟨-, tagged, fields, rfl⟩ := decodeTags_eq_ok_iff.mp run
  obtain ⟨count, ⟨start, pd₁⟩, first, others⟩ := bind_eq_ok_iff.mp fields
  obtain ⟨-, rfl⟩ := read_eq_ok_iff.mp first
  have kept : tagged.1.configs = result.configs := (keeps_taggedField.rounds count.toNat) _ _ _ _ _ others
  have same : (untagged tagged).configs = tagged.1.configs := by
    rw [untagged]
    split <;> rfl
  dsimp only
  rw [same, kept]

/-- What a result costs. -/
def cost (result : CreatableTopicResult) : ℕ :=
  4 + (2 + (configsCost result.configs + tagCost result.topicConfigErrorCode))

theorem costs : Costs decode cost := by
  apply Costs.failWith
  apply (charges_getInt32.field numPartitions fun _ _ => rfl).seq
  · apply (charges_getInt16.field replicationFactor fun _ _ => rfl).seq
    · apply costs_configs.seq costs_tags
      exact keeps_configs
    · exact Keeps.const 2 _
  · exact Keeps.const 4 _

theorem weighs_configs (result : CreatableTopicResult) : Weighs result.encodeConfigs (configsCost result.configs) := by
  rw [encodeConfigs, configsCost, ← ExtTreeMap.length_toList]
  apply Weighs.counted
  · exact Weighs.forM fun config _ => (weighs_putString _).bind config.2.weighs
  · exact Sized.forM fun config _ => sized_config config

theorem weighs (result : CreatableTopicResult) : Weighs result.encode result.cost := by
  apply Weighs.encodeFailWith
  apply (weighs_putInt32 _).bind
  apply (weighs_putInt16 _).bind
  exact result.weighs_configs.bind (weighs_tags _)

/-! ### What comes back, and what does not -/

theorem carries {result : CreatableTopicResult} (free : result.topicConfigErrorCode = 0) :
    CarriesInto false true result.encode decode {} result 1 := by
  apply CarriesInto.encodeFailWith
  apply CarriesInto.decodeFailWith
  rw [free]
  apply CarriesInto.conclude
  · apply CarriesInto.seq
    · exact (carries_putInt32 result.numPartitions).field _ _ _
    apply CarriesInto.seq
    · exact (carries_putInt16 result.replicationFactor).field _ _ _
    apply CarriesInto.seq
    · exact carries_configs result _
    · exact carries_noTags _
  · rw [← free]
  · omega

theorem outruns {result : CreatableTopicResult} (some_ : result.topicConfigErrorCode ≠ 0) :
    Outruns result.encode decode {} (fun _ => True) 2 := by
  apply Outruns.encodeFailWith
  apply Outruns.decodeFailWith
  apply ((@carries_putInt32 false true result.numPartitions).field _ _ _).outruns
  apply ((@carries_putInt16 false true result.replicationFactor).field _ _ _).outruns
  apply (carries_configs result _).outruns
  exact outruns_tags some_ _

end CreatableTopicResult

namespace CreateTopicsResponse

variable {r : CreateTopicsResponse} {o : CreateTopicsResponse} {topic : Bytes}

/-- The result of a topic, or a fresh one. -/
def resultOf (r : CreateTopicsResponse) (topic : Bytes) : CreatableTopicResult := r.topicResults[topic]?.getD {}

/-- What a version has of an answer; the rest is as in a fresh one. -/
def atVersion (r : CreateTopicsResponse) : CreateTopicsResponse :=
  { r with
    throttleTime := if 2 ≤ r.version then r.throttleTime else 0
    topicErrors := r.topicErrors.map fun _ => TopicError.atVersion r.version
    topicResults := if 5 ≤ r.version then r.topicResults else ∅ }

/-- What is read back: a result for each topic with an error. -/
def decoded (r : CreateTopicsResponse) : CreateTopicsResponse :=
  { r.atVersion with topicResults := if 5 ≤ r.version then r.topicErrors.map fun topic _ => r.resultOf topic else ∅ }

/-- What the object is after a topic was read back. -/
def stored (r o : CreateTopicsResponse) (topic : Bytes × TopicError) : CreateTopicsResponse :=
  { o with
    topicErrors := o.topicErrors.insert topic.1 (topic.2.atVersion r.version)
    topicResults := if 5 ≤ r.version then o.topicResults.insert topic.1 (r.resultOf topic.1) else o.topicResults }

theorem carries_result (free : (r.resultOf topic).topicConfigErrorCode = 0) :
    CarriesInto false true (encodeResult r.topicResults[topic]?) CreatableTopicResult.decode {} (r.resultOf topic) 1 := by
  rw [resultOf] at free ⊢
  cases found : r.topicResults[topic]? with
  | none => exact CarriesInto.of_none (.inl ⟨.code ErrEncodeError, fun pe _ => ⟨pe, rfl⟩⟩)
  | some result =>
    rw [found] at free
    exact CreatableTopicResult.carries free

theorem carries_topic {r : CreateTopicsResponse} (isFlexible : 5 ≤ r.version → flexible = true) (topic : Bytes × TopicError)
    (free : 5 ≤ r.version → (r.resultOf topic.1).topicConfigErrorCode = 0) (o : CreateTopicsResponse) :
    CarriesInto false flexible (r.encodeTopic topic) (decodeTopic r.version) o (r.stored o topic) 1 := by
  apply CarriesInto.conclude
  · apply (carries_putString topic.1).seqInto
    apply CarriesInto.seq
    · exact (topic.2.carries r.version).aside _ _
    · apply CarriesInto.inVersions
      intro present
      rw [isFlexible present]
      exact (carries_result (free present)).aside _ _
  · dsimp only [stored]
    split_ifs <;> rfl
  · omega

theorem foldl_stored (r : CreateTopicsResponse) (topics : List (Bytes × TopicError)) (o : CreateTopicsResponse) :
    topics.foldl r.stored o = { o with
      topicErrors := topics.foldl (fun m topic => m.insert topic.1 (topic.2.atVersion r.version)) o.topicErrors
      topicResults :=
        if 5 ≤ r.version then topics.foldl (fun m topic => m.insert topic.1 (r.resultOf topic.1)) o.topicResults
        else o.topicResults } := by
  induction topics generalizing o with
  | nil => split <;> rfl
  | cons topic topics ih =>
    rw [List.foldl_cons, ih, stored]
    split_ifs <;> rfl

/-- All topics that were stored. -/
theorem foldl_stored_all (r : CreateTopicsResponse) (start : o.topicResults = ∅) :
    r.topicErrors.toList.foldl r.stored (clear r.version o) =
      { o with topicErrors := r.atVersion.topicErrors, topicResults := r.decoded.topicResults } := by
  have errors := ExtTreeMap.foldl_insert_map r.topicErrors fun _ => TopicError.atVersion r.version
  have results := ExtTreeMap.foldl_insert_map r.topicErrors fun topic _ => r.resultOf topic
  rw [foldl_stored]
  simp only [clear, start, ite_self, errors, results]
  rfl

/-- The topics that are read back, from whatever the object has. -/
theorem exact_topics {r o : CreateTopicsResponse} (start : o.topicResults = ∅)
    (isFlexible : 5 ≤ r.version → flexible = true)
    (free : 5 ≤ r.version → ∀ topic ∈ r.topicErrors.toList, (r.resultOf topic.1).topicConfigErrorCode = 0) :
    Exact false flexible r.encodeTopics (decodeTopics r.version) o
      { o with topicErrors := r.atVersion.topicErrors, topicResults := r.decoded.topicResults }
      (fun o => o.topicErrors ≠ r.atVersion.topicErrors)
        (flexible = false → CountReadable (bigEndian 4 r.topicErrors.size)) 1 := by
  have loop : CarriesInto false flexible (r.topicErrors.toList.forM r.encodeTopic)
      (update (clear r.version) >>= fun _ => rounds (decodeTopic r.version) r.topicErrors.toList.length) o
      { o with topicErrors := r.atVersion.topicErrors, topicResults := r.decoded.topicResults }
        r.topicErrors.toList.length := by
    rw [← foldl_stored_all r start]
    apply CarriesInto.afterUpdate
    apply CarriesInto.rounds
    intro front topic rest split
    apply carries_topic isFlexible
    intro present
    exact free present topic (split ▸ List.mem_append_right front List.mem_cons_self)
  have topics : Exact false flexible (r.topicErrors.toList.forM r.encodeTopic)
      (update (clear r.version) >>= fun _ => rounds (decodeTopic r.version) r.topicErrors.toList.length) o
      { o with topicErrors := r.atVersion.topicErrors, topicResults := r.decoded.topicResults }
      (fun o => o.topicErrors ≠ r.atVersion.topicErrors) True r.topicErrors.toList.length :=
    loop.exact.imp (fun _ => False.elim) fun differs => differs rfl
  rw [encodeTopics, ← ExtTreeMap.length_toList]
  apply (Exact.counted topics (Nat.le_refl _) _ _).conclude rfl (and_iff_left trivial) (Nat.le_refl 1)
  · intro small
    rw [int32_ofNat_loop small]
  · intro count negative some_ pd o' pd' run
    rw [rounds_of_neg negative] at run
    cases run
    rw [ExtTreeMap.length_toList] at some_
    exact map_ne_empty _ some_

theorem encode_eq (r : CreateTopicsResponse) : r.encode = failWith ErrEncodeError ((do
      inVersions (2 ≤ r.version) (putDurationMs r.throttleTime)
      r.encodeTopics) >>= fun _ => putEmptyTaggedFieldArray) := by
  simp only [encode, bind_assoc]

/-- What follows the time leaves it alone. -/
theorem keeps_throttleTime {bad : Int64 → Prop} (version : Int16) :
    Keeps (fun o : CreateTopicsResponse => bad o.throttleTime) (decodeTopics version) := by
  have topic : Keeps (fun o : CreateTopicsResponse => bad o.throttleTime) (decodeTopic version) := by
    apply (Keeps.readOr _ _).bind
    intro name
    apply Keeps.seq
    · exact Keeps.aside fun _ _ => rfl
    · exact Keeps.inVersions (Keeps.aside fun _ _ => rfl)
  apply (Keeps.readOr _ _).bind
  intro count
  apply Keeps.seq
  · exact Keeps.update fun _ => rfl
  · exact topic.rounds _

theorem exact {r : CreateTopicsResponse} (free : 5 ≤ r.version → ∀ topic ∈ r.topicErrors.toList,
      (r.resultOf topic.1).topicConfigErrorCode = 0) :
    Exact false (isFlexibleVersion r.version) r.encode (decode r.version) {} r.decoded
      (fun o => o.throttleTime ≠ r.atVersion.throttleTime ∨ o.topicErrors ≠ r.atVersion.topicErrors)
      ((2 ≤ r.version → DurationFits r.throttleTime) ∧
        (isFlexibleVersion r.version = false → CountReadable (bigEndian 4 r.topicErrors.size))) 1 := by
  rw [encode_eq]
  apply Exact.conclude
  · apply Exact.encodeFailWith
    apply Exact.seqSkip
    · apply Exact.decodeFailWith
      apply Exact.afterUpdate
      apply Exact.both
      · exact exact_durationIn throttleTime (2 ≤ r.version) (fun _ => rfl) rfl
      · apply exact_topics _ decide_eq_true free
        split <;> rfl
      · exact @keeps_throttleTime (· ≠ r.atVersion.throttleTime) r.version
      · dsimp only [atVersion]
        split_ifs <;> exact fun differs => differs rfl
    · exact carries_putEmptyTaggedFieldArray
  · dsimp only [decoded, atVersion]
    split_ifs <;> rfl
  · exact Iff.rfl
  · omega

/-! ## Results with errors -/

/-- The object has the topic with the error and the result. -/
def Has (o : CreateTopicsResponse) (entry : Bytes × TopicError × CreatableTopicResult) : Prop :=
  o.topicErrors[entry.1]? = some entry.2.1 ∧ o.topicResults[entry.1]? = some entry.2.2

/-- What a topic costs with its error and its result. -/
def topicCost (entry : Bytes × TopicError × CreatableTopicResult) : ℕ :=
  stringCost entry.1 + (entry.2.1.cost + entry.2.2.cost)

/-- A topic with its error and its result. -/
def entryOf (r : CreateTopicsResponse) (topic : Bytes × TopicError) : Bytes × TopicError × CreatableTopicResult :=
  (topic.1, topic.2, r.resultOf topic.1)

/-- The object with one more topic. -/
def withTopic (o : CreateTopicsResponse) (entry : Bytes × TopicError × CreatableTopicResult) : CreateTopicsResponse :=
  { o with topicErrors := o.topicErrors.insert entry.1 entry.2.1, topicResults := o.topicResults.insert entry.1 entry.2.2 }

/-- What is read behind the name of a topic. -/
def decodeNamed (version : Int16) (topic : Bytes) : DecodeInto CreateTopicsResponse Unit := do
  aside {} (TopicError.decode version) fun topicErr r => { r with topicErrors := r.topicErrors.insert topic topicErr }
  inVersions (5 ≤ version)
    (aside {} CreatableTopicResult.decode fun result r => { r with topicResults := r.topicResults.insert topic result })

section Results

variable {version : Int16}

theorem hasMessage (present : 5 ≤ version) : 1 ≤ version := Int16.le_trans (by decide : (1 : Int16) ≤ 5) present

theorem Has.of_withTopic {entry added : Bytes × TopicError × CreatableTopicResult} (has : (o.withTopic added).Has entry) :
    o.Has entry ∨ entry = added := by
  obtain ⟨topic, topicError, result⟩ := entry
  obtain ⟨errors, results⟩ := has
  rw [withTopic, ExtTreeMap.getElem?_insert] at errors results
  by_cases same : compare added.1 topic = .eq
  · rw [if_pos same] at errors results
    obtain rfl := Std.LawfulEqCmp.eq_of_compare same
    obtain rfl := Option.some.inj errors
    obtain rfl := Option.some.inj results
    exact .inr rfl
  · rw [if_neg same] at errors results
    exact .inl ⟨errors, results⟩

theorem decodeNamed_stores (present : 5 ≤ version) {o o' : CreateTopicsResponse}
    (run : decodeNamed version topic (o, pd) = .ok () (o', pd')) :
    ∃ topicError result pd₁, TopicError.decode version ({}, pd) = .ok () (topicError, pd₁) ∧
      CreatableTopicResult.decode ({}, pd₁) = .ok () (result, pd') ∧ o' = o.withTopic (topic, topicError, result) := by
  rw [decodeNamed, inVersions_of present] at run
  obtain ⟨_, ⟨o₁, pd₁⟩, first, last⟩ := bind_eq_ok_iff.mp run
  obtain ⟨topicError, inner, rfl⟩ := aside_eq_ok_iff.mp first
  obtain ⟨result, inner', rfl⟩ := aside_eq_ok_iff.mp last
  exact ⟨topicError, result, pd₁, inner, inner', rfl⟩

theorem decodeNamed_consumes (present : 5 ≤ version) {o o' : CreateTopicsResponse} (mode : InMode true pd)
    (run : decodeNamed version topic (o, pd) = .ok () (o', pd')) :
    ∃ topicError result n, o' = o.withTopic (topic, topicError, result) ∧ pd' = pd.advance n ∧
      topicError.cost + result.cost ≤ n ∧ n ≤ pd.remaining := by
  obtain ⟨topicError, result, pd₁, inner, inner', rfl⟩ := decodeNamed_stores present run
  obtain ⟨m, rfl, enough, room⟩ := TopicError.costs (hasMessage present) _ _ topicError pd₁ mode inner
  obtain ⟨n, rfl, enough', room'⟩ := CreatableTopicResult.costs _ _ result pd' (mode.advance m) inner'
  rw [remaining_advance] at room'
  exact ⟨topicError, result, m + n, rfl, advance_advance pd m n, Nat.add_le_add enough enough', by omega⟩

theorem pays_decodeTopic (present : 5 ≤ version) : Pays (decodeTopic version) Has topicCost := by
  intro o pd o' pd' mode run
  obtain ⟨topic, ⟨start, pd₁⟩, first, named⟩ := bind_eq_ok_iff.mp run
  obtain ⟨read, rfl⟩ := read_eq_ok_iff.mp first
  obtain ⟨m, rfl, enough, room⟩ := charges_getString pd topic pd₁ mode read
  obtain ⟨topicError, result, n, rfl, rfl, enough', room'⟩ := decodeNamed_consumes present (mode.advance m) named
  rw [remaining_advance] at room'
  refine ⟨(topic, topicError, result), m + n, advance_advance pd m n, by omega, fun entry has => ?_⟩
  exact has.of_withTopic.imp id fun same => ⟨same, same ▸ Nat.add_le_add enough enough'⟩

theorem weighs_named (present : 5 ≤ r.version) (topic : Bytes × TopicError) :
    Weighs (do
      topic.2.encode r.version
      inVersions (5 ≤ r.version) (encodeResult r.topicResults[topic.1]?)) (topic.2.cost + (r.resultOf topic.1).cost) := by
  rw [inVersions_of present]
  apply (TopicError.weighs (hasMessage present) topic.2).bind
  rw [resultOf]
  cases r.topicResults[topic.1]? with
  | none => exact Weighs.of_none (.inl ⟨.code ErrEncodeError, fun pe _ => ⟨pe, rfl⟩⟩)
  | some result => exact result.weighs

theorem weighs_topic (present : 5 ≤ r.version) (topic : Bytes × TopicError) :
    Weighs (r.encodeTopic topic) (topicCost (r.entryOf topic)) := (weighs_putString _).bind (weighs_named present topic)

theorem sized_topic (present : 5 ≤ r.version) (topic : Bytes × TopicError) :
    Sized true (r.encodeTopic topic) 1 := (sized_putString _).bind (weighs_named present topic).sized

/-- Behind the name of a topic with an error in its result, too much is read. -/
theorem outruns_named (present : 5 ≤ r.version) {topic : Bytes × TopicError}
    (some_ : (r.resultOf topic.1).topicConfigErrorCode ≠ 0) (o : CreateTopicsResponse) :
    Outruns (topic.2.encode r.version >>= fun _ => encodeResult r.topicResults[topic.1]?) (decodeNamed r.version topic.1) o
      (fun _ => True) 2 := by
  rw [decodeNamed, inVersions_of present]
  apply ((@TopicError.carries false true r.version topic.2).aside _ o).outruns
  apply Outruns.aside
  rw [resultOf] at some_
  cases found : r.topicResults[topic.1]? with
  | none =>
    rw [found] at some_
    exact absurd rfl some_
  | some result =>
    rw [found] at some_
    exact CreatableTopicResult.outruns some_

/-- The loop over topics that are not in the object, one of which has an error in its result: if it ends with all of
them, it has read too much. -/
theorem outruns_topics (present : 5 ≤ r.version) {topics : List (Bytes × TopicError)}
    (distinct : topics.Pairwise fun a b => a.1 ≠ b.1)
    (some_ : ∃ topic ∈ topics, (r.resultOf topic.1).topicConfigErrorCode ≠ 0)
    (new : ∀ topic ∈ topics, o.topicErrors[topic.1]? = none) :
    Outruns (topics.forM r.encodeTopic) (rounds (decodeTopic r.version) topics.length) o
      (fun o' => ∀ topic ∈ topics, o'.Has (r.entryOf topic)) 2 := by
  induction topics generalizing o with
  | nil =>
    obtain ⟨topic, member, -⟩ := some_
    cases member
  | cons topic topics ih =>
    obtain ⟨apart, distinct'⟩ := List.pairwise_cons.mp distinct
    obtain ⟨newHead, newTail⟩ := List.forall_mem_cons.mp new
    have stillNew {m : ExtTreeMap Bytes TopicError} (v : TopicError) (before : ∀ topic ∈ topics, m[topic.1]? = none) :
        ∀ other ∈ topics, (m.insert topic.1 v)[other.1]? = none := by
      intro other member
      rw [ExtTreeMap.getElem?_insert, if_neg fun same => apart other member (Std.LawfulEqCmp.eq_of_compare same)]
      exact before other member
    by_cases free : (r.resultOf topic.1).topicConfigErrorCode = 0
    · have others : ∃ topic ∈ topics, (r.resultOf topic.1).topicConfigErrorCode ≠ 0 := by
        obtain ⟨other, member, error⟩ := some_
        rcases List.mem_cons.mp member with rfl | member
        · exact absurd free error
        · exact ⟨other, member, error⟩
      apply (carries_topic (fun _ => rfl) topic (fun _ => free) o).outruns
      apply (ih distinct' others (stillNew _ newTail)).imp
      intro o' has other member
      exact has other (List.mem_cons_of_mem _ member)
    · have weighs : Weighs (topics.forM r.encodeTopic) (topics.map fun topic => topicCost (r.entryOf topic)).sum :=
        Weighs.forM fun other _ => weighs_topic present other
      have entries : (topics.map r.entryOf).Nodup :=
        List.pairwise_map.mpr (distinct'.imp fun apart same => apart (Prod.mk.inj same).1)
      have named : Outruns (putString topic.1 >>= fun _ =>
            (topic.2.encode r.version >>= fun _ => encodeResult r.topicResults[topic.1]?) >>= fun _ =>
              topics.forM r.encodeTopic)
          (read getString >>= fun name => decodeNamed r.version name >>= fun _ =>
            rounds (decodeTopic r.version) topics.length) o
          (fun o' => ∀ other ∈ topic :: topics, o'.Has (r.entryOf other)) 2 := by
        apply (@carries_putString false true topic.1).outruns
        apply (outruns_named present free o).andThen weighs
        · exact fun _ _ _ _ _ _ _ _ => trivial
        · intro pd o₁ pd₁ o₂ pd₂ first mode run has
          obtain ⟨topicError, result, -, -, -, rfl⟩ := decodeNamed_stores present first
          have missing : ∀ entry ∈ topics.map r.entryOf, ¬ (o.withTopic (topic.1, topicError, result)).Has entry := by
            intro entry member has'
            obtain ⟨other, inside, rfl⟩ := List.mem_map.mp member
            have none_ : (o.withTopic (topic.1, topicError, result)).topicErrors[other.1]? = none :=
              stillNew _ newTail other inside
            exact nomatch none_.symm.trans has'.1
          have all : ∀ entry ∈ topics.map r.entryOf, o₂.Has entry := by
            intro entry member
            obtain ⟨other, inside, rfl⟩ := List.mem_map.mp member
            exact has other (List.mem_cons_of_mem _ inside)
          have paid := (pays_decodeTopic present).rounds _ entries mode run missing all
          rwa [List.map_map] at paid
      have put : (topic :: topics).forM r.encodeTopic = putString topic.1 >>= fun _ =>
          (topic.2.encode r.version >>= fun _ => encodeResult r.topicResults[topic.1]?) >>= fun _ =>
            topics.forM r.encodeTopic := by
        have cons : (topic :: topics).forM r.encodeTopic = r.encodeTopic topic >>= fun _ => topics.forM r.encodeTopic := rfl
        rw [cons, encodeTopic, inVersions_of present]
        simp only [bind_assoc]
      have get : rounds (decodeTopic r.version) (topics.length + 1) =
          read getString >>= fun name => decodeNamed r.version name >>= fun _ =>
            rounds (decodeTopic r.version) topics.length :=
        bind_assoc (read getString) (decodeNamed r.version) _
      rw [put, List.length_cons, get]
      exact named

/-- An answer with an error in a result is not read back, whatever it is read as. -/
theorem outruns (present : 5 ≤ r.version)
    (some_ : ∃ topic ∈ r.topicErrors.toList, (r.resultOf topic.1).topicConfigErrorCode ≠ 0) :
    Outruns r.encode (decode r.version) {} (fun o => ∀ topic ∈ r.topicErrors.toList, o.Has (r.entryOf topic)) 2 := by
  have distinct := ExtTreeMap.pairwise_of_perm_toList (.refl r.topicErrors.toList)
  have sized : Sized true (r.topicErrors.toList.forM r.encodeTopic) r.topicErrors.toList.length :=
    Sized.forM fun topic _ => sized_topic present topic
  have old : 2 ≤ r.version := Int16.le_trans (by decide : (2 : Int16) ≤ 5) present
  have loop (o : CreateTopicsResponse) : Outruns (r.topicErrors.toList.forM r.encodeTopic)
      (update (clear r.version) >>= fun _ => rounds (decodeTopic r.version) r.topicErrors.toList.length) o
      (fun o => ∀ topic ∈ r.topicErrors.toList, o.Has (r.entryOf topic)) 2 := by
    apply Outruns.afterUpdate
    exact outruns_topics present distinct some_ fun _ _ => ExtTreeMap.getElem?_empty
  have topics (o : CreateTopicsResponse) : Outruns r.encodeTopics (decodeTopics r.version) o
      (fun o => ∀ topic ∈ r.topicErrors.toList, o.Has (r.entryOf topic)) 2 := by
    rw [encodeTopics, ← ExtTreeMap.length_toList]
    apply (loop o).counted sized
    intro small
    rw [int32_ofNat_loop small]
  rw [encode_eq, inVersions_of old]
  apply Outruns.encodeFailWith
  apply Outruns.andThen
  · apply Outruns.decodeFailWith
    apply Outruns.afterUpdate
    rw [inVersions_of old]
    exact ((@carries_putDurationMs false true r.throttleTime).field _ _ _).outruns (topics _)
  · exact weighs_putEmptyTaggedFieldArray
  · intro pd o₁ pd₁ o₂ pd₂ first last has
    obtain ⟨-, rfl⟩ := read_eq_ok_iff.mp last
    exact has
  · intro pd o₁ pd₁ o₂ pd₂ first mode last has
    obtain ⟨last, -⟩ := read_eq_ok_iff.mp last
    exact charges_getEmptyTaggedFieldArray pd₁ () pd₂ mode last

end Results

/-! ## Whole answers -/

/-- The topics with a result are those with an error. -/
def Matched (r : CreateTopicsResponse) : Prop :=
  ∀ topic : Bytes, r.topicResults[topic]?.isSome = r.topicErrors[topic]?.isSome

/-- The time fits in 32 bits, the number of the topics can be read, the topics with a result are those with an error,
and no result has an error of its own. -/
structure Readable (r : CreateTopicsResponse) : Prop where
  throttleTime : 2 ≤ r.version → DurationFits r.throttleTime
  topicErrors : isFlexibleVersion r.version = false → CountReadable (bigEndian 4 r.topicErrors.size)
  topicResults : 5 ≤ r.version → r.Matched
  topicConfigErrorCode :
    5 ≤ r.version → ∀ (topic : Bytes) (result : CreatableTopicResult), r.topicResults[topic]? = some result →
    result.topicConfigErrorCode = 0

theorem map_resultOf_eq_iff (r : CreateTopicsResponse) :
    (r.topicErrors.map fun topic _ => r.resultOf topic) = r.topicResults ↔ r.Matched := by
  constructor
  · intro same topic
    rw [← same, ExtTreeMap.getElem?_map, Option.isSome_map]
  · intro matched
    apply ExtTreeMap.ext_getElem?
    intro topic
    have both := matched topic
    rw [ExtTreeMap.getElem?_map, resultOf]
    cases errors : r.topicErrors[topic]? <;> cases results : r.topicResults[topic]? <;> rw [errors, results] at both
    · rfl
    · cases both
    · cases both
    · rfl

/-- What is read back is the answer where the topics with a result are those with an error. -/
theorem decoded_eq_iff (r : CreateTopicsResponse) : r.decoded = r.atVersion ↔ (5 ≤ r.version → r.Matched) := by
  by_cases present : 5 ≤ r.version
  · rw [imp_iff_right present, ← map_resultOf_eq_iff]
    have back : r.decoded.topicResults = r.topicErrors.map fun topic _ => r.resultOf topic := if_pos present
    have sent : r.atVersion.topicResults = r.topicResults := if_pos present
    rw [← back, ← sent]
    constructor
    · exact congrArg topicResults
    · exact congrArg fun results => { r.atVersion with topicResults := results }
  · refine iff_of_true ?_ fun present' => absurd present' present
    simp only [decoded, atVersion, if_neg present]

/-- An answer that was encoded has a result for each topic with an error. -/
theorem result_of_encoded (present : 5 ≤ r.version) {bytes : Bytes} (encoded : encodeBody true r.encode = .ok bytes)
    {topic : Bytes × TopicError} (member : topic ∈ r.topicErrors.toList) :
    r.topicResults[topic.1]? = some (r.resultOf topic.1) := by
  cases found : r.topicResults[topic.1]? with
  | some result => rw [resultOf, found, Option.getD_some]
  | none =>
    -- what is not written is longer than any request
    have nothing : Sized true (encodeResult r.topicResults[topic.1]?) (maxRequestSize + 1) := by
      rw [found]
      exact ⟨none, .inl ⟨.code ErrEncodeError, fun pe _ => ⟨pe, rfl⟩⟩, nofun⟩
    have endless : Sized true (r.encodeTopic topic) (1 + (1 + (maxRequestSize + 1))) := by
      rw [encodeTopic, inVersions_of present]
      exact (sized_putString topic.1).bind ((@TopicError.carries false true r.version topic.2).sized.bind nothing)
    have topics : Sized true r.encodeTopics (1 + (1 + (1 + (maxRequestSize + 1)))) :=
      (sized_putArrayLength _).bind (Sized.forM_of_mem (fun other _ => sized_topic present other) member endless)
    have time : Sized true (inVersions (2 ≤ r.version) (putDurationMs r.throttleTime)) 0 :=
      (sized_putDurationMs _).inVersions
    have all := (time.bind topics).bind sized_putEmptyTaggedFieldArray
    obtain ⟨output, writes, long⟩ := all
    rw [encode_eq] at encoded
    obtain ⟨written, small⟩ := (encodeBody_eq_ok_iff (writes_failWith ErrEncodeError writes)).mp encoded
    have tooLong := long bytes written
    omega

theorem round_trip_iff (r : CreateTopicsResponse) {bytes : Bytes}
    (encoded : encodeBody (isFlexibleVersion r.version) r.encode = .ok bytes) :
    decodeVersion (isFlexibleVersion r.version) (decode r.version) bytes {} = .ok () r.atVersion ↔ r.Readable := by
  by_cases free : 5 ≤ r.version → ∀ topic ∈ r.topicErrors.toList, (r.resultOf topic.1).topicConfigErrorCode = 0
  · have exact_ := exact free
    constructor
    · intro decoded
      have good : (2 ≤ r.version → DurationFits r.throttleTime) ∧
          (isFlexibleVersion r.version = false → CountReadable (bigEndian 4 r.topicErrors.size)) := by
        by_contra notGood
        rcases (exact_.spoils notGood).of_decodeVersion Nat.one_pos encoded decoded with differs | differs <;>
          exact differs rfl
      have back := (exact_.carries good).decodeVersion_eq_ok Nat.one_pos encoded
      have same : r.decoded = r.atVersion := (EStateM.Result.ok.inj (back.symm.trans decoded)).2
      have matched := (decoded_eq_iff r).mp same
      refine ⟨good.1, good.2, matched, fun present topic result found => ?_⟩
      have some_ := matched present topic
      rw [found, Option.isSome_some, eq_comm, Option.isSome_iff_exists] at some_
      obtain ⟨topicError, listed⟩ := some_
      have code := free present (topic, topicError) (ExtTreeMap.mem_toList_iff_getElem?_eq_some.mpr listed)
      rwa [resultOf, found, Option.getD_some] at code
    · intro readable
      rw [← (decoded_eq_iff r).mpr readable.topicResults]
      exact (exact_.carries ⟨readable.throttleTime, readable.topicErrors⟩).decodeVersion_eq_ok Nat.one_pos encoded
  · obtain ⟨present, error⟩ := Classical.not_imp.mp free
    have some_ : ∃ topic ∈ r.topicErrors.toList, (r.resultOf topic.1).topicConfigErrorCode ≠ 0 := by
      by_contra none_
      exact error fun topic member => by_contra fun code => none_ ⟨topic, member, code⟩
    apply iff_of_false
    · intro decoded
      have isFlexible : isFlexibleVersion r.version = true := decide_eq_true present
      rw [isFlexible] at encoded decoded
      apply (outruns present some_).not_decodeVersion (by decide) _ encoded decoded
      · intro topic member
        constructor
        · rw [atVersion, ExtTreeMap.getElem?_map, entryOf, ExtTreeMap.mem_toList_iff_getElem?_eq_some.mp member,
            Option.map_some,
            TopicError.atVersion, if_pos (hasMessage present)]
        · exact (congrArg (·[topic.1]?) (if_pos present)).trans (result_of_encoded present encoded member)
      · intro has
        obtain ⟨topic, member, -⟩ := some_
        exact nomatch ExtTreeMap.getElem?_empty.symm.trans (has topic member).1
    · intro readable
      obtain ⟨topic, member, code⟩ := some_
      rw [resultOf] at code
      cases found : r.topicResults[topic.1]? with
      | none =>
        rw [found] at code
        exact code rfl
      | some result =>
        rw [found] at code
        exact code (readable.topicConfigErrorCode present topic.1 result found)

end CreateTopicsResponse

end Coev.Kafka
