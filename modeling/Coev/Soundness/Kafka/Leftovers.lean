import Coev.Model.Kafka.AdminMessages
import Coev.Model.Kafka.OffsetMessages
import Coev.Proofs.Kafka.Reads
import Coev.Proofs.Kafka.Shadows

/-! # What is left of an earlier message
Messages are decoded into objects that may hold an earlier one. A member is replaced where the bytes get to it, and
tables are cleared where the bytes announce entries of them, so decoding is as into a fresh object exactly when nothing
else differs.
-/

namespace Coev.Kafka

open EStateM (bind_of_ok bind_of_error bind_apply pure_apply)
open Std (ExtTreeMap)
open DecodeInto PacketDecoder ByteString

variable {σ : Type} {isFlexible : Bool} {bytes : Bytes}
variable {α : Type}

/-- The bytes at the offset are the length of an array that has elements. -/
def Announces (isFlexible : Bool) (bytes : Bytes) (offset : ℕ) : Prop :=
  ∃ n pd, getArrayLength ((bodyReader isFlexible bytes).advance offset) = .ok n pd ∧ 0 < n

/-! ## Reading the head of a body -/

variable {pd : PacketDecoder}

private theorem fieldOr_of_ok {get : Decode α} {pd' : PacketDecoder} {a : α} (run : get pd = .ok a pd') (spoil : σ → σ)
    (set : α → σ → σ) (o : σ) : fieldOr spoil get set (o, pd) = .ok () (set a o, pd') := by
  simp only [fieldOr, bind_apply, readOr, run, update]

private theorem fieldOr_of_error {get : Decode α} {pd' : PacketDecoder} {e : Failure} (run : get pd = .error e pd')
    (spoil : σ → σ) (set : α → σ → σ) (o : σ) : fieldOr spoil get set (o, pd) = .error e (spoil o, pd') := by
  simp only [fieldOr, bind_apply, readOr, run]

private theorem durationField_of_short (short : pd.remaining < 4) (set : Int64 → σ → σ) (o : σ) :
    durationField set (o, pd) = .error (.code ErrInsufficientData) (set 0 o, { pd with offset := pd.raw.length }) := by
  simp only [durationField, fieldOr, readOr, getDurationMs, getInt32, take, bind_apply, insufficient, if_pos short]

private theorem durationField_of_room (room : 4 ≤ pd.remaining) (set : Int64 → σ → σ) (o : σ) :
    durationField set (o, pd) = .ok () (set (Int32.ofNat (value (pd.unread.take 4))).toInt64 o, pd.advance 4) := by
  simp only [durationField, fieldOr, readOr, getDurationMs, getInt32, take, bind_apply, pure_apply, update,
    if_neg room.not_gt]

private theorem errField_of_short (short : pd.remaining < 2) (set : Int16 → σ → σ) (o : σ) :
    errField set (o, pd) = .error (.code ErrInsufficientData) (set (-1) o, { pd with offset := pd.raw.length }) := by
  simp only [errField, fieldOr, readOr, getKError, getInt16, take, bind_apply, insufficient, if_pos short]

private theorem errField_of_room (room : 2 ≤ pd.remaining) (set : Int16 → σ → σ) (o : σ) :
    errField set (o, pd) = .ok () (set (Int16.ofInt (Int16.ofNat (value (pd.unread.take 2))).toInt) o, pd.advance 2) := by
  simp only [errField, fieldOr, readOr, getKError, getInt16, take, bind_apply, pure_apply, update,
    if_neg room.not_gt]

private theorem take_of_short {n : ℕ} (short : pd.remaining < n) :
    take n pd = .error (.code ErrInsufficientData) { pd with offset := pd.raw.length } := if_pos short

private theorem getUVariant_of_empty (empty : pd.remaining = 0) :
    getUVariant pd = .error (.code ErrInsufficientData) { pd with offset := pd.raw.length } := by
  have none_ : pd.unread = [] := List.eq_nil_of_length_eq_zero (by simpa [unread, remaining] using empty)
  rw [getUVariant, getUVariantLoop]
  simp only [none_, insufficient]

private theorem getArrayLength_of_empty (pd : PacketDecoder) (empty : pd.remaining = 0) :
    ∃ e pd', getArrayLength pd = .error e pd' := by
  unfold getArrayLength byMode
  split
  · exact ⟨_, _, bind_of_error (take_of_short (by omega)) _⟩
  · exact ⟨_, _, bind_of_error (getUVariant_of_empty empty) _⟩

private theorem getNullableString_of_empty (pd : PacketDecoder) (empty : pd.remaining = 0) :
    ∃ e pd', getNullableString pd = .error e pd' := by
  have noLength : ∃ e pd', getStringLength pd = .error e pd' := by
    unfold getStringLength byMode
    split
    · exact ⟨_, _, bind_of_error (bind_of_error (take_of_short (by omega)) _) _⟩
    · exact ⟨_, _, bind_of_error (getUVariant_of_empty empty) _⟩
  obtain ⟨e, pd', failed⟩ := noLength
  exact ⟨e, pd', bind_of_error failed _⟩

private theorem remaining_advance_bodyReader (offset : ℕ) :
    ((bodyReader isFlexible bytes).advance offset).remaining = bytes.length - offset := by
  simp [bodyReader, advance, remaining]

private theorem not_announces_of_short {offset : ℕ} (short : bytes.length ≤ offset) :
    ¬ Announces isFlexible bytes offset := by
  rintro ⟨n, pd, run, -⟩
  obtain ⟨e, pd', failed⟩ := getArrayLength_of_empty ((bodyReader isFlexible bytes).advance offset)
    (by rw [remaining_advance_bodyReader]; omega)
  rw [run] at failed
  cases failed

private theorem toNat_toInt_of_not_pos {n : Int32} (none_ : ¬ 0 < n) : n.toInt.toNat = 0 :=
  Int.toNat_of_nonpos (not_lt.mp fun positive => none_ (Int32.lt_iff_toInt_lt.mpr positive))

private theorem ite_eq_ite_left_iff {c : Prop} [Decidable c] {a x y : α} :
    (if c then a else x) = (if c then a else y) ↔ (¬ c → x = y) := by
  split <;> simp [*]

private theorem ite_eq_ite_right_iff {c : Prop} [Decidable c] {a x y : α} :
    (if c then x else a) = (if c then y else a) ↔ (c → x = y) := by
  split <;> simp [*]

private theorem update_bind (f : σ → σ) (k : Unit → DecodeInto σ α) (o : σ) (pd : PacketDecoder) :
    (update f >>= k) (o, pd) = k () (f o, pd) := rfl

namespace Body.ListGroupsResponse

/-- The offset of the length of the list of groups. -/
def groupsOffset (version : Int16) : ℕ := if 1 ≤ version then 6 else 2

/-- The bytes announce groups. -/
def HasGroups (version : Int16) (bytes : Bytes) : Prop := Announces (isFlexibleVersion version) bytes (groupsOffset version)

/-- The two objects agree on the members that decoding the bytes does not replace. -/
structure Replaced (version : Int16) (bytes : Bytes) (target fresh : ListGroupsResponse) : Prop where
  throttleTime : bytes = [] ∨ ¬ 1 ≤ version → target.throttleTime = fresh.throttleTime
  err : bytes = [] ∨ 1 ≤ version ∧ bytes.length < 4 → target.err = fresh.err
  groups : ¬ HasGroups version bytes → target.groups = fresh.groups
  groupsData : ¬ (HasGroups version bytes ∧ 4 ≤ version) → target.groupsData = fresh.groupsData
  version : bytes = [] → target.version = fresh.version

open Classical in
/-- What decoding leaves of an object, when it makes `p` of another one. -/
noncomputable def laid (version : Int16) (bytes : Bytes) (o p : ListGroupsResponse) : ListGroupsResponse :=
  { p with
    throttleTime := if 1 ≤ version then p.throttleTime else o.throttleTime
    err := if 1 ≤ version ∧ bytes.length < 4 then o.err else p.err
    groups := if HasGroups version bytes then p.groups else o.groups
    groupsData := if HasGroups version bytes ∧ 4 ≤ version then p.groupsData else o.groupsData }

variable {version : Int16} {o : ListGroupsResponse}

/-- The members that stand in front of the list of groups. -/
def head (version : Int16) (throttleTime : Int64) (err : Int16) (o : ListGroupsResponse) : ListGroupsResponse :=
  { o with version, throttleTime := if 1 ≤ version then throttleTime else o.throttleTime, err }

private theorem mirrors_group (has : HasGroups version bytes) (o : ListGroupsResponse) :
    Mirrors (fun a p => a = laid version bytes o p) (decodeGroup version) (decodeGroup version) := by
  refine (Mirrors.read getString).bind fun groupId => (Mirrors.read getString).bind fun protocolType =>
    (Mirrors.update ?_).bind fun _ => (Mirrors.inVersions fun later => ?_).bind fun _ => Mirrors.read _
  · rintro _ p rfl
    simp only [laid, if_pos has]
  · refine Mirrors.aside (.refl _) rfl ?_
    rintro data _ _ p rfl rfl
    simp only [laid, has, later, and_self, if_true]

/-- What stands behind the head. -/
private theorem alike_decodeGroups {throttleTime : Int64} {err : Int16} (long : ¬ (1 ≤ version ∧ bytes.length < 4))
    (o : ListGroupsResponse) : (decodeGroups version (head version throttleTime err o,
        (bodyReader (isFlexibleVersion version) bytes).advance (groupsOffset version))).Alike
      (Beside fun a p => a = laid version bytes o p) (decodeGroups version (head version throttleTime err {},
        (bodyReader (isFlexibleVersion version) bytes).advance (groupsOffset version))) := by
  unfold decodeGroups
  cases run : getArrayLength ((bodyReader (isFlexibleVersion version) bytes).advance (groupsOffset version)) with
  | error e pd =>
    have hasNot : ¬ HasGroups version bytes := by
      rintro ⟨n, pd', found, -⟩
      rw [run] at found
      cases found
    rw [bind_of_error (read_of_error run), bind_of_error (read_of_error run)]
    refine .error e ⟨?_, rfl⟩
    simp only [laid, head, hasNot, long, false_and, if_false]
    split <;> rfl
  | ok n pd =>
    rw [bind_of_ok (read_eq_ok_iff.mpr ⟨run, rfl⟩), bind_of_ok (read_eq_ok_iff.mpr ⟨run, rfl⟩),
      update_bind, update_bind]
    obtain positive | none_ := Decidable.em (0 < n)
    · have has : HasGroups version bytes := ⟨n, pd, run, positive⟩
      refine (((mirrors_group has o).rounds n.toInt.toNat).bind fun _ => .read getEmptyTaggedFieldArray).alike ?_ pd
      simp only [clear, laid, head, has, long, positive, true_and, if_true, if_false]
      split <;> split <;> rfl
    · have hasNot : ¬ HasGroups version bytes := by
        rintro ⟨m, pd', found, positive⟩
        rw [run] at found
        cases found
        exact none_ positive
      rw [toNat_toInt_of_not_pos none_, rounds, bind_of_ok (pure_apply _ _),
        bind_of_ok (pure_apply _ _)]
      refine (Mirrors.read getEmptyTaggedFieldArray).alike ?_ pd
      simp only [clear, laid, head, hasNot, long, none_, false_and, if_false]
      split <;> rfl

/-- What stands behind the throttle time. -/
private theorem alike_err (throttleTime : Int64) (offset : ℕ) (next : groupsOffset version = offset + 2)
    (long : ¬ (1 ≤ version ∧ bytes.length < 4)) (o : ListGroupsResponse) :
    ((errField (fun err r => { r with err }) >>= fun _ => decodeGroups version)
        ({ o with version, throttleTime := if 1 ≤ version then throttleTime else o.throttleTime },
          (bodyReader (isFlexibleVersion version) bytes).advance offset)).Alike
      (Beside fun a p => a = laid version bytes o p)
      ((errField (fun err r => { r with err }) >>= fun _ => decodeGroups version)
        ({ version, throttleTime := if 1 ≤ version then throttleTime else 0 },
          (bodyReader (isFlexibleVersion version) bytes).advance offset)) := by
  obtain short | room := lt_or_ge ((bodyReader (isFlexibleVersion version) bytes).advance offset).remaining 2
  · have hasNot : ¬ HasGroups version bytes := by
      refine not_announces_of_short ?_
      rw [remaining_advance_bodyReader] at short
      omega
    rw [bind_of_error (errField_of_short short _ _), bind_of_error (errField_of_short short _ _)]
    refine .error _ ⟨?_, rfl⟩
    simp only [laid, hasNot, long, false_and, if_false]
    split <;> rfl
  · rw [bind_of_ok (errField_of_room room _ _), bind_of_ok (errField_of_room room _ _), advance_advance,
      ← next]
    exact alike_decodeGroups long o

theorem alike_decode (version : Int16) (bytes : Bytes) (o : ListGroupsResponse) :
    (decode version (o, bodyReader (isFlexibleVersion version) bytes)).Alike (Beside fun a p => a = laid version bytes o p)
      (decode version ({}, bodyReader (isFlexibleVersion version) bytes)) := by
  unfold decode
  rw [update_bind, update_bind]
  obtain later | early := Decidable.em (1 ≤ version)
  · simp only [inVersions, if_pos later]
    obtain short | room := lt_or_ge (bodyReader (isFlexibleVersion version) bytes).remaining 4
    · rw [bind_of_error (durationField_of_short short _ _), bind_of_error (durationField_of_short short _ _)]
      have cut : bytes.length < 4 := short
      have hasNot : ¬ HasGroups version bytes :=
        not_announces_of_short (by rw [groupsOffset, if_pos later]; omega)
      refine .error _ ⟨?_, rfl⟩
      simp only [laid, hasNot, later, cut, false_and, true_and, if_true, if_false]
    · rw [bind_of_ok (durationField_of_room room _ _), bind_of_ok (durationField_of_room room _ _)]
      have long : ¬ (1 ≤ version ∧ bytes.length < 4) := fun cut => room.not_gt cut.2
      have rest := alike_err (Int32.ofNat (value ((bodyReader (isFlexibleVersion version) bytes).unread.take 4))).toInt64 4
        (by rw [groupsOffset, if_pos later]) long o
      simpa only [if_pos later] using rest
  · simp only [inVersions, if_neg early]
    rw [bind_of_ok (pure_apply _ _), bind_of_ok (pure_apply _ _)]
    have long : ¬ (1 ≤ version ∧ bytes.length < 4) := fun cut => early cut.1
    have rest := alike_err 0 0 (by rw [groupsOffset, if_neg early]) long o
    simp only [if_neg early] at rest
    exact rest

/-- Decoding is as into a fresh object exactly when the members that are not replaced are those of the fresh object. -/
theorem sameDecoded_iff (version : Int16) (bytes : Bytes) (target fresh : ListGroupsResponse) :
    SameDecoded (isFlexibleVersion version) (decode version) bytes target fresh ↔ Replaced version bytes target fresh := by
  obtain rfl | some_ := eq_or_ne bytes []
  · have hasNot : ¬ HasGroups version [] := not_announces_of_short (Nat.zero_le _)
    rw [sameDecoded_nil]
    constructor
    · rintro rfl
      exact ⟨fun _ => rfl, fun _ => rfl, fun _ => rfl, fun _ => rfl, fun _ => rfl⟩
    · intro replaced
      cases target
      cases fresh
      exact mk.injEq .. ▸
        ⟨replaced.version rfl, replaced.throttleTime (.inl rfl), replaced.err (.inl rfl), replaced.groups hasNot,
        replaced.groupsData fun has => hasNot has.1⟩
  · refine Kafka.sameDecoded_iff some_ (alike_decode version bytes) ?_
    rintro _ _ rfl rfl
    simp only [laid, mk.injEq, ite_eq_ite_left_iff, ite_eq_ite_right_iff, true_and]
    constructor
    · rintro ⟨throttleTime, err, groups, groupsData⟩
      exact ⟨fun kept => throttleTime (kept.resolve_left some_), fun kept =>
        err (kept.resolve_left some_), groups, groupsData,
        fun empty => absurd empty some_⟩
    · exact fun replaced =>
        ⟨fun kept => replaced.throttleTime (.inr kept), fun kept => replaced.err (.inr kept), replaced.groups,
        replaced.groupsData⟩

end Body.ListGroupsResponse

namespace Body.OffsetCommitResponse

/-- The offset of the number of topics. -/
def topicsOffset (version : Int16) : ℕ := if 3 ≤ version then 4 else 0

/-- The bytes announce topics. -/
def HasTopics (version : Int16) (bytes : Bytes) : Prop := Announces false bytes (topicsOffset version)

/-- The two objects agree on the members that decoding the bytes does not replace. -/
structure Replaced (version : Int16) (bytes : Bytes) (target fresh : OffsetCommitResponse) : Prop where
  throttleTime : bytes = [] ∨ ¬ 3 ≤ version → target.throttleTime = fresh.throttleTime
  errors : ¬ HasTopics version bytes → target.errors = fresh.errors
  version : bytes = [] → target.version = fresh.version

open Classical in
/-- What decoding leaves of an object, when it makes `p` of another one. -/
noncomputable def laid (version : Int16) (bytes : Bytes) (o p : OffsetCommitResponse) : OffsetCommitResponse :=
  { p with
    throttleTime := if 3 ≤ version then p.throttleTime else o.throttleTime
    errors := if HasTopics version bytes then p.errors else o.errors }

/-- What stands behind the throttle time. -/
private theorem alike_topics (version : Int16) (bytes : Bytes) (throttleTime : Int64) (o : OffsetCommitResponse) :
    ((read getArrayLength >>= decodeTopics)
        ({ o with version, throttleTime := if 3 ≤ version then throttleTime else o.throttleTime },
          (bodyReader false bytes).advance (topicsOffset version))).Alike (Beside fun a p => a = laid version bytes o p)
      ((read getArrayLength >>= decodeTopics) ({ version, throttleTime := if 3 ≤ version then throttleTime else 0 },
          (bodyReader false bytes).advance (topicsOffset version))) := by
  cases run : getArrayLength ((bodyReader false bytes).advance (topicsOffset version)) with
  | error e pd =>
    have hasNot : ¬ HasTopics version bytes := by
      rintro ⟨n, pd', found, -⟩
      rw [run] at found
      cases found
    rw [bind_of_error (read_of_error run), bind_of_error (read_of_error run)]
    refine .error e ⟨?_, rfl⟩
    simp only [laid, hasNot, if_false]
    split <;> rfl
  | ok n pd =>
    rw [bind_of_ok (read_eq_ok_iff.mpr ⟨run, rfl⟩), bind_of_ok (read_eq_ok_iff.mpr ⟨run, rfl⟩)]
    unfold decodeTopics
    obtain none_ | positive := Decidable.em (n ≤ 0)
    · have hasNot : ¬ HasTopics version bytes := by
        rintro ⟨m, pd', found, positive⟩
        rw [run] at found
        cases found
        exact absurd positive (Int32.not_lt.mpr none_)
      rw [if_pos none_]
      refine .ok () ⟨?_, rfl⟩
      simp only [laid, hasNot, if_false]
      split <;> rfl
    · have has : HasTopics version bytes := ⟨n, pd, run, Int32.not_le.mp positive⟩
      have reserves : (reserve n : DecodeInto OffsetCommitResponse Unit) = pure () :=
        if_neg fun negative => positive (Int32.le_of_lt negative)
      rw [if_neg positive, reserves, update_bind, update_bind, bind_of_ok (pure_apply _ _),
        bind_of_ok (pure_apply _ _)]
      unfold part
      dsimp only
      -- the loop runs on the empty map, whatever the objects were
      cases rounds decodeTopic n.toInt.toNat (∅, pd) with
      | ok _ ended =>
        refine .ok () ⟨?_, rfl⟩
        simp only [laid, has, if_true]
        split <;> rfl
      | error e ended =>
        refine .error e ⟨?_, rfl⟩
        simp only [laid, has, if_true]
        split <;> rfl

theorem alike_decode (version : Int16) (bytes : Bytes) (o : OffsetCommitResponse) :
    (decode version (o, bodyReader false bytes)).Alike (Beside fun a p => a = laid version bytes o p)
      (decode version ({}, bodyReader false bytes)) := by
  unfold decode
  rw [update_bind, update_bind]
  obtain later | early := Decidable.em (3 ≤ version)
  · simp only [inVersions, if_pos later]
    obtain short | room := lt_or_ge (bodyReader false bytes).remaining 4
    · rw [bind_of_error (durationField_of_short short _ _), bind_of_error (durationField_of_short short _ _)]
      have cut : bytes.length < 4 := short
      have hasNot : ¬ HasTopics version bytes :=
        not_announces_of_short (by rw [topicsOffset, if_pos later]; omega)
      refine .error _ ⟨?_, rfl⟩
      simp only [laid, hasNot, later, if_true, if_false]
    · rw [bind_of_ok (durationField_of_room room _ _), bind_of_ok (durationField_of_room room _ _)]
      have rest := alike_topics version bytes (Int32.ofNat (value ((bodyReader false bytes).unread.take 4))).toInt64 o
      simp only [topicsOffset, if_pos later] at rest
      exact rest
  · simp only [inVersions, if_neg early]
    rw [bind_of_ok (pure_apply _ _), bind_of_ok (pure_apply _ _)]
    have rest := alike_topics version bytes 0 o
    simp only [topicsOffset, if_neg early] at rest
    exact rest

/-- Decoding is as into a fresh object exactly when the members that are not replaced are those of the fresh object. -/
theorem sameDecoded_iff (version : Int16) (bytes : Bytes) (target fresh : OffsetCommitResponse) :
    SameDecoded false (decode version) bytes target fresh ↔ Replaced version bytes target fresh := by
  obtain rfl | some_ := eq_or_ne bytes []
  · have hasNot : ¬ HasTopics version [] := not_announces_of_short (Nat.zero_le _)
    rw [sameDecoded_nil]
    constructor
    · rintro rfl
      exact ⟨fun _ => rfl, fun _ => rfl, fun _ => rfl⟩
    · intro replaced
      cases target
      cases fresh
      exact mk.injEq .. ▸ ⟨replaced.version rfl, replaced.throttleTime (.inl rfl), replaced.errors hasNot⟩
  · refine Kafka.sameDecoded_iff some_ (alike_decode version bytes) ?_
    rintro _ _ rfl rfl
    simp only [laid, mk.injEq, ite_eq_ite_left_iff, true_and]
    constructor
    · rintro ⟨throttleTime, errors⟩
      exact ⟨fun kept => throttleTime (kept.resolve_left some_), errors, fun empty => absurd empty some_⟩
    · exact fun replaced => ⟨fun kept => replaced.throttleTime (.inr kept), replaced.errors⟩

end Body.OffsetCommitResponse

/-! ## Requests to create topics -/

/-- Read a value and drop it. -/
def skip {α : Type} (get : Decode α) : DecodeInto Unit Unit := do
  let _ ← read get

private theorem mirrors_skip (spoil : σ → σ) (get : Decode α) (set : α → σ → σ) :
    Mirrors (fun _ _ => True) (fieldOr spoil get set) (skip get) :=
  (Mirrors.readOr (fun _ _ _ => trivial) get).bind fun _ => .of_objects fun _ _ _ _ => .ok () ⟨trivial, rfl⟩

namespace TopicDetail

def skipAssignment : DecodeInto Unit Unit := do
  let _ ← read getInt32
  let _ ← read getInt32Array
  read getEmptyTaggedFieldArray

def skipEntry : DecodeInto Unit Unit := do
  let _ ← read getString
  let _ ← read getNullableString
  read getEmptyTaggedFieldArray

def skipList (item : DecodeInto Unit Unit) : DecodeInto Unit Unit := do
  let n ← read getArrayLength
  rounds item n.toInt.toNat

def skipFields : DecodeInto Unit Unit := failWith ErrDecodeError do
  skip getInt32
  skip getInt16
  skipList skipAssignment
  skipList skipEntry

/-- The bytes of a topic are passed over. -/
def skipDetail : DecodeInto Unit Unit := do
  skipFields
  read getEmptyTaggedFieldArray

theorem mirrors_decode : Mirrors (fun _ _ => True) decode skipDetail := by
  have assignment : Mirrors (fun _ _ => True) decodeAssignment skipAssignment :=
    (Mirrors.read _).bind fun _ => (Mirrors.read _).bind fun _ => (Mirrors.read _).hidden fun _ _ _ => trivial
  have entry : Mirrors (fun _ _ => True) decodeEntry skipEntry :=
    (Mirrors.read _).bind fun _ => (Mirrors.read _).bind fun _ => (Mirrors.read _).hidden fun _ _ _ => trivial
  have assignments : Mirrors (fun _ _ => True) decodeAssignments (skipList skipAssignment) :=
    (Mirrors.read _).bind fun n => (assignment.rounds n.toInt.toNat).hidden fun _ _ _ => trivial
  have entries : Mirrors (fun _ _ => True) decodeEntries (skipList skipEntry) :=
    (Mirrors.read _).bind fun n => (entry.rounds n.toInt.toNat).hidden fun _ _ _ => trivial
  have fields : Mirrors (fun _ _ => True) decodeFields skipFields :=
    ((mirrors_skip _ _ _).bind fun _ => (mirrors_skip _ _ _).bind fun _ => assignments.bind fun _ => entries).failWith _
  exact fields.bind fun _ => .read _

end TopicDetail

namespace CreateTopicsRequest

def skipTopic : DecodeInto Unit Unit := do
  let _ ← read getString
  TopicDetail.skipDetail

/-- The bytes of the topics are passed over. -/
def skipTopics : DecodeInto Unit Unit := TopicDetail.skipList skipTopic

private theorem mirrors_decodeTopic : Mirrors (fun _ _ => True) decodeTopic skipTopic :=
  (Mirrors.read _).bind fun _ => TopicDetail.mirrors_decode.part (fun _ _ _ => trivial) fun _ _ _ _ _ _ => trivial

/-- The bytes begin with the number of topics. -/
def HasCount (version : Int16) (bytes : Bytes) : Prop :=
  ∃ n pd, getArrayLength (bodyReader (isFlexibleVersion version) bytes) = .ok n pd

/-- The bytes begin with all of the topics, and the reader is behind them. -/
def AtTimeout (version : Int16) (bytes : Bytes) (pd : PacketDecoder) : Prop :=
  skipTopics ((), bodyReader (isFlexibleVersion version) bytes) = .ok () ((), pd)

/-- The time-out is there, and the version has a flag behind it. -/
def AtFlag (version : Int16) (bytes : Bytes) (pd : PacketDecoder) : Prop :=
  1 ≤ version ∧ ∃ behind, AtTimeout version bytes behind ∧ 4 ≤ behind.remaining ∧ pd = behind.advance 4

/-- The two objects agree on the members that decoding the bytes does not replace. -/
structure Replaced (version : Int16) (bytes : Bytes) (target fresh : CreateTopicsRequest) : Prop where
  topicDetails : ¬ HasCount version bytes → target.topicDetails = fresh.topicDetails
  timeout : ¬ (∃ pd, AtTimeout version bytes pd) → target.timeout = fresh.timeout
  validateOnly : ¬ (∃ pd, AtFlag version bytes pd) → target.validateOnly = fresh.validateOnly
  version : ¬ (∃ pd, AtFlag version bytes pd ∧ ∃ flag pd', getBool pd = .ok flag pd') → target.version = fresh.version

open Classical in
/-- What decoding leaves of an object, when it makes `p` of another one. -/
noncomputable def laid (version : Int16) (bytes : Bytes) (o p : CreateTopicsRequest) : CreateTopicsRequest where
  topicDetails := if HasCount version bytes then p.topicDetails else o.topicDetails
  timeout := if ∃ pd, AtTimeout version bytes pd then p.timeout else o.timeout
  validateOnly := if ∃ pd, AtFlag version bytes pd then p.validateOnly else o.validateOnly
  version := if ∃ pd, AtFlag version bytes pd ∧ ∃ flag pd', getBool pd = .ok flag pd' then p.version else o.version

variable {version : Int16} {bytes : Bytes} {pd pd' : PacketDecoder}

theorem AtTimeout.unique (here : AtTimeout version bytes pd) (there : AtTimeout version bytes pd') : pd = pd' := by
  rw [AtTimeout, here] at there
  cases there
  rfl

theorem AtFlag.unique (here : AtFlag version bytes pd) (there : AtFlag version bytes pd') : pd = pd' := by
  obtain ⟨-, behind, at_, -, rfl⟩ := here
  obtain ⟨-, behind', at_', -, rfl⟩ := there
  rw [at_.unique at_']

private theorem hasCount_of_skipTopics {u : Unit}
    (run : skipTopics ((), bodyReader (isFlexibleVersion version) bytes) = .ok u ((), pd)) :
    HasCount version bytes := by
  obtain ⟨n, ⟨_, pd'⟩, counted, -⟩ := EStateM.bind_eq_ok_iff.mp run
  exact ⟨n, pd', (read_eq_ok_iff.mp counted).1⟩

/-- The flag and the version. -/
private theorem alike_flag {behind : PacketDecoder} (at_ : AtTimeout version bytes behind) (room : 4 ≤ behind.remaining)
    (topicDetails : ExtTreeMap Bytes TopicDetail) (timeout : Int64) (o : CreateTopicsRequest) :
    (inVersions (1 ≤ version) (decodeValidateOnly version) ({ o with topicDetails, timeout }, behind.advance 4)).Alike
      (Beside fun a p => a = laid version bytes o p)
      (inVersions (1 ≤ version) (decodeValidateOnly version) ({ topicDetails, timeout }, behind.advance 4)) := by
  have count : HasCount version bytes := hasCount_of_skipTopics at_
  have atTimeout : ∃ pd, AtTimeout version bytes pd := ⟨behind, at_⟩
  obtain later | early := Decidable.em (1 ≤ version)
  · have here : AtFlag version bytes (behind.advance 4) := ⟨later, behind, at_, room, rfl⟩
    have atFlag : ∃ pd, AtFlag version bytes pd := ⟨_, here⟩
    simp only [inVersions, if_pos later, decodeValidateOnly]
    cases run : getBool (behind.advance 4) with
    | error e pd =>
      have noVersion : ¬ ∃ pd, AtFlag version bytes pd ∧ ∃ flag pd', getBool pd = .ok flag pd' := by
        rintro ⟨pd, there, flag, pd', found⟩
        rw [there.unique here, run] at found
        cases found
      rw [bind_of_error (fieldOr_of_error run _ _ _), bind_of_error (fieldOr_of_error run _ _ _)]
      refine .error e ⟨?_, rfl⟩
      simp only [laid, if_pos count, if_pos atTimeout, if_pos atFlag, if_neg noVersion]
    | ok flag pd =>
      have hasVersion : ∃ pd, AtFlag version bytes pd ∧ ∃ flag pd', getBool pd = .ok flag pd' := ⟨_, here, flag, pd, run⟩
      rw [bind_of_ok (fieldOr_of_ok run _ _ _), bind_of_ok (fieldOr_of_ok run _ _ _)]
      refine .ok () ⟨?_, rfl⟩
      simp only [laid, if_pos count, if_pos atTimeout, if_pos atFlag, if_pos hasVersion]
  · have noFlag : ¬ ∃ pd, AtFlag version bytes pd := fun ⟨_, later, _⟩ => early later
    have noVersion : ¬ ∃ pd, AtFlag version bytes pd ∧ ∃ flag pd', getBool pd = .ok flag pd' :=
      fun ⟨pd, there, _⟩ => noFlag ⟨pd, there⟩
    simp only [inVersions, if_neg early]
    refine .ok () ⟨?_, rfl⟩
    simp only [laid, if_pos count, if_pos atTimeout, if_neg noFlag, if_neg noVersion]

/-- What stands behind the topics. -/
private theorem alike_timeout {behind : PacketDecoder} (at_ : AtTimeout version bytes behind)
    (topicDetails : ExtTreeMap Bytes TopicDetail) (o : CreateTopicsRequest) :
    ((durationField (fun timeout r => { r with timeout }) >>= fun _ => inVersions (1 ≤ version)
    (decodeValidateOnly version)) ({ o with topicDetails }, behind)).Alike
      (Beside fun a p => a = laid version bytes o p)
      ((durationField (fun timeout r => { r with timeout }) >>= fun _ => inVersions (1 ≤ version)
        (decodeValidateOnly version)) ({ topicDetails }, behind)) := by
  obtain short | room := lt_or_ge behind.remaining 4
  · have count : HasCount version bytes := hasCount_of_skipTopics at_
    have atTimeout : ∃ pd, AtTimeout version bytes pd := ⟨behind, at_⟩
    have noFlag : ¬ ∃ pd, AtFlag version bytes pd := by
      rintro ⟨_, -, behind', there, room, -⟩
      rw [there.unique at_] at room
      omega
    have noVersion : ¬ ∃ pd, AtFlag version bytes pd ∧ ∃ flag pd', getBool pd = .ok flag pd' :=
      fun ⟨pd, there, _⟩ => noFlag ⟨pd, there⟩
    rw [bind_of_error (durationField_of_short short _ _), bind_of_error (durationField_of_short short _ _)]
    refine .error _ ⟨?_, rfl⟩
    simp only [laid, if_pos count, if_pos atTimeout, if_neg noFlag, if_neg noVersion]
  · rw [bind_of_ok (durationField_of_room room _ _), bind_of_ok (durationField_of_room room _ _)]
    exact alike_flag at_ room topicDetails _ o

/-- Without all of the topics, nothing behind them is reached. -/
private theorem not_reached (noTopics : ∀ pd, ¬ AtTimeout version bytes pd) : (¬ ∃ pd, AtTimeout version bytes pd) ∧
    (¬ ∃ pd, AtFlag version bytes pd) ∧ ¬ ∃ pd, AtFlag version bytes pd ∧ ∃ flag pd', getBool pd = .ok flag pd' :=
  ⟨fun ⟨pd, there⟩ => noTopics pd there, fun ⟨_, _, behind, there, _⟩ => noTopics behind there,
    fun ⟨_, ⟨_, behind, there, _⟩, _⟩ => noTopics behind there⟩

private theorem alike_fields (version : Int16) (bytes : Bytes) (o : CreateTopicsRequest) :
    ((decodeTopics >>= fun _ => durationField (fun timeout r => { r with timeout }) >>= fun _ =>
        inVersions (1 ≤ version) (decodeValidateOnly version)) (o, bodyReader (isFlexibleVersion version) bytes)).Alike
      (Beside fun a p => a = laid version bytes o p)
      ((decodeTopics >>= fun _ => durationField (fun timeout r => { r with timeout }) >>= fun _ =>
        inVersions (1 ≤ version) (decodeValidateOnly version)) ({}, bodyReader (isFlexibleVersion version) bytes)) := by
  cases run : getArrayLength (bodyReader (isFlexibleVersion version) bytes) with
  | error e pd =>
    have noCount : ¬ HasCount version bytes := by
      rintro ⟨n, pd', found⟩
      rw [run] at found
      cases found
    obtain ⟨noTimeout, noFlag, noVersion⟩ := not_reached fun pd there => noCount (hasCount_of_skipTopics there)
    have failed (o : CreateTopicsRequest) :
        decodeTopics (o, bodyReader (isFlexibleVersion version) bytes) = .error e (o, pd) :=
      bind_of_error (read_of_error run) _
    rw [bind_of_error (failed o), bind_of_error (failed {})]
    refine .error e ⟨?_, rfl⟩
    simp only [laid, if_neg noCount, if_neg noTimeout, if_neg noFlag, if_neg noVersion]
  | ok n pd =>
    have count : HasCount version bytes := ⟨n, pd, run⟩
    have shadow : (rounds decodeTopic n.toInt.toNat (∅, pd)).Alike (Beside fun _ _ => True)
        (rounds skipTopic n.toInt.toNat ((), pd)) := (mirrors_decodeTopic.rounds n.toInt.toNat).alike trivial pd
    have skipped : skipTopics ((), bodyReader (isFlexibleVersion version) bytes) = rounds skipTopic n.toInt.toNat ((), pd) :=
      bind_of_ok (read_eq_ok_iff.mpr ⟨run, rfl⟩) _
    have topics (o : CreateTopicsRequest) : decodeTopics (o, bodyReader (isFlexibleVersion version) bytes) =
        part topicDetails (fun topicDetails r => { r with topicDetails }) (rounds decodeTopic n.toInt.toNat)
          ({ o with topicDetails := ∅ }, pd) := bind_of_ok (read_eq_ok_iff.mpr ⟨run, rfl⟩) _
    rw [bind_apply, bind_apply, topics, topics]
    unfold part
    dsimp only
    rw [← skipped] at shadow
    cases decoded : rounds decodeTopic n.toInt.toNat (∅, pd) with
    | error e ended =>
      rw [decoded] at shadow
      obtain ⟨noTimeout, noFlag, noVersion⟩ := not_reached fun pd there => by
        rw [AtTimeout] at there
        rw [there] at shadow
        cases shadow
      refine .error e ⟨?_, rfl⟩
      simp only [laid, if_pos count, if_neg noTimeout, if_neg noFlag, if_neg noVersion]
    | ok _ ended =>
      obtain ⟨topicDetails, behind⟩ := ended
      have at_ : AtTimeout version bytes behind := by
        rw [decoded] at shadow
        unfold AtTimeout
        generalize skipTopics ((), bodyReader (isFlexibleVersion version) bytes) = ended at shadow
        cases shadow with
        | ok _ beside =>
          obtain ⟨-, same : behind = _⟩ := beside
          rw [same]
      exact alike_timeout at_ topicDetails o

/-- Decoding is as into a fresh object exactly when the members that are not replaced are those of the fresh object. -/
theorem sameDecoded_iff (version : Int16) (bytes : Bytes) (target fresh : CreateTopicsRequest) :
    SameDecoded (isFlexibleVersion version) (decode version) bytes target fresh ↔ Replaced version bytes target fresh := by
  obtain rfl | some_ := eq_or_ne bytes []
  · have noCount : ¬ HasCount version [] := by
      rintro ⟨n, pd, found⟩
      obtain ⟨e, pd', failed⟩ := getArrayLength_of_empty (bodyReader (isFlexibleVersion version) []) rfl
      rw [found] at failed
      cases failed
    obtain ⟨noTimeout, noFlag, noVersion⟩ := not_reached fun pd there => noCount (hasCount_of_skipTopics there)
    rw [sameDecoded_nil]
    constructor
    · rintro rfl
      exact ⟨fun _ => rfl, fun _ => rfl, fun _ => rfl, fun _ => rfl⟩
    · intro replaced
      cases target
      cases fresh
      exact mk.injEq .. ▸ ⟨replaced.version noVersion, replaced.topicDetails noCount, replaced.timeout noTimeout,
        replaced.validateOnly noFlag⟩
  · have alike (o : CreateTopicsRequest) :=
      (alike_failWith (alike_fields version bytes o) ErrDecodeError).bind fun _ => Mirrors.read getEmptyTaggedFieldArray
    refine Kafka.sameDecoded_iff some_ alike ?_
    rintro _ _ rfl rfl
    simp only [laid, mk.injEq, ite_eq_ite_left_iff]
    constructor
    · rintro ⟨version, topicDetails, timeout, validateOnly⟩
      exact ⟨topicDetails, timeout, validateOnly, version⟩
    · exact fun replaced => ⟨replaced.version, replaced.topicDetails, replaced.timeout, replaced.validateOnly⟩

end CreateTopicsRequest

/-! ## Answers to a request to alter reassignments -/

/-- The members of a block that bytes write. -/
structure WrittenBlock where
  code : Option Int16 := none
  message : Option Bytes := none

namespace WrittenBlock

/-- The block that the writes leave, where there was a block or none. -/
def over_ (w : WrittenBlock) (old : Option AlterPartitionReassignmentsErrorBlock) :
    AlterPartitionReassignmentsErrorBlock where
  code := w.code.getD (old.elim 0 (·.code))
  message := w.message.getD (old.elim [] (·.message))

/-- None of the members of the old block is left, where it is not that of a fresh one. -/
structure Hides (w : WrittenBlock) (old : Option AlterPartitionReassignmentsErrorBlock) : Prop where
  code : w.code = none → old.elim 0 (·.code) = 0
  message : w.message = none → old.elim [] (·.message) = []

private theorem over_none_iff (w : WrittenBlock) (old : Option AlterPartitionReassignmentsErrorBlock) :
    w.over_ old = w.over_ none ↔ w.Hides old := by
  obtain ⟨code, message⟩ := w
  simp only [over_, AlterPartitionReassignmentsErrorBlock.mk.injEq]
  cases code <;> cases message <;> exact ⟨fun ⟨code, message⟩ => ⟨by simp_all, by simp_all⟩, fun ⟨code, message⟩ => by
    simp_all⟩

def decodeFields : DecodeInto WrittenBlock Unit := failWith ErrEncodeError do
  errField fun code w => { w with code := some code }
  field getNullableString fun message w => { w with message := some message }

def decode : DecodeInto WrittenBlock Unit := do
  decodeFields
  read getEmptyTaggedFieldArray

theorem mirrors_decode (old : Option AlterPartitionReassignmentsErrorBlock) :
    Mirrors (fun block w => block = w.over_ old) AlterPartitionReassignmentsErrorBlock.decode decode := by
  refine (((Mirrors.fieldOr _ ?_ ?_).bind fun _ => Mirrors.fieldOr _ ?_ ?_).failWith _).bind fun _ => .read _
  · rintro _ w rfl
    rfl
  · rintro _ _ w rfl
    rfl
  · rintro _ w rfl
    rfl
  · rintro _ _ w rfl
    rfl

end WrittenBlock

namespace AlterPartitionReassignmentsResponse

/-- The members that bytes write, with the errors they name. -/
structure Written where
  version : Option Int16 := none
  throttleTime : Option Int64 := none
  code : Option Int16 := none
  message : Option Bytes := none
  errors : ExtTreeMap Bytes (ExtTreeMap Int32 WrittenBlock) := ∅

namespace Written

def decodeTopic : DecodeInto (ExtTreeMap Bytes (ExtTreeMap Int32 WrittenBlock)) Unit :=
  TopicPartitions.decodeTopic (TopicPartitions.decodePartition {} WrittenBlock.decode) getEmptyTaggedFieldArray

def decodeTopics (numTopics : Int32) : DecodeInto Written Unit :=
  if 0 < numTopics then part errors (fun errors w => { w with errors }) (rounds decodeTopic numTopics.toInt.toNat)
  else return ()

def decodeFields (version : Int16) : DecodeInto Written Unit := failWith ErrDecodeError do
  update ({ · with version := some version })
  durationField fun throttleTime w => { w with throttleTime := some throttleTime }
  errField fun code w => { w with code := some code }
  field getNullableString fun message w => { w with message := some message }
  let numTopics ← read getArrayLength
  decodeTopics numTopics

def decode (version : Int16) : DecodeInto Written Unit := do
  decodeFields version
  read getEmptyTaggedFieldArray

end Written

/-- What the bytes of a body write. -/
def written (version : Int16) (bytes : Bytes) : Written :=
  (Written.decode version ({}, bodyReader (isFlexibleVersion version) bytes)).state.1

/-- A block is what the written members leave of the old one. -/
def BlockOver (old : Option AlterPartitionReassignmentsErrorBlock) (w : WrittenBlock)
    (block : AlterPartitionReassignmentsErrorBlock) :
    Prop := block = w.over_ old

/-- The partitions of a topic are the old ones with the written ones over them. -/
def PartitionsOver (old : Option (ExtTreeMap Int32 AlterPartitionReassignmentsErrorBlock))
    (w : ExtTreeMap Int32 WrittenBlock)
    (partitions : ExtTreeMap Int32 AlterPartitionReassignmentsErrorBlock) : Prop :=
  ExtTreeMap.LaidOver BlockOver (old.getD ∅) w partitions

/-- The object is the old one with the written members over it. -/
structure Laid (o a : AlterPartitionReassignmentsResponse) (w : Written) : Prop where
  version : a.version = w.version.getD o.version
  throttleTime : a.throttleTime = w.throttleTime.getD o.throttleTime
  code : a.code = w.code.getD o.code
  message : a.message = w.message.getD o.message
  errors : ExtTreeMap.LaidOver PartitionsOver o.errors w.errors a.errors

private theorem mirrors_topic (old : ExtTreeMap Bytes (ExtTreeMap Int32 AlterPartitionReassignmentsErrorBlock)) :
    Mirrors (fun errors w => ExtTreeMap.LaidOver PartitionsOver old w errors) decodeTopic Written.decodeTopic := by
  have partition (before : ExtTreeMap Int32 AlterPartitionReassignmentsErrorBlock) :
      Mirrors (fun partitions w => ExtTreeMap.LaidOver BlockOver before w partitions)
        (TopicPartitions.decodePartition {} AlterPartitionReassignmentsErrorBlock.decode)
        (TopicPartitions.decodePartition {} WrittenBlock.decode) := by
    refine (Mirrors.read _).bind fun number => Mirrors.entry WrittenBlock.mirrors_decode ?_ number
    rintro (_ | block) <;> rfl
  refine (Mirrors.read _).bind fun topic => (Mirrors.read _).bind fun n => Mirrors.bind ?_ fun _ => Mirrors.read _
  exact Mirrors.entry (fun before => (partition _).rounds _) (fun before => .start _ _) topic

theorem mirrors_decode (version : Int16) (o : AlterPartitionReassignmentsResponse) :
    Mirrors (Laid o) (decode version) (Written.decode version) := by
  refine Mirrors.bind (Mirrors.failWith ?_ _) fun _ => .read _
  refine (Mirrors.update ?_).bind fun _ => (Mirrors.fieldOr _ ?_ ?_).bind fun _ => (Mirrors.fieldOr _ ?_ ?_).bind fun _ =>
    (Mirrors.fieldOr _ ?_ ?_).bind fun _ => (Mirrors.read _).bind fun numTopics => ?_
  · exact fun a w laid => { laid with version := rfl }
  · exact fun a w laid => { laid with throttleTime := rfl }
  · exact fun _ a w laid => { laid with throttleTime := rfl }
  · exact fun a w laid => { laid with code := rfl }
  · exact fun _ a w laid => { laid with code := rfl }
  · exact fun a w laid => laid
  · exact fun _ a w laid => { laid with message := rfl }
  · unfold decodeTopics Written.decodeTopics
    split
    · exact ((mirrors_topic o.errors).rounds _).member (fun _ _ laid => laid.errors) fun _ _ _ _ laid errors =>
        { laid with errors }
    · exact .pure ()

/-- The bytes get to the end of the message. -/
def HasMessage (version : Int16) (bytes : Bytes) : Prop :=
  ∃ message pd, getNullableString ((bodyReader (isFlexibleVersion version) bytes).advance 6) = .ok message pd

private theorem not_hasMessage_of_short {version : Int16} {bytes : Bytes} (short : bytes.length ≤ 6) :
    ¬ HasMessage version bytes := by
  rintro ⟨message, pd, found⟩
  obtain ⟨e, pd', failed⟩ := getNullableString_of_empty ((bodyReader (isFlexibleVersion version) bytes).advance 6)
    (by rw [remaining_advance_bodyReader]; omega)
  rw [found] at failed
  cases failed

private theorem state_failWith {ρ α : Type} (err : KError) (x : EStateM Failure ρ α) (s : ρ) :
    (failWith err x s).state = (x s).state := by
  unfold Kafka.failWith
  cases x s with
  | ok a t => rfl
  | error e t => cases e <;> rfl

private theorem object_bind_read {ρ α : Type} (x : DecodeInto ρ Unit) (get : Decode α) (s : ρ × PacketDecoder) :
    ((x >>= fun _ => DecodeInto.read get) s).state.1 = (x s).state.1 := by
  rw [bind_apply]
  cases x s with
  | ok _ t =>
    obtain ⟨o, pd⟩ := t
    dsimp only
    unfold DecodeInto.read readOr
    dsimp only
    cases get pd <;> rfl
  | error e t => rfl

/-- What stands behind the message keeps the members in front of the errors. -/
private theorem topics_keep (w : Written) (pd : PacketDecoder) :
    ∃ errors, ((do let numTopics ← read getArrayLength; Written.decodeTopics numTopics) (w, pd)).state.1 =
      { w with errors } := by
  rw [bind_apply]
  unfold DecodeInto.read readOr
  dsimp only
  cases getArrayLength pd with
  | error e pd => exact ⟨w.errors, rfl⟩
  | ok numTopics pd =>
    obtain positive | none_ := Decidable.em (0 < numTopics)
    · simp only [Written.decodeTopics, if_pos positive, part]
      cases rounds Written.decodeTopic numTopics.toInt.toNat (w.errors, pd) <;> exact ⟨_, rfl⟩
    · simp only [Written.decodeTopics, if_neg none_]
      exact ⟨w.errors, rfl⟩

private theorem written_eq (version : Int16) (bytes : Bytes) : written version bytes =
    ((do
      durationField fun throttleTime w => { w with throttleTime := some throttleTime }
      errField fun code w => { w with code := some code }
      field getNullableString fun message w => { w with message := some message }
      let numTopics ← read getArrayLength
      Written.decodeTopics numTopics : DecodeInto Written Unit)
        ({ version := some version }, bodyReader (isFlexibleVersion version) bytes)).state.1 := by
  unfold written Written.decode Written.decodeFields
  rw [object_bind_read, state_failWith, update_bind]

private theorem head_written (version : Int16) (bytes : Bytes) :
    (written version bytes).version = some version ∧ (written version bytes).throttleTime ≠ none ∧
      ((written version bytes).code = none ↔ bytes.length < 4) ∧
      ((written version bytes).message = none ↔ ¬ HasMessage version bytes) := by
  rw [written_eq]
  obtain short | room := lt_or_ge (bodyReader (isFlexibleVersion version) bytes).remaining 4
  · have cut : bytes.length < 4 := short
    rw [bind_of_error (durationField_of_short short _ _)]
    exact ⟨rfl, nofun, iff_of_true rfl cut, iff_of_true rfl (not_hasMessage_of_short (by omega))⟩
  rw [bind_of_ok (durationField_of_room room _ _)]
  have long : ¬ bytes.length < 4 := fun cut => room.not_gt cut
  obtain short | room' := lt_or_ge ((bodyReader (isFlexibleVersion version) bytes).advance 4).remaining 2
  · have cut : bytes.length - 4 < 2 := remaining_advance_bodyReader 4 ▸ short
    rw [bind_of_error (errField_of_short short _ _)]
    exact ⟨rfl, nofun, iff_of_false nofun long, iff_of_true rfl (not_hasMessage_of_short (by omega))⟩
  rw [bind_of_ok (errField_of_room room' _ _), advance_advance]
  cases run : getNullableString ((bodyReader (isFlexibleVersion version) bytes).advance 6) with
  | error e pd =>
    have hasNot : ¬ HasMessage version bytes := by
      rintro ⟨message, pd', found⟩
      rw [run] at found
      cases found
    rw [field, bind_of_error (fieldOr_of_error run _ _ _)]
    exact ⟨rfl, nofun, iff_of_false nofun long, iff_of_true rfl hasNot⟩
  | ok message pd =>
    have has : HasMessage version bytes := ⟨message, pd, run⟩
    rw [field, bind_of_ok (fieldOr_of_ok run _ _ _)]
    obtain ⟨errors, kept⟩ := topics_keep _ pd
    rw [kept]
    exact ⟨rfl, nofun, iff_of_false nofun long, iff_of_false nofun (not_not_intro has)⟩

/-- Every old partition of a topic is written, and none of its members is left. -/
def HidePartitions (partitions : ExtTreeMap Int32 WrittenBlock)
    (old : Option (ExtTreeMap Int32 AlterPartitionReassignmentsErrorBlock)) : Prop :=
  ∀ partition : Int32, (partitions[partition]? = none → (old.getD ∅)[partition]? = none) ∧
    ∀ block, partitions[partition]? = some block → block.Hides (old.getD ∅)[partition]?

/-- The two objects agree on the members that decoding the bytes does not replace, and the bytes write over every error. -/
structure Replaced (version : Int16) (bytes : Bytes) (target fresh : AlterPartitionReassignmentsResponse) : Prop where
  throttleTime : bytes = [] → target.throttleTime = fresh.throttleTime
  code : bytes.length < 4 → target.code = fresh.code
  message : ¬ HasMessage version bytes → target.message = fresh.message
  topics : ∀ topic : Bytes, (written version bytes).errors[topic]? = none → target.errors[topic]? = none
  partitions : ∀ (topic : Bytes) partitions, (written version bytes).errors[topic]? = some partitions →
    HidePartitions partitions target.errors[topic]?
  version : bytes = [] → target.version = fresh.version

private theorem getD_eq_getD_iff (written : Option α) (x y : α) :
    written.getD x = written.getD y ↔ (written = none → x = y) := by
  cases written <;> simp

/-- The bytes leave the same errors over old ones and over none, exactly when they write over all of the old ones. -/
private theorem errors_eq_iff {o fresh a b : AlterPartitionReassignmentsResponse} {w : Written} (none_ : fresh.errors = ∅)
    (laid : Laid o a w) (laid' : Laid fresh b w) :
    a.errors = b.errors ↔ ∀ topic : Bytes, (w.errors[topic]? = none → o.errors[topic]? = none) ∧
      ∀ partitions, w.errors[topic]? = some partitions → HidePartitions partitions o.errors[topic]? := by
  have over' := laid'.errors
  rw [none_] at over'
  refine laid.errors.eq_iff (C := fun old partitions => HidePartitions partitions old) over' ?_
  intro old partitions m m' over_ overNone
  refine ExtTreeMap.LaidOver.eq_iff (C := fun old block => block.Hides old) over_ overNone ?_
  rintro old block _ _ rfl rfl
  exact block.over_none_iff old

private theorem written_nil (version : Int16) : (written version []).errors = ∅ := by
  have short : (bodyReader (isFlexibleVersion version) []).remaining < 4 := Nat.zero_lt_succ 3
  rw [written_eq, bind_of_error (durationField_of_short short _ _)]
  rfl

/-- Decoding is as into a fresh object exactly when the members that are not replaced are those of the fresh object. -/
theorem sameDecoded_iff (version : Int16) (bytes : Bytes) (target : AlterPartitionReassignmentsResponse)
    (throttleTime : Int64) : SameDecoded (isFlexibleVersion version) (decode version) bytes target { throttleTime } ↔
      Replaced version bytes target { throttleTime } := by
  obtain ⟨hasVersion, hasThrottleTime, noCode_iff, noMessage_iff⟩ := head_written version bytes
  obtain rfl | some_ := eq_or_ne bytes []
  · rw [sameDecoded_nil]
    constructor
    · rintro rfl
      refine ⟨fun _ => rfl, fun _ => rfl, fun _ => rfl, fun topic _ => rfl, fun topic partitions found => ?_, fun _ => rfl⟩
      simp [written_nil] at found
    · intro replaced
      have errors : target.errors = ∅ := by
        apply ExtTreeMap.ext_getElem?
        intro topic
        rw [replaced.topics topic (by rw [written_nil]; rfl)]
        rfl
      have message := replaced.message (not_hasMessage_of_short (Nat.zero_le 6))
      cases target
      exact mk.injEq .. ▸
        ⟨replaced.version rfl, replaced.throttleTime rfl, replaced.code (Nat.zero_lt_succ 3), message, errors⟩
  · have start (o : AlterPartitionReassignmentsResponse) : Laid o o {} := ⟨rfl, rfl, rfl, rfl, .start _ _⟩
    refine Kafka.sameDecoded_iff some_ (fun o => (mirrors_decode version o).alike (start o) _) ?_
    intro a b laid laid'
    have same_iff : a = b ↔ a.version = b.version ∧ a.throttleTime = b.throttleTime ∧ a.code = b.code ∧
        a.message = b.message ∧ a.errors = b.errors := by
      cases a
      cases b
      simp only [mk.injEq]
    rw [same_iff, errors_eq_iff rfl laid laid', laid.version, laid'.version, laid.throttleTime, laid'.throttleTime,
      laid.code,
      laid'.code, laid.message, laid'.message, getD_eq_getD_iff, getD_eq_getD_iff, getD_eq_getD_iff, getD_eq_getD_iff]
    constructor
    · rintro ⟨-, -, code, message, errors⟩
      exact ⟨fun empty => absurd empty some_, fun cut => code (noCode_iff.mpr cut), fun hasNot =>
        message (noMessage_iff.mpr hasNot),
        fun topic => (errors topic).1, fun topic => (errors topic).2, fun empty => absurd empty some_⟩
    · intro replaced
      refine ⟨fun noVersion => ?_, fun noThrottleTime => absurd noThrottleTime hasThrottleTime, fun noCode =>
        ?_, fun noMessage => ?_,
        fun topic => ⟨replaced.topics topic, replaced.partitions topic⟩⟩
      · cases hasVersion.symm.trans noVersion
      · exact replaced.code (noCode_iff.mp noCode)
      · exact replaced.message (noMessage_iff.mp noMessage)

end AlterPartitionReassignmentsResponse

/-! ## All of the messages -/

/-- Into an object with any contents, a message is decoded as into a new one exactly when the members that the bytes do
not replace are as in the new one; the members of that without an initial value hold anything. -/
theorem decoding_overwrites_iff (version : Int16) (bytes : Bytes) :
    (∀ (target : Body.ListGroupsResponse) (throttleTime : Int64) (err : Int16),
      SameDecoded (Body.ListGroupsResponse.isFlexibleVersion version)
        (Body.ListGroupsResponse.decode version) bytes target { throttleTime, err } ↔
        target.Replaced version bytes { throttleTime, err }) ∧
    (∀ (target : CreateTopicsRequest) (initial : Int16) (timeout : Int64) (validateOnly : Bool),
      SameDecoded (CreateTopicsRequest.isFlexibleVersion version) (CreateTopicsRequest.decode version) bytes target
          { version := initial, timeout, validateOnly } ↔
        target.Replaced version bytes { version := initial, timeout, validateOnly }) ∧
    (∀ (target : AlterPartitionReassignmentsResponse) (throttleTime : Int64),
      SameDecoded (AlterPartitionReassignmentsResponse.isFlexibleVersion version)
        (AlterPartitionReassignmentsResponse.decode version) bytes target { throttleTime } ↔
        target.Replaced version bytes { throttleTime }) ∧ ∀ (target : Body.OffsetCommitResponse) (throttleTime : Int64),
      SameDecoded false (Body.OffsetCommitResponse.decode version) bytes target { throttleTime } ↔
        target.Replaced version bytes { throttleTime } :=
  ⟨fun target throttleTime err => Body.ListGroupsResponse.sameDecoded_iff version bytes target { throttleTime, err },
    fun target initial timeout validateOnly =>
      CreateTopicsRequest.sameDecoded_iff version bytes target { version := initial, timeout, validateOnly },
    AlterPartitionReassignmentsResponse.sameDecoded_iff version bytes,
    fun target throttleTime => Body.OffsetCommitResponse.sameDecoded_iff version bytes target { throttleTime }⟩

/-- The error of an earlier answer is still there behind an answer without any. -/
theorem earlier_error_survives :
    ¬ SameDecoded true (AlterPartitionReassignmentsResponse.decode 0) [0, 0, 0, 0, 0, 0, 0, 1, 0]
      { errors := ExtTreeMap.insert ∅ [116] (ExtTreeMap.insert ∅ 3 { code := 42 }) } {} := by
  have differ : (decodeVersion true (AlterPartitionReassignmentsResponse.decode 0) [0, 0, 0, 0, 0, 0, 0, 1, 0]
      { errors := ExtTreeMap.insert ∅ [116] (ExtTreeMap.insert ∅ 3 { code := 42 }) }).state.errors.size ≠
      (decodeVersion true (AlterPartitionReassignmentsResponse.decode 0) [0, 0, 0, 0, 0, 0, 0, 1, 0]
        {}).state.errors.size := by
    decide +kernel
  exact fun same => differ (congrArg (·.state.errors.size) same)

end Coev.Kafka
