import Coev.Proofs.Kafka.CreateTopicsResponse
import Coev.Proofs.Kafka.VarintGroups

/-! # Decoders of tagged fields

The bytes of a tagged field are taken before its decoder runs, and the decoder runs on the same reader: it reads what stands
behind its field, and the reader ends behind that. Only where the field is empty are the two the same. A size that exceeds
the buffer is refused after it was cut down to an `int`.
-/

namespace Coev.Kafka

open EStateM (bind_of_ok bind_eq_ok_iff bind_of_error bind_apply)
open PacketDecoder DecodeInto

variable {σ : Type} {decoders : List (UInt64 × DecodeInto σ Unit)} {tags : List (UInt64 × Bytes)}

/-! ## Sections -/

/-- The id of a tagged field and the size of its bytes. -/
def tagHeader (tag : UInt64 × Bytes) : Bytes := encodeUVariant tag.1 ++ encodeUVariant (UInt64.ofNat tag.2.length)

def tagBytes (tag : UInt64 × Bytes) : Bytes := tagHeader tag ++ tag.2

/-- A section of tagged fields: their number and the fields. -/
def sectionBytes (tags : List (UInt64 × Bytes)) : Bytes :=
  encodeUVariant (UInt64.ofNat tags.length) ++ tags.flatMap tagBytes

/-- Each decoder of a field in the section consumes the bytes of the field. -/
def ConsumeFields (decoders : List (UInt64 × DecodeInto σ Unit)) (tags : List (UInt64 × Bytes)) : Prop :=
  ∀ tag ∈ tags, ∀ decoder, decoders.lookup tag.1 = some decoder → ∀ o (pd : PacketDecoder) rest, InMode true pd →
    pd.unread = tag.2 ++ rest → ∃ o', decoder (o, pd) = .ok () (o', pd.advance tag.2.length)

/-- A decoder that notes where it was called. -/
def noting (id : UInt64) (decoder : DecodeInto σ Unit) : DecodeInto (List (UInt64 × ℕ) × σ) Unit := fun (both, pd) =>
  part Prod.snd (fun o both => (both.1, o)) decoder ((both.1 ++ [(id, pd.offset)], both.2), pd)

/-- The decoders, noting where they are called. -/
def notingAll (decoders : List (UInt64 × DecodeInto σ Unit)) : List (UInt64 × DecodeInto (List (UInt64 × ℕ) × σ) Unit) :=
  decoders.map fun entry => (entry.1, noting entry.1 entry.2)

/-- Where the bytes of the fields with a decoder stand, for fields that begin at an offset. -/
def fieldStarts (decoders : List (UInt64 × DecodeInto σ Unit)) : ℕ → List (UInt64 × Bytes) → List (UInt64 × ℕ)
  | _, [] => []
  | offset, tag :: tags =>
    (if (decoders.lookup tag.1).isSome then [(tag.1, offset + (tagHeader tag).length)] else []) ++
      fieldStarts decoders (offset + (tagBytes tag).length) tags

/-- In front of the section, in a buffer whose offsets are `int`s, the decoders are called on the bytes of their fields, in
order, and the reader is then behind the section, as it is when all the fields are skipped. -/
def HandlesSection (decoders : List (UInt64 × DecodeInto σ Unit)) (tags : List (UInt64 × Bytes)) : Prop :=
  ∀ (pd : PacketDecoder) rest o, InMode true pd → pd.raw.length ≤ int32Max → pd.unread = sectionBytes tags ++ rest →
    getEmptyTaggedFieldArray pd = .ok () (pd.advance (sectionBytes tags).length) ∧
      ∃ o', getTaggedFieldArray (notingAll decoders) (([], o), pd) =
        .ok () ((fieldStarts decoders (pd.offset + (encodeUVariant (UInt64.ofNat tags.length)).length) tags, o'),
          pd.advance (sectionBytes tags).length)

/-- The ids are below `2 ^ 63`, and the fields with a decoder are empty. -/
def Manageable (decoders : List (UInt64 × DecodeInto σ Unit)) (tags : List (UInt64 × Bytes)) : Prop :=
  ∀ tag ∈ tags, tag.1.toNat < 2 ^ 63 ∧ ((decoders.lookup tag.1).isSome → tag.2 = [])

/-! ## One field -/

private theorem lookup_notingAll (id : UInt64) : (notingAll decoders).lookup id = (decoders.lookup id).map (noting id) := by
  induction decoders with
  | nil => rfl
  | cons entry decoders ih =>
    obtain ⟨key, decoder⟩ := entry
    rw [notingAll, List.map_cons, List.lookup_cons, List.lookup_cons]
    cases same : id == key with
    | true =>
      obtain rfl := eq_of_beq same
      rfl
    | false => exact ih

variable {pd pd' : PacketDecoder} {tag : UInt64 × Bytes} {rest : Bytes}

/-- The unsigned reader refuses what it does not read back. -/
theorem getUVariant_of_large {x : UInt64} (large : 2 ^ 63 ≤ x.toNat) (ahead : pd.unread = encodeUVariant x ++ rest) :
    ∃ err pd', getUVariant pd = .error err pd' := by
  cases run : getUVariant pd with
  | error err pd' => exact ⟨err, pd', rfl⟩
  | ok y pd' =>
    obtain ⟨v, n, decoded, -, even, -, -⟩ := getUVariant_ok_iff.mp run
    rw [ahead, encodeUVariant_eq, Leb128.decode_encode] at decoded
    cases decoded
    have bound := x.toNat_lt
    have most : Leb128.size x.toNat ≤ 10 := (Leb128.size_le_iff (by omega) _).mpr (bound.trans (by decide))
    have more : ¬ Leb128.size x.toNat ≤ 9 := by
      rw [Leb128.size_le_iff (by omega)]
      exact not_lt.mpr large
    have low := even (by omega)
    omega

private theorem read_refused {α : Type} {get : Decode α} {err : Failure} (refused : get pd = .error err pd') (o : σ) :
    read get (o, pd) = .error err (o, pd') := by
  simp only [DecodeInto.read, readOr, refused, id_eq]

/-- Behind its id and its size, the bytes of a field are taken, and then its decoder is asked for. -/
theorem taggedField_of_header {id length : UInt64} (mode : InMode true pd) (idSmall : id.toNat < 2 ^ 63)
    (lengthSmall : length.toNat < 2 ^ 63) (ahead : pd.unread = encodeUVariant id ++ encodeUVariant length ++ rest) (o : σ) :
    taggedField decoders (o, pd) = (read (getRawBytes length.toInt64.toInt32) >>= fun _ => decoderOf decoders id)
        (o, pd.advance (encodeUVariant id ++ encodeUVariant length).length) := by
  rw [List.append_assoc] at ahead
  have first := (reads_getUVariant idSmall).read o pd _ mode ahead
  have second := (reads_getUVariant lengthSmall).read o _ rest (mode.advance _) (unread_advance ahead)
  rw [taggedField, bind_of_ok first, bind_of_ok second, advance_advance, List.length_append]

private theorem taggedField_of_large {id : UInt64} (large : 2 ^ 63 ≤ id.toNat)
    (ahead : pd.unread = encodeUVariant id ++ rest)
    (o : σ) : ∃ err s, taggedField decoders (o, pd) = .error err s := by
  obtain ⟨err, pd', refused⟩ := getUVariant_of_large large ahead
  exact ⟨err, _, bind_of_error (read_refused refused o) _⟩

/-- Before its decoder is asked for, the field is behind the reader. -/
theorem taggedField_eq (mode : InMode true pd) (idSmall : tag.1.toNat < 2 ^ 63) (small : tag.2.length ≤ int32Max)
    (ahead : pd.unread = tagBytes tag ++ rest) (o : σ) :
    taggedField decoders (o, pd) = decoderOf decoders tag.1 (o, pd.advance (tagBytes tag).length) := by
  have length : (UInt64.ofNat tag.2.length).toNat = tag.2.length :=
    UInt64.toNat_ofNat_of_lt (by simp only [int32Max] at small; simp only [UInt64.size]; omega)
  have cut : (UInt64.ofNat tag.2.length).toInt64.toInt32 = Int32.ofNat tag.2.length := by
    rw [UInt64.toInt64_ofNat', Int64.toInt32_ofNat']
  have lengthSmall : (UInt64.ofNat tag.2.length).toNat < 2 ^ 63 := by
    simp only [int32Max] at small
    omega
  rw [tagBytes, List.append_assoc] at ahead
  have bytes := (@reads_getRawBytes true _ small).read o (pd.advance (tagHeader tag).length) rest (mode.advance _)
    (unread_advance ahead)
  rw [taggedField_of_header mode idSmall lengthSmall ahead o, cut, ← tagHeader, bind_of_ok bytes, advance_advance,
    tagBytes, List.length_append]

/-! ## The loop -/

variable {log log' : List (UInt64 × ℕ)} {o o' : σ}

/-- A decoder that is called with its notes has noted its place. -/
theorem noting_ok {id : UInt64} {decoder : DecodeInto σ Unit}
    (run : inFlexible (noting id decoder) ((log, o), pd) = .ok () ((log', o'), pd')) : log' = log ++ [(id, pd.offset)] := by
  simp only [inFlexible, noting, part] at run
  split at run
  next both pd₁ inner =>
    split at inner
    next =>
      cases inner
      cases run
      rfl
    next => cases inner
  next => cases run

/-- A field adds to the notes. -/
theorem taggedField_notes (run : taggedField (notingAll decoders) ((log, o), pd) = .ok () ((log', o'), pd')) :
    ∃ more, log' = log ++ more := by
  obtain ⟨id, ⟨both, pd₁⟩, first, run⟩ := bind_eq_ok_iff.mp run
  obtain ⟨length, ⟨both', pd₂⟩, second, run⟩ := bind_eq_ok_iff.mp run
  obtain ⟨bytes, ⟨both'', pd₃⟩, third, run⟩ := bind_eq_ok_iff.mp run
  obtain ⟨-, rfl⟩ := read_eq_ok_iff.mp first
  obtain ⟨-, rfl⟩ := read_eq_ok_iff.mp second
  obtain ⟨-, rfl⟩ := read_eq_ok_iff.mp third
  rw [decoderOf, lookup_notingAll] at run
  cases found : decoders.lookup id with
  | none =>
    rw [found] at run
    cases run
    exact ⟨[], (List.append_nil _).symm⟩
  | some decoder =>
    rw [found] at run
    exact ⟨_, noting_ok run⟩

private theorem rounds_notes {n : ℕ}
    (run : rounds (taggedField (notingAll decoders)) n ((log, o), pd) = .ok () ((log', o'), pd')) :
    ∃ more, log' = log ++ more := by
  induction n generalizing log o pd with
  | zero =>
    cases run
    exact ⟨[], (List.append_nil _).symm⟩
  | succ n ih =>
    obtain ⟨_, ⟨⟨log₁, o₁⟩, pd₁⟩, first, others⟩ := bind_eq_ok_iff.mp run
    obtain ⟨more, rfl⟩ := taggedField_notes first
    obtain ⟨rest, rfl⟩ := ih others
    exact ⟨more ++ rest, List.append_assoc ..⟩

/-- The bytes of the first field fit in the buffer. -/
theorem length_le_raw {tags : List (UInt64 × Bytes)} (small : pd.raw.length ≤ int32Max)
    (ahead : pd.unread = (tag :: tags).flatMap tagBytes ++ rest) : tag.2.length ≤ int32Max := by
  have length := congrArg List.length ahead
  rw [unread, List.length_drop, List.flatMap_cons, List.length_append, List.length_append, tagBytes, List.length_append]
    at length
  omega

/-- A decoder that consumes nothing leaves the reader behind its field. -/
theorem noting_empty {decoder : DecodeInto σ Unit} (id : UInt64) (pd : PacketDecoder)
    (consumes : ∀ o (pd : PacketDecoder) rest, InMode true pd → pd.unread = [] ++ rest →
      ∃ o', decoder (o, pd) = .ok () (o', pd.advance 0)) (log : List (UInt64 × ℕ)) (o : σ) :
    ∃ o', inFlexible (noting id decoder) ((log, o), pd) = .ok () ((log ++ [(id, pd.offset)], o'), pd) := by
  obtain ⟨o', run⟩ := consumes o { pd with flexible := pd.flexible + 1 } pd.unread
    ⟨fun isFixed => absurd isFixed (Nat.succ_ne_zero _), Bool.noConfusion⟩ rfl
  refine ⟨o', ?_⟩
  simp only [inFlexible, noting, part, run]
  rfl

/-- What a manageable field does. -/
theorem taggedField_manageable {tags : List (UInt64 × Bytes)} (consume : ConsumeFields decoders (tag :: tags))
    (idSmall : tag.1.toNat < 2 ^ 63) (empty : (decoders.lookup tag.1).isSome → tag.2 = []) (mode : InMode true pd)
    (small : pd.raw.length ≤ int32Max) (ahead : pd.unread = (tag :: tags).flatMap tagBytes ++ rest)
    (log : List (UInt64 × ℕ)) (o : σ) : ∃ o', taggedField (notingAll decoders) ((log, o), pd) =
      .ok () ((log ++ if (decoders.lookup tag.1).isSome then [(tag.1, pd.offset + (tagHeader tag).length)] else [], o'),
        pd.advance (tagBytes tag).length) := by
  have tagSmall := length_le_raw small ahead
  rw [List.flatMap_cons, List.append_assoc] at ahead
  rw [taggedField_eq mode idSmall tagSmall ahead, decoderOf, lookup_notingAll]
  cases found : decoders.lookup tag.1 with
  | none =>
    refine ⟨o, ?_⟩
    rw [Option.isSome_none, if_neg Bool.false_ne_true, List.append_nil]
    rfl
  | some decoder =>
    have nothing := empty (Option.isSome_of_eq_some found)
    have consumes := consume tag List.mem_cons_self decoder found
    rw [nothing] at consumes
    obtain ⟨o', run⟩ := noting_empty tag.1 (pd.advance (tagBytes tag).length) consumes log o
    have start : (pd.advance (tagBytes tag).length).offset = pd.offset + (tagHeader tag).length := by
      rw [tagBytes, nothing, List.append_nil]
      rfl
    rw [start] at run
    exact ⟨o', run⟩

/-- Manageable fields are handled. -/
theorem rounds_manageable (consume : ConsumeFields decoders tags) (manageable : Manageable decoders tags)
    (mode : InMode true pd)
    (small : pd.raw.length ≤ int32Max) (ahead : pd.unread = tags.flatMap tagBytes ++ rest) (log : List (UInt64 × ℕ))
    (o : σ) : ∃ o', rounds (taggedField (notingAll decoders)) tags.length ((log, o), pd) =
      .ok () ((log ++ fieldStarts decoders pd.offset tags, o'), pd.advance (tags.flatMap tagBytes).length) := by
  induction tags generalizing pd log o with
  | nil =>
    refine ⟨o, ?_⟩
    rw [fieldStarts, List.append_nil]
    rfl
  | cons tag tags ih =>
    obtain ⟨⟨idSmall, empty⟩, others⟩ := List.forall_mem_cons.mp manageable
    obtain ⟨o₁, first⟩ := taggedField_manageable consume idSmall empty mode small ahead log o
    rw [List.flatMap_cons, List.append_assoc] at ahead
    obtain ⟨o', rest⟩ := ih (fun tag member => consume tag (List.mem_cons_of_mem _ member)) others (mode.advance _) small
      (unread_advance ahead) _ o₁
    refine ⟨o', ?_⟩
    rw [List.length_cons, rounds, bind_of_ok first, rest, fieldStarts, List.append_assoc, advance_advance,
      List.flatMap_cons, List.length_append]
    rfl

/-- Fields that are handled are manageable: what is noted first is behind the field, and the notes stay. -/
theorem manageable_of_rounds (consume : ConsumeFields decoders tags) (mode : InMode true pd)
    (small : pd.raw.length ≤ int32Max) (ahead : pd.unread = tags.flatMap tagBytes ++ rest)
    (run : rounds (taggedField (notingAll decoders)) tags.length ((log, o), pd) =
      .ok () ((log ++ fieldStarts decoders pd.offset tags, o'), pd')) : Manageable decoders tags := by
  induction tags generalizing pd log o with
  | nil => exact fun tag member => absurd member List.not_mem_nil
  | cons tag tags ih =>
    have tagSmall := length_le_raw small ahead
    have consumes := fun tag' member => consume tag' (List.mem_cons_of_mem tag member)
    have ahead' := ahead
    rw [List.flatMap_cons, List.append_assoc] at ahead'
    obtain ⟨_, ⟨⟨log₁, o₁⟩, pd₁⟩, first, others⟩ := bind_eq_ok_iff.mp run
    have idSmall : tag.1.toNat < 2 ^ 63 := by
      by_contra large
      have header := ahead'
      rw [tagBytes, tagHeader, List.append_assoc, List.append_assoc] at header
      obtain ⟨err, s, refused⟩ := taggedField_of_large (not_lt.mp large) header (log, o)
      rw [refused] at first
      cases first
    have empty : (decoders.lookup tag.1).isSome → tag.2 = [] := by
      intro registered
      obtain ⟨decoder, found⟩ := Option.isSome_iff_exists.mp registered
      rw [taggedField_eq mode idSmall tagSmall ahead', decoderOf, lookup_notingAll, found] at first
      obtain rfl := noting_ok first
      obtain ⟨more, same⟩ := rounds_notes others
      rw [fieldStarts, if_pos registered, List.append_assoc, List.append_right_inj, List.singleton_append,
        List.singleton_append,
        List.cons.injEq, Prod.mk.injEq] at same
      have start : pd.offset + (tagHeader tag).length = pd.offset + (tagBytes tag).length := same.1.2
      rw [tagBytes, List.length_append] at start
      exact List.length_eq_zero_iff.mp (by omega)
    obtain ⟨o₂, done⟩ := taggedField_manageable consume idSmall empty mode small ahead log o
    rw [done] at first
    cases first
    rw [fieldStarts, ← List.append_assoc] at others
    exact List.forall_mem_cons.mpr
      ⟨⟨idSmall, empty⟩, ih consumes (mode.advance _) small (unread_advance ahead') others⟩

/-! ## Notes change nothing -/

/-- A result without its notes. -/
def dropNotes {α : Type} (result : EStateM.Result Failure ((List (UInt64 × ℕ) × σ) × PacketDecoder) α) :
    EStateM.Result Failure (σ × PacketDecoder) α :=
  match result with
  | .ok a (both, pd) => .ok a (both.2, pd)
  | .error e (both, pd) => .error e (both.2, pd)

private theorem dropNotes_bind {α β : Type} {x : DecodeInto (List (UInt64 × ℕ) × σ) α} {y : DecodeInto σ α}
    {f : α → DecodeInto (List (UInt64 × ℕ) × σ) β} {g : α → DecodeInto σ β}
    (first : ∀ both pd, dropNotes (x (both, pd)) = y (both.2, pd))
    (next : ∀ a both pd, dropNotes (f a (both, pd)) = g a (both.2, pd)) (both : List (UInt64 × ℕ) × σ) (pd : PacketDecoder) :
    dropNotes ((x >>= f) (both, pd)) = (y >>= g) (both.2, pd) := by
  have head := first both pd
  rw [bind_apply, bind_apply, ← head]
  cases x (both, pd) with
  | ok a s => exact next a s.1 s.2
  | error e s => rfl

private theorem dropNotes_read {α : Type} (get : Decode α) (both : List (UInt64 × ℕ) × σ) (pd : PacketDecoder) :
    dropNotes (read get (both, pd)) = read get (both.2, pd) := by
  simp only [DecodeInto.read, readOr]
  cases get pd <;> rfl

private theorem dropNotes_taggedField (both : List (UInt64 × ℕ) × σ) (pd : PacketDecoder) :
    dropNotes (taggedField (notingAll decoders) (both, pd)) = taggedField decoders (both.2, pd) := by
  refine dropNotes_bind (dropNotes_read _) (fun id => ?_) both pd
  refine dropNotes_bind (dropNotes_read _) fun length => ?_
  refine dropNotes_bind (dropNotes_read _) fun bytes both pd => ?_
  rw [decoderOf, decoderOf, lookup_notingAll]
  cases decoders.lookup id with
  | none => rfl
  | some decoder =>
    simp only [Option.map_some, inFlexible, noting, part]
    cases decoder (both.2, { pd with flexible := pd.flexible + 1 }) <;> rfl

private theorem dropNotes_rounds (n : ℕ) (both : List (UInt64 × ℕ) × σ) (pd : PacketDecoder) :
    dropNotes (rounds (taggedField (notingAll decoders)) n (both, pd)) = rounds (taggedField decoders) n (both.2, pd) := by
  induction n generalizing both pd with
  | zero => rfl
  | succ n ih => exact dropNotes_bind dropNotes_taggedField (fun _ => ih) both pd

/-! ## The section -/

private theorem taggedField_nil : taggedField ([] : List (UInt64 × DecodeInto σ Unit)) = read skipTaggedField := by
  rw [skipTaggedField, read_bind]
  refine congrArg _ (funext fun id => ?_)
  rw [read_bind]
  refine congrArg _ (funext fun length => ?_)
  rw [read_bind]
  rfl

private theorem rounds_read (get : Decode Unit) (n : ℕ) :
    rounds (read get : DecodeInto σ Unit) n = read (repeatRead get n >>= fun _ => pure ()) := by
  induction n with
  | zero => rfl
  | succ n ih =>
    rw [rounds, ih, ← read_bind, repeatRead, bind_assoc]
    simp only [bind_assoc, pure_bind]

/-- Without decoders, the loop would skip the fields in the same way. -/
theorem getTaggedFieldArray_eq (mode : InMode true pd) (o : σ) : getTaggedFieldArray decoders (o, pd) =
      (read getUVariant >>= fun count => rounds (taggedField decoders) count.toNat) (o, pd) := by
  have notFixed : pd.flexible ≠ 0 := fun isFixed => Bool.noConfusion (mode.mp isFixed)
  rw [getTaggedFieldArray, if_neg notFixed]
  split
  next none_ =>
    have same : read getEmptyTaggedFieldArray (o, pd) =
        (read (getUVariant >>= fun count => repeatRead skipTaggedField count.toNat >>= fun _ => pure ()) :
          DecodeInto σ Unit) (o, pd) := by
      simp only [DecodeInto.read, readOr, getEmptyTaggedFieldArray, byMode, if_neg notFixed]
    rw [same, read_bind, List.isEmpty_iff.mp none_, taggedField_nil]
    simp only [rounds_read]
  next => rfl

private theorem getTaggedFieldArray_nil (mode : InMode true pd) (o : σ) :
    getTaggedFieldArray [] (o, pd) = read getEmptyTaggedFieldArray (o, pd) := by
  have notFixed : pd.flexible ≠ 0 := fun isFixed => Bool.noConfusion (mode.mp isFixed)
  rw [getTaggedFieldArray, if_neg notFixed]
  rfl

private theorem notingAll_nil : notingAll ([] : List (UInt64 × DecodeInto σ Unit)) = [] := rfl

private theorem length_le_flatMap (tags : List (UInt64 × Bytes)) : tags.length ≤ (tags.flatMap tagBytes).length := by
  induction tags with
  | nil => exact le_rfl
  | cons tag tags ih =>
    have some_ : 0 < (tagBytes tag).length := by
      rw [tagBytes, tagHeader, List.length_append, List.length_append, length_encodeUVariant]
      have := Leb128.size_pos tag.1.toNat
      omega
    rw [List.flatMap_cons, List.length_append, List.length_cons]
    omega

/-- The number of the fields of a section that a buffer holds is read back. -/
theorem toNat_count (small : (sectionBytes tags).length ≤ int32Max) : (UInt64.ofNat tags.length).toNat = tags.length := by
  have fields := length_le_flatMap tags
  rw [sectionBytes, List.length_append] at small
  refine UInt64.toNat_ofNat_of_lt ?_
  simp only [int32Max] at small
  simp only [UInt64.size]
  omega

/-- Behind the number of the fields there are the fields. -/
theorem getTaggedFieldArray_of_section (mode : InMode true pd) (small : (sectionBytes tags).length ≤ int32Max)
    (ahead : pd.unread = sectionBytes tags ++ rest) (o : σ) : getTaggedFieldArray decoders (o, pd) =
      rounds (taggedField decoders) tags.length (o, pd.advance (encodeUVariant (UInt64.ofNat tags.length)).length) := by
  have value := toNat_count small
  have below : (UInt64.ofNat tags.length).toNat < 2 ^ 63 := by
    have fields := length_le_flatMap tags
    rw [sectionBytes, List.length_append] at small
    simp only [int32Max] at small
    omega
  rw [sectionBytes, List.append_assoc] at ahead
  have count := (reads_getUVariant below).read o pd _ mode ahead
  rw [getTaggedFieldArray_eq mode, bind_of_ok count, value]

private theorem length_section_le (small : pd.raw.length ≤ int32Max) (ahead : pd.unread = sectionBytes tags ++ rest) :
    (sectionBytes tags).length ≤ int32Max := by
  have length := congrArg List.length ahead
  rw [unread, List.length_drop, List.length_append] at length
  omega

theorem Manageable.handlesSection (consume : ConsumeFields decoders tags) (manageable : Manageable decoders tags) :
    HandlesSection decoders tags := by
  intro pd rest o mode small ahead
  have fits := length_section_le small ahead
  have ahead' := ahead
  rw [sectionBytes, List.append_assoc] at ahead'
  have behind := unread_advance ahead'
  have total : (sectionBytes tags).length =
      (encodeUVariant (UInt64.ofNat tags.length)).length + (tags.flatMap tagBytes).length := List.length_append
  constructor
  · have ids : Manageable ([] : List (UInt64 × DecodeInto Unit Unit)) tags :=
      fun tag member => ⟨(manageable tag member).1, Bool.noConfusion⟩
    have nobody : ConsumeFields ([] : List (UInt64 × DecodeInto Unit Unit)) tags := by
      intro tag member decoder found
      cases found
    obtain ⟨o', run⟩ := rounds_manageable nobody ids (mode.advance _) small behind [] ()
    have skipped := getTaggedFieldArray_nil mode (([], ()) : List (UInt64 × ℕ) × Unit)
    rw [← notingAll_nil, getTaggedFieldArray_of_section mode fits ahead, run, advance_advance, ← total] at skipped
    exact (read_eq_ok_iff.mp skipped.symm).1
  · obtain ⟨o', run⟩ := rounds_manageable consume manageable (mode.advance _) small behind [] o
    refine ⟨o', ?_⟩
    rw [getTaggedFieldArray_of_section mode fits ahead, run, advance_advance, ← total]
    rfl

/-- Fields that are handled are manageable. -/
theorem manageable_of_handlesSection [Nonempty σ] (consume : ConsumeFields decoders tags)
    (fits : (sectionBytes tags).length ≤ int32Max) (handles : HandlesSection decoders tags) : Manageable decoders tags := by
  obtain ⟨o⟩ := ‹Nonempty σ›
  let pd : PacketDecoder := { raw := sectionBytes tags, flexible := 1 }
  have mode : InMode true pd := ⟨fun isFixed => absurd isFixed one_ne_zero, Bool.noConfusion⟩
  have ahead : pd.unread = sectionBytes tags ++ [] := (List.append_nil _).symm
  obtain ⟨-, o', run⟩ := handles pd [] o mode fits ahead
  rw [getTaggedFieldArray_of_section mode fits ahead] at run
  have ahead' := ahead
  rw [sectionBytes, List.append_assoc] at ahead'
  exact manageable_of_rounds consume (mode.advance _) fits (unread_advance ahead') run

private theorem handlesSection_iff [Nonempty σ] (consume : ConsumeFields decoders tags)
    (fits : (sectionBytes tags).length ≤ int32Max) : HandlesSection decoders tags ↔ Manageable decoders tags :=
  ⟨manageable_of_handlesSection consume fits, Manageable.handlesSection consume⟩

/-! ## Sizes that exceed the buffer -/

/-- A section whose fields end in one with some size, before the end of the buffer. -/
def oversizeBytes (tags : List (UInt64 × Bytes)) (count id length : UInt64) (tail : Bytes) : Bytes :=
  encodeUVariant count ++ (tags.flatMap tagBytes ++ (encodeUVariant id ++ encodeUVariant length ++ tail))

/-- The section is refused, whatever number of fields is announced. -/
def OversizeRefused (decoders : List (UInt64 × DecodeInto σ Unit)) (tags : List (UInt64 × Bytes)) (id length : UInt64)
    (tail : Bytes) : Prop :=
  ∀ (count : UInt64) (pd : PacketDecoder) o, tags.length < count.toNat → InMode true pd → pd.raw.length ≤ int32Max →
    pd.unread = oversizeBytes tags count id length tail → ∃ err s, getTaggedFieldArray decoders (o, pd) = .error err s

/-- The size is read, and what the cast to `int` leaves of it does not exceed the buffer. -/
def CutAccepted (id length : UInt64) (tail : Bytes) : Prop :=
  id.toNat < 2 ^ 63 ∧ length.toNat < 2 ^ 63 ∧ 0 ≤ length.toInt64.toInt32.toInt ∧ length.toInt64.toInt32.toInt ≤ tail.length

private theorem rounds_add (round : DecodeInto σ Unit) (m n : ℕ) :
    rounds round (m + n) = (rounds round m >>= fun _ => rounds round n) := by
  induction m with
  | zero =>
    rw [Nat.zero_add, rounds]
    exact (pure_bind _ _).symm
  | succ m ih => rw [Nat.succ_add, rounds, ih, rounds, bind_assoc]

/-- Manageable fields are read, whoever keeps notes. -/
theorem rounds_ok (consume : ConsumeFields decoders tags) (manageable : Manageable decoders tags) (mode : InMode true pd)
    (small : pd.raw.length ≤ int32Max) (ahead : pd.unread = tags.flatMap tagBytes ++ rest) (o : σ) :
    ∃ o', rounds (taggedField decoders) tags.length (o, pd) = .ok () (o', pd.advance (tags.flatMap tagBytes).length) := by
  obtain ⟨o', run⟩ := rounds_manageable consume manageable mode small ahead [] o
  have same := @dropNotes_rounds _ decoders tags.length ([], o) pd
  rw [run] at same
  exact ⟨o', same.symm⟩

variable {id length : UInt64} {tail : Bytes}

/-- A size that is refused after the cast, or before. -/
theorem taggedField_refused (mode : InMode true pd) (cut : ¬ CutAccepted id length tail)
    (ahead : pd.unread = encodeUVariant id ++ encodeUVariant length ++ tail) (o : σ) :
    ∃ err s, taggedField decoders (o, pd) = .error err s := by
  by_cases idSmall : id.toNat < 2 ^ 63
  · by_cases lengthSmall : length.toNat < 2 ^ 63
    · rw [taggedField_of_header mode idSmall lengthSmall ahead o]
      have behind := unread_advance ahead
      cases taken : getRawBytes length.toInt64.toInt32
          (pd.advance (encodeUVariant id ++ encodeUVariant length).length) with
      | ok bytes pd' =>
        obtain ⟨-, size, available⟩ := getRawBytes_consumes taken
        rw [remaining_eq, behind] at available
        exact absurd ⟨idSmall, lengthSmall, by omega, by omega⟩ cut
      | error err pd' => exact ⟨err, _, bind_of_error (read_refused taken _) _⟩
    · have ahead' := ahead
      rw [List.append_assoc] at ahead'
      have first := (reads_getUVariant idSmall).read o pd _ mode ahead'
      obtain ⟨err, pd', refused⟩ := getUVariant_of_large (not_lt.mp lengthSmall) (unread_advance ahead')
      rw [taggedField, bind_of_ok first]
      exact ⟨err, _, bind_of_error (read_refused refused _) _⟩
  · rw [List.append_assoc] at ahead
    exact taggedField_of_large (not_lt.mp idSmall) ahead o

private theorem oversizeRefused_of_not_cutAccepted (consume : ConsumeFields decoders tags)
    (manageable : Manageable decoders tags)
    (cut : ¬ CutAccepted id length tail) : OversizeRefused decoders tags id length tail := by
  intro count pd o more mode small ahead
  rw [getTaggedFieldArray_eq mode]
  by_cases countSmall : count.toNat < 2 ^ 63
  · have first := (reads_getUVariant countSmall).read o pd _ mode ahead
    have behind := unread_advance ahead
    obtain ⟨o', fields⟩ := rounds_ok consume manageable (mode.advance _) small behind o
    obtain ⟨err, s, refused⟩ :=
      @taggedField_refused _ decoders _ _ _ _ ((mode.advance _).advance _) cut (unread_advance behind) o'
    obtain ⟨others, total⟩ := Nat.exists_eq_add_of_lt more
    rw [bind_of_ok first, total, Nat.add_assoc, rounds_add, bind_of_ok fields, rounds]
    exact ⟨err, s, bind_of_error refused _⟩
  · obtain ⟨err, pd', refused⟩ := getUVariant_of_large (not_lt.mp countSmall) ahead
    exact ⟨err, _, bind_of_error (read_refused refused _) _⟩

private theorem getRawBytes_of_cutAccepted {length : Int32} (mode : InMode true pd) (nonneg : 0 ≤ length.toInt)
    (available : length.toInt ≤ tail.length) (ahead : pd.unread = tail) :
    getRawBytes length pd = .ok (tail.take length.toInt.toNat) (pd.advance length.toInt.toNat) := by
  have size : (tail.take length.toInt.toNat).length = length.toInt.toNat := List.length_take_of_le (by omega)
  rw [← List.take_append_drop length.toInt.toNat tail] at ahead
  have run := reads_take (tail.take length.toInt.toNat) pd _ mode ahead
  rw [size] at run
  rw [getRawBytes, if_neg (fun negative => not_lt.mpr nonneg (Int32.lt_iff_toInt_lt.mp negative)), run]

private theorem taggedField_skips (mode : InMode true pd) (unknown : decoders.lookup id = none)
    (cut : CutAccepted id length tail)
    (ahead : pd.unread = encodeUVariant id ++ encodeUVariant length ++ tail) (o : σ) :
    ∃ s, taggedField decoders (o, pd) = .ok () s := by
  obtain ⟨idSmall, lengthSmall, nonneg, available⟩ := cut
  have skipped := getRawBytes_of_cutAccepted (mode.advance _) nonneg available (unread_advance ahead)
  rw [taggedField_of_header mode idSmall lengthSmall ahead o, bind_of_ok (read_eq_ok_iff.mpr ⟨skipped, rfl⟩),
    decoderOf, unknown]
  exact ⟨_, rfl⟩

/-- An unknown field whose size is cut down to what is there is skipped. -/
theorem not_oversizeRefused_of_cutAccepted [Nonempty σ] (consume : ConsumeFields decoders tags)
    (manageable : Manageable decoders tags) (unknown : decoders.lookup id = none) (cut : CutAccepted id length tail)
    (fits : (oversizeBytes tags (UInt64.ofNat (tags.length + 1)) id length tail).length ≤ int32Max) :
    ¬ OversizeRefused decoders tags id length tail := by
  obtain ⟨o⟩ := ‹Nonempty σ›
  have fields := length_le_flatMap tags
  have room := fits
  rw [oversizeBytes, List.length_append, List.length_append] at room
  simp only [int32Max] at room
  have value : (UInt64.ofNat (tags.length + 1)).toNat = tags.length + 1 :=
    UInt64.toNat_ofNat_of_lt (by simp only [UInt64.size]; omega)
  intro refused
  let pd : PacketDecoder :=
    { raw := oversizeBytes tags (UInt64.ofNat (tags.length + 1)) id length tail, flexible := 1 }
  have mode : InMode true pd := ⟨fun isFixed => absurd isFixed one_ne_zero, Bool.noConfusion⟩
  obtain ⟨err, s, run⟩ := refused _ pd o (by omega) mode fits rfl
  have first := (reads_getUVariant (x := UInt64.ofNat (tags.length + 1)) (by omega)).read o pd _ mode rfl
  have behind : (pd.advance (encodeUVariant (UInt64.ofNat (tags.length + 1))).length).unread = _ :=
    @unread_advance pd _ (tags.flatMap tagBytes ++ (encodeUVariant id ++ encodeUVariant length ++ tail)) rfl
  obtain ⟨o', done⟩ := rounds_ok consume manageable (mode.advance _) fits behind o
  obtain ⟨s', last⟩ := taggedField_skips ((mode.advance _).advance _) unknown cut (unread_advance behind) o'
  rw [getTaggedFieldArray_eq mode, bind_of_ok first, value, rounds_add, bind_of_ok done, rounds,
    bind_of_ok last] at run
  cases run

/-- Exactly where the fields with a decoder are empty the decoders are called on the bytes of their fields. A size that
exceeds the buffer is refused unless the cast to `int` makes it fit. -/
theorem taggedFields_iff [Nonempty σ] (consume : ConsumeFields decoders tags)
    (fits : (sectionBytes tags).length ≤ int32Max) : (HandlesSection decoders tags ↔ Manageable decoders tags) ∧
      (Manageable decoders tags → ∀ id length tail, tail.length < length.toNat →
        (¬ CutAccepted id length tail → OversizeRefused decoders tags id length tail) ∧ (decoders.lookup id = none →
          (oversizeBytes tags (UInt64.ofNat (tags.length + 1)) id length tail).length ≤ int32Max →
          (OversizeRefused decoders tags id length tail ↔ ¬ CutAccepted id length tail))) := by
  refine ⟨handlesSection_iff consume fits, fun manageable id length tail _ => ?_⟩
  have refuses := @oversizeRefused_of_not_cutAccepted _ _ _ id length tail consume manageable
  exact ⟨refuses, fun unknown room => ⟨fun refused cut =>
    not_oversizeRefused_of_cutAccepted consume manageable unknown cut room refused, refuses⟩⟩

private theorem length_tagHeader (tag : UInt64 × Bytes) :
    (tagHeader tag).length = Leb128.size tag.1.toNat + Leb128.size (UInt64.ofNat tag.2.length).toNat := by
  rw [tagHeader, List.length_append, length_encodeUVariant, length_encodeUVariant]

private theorem length_tagBytes (tag : UInt64 × Bytes) : (tagBytes tag).length =
      Leb128.size tag.1.toNat + Leb128.size (UInt64.ofNat tag.2.length).toNat + tag.2.length := by
  rw [tagBytes, List.length_append, length_tagHeader]

private theorem length_sectionBytes (tags : List (UInt64 × Bytes)) : (sectionBytes tags).length =
    Leb128.size (UInt64.ofNat tags.length).toNat + (tags.map fun tag => (tagBytes tag).length).sum := by
  rw [sectionBytes, List.length_append, length_encodeUVariant, List.length_flatMap]

instance : Nonempty (CreatableTopicResult × Bool) := ⟨({}, false)⟩

/-- The decoder of the topics' errors consumes the two bytes of its field. -/
theorem tag0_consumes {tag : UInt64 × Bytes} {decoders : List (UInt64 × DecodeInto (CreatableTopicResult × Bool) Unit)}
    (handled : decoders.lookup tag.1 = some CreatableTopicResult.tag0) (two : tag.2 = [0, 5]) :
    ConsumeFields decoders [tag] := by
  intro other member decoder found o pd rest mode ahead
  obtain rfl := List.mem_singleton.mp member
  obtain rfl := Option.some.inj (handled.symm.trans found)
  rw [two] at ahead ⊢
  have taken := (reads_getInt16 5).read o pd rest mode ahead
  refine ⟨({ o.1 with topicConfigErrorCode := 5 }, true), ?_⟩
  change (readOr id getInt16 >>= _) (o, pd) = _
  exact bind_of_ok taken _

/-- A field without bytes says what it says by being there, and one has the error of a topic. -/
def flagAndError : List (UInt64 × DecodeInto (CreatableTopicResult × Bool) Unit) :=
  [(0, fun (o, pd) => .ok () ((o.1, true), pd)), (1, CreatableTopicResult.tag0)]

/-- Decoders are called on empty fields, between others that are skipped, and not on the two bytes of an error. -/
theorem taggedFields_iff_flag : HandlesSection flagAndError [(0, []), (2, [7])] ∧
    ¬ HandlesSection flagAndError [(1, [0, 5])] ∧ OversizeRefused flagAndError [(0, []), (2, [7])] 3 5 [7] := by
  have consume : ConsumeFields flagAndError [(0, []), (2, [7])] := by
    intro tag member decoder found o pd rest mode ahead
    obtain rfl | rfl : tag = (0, []) ∨ tag = (2, [7]) := by simpa using member
    · cases found
      exact ⟨(o.1, true), rfl⟩
    · cases found
  have manageable : Manageable flagAndError [(0, []), (2, [7])] := by
    intro tag member
    obtain rfl | rfl : tag = (0, []) ∨ tag = (2, [7]) := by simpa using member
    · exact ⟨by decide, fun _ => rfl⟩
    · exact ⟨by decide, Bool.noConfusion⟩
  have fits (tags : List (UInt64 × Bytes)) (few : tags = [(0, []), (2, [7])] ∨ tags = [(1, [0, 5])]) :
      (sectionBytes tags).length ≤ int32Max := by
    simp only [length_sectionBytes, length_tagBytes]
    obtain rfl | rfl := few <;> decide
  have both := taggedFields_iff consume (fits _ (.inl rfl))
  refine ⟨both.1.mpr manageable, fun handles => ?_, ?_⟩
  · have empty := (taggedFields_iff (tag0_consumes rfl rfl) (fits _ (.inr rfl))).1.mp handles _ List.mem_cons_self
    exact absurd (empty.2 rfl) (List.cons_ne_nil _ _)
  · exact (both.2 manageable 3 5 [7] (by decide)).1 fun cut => absurd cut.2.2.2 (by decide)

/-- That decoder reads other bytes. A size of `2 ^ 32` is cut to none. -/
theorem tag0_reads_behind : ConsumeFields [(0, CreatableTopicResult.tag0)] [(0, [0, 5])] ∧
      ¬ HandlesSection [(0, CreatableTopicResult.tag0)] [(0, [0, 5])] ∧
      ¬ OversizeRefused [(0, CreatableTopicResult.tag0)] [] 1 4294967296 [] := by
  have fits : (sectionBytes [(0, [0, 5])]).length ≤ int32Max := by
    simp only [length_sectionBytes, length_tagBytes]
    decide
  have consume : ConsumeFields [(0, CreatableTopicResult.tag0)] [(0, [0, 5])] := tag0_consumes rfl rfl
  refine ⟨consume, ?_, ?_⟩
  · rw [handlesSection_iff consume fits]
    intro manageable
    have empty := (manageable (0, [0, 5]) List.mem_cons_self).2 rfl
    cases empty
  · refine not_oversizeRefused_of_cutAccepted (fun tag member => absurd member List.not_mem_nil)
      (fun tag member => absurd member List.not_mem_nil) rfl ⟨by decide, by decide, by decide, by decide⟩ ?_
    rw [oversizeBytes, List.length_append, List.length_append, List.length_append, List.length_append, length_encodeUVariant,
      length_encodeUVariant, length_encodeUVariant]
    decide

end Coev.Kafka
