import Coev.Model.Zookeeper.Proto
import Coev.Proofs.Zookeeper.Archive

/-! # The records of ZooKeeper: decoding what a peer may send, and reading back what was written

Every decoder stays within its view and accepts whole values only. A vector believes its count: it is resized before an
element was read, so a negative count throws and a large one takes memory for elements that cannot be there.
-/

namespace Coev.Zookeeper

variable {view rest : Bytes}

/-- The count was read, and as many elements fit into what is left. -/
def Resize.Fits (z : Resize) : Prop := ∃ count, z.count = some count ∧ count * z.least ≤ z.left

namespace Kind

/-- The bytes that denote a value. -/
def Layout : Kind → Bytes → Prop
  | .int, w => w.length = 4
  | .long, w => w.length = 8
  | .bool, w => w.length = 1
  | .string, w => ∃ (len : Int32) (text : Bytes), w = serializeInt len ++ text ∧ (text.length : ℤ) = len.toInt
  | .vec kind, w => ∃ (count : Int32) (elements : List Bytes), w = serializeInt count ++ elements.flatten ∧
      (elements.length : ℤ) = count.toInt ∧ ∀ e ∈ elements, kind.Layout e
  | .aclVec kind, w => ∃ (count : Int32) (elements : List Bytes), w = serializeInt count ++ elements.flatten ∧
      (elements.length : ℤ) = count.toInt ∧ ∀ e ∈ elements, kind.Layout e
  | .done, w => w = []
  | .field _ kind rest, w => ∃ front back, w = front ++ back ∧ kind.Layout front ∧ rest.Layout back

end Kind

/-! ## What is read off a view -/

variable {α β : Type}

private theorem takeBytes_eq_ok {n : ℕ} {view w rest : Bytes} (ok : takeBytes n view = .ok (w, rest)) :
    view = w ++ rest ∧ w.length = n := by
  unfold takeBytes at ok
  split at ok
  · cases ok
  · next enough =>
    obtain ⟨rfl, rfl⟩ := Prod.mk.inj (Except.ok.inj ok)
    exact ⟨(List.take_append_drop n view).symm, List.length_take_of_le (Nat.le_of_not_lt enough)⟩

/-- A word that was read is the word in front. -/
theorem deserializeInt_eq_ok {d : Int32} (ok : deserializeInt view = .ok (d, rest)) :
    view = serializeInt d ++ rest := by
  obtain ⟨w, rest', taken, ⟨⟩⟩ := bind_eq_ok_iff.mp ok
  obtain ⟨rfl, size⟩ := takeBytes_eq_ok taken
  have word : w = ByteString.bigEndian 4 (ByteString.value w) := by
    have same := ByteString.bigEndian_value_append [] w
    rw [List.nil_append, size] at same
    exact same.symm
  have small : ByteString.value w < 256 ^ 4 := size ▸ ByteString.value_lt w
  have loaded := ntohl_load (ByteString.value w) []
  rw [List.append_nil, ← word, Nat.mod_eq_of_lt small] at loaded
  have kept : (Int32.ofNat (ByteString.value w)).toUInt32.toNat = ByteString.value w := by
    rw [Int32.toUInt32_ofNat', UInt32.toNat_ofNat', Nat.mod_eq_of_lt (show ByteString.value w < 2 ^ 32 from small)]
  rw [loaded, serializeInt, kept, ← word]

private theorem deserializeLong_eq_ok {d : Int64} (ok : deserializeLong view = .ok (d, rest)) :
    ∃ w, view = w ++ rest ∧ w.length = 8 := by
  obtain ⟨w, rest', taken, ⟨⟩⟩ := bind_eq_ok_iff.mp ok
  exact ⟨w, takeBytes_eq_ok taken⟩

private theorem deserializeBool_eq_ok {d : Int32} (ok : deserializeBool view = .ok (d, rest)) :
    ∃ w, view = w ++ rest ∧ w.length = 1 := by
  obtain ⟨w, rest', taken, ⟨⟩⟩ := bind_eq_ok_iff.mp ok
  exact ⟨w, takeBytes_eq_ok taken⟩

private theorem takeString_eq_ok {len : Int32} {view text rest : Bytes} (positive : 0 ≤ len)
    (ok : takeString len view = .ok (text, rest)) : view = text ++ rest ∧ (text.length : ℤ) = len.toInt := by
  obtain ⟨enough, rfl, rfl⟩ := takeString_eq_ok_iff.mp ok
  refine ⟨(List.take_append_drop _ _).symm, ?_⟩
  have zero : (0 : Int32).toInt = 0 := rfl
  have low := Int32.le_iff_toInt_le.mp positive
  have high := mt Int32.lt_iff_toInt_lt.mpr enough
  have size := toInt_ofNat_le view.length
  rw [List.length_take]
  omega

private theorem deserializeString_eq_ok {view text rest : Bytes} (ok : deserializeString view = .ok (text, rest)) :
    ∃ w, view = w ++ rest ∧ Kind.Layout .string w := by
  obtain ⟨len, view', count, later⟩ := bind_eq_ok_iff.mp ok
  obtain rfl := deserializeInt_eq_ok count
  obtain ⟨positive, taken⟩ := deserializeString_eq_ok_iff.mp ok
  obtain ⟨rfl, size⟩ := takeString_eq_ok positive taken
  exact ⟨serializeInt len ++ text, (List.append_assoc _ _ _).symm, len, text, rfl, size⟩

variable {read : Deserialize α}

private theorem times_eq_ok {Layout : Bytes → Prop}
    (element : ∀ {view rest v}, read view = .ok (v, rest) → ∃ w, view = w ++ rest ∧ Layout w) {n : ℕ} {vs : List α}
    (ok : Kind.times read n view = .ok (vs, rest)) :
    ∃ elements : List Bytes, view = elements.flatten ++ rest ∧ elements.length = n ∧ ∀ e ∈ elements, Layout e := by
  induction n generalizing view vs with
  | zero =>
    cases ok
    exact ⟨[], rfl, rfl, fun _ member => absurd member List.not_mem_nil⟩
  | succ n ih =>
    obtain ⟨v, view', first, later⟩ := bind_eq_ok_iff.mp ok
    obtain ⟨vs', rest', more, ⟨⟩⟩ := bind_eq_ok_iff.mp later
    obtain ⟨w, rfl, laid⟩ := element first
    obtain ⟨elements, rfl, size, all⟩ := ih more
    exact ⟨w :: elements, (List.append_assoc _ _ _).symm, congrArg (· + 1) size, List.forall_mem_cons.mpr ⟨laid, all⟩⟩

private theorem elements_eq_ok {Layout : Bytes → Prop}
    (element : ∀ {view rest v}, read view = .ok (v, rest) → ∃ w, view = w ++ rest ∧ Layout w) {vs : List α}
    (ok : Kind.elements read view = .ok (vs, rest)) :
    ∃ w, view = w ++ rest ∧ ∃ (count : Int32) (elements : List Bytes), w = serializeInt count ++ elements.flatten ∧
      (elements.length : ℤ) = count.toInt ∧ ∀ e ∈ elements, Layout e := by
  obtain ⟨count, view', counted, later⟩ := bind_eq_ok_iff.mp ok
  obtain rfl := deserializeInt_eq_ok counted
  obtain ⟨positive, read⟩ := Kind.elements_eq_ok_iff.mp ok
  obtain ⟨elements, rfl, size, all⟩ := times_eq_ok element read
  have zero : (0 : Int32).toInt = 0 := rfl
  have low := Int32.le_iff_toInt_le.mp positive
  exact ⟨_, (List.append_assoc _ _ _).symm, count, elements, rfl, by omega, all⟩

/-- A value is accepted where its bytes are in front. -/
theorem Kind.deserialize_eq_ok (kind : Kind) {v : kind.Value} (ok : kind.deserialize view = .ok (v, rest)) :
    ∃ w, view = w ++ rest ∧ kind.Layout w := by
  induction kind generalizing view rest with
  | int => exact ⟨_, deserializeInt_eq_ok ok, ByteString.length_bigEndian 4 _⟩
  | long => exact deserializeLong_eq_ok ok
  | bool => exact deserializeBool_eq_ok ok
  | string => exact deserializeString_eq_ok ok
  | vec kind ih => exact elements_eq_ok ih ok
  | aclVec kind ih => exact elements_eq_ok ih ok
  | done =>
    cases ok
    exact ⟨[], rfl, rfl⟩
  | field name kind rest first second =>
    obtain ⟨a, view', one, later⟩ := bind_eq_ok_iff.mp ok
    obtain ⟨b, rest', other, ⟨⟩⟩ := bind_eq_ok_iff.mp later
    obtain ⟨front, rfl, left⟩ := first one
    obtain ⟨back, rfl, right⟩ := second other
    exact ⟨front ++ back, (List.append_assoc _ _ _).symm, front, back, rfl, left, right⟩

/-! ## Decoders read what the model of reading reads -/

/-- `x` returns what `read` returns, and leaves the same view. -/
def Reads (x : Decode α) (read : Deserialize α) : Prop :=
  ∀ s v rest, read s.view = .ok (v, rest) ↔ ∃ t, x s = .ok v t ∧ t.view = rest

theorem Reads.take (read : Deserialize α) : Reads (Decode.take read) read := by
  intro s v rest
  unfold Decode.take
  cases read s.view with
  | error failure =>
    constructor
    · intro impossible
      cases impossible
    · rintro ⟨t, impossible, -⟩
      cases impossible
  | ok p =>
    constructor
    · rintro ⟨⟩
      exact ⟨_, rfl, rfl⟩
    · rintro ⟨t, ⟨⟩, rfl⟩
      rfl

theorem Reads.pure (a : α) : Reads (Pure.pure a) (Pure.pure a) := by
  intro s v rest
  constructor
  · rintro ⟨⟩
    exact ⟨s, rfl, rfl⟩
  · rintro ⟨t, ⟨⟩, rfl⟩
    rfl

variable {x : Decode α} {f : α → Decode β}

theorem Reads.bind {g : α → Deserialize β} (first : Reads x read) (second : ∀ a, Reads (f a) (g a)) :
    Reads (x >>= f) (read >>= g) := by
  intro s v rest
  rw [bind_eq_ok_iff]
  constructor
  · rintro ⟨a, view, one, other⟩
    obtain ⟨t, ran, rfl⟩ := (first s a view).mp one
    obtain ⟨u, later, left⟩ := (second a t v rest).mp other
    exact ⟨u, (EStateM.bind_of_ok ran f).trans later, left⟩
  · rintro ⟨u, ran, left⟩
    obtain ⟨a, t, one, other⟩ := EStateM.bind_eq_ok_iff.mp ran
    exact ⟨a, t.view, (first s a t.view).mpr ⟨t, one, rfl⟩, (second a t v rest).mpr ⟨u, other, left⟩⟩

theorem Reads.string : Reads Decode.string deserializeString := by
  refine Reads.bind (.take deserializeInt) fun len => ?_
  by_cases negative : len < 0
  · simp only [if_pos negative]
    intro s v rest
    constructor
    · intro impossible
      cases impossible
    · rintro ⟨t, impossible, -⟩
      cases impossible
  · simp only [if_neg negative]
    exact .take _

theorem Reads.times (element : Reads x read) (n : ℕ) : Reads (Decode.times x n) (Kind.times read n) := by
  induction n with
  | zero => exact .pure []
  | succ n ih => exact element.bind fun v => ih.bind fun vs => .pure (v :: vs)

theorem Reads.resize (element : Reads x read) (count : Int32) (least n : ℕ) :
    Reads (do Decode.resize count least; Decode.times x n)
      (if count < 0 then refuse .lengthError else Kind.times read n) := by
  intro s v rest
  by_cases negative : count < 0
  · have thrown : Decode.resize count least s = .error .lengthError s := if_pos negative
    rw [EStateM.bind_of_error thrown, if_pos negative]
    constructor
    · intro impossible
      cases impossible
    · rintro ⟨t, impossible, -⟩
      cases impossible
  · have resized : Decode.resize count least s =
        .ok () { s with resizes := s.resizes ++ [⟨some count.toInt.toNat, least, s.view.length⟩] } := if_neg negative
    rw [EStateM.bind_of_ok resized, if_neg negative]
    exact element.times n { s with resizes := s.resizes ++ [⟨some count.toInt.toNat, least, s.view.length⟩] } v rest

private theorem elements_eq (read : Deserialize α) : Kind.elements read =
    deserializeInt >>= fun count => if count < 0 then refuse .lengthError else Kind.times read count.toInt.toNat := rfl

theorem Reads.vec (element : Reads x read) (initialised : Bool) (least : ℕ) :
    Reads (Decode.vec initialised least x) (Kind.elements read) := by
  intro s v rest
  rw [elements_eq, bind_eq_ok_iff]
  unfold Decode.vec
  have counts := Reads.take deserializeInt s
  cases ran : Decode.take deserializeInt s with
  | ok count t =>
    constructor
    · rintro ⟨count', view, counted, later⟩
      obtain ⟨t', same, rfl⟩ := (counts count' view).mp counted
      obtain ⟨rfl, rfl⟩ := EStateM.Result.ok.inj (ran.symm.trans same)
      exact (element.resize count least count.toInt.toNat t v rest).mp later
    · intro later
      exact ⟨count, t.view, (counts count t.view).mpr ⟨t, ran, rfl⟩,
        (element.resize count least count.toInt.toNat t v rest).mpr later⟩
  | error failure t =>
    constructor
    · rintro ⟨count', view, counted, -⟩
      obtain ⟨t', same, -⟩ := (counts count' view).mp counted
      exact absurd (ran.symm.trans same) (by simp)
    · rintro ⟨t', impossible, -⟩
      cases impossible

theorem Kind.decode_reads (kind : Kind) : Reads kind.decode kind.deserialize := by
  induction kind with
  | int => exact .take _
  | long => exact .take _
  | bool => exact .take _
  | string => exact .string
  | vec kind ih => exact ih.vec _ _
  | aclVec kind ih => exact ih.vec _ _
  | done => exact .pure ()
  | field name kind rest first second => exact first.bind fun v => second.bind fun w => .pure (v, w)

/-! ## Decoders move forward -/

/-- The view is shortened from its front, and resizes are added. -/
def Advances (s t : Decoder) : Prop := t.view <:+ s.view ∧ s.resizes <+: t.resizes

instance : IsPreorder Decoder Advances where
  refl _ := ⟨List.suffix_rfl, List.prefix_rfl⟩
  trans _ _ _ first second := ⟨second.1.trans first.1, first.2.trans second.2⟩

open EStateM in
theorem moves_take (front : ∀ {view rest v}, read view = .ok (v, rest) → ∃ w, view = w ++ rest) :
    Moves Advances (Decode.take read) := by
  intro s
  unfold Decode.take
  cases taken : read s.view with
  | error failure => exact ⟨List.suffix_rfl, List.prefix_rfl⟩
  | ok p =>
    obtain ⟨w, same⟩ := front taken
    exact ⟨⟨w, same.symm⟩, List.prefix_rfl⟩

open EStateM in
private theorem moves_times (element : Moves Advances x) (n : ℕ) : Moves Advances (Decode.times x n) := by
  induction n with
  | zero => exact .pure []
  | succ n ih => exact element.bind fun v => ih.bind fun vs => .pure (v :: vs)

open EStateM in
private theorem moves_resize (count : Int32) (least : ℕ) : Moves Advances (Decode.resize count least) := by
  intro s
  unfold Decode.resize
  split
  · exact ⟨List.suffix_rfl, List.prefix_rfl⟩
  · exact ⟨List.suffix_rfl, List.prefix_append _ _⟩

open EStateM in
private theorem moves_resizeUnread (initialised : Bool) (least : ℕ) :
    Moves Advances (Decode.resizeUnread initialised least) :=
  .modify fun _ => ⟨List.suffix_rfl, List.prefix_append _ _⟩

open EStateM in
private theorem moves_vec (element : Moves Advances x) (initialised : Bool) (least : ℕ) :
    Moves Advances (Decode.vec initialised least x) := by
  intro s
  have counted := moves_take (fun ok => ⟨_, deserializeInt_eq_ok ok⟩) s
  unfold Decode.vec
  cases ran : Decode.take deserializeInt s with
  | ok count t =>
    rw [ran] at counted
    have filled : Moves Advances (do Decode.resize count least; Decode.times x count.toInt.toNat) :=
      (moves_resize count least).bind fun _ => moves_times element _
    exact trans_of Advances counted (filled t)
  | error failure t =>
    rw [ran] at counted
    have refused : Moves Advances (do Decode.resizeUnread initialised least; throw failure : Decode (List α)) :=
      (moves_resizeUnread initialised least).bind fun _ => .throw failure
    exact trans_of Advances counted (refused t)

open EStateM in
private theorem moves_string : Moves Advances Decode.string := by
  refine (moves_take fun ok => ⟨_, deserializeInt_eq_ok ok⟩).bind fun len => ?_
  by_cases negative : len < 0
  · simp only [if_pos negative]
    exact .throw _
  · simp only [if_neg negative]
    exact moves_take fun ok => ⟨_, (takeString_eq_ok (Int32.not_lt.mp negative) ok).1⟩

open EStateM in
theorem Kind.decode_moves (kind : Kind) : Moves Advances kind.decode := by
  induction kind with
  | int => exact moves_take fun ok => ⟨_, deserializeInt_eq_ok ok⟩
  | long => exact moves_take fun ok => (deserializeLong_eq_ok ok).imp fun _ => And.left
  | bool => exact moves_take fun ok => (deserializeBool_eq_ok ok).imp fun _ => And.left
  | string => exact moves_string
  | vec kind ih => exact moves_vec ih _ _
  | aclVec kind ih => exact moves_vec ih _ _
  | done => exact .pure ()
  | field name kind rest first second => exact first.bind fun v => second.bind fun w => .pure (v, w)

/-! ## What is resized -/

/-- So many elements of a vector, each counted where the one before it ends. -/
def CountedTimes (read : Deserialize α) (counted : Bytes → Prop) : ℕ → Bytes → Prop
  | 0, _ => True
  | n + 1, view => counted view ∧ ∀ v rest, read view = .ok (v, rest) → CountedTimes read counted n rest

/-- The count of a vector is not negative and fits what is behind it, and it can be read where it has no value before. -/
def CountedVec (initialised : Bool) (least : ℕ) (read : Deserialize α) (counted : Bytes → Prop) (view : Bytes) : Prop :=
  (∀ count rest, deserializeInt view = .ok (count, rest) → 0 ≤ count ∧ count.toInt.toNat * least ≤ rest.length ∧
      CountedTimes read counted count.toInt.toNat rest) ∧
    (view.length < 4 → initialised = true)

/-- Every vector that decoding meets is counted. -/
def Kind.Counted : Kind → Bytes → Prop
  | .vec kind, view => CountedVec kind.initialised kind.least kind.deserialize kind.Counted view
  | .aclVec kind, view => CountedVec kind.initialised kind.least kind.deserialize kind.Counted view
  | .field _ kind rest, view =>
    kind.Counted view ∧ ∀ v view', kind.deserialize view = .ok (v, view') → rest.Counted view'
  | _, _ => True

/-- Nothing was thrown, and all that was resized fits. -/
structure Safe (result : EStateM.Result Failure Decoder α) : Prop where
  returned : ∀ s, result ≠ .error .lengthError s
  sized : ∀ z ∈ result.state.resizes, z.Fits

/-- From a state without faults, `x` is safe on the views that are counted. -/
def Guarded (x : Decode α) (counted : Bytes → Prop) : Prop :=
  ∀ s : Decoder, (∀ z ∈ s.resizes, z.Fits) → (Safe (x s) ↔ counted s.view)

open EStateM in
private theorem safe_bind_iff (rest : ∀ a, Moves Advances (f a)) (s : Decoder) :
    Safe ((x >>= f) s) ↔ Safe (x s) ∧ ∀ a t, x s = .ok a t → Safe (f a t) := by
  cases ran : x s with
  | ok a t =>
    rw [bind_of_ok ran]
    constructor
    · intro safe
      refine ⟨⟨fun _ => by simp, fun z member => safe.sized z ((rest a t).2.subset member)⟩, ?_⟩
      rintro _ _ ⟨⟩
      exact safe
    · exact fun safe => safe.2 a t rfl
  | error e t =>
    rw [bind_of_error ran]
    constructor
    · exact fun safe => ⟨⟨fun u same => safe.returned u (by cases same; rfl), safe.sized⟩, fun _ _ impossible => by
        cases impossible⟩
    · exact fun safe => ⟨fun u same => safe.1.returned u (by cases same; rfl), safe.1.sized⟩

open EStateM in
theorem Guarded.bind {p : Bytes → Prop} {q : α → Bytes → Prop} (first : Guarded x p) (reads : Reads x read)
    (second : ∀ a, Guarded (f a) (q a)) (rest : ∀ a, Moves Advances (f a)) :
    Guarded (x >>= f) fun view => p view ∧ ∀ a view', read view = .ok (a, view') → q a view' := by
  intro s fits
  rw [safe_bind_iff rest]
  have later (safe : Safe (x s)) {a : α} {t : Decoder} (ran : x s = .ok a t) : Safe (f a t) ↔ q a t.view := by
    refine second a t fun z member => safe.sized z ?_
    rw [ran]
    exact member
  constructor
  · rintro ⟨safe, all⟩
    refine ⟨(first s fits).mp safe, fun a view' ok => ?_⟩
    obtain ⟨t, ran, rfl⟩ := (reads s a view').mp ok
    exact (later safe ran).mp (all a t ran)
  · rintro ⟨counted, all⟩
    have safe := (first s fits).mpr counted
    exact ⟨safe, fun a t ran => (later safe ran).mpr (all a t.view ((reads s a t.view).mpr ⟨t, ran, rfl⟩))⟩

theorem Guarded.take (coded : ∀ view, read view ≠ .error .lengthError) : Guarded (Decode.take read) fun _ => True := by
  intro s fits
  refine iff_of_true ?_ trivial
  unfold Decode.take
  cases taken : read s.view with
  | ok p => exact ⟨fun _ => by simp, fits⟩
  | error failure =>
    refine ⟨fun t same => coded s.view (taken.trans ?_), fits⟩
    cases same
    rfl

theorem Guarded.pure (a : α) : Guarded (Pure.pure a) fun _ => True :=
  fun _ fits => iff_of_true ⟨fun _ impossible => (by cases impossible), fits⟩ trivial

theorem Guarded.congr {p q : Bytes → Prop} (guarded : Guarded x p) (same : ∀ view, p view ↔ q view) : Guarded x q :=
  fun s fits => (guarded s fits).trans (same s.view)

theorem Guarded.times {counted : Bytes → Prop} (element : Guarded x counted) (reads : Reads x read)
    (moves : EStateM.Moves Advances x) (n : ℕ) : Guarded (Decode.times x n) (CountedTimes read counted n) := by
  induction n with
  | zero => exact .pure []
  | succ n ih =>
    have collected (v : α) : Guarded (Decode.times x n >>= fun vs => Pure.pure (v :: vs)) (CountedTimes read counted n) := by
      refine (ih.bind (reads.times n) (fun vs => .pure (v :: vs)) fun vs => .pure _).congr fun view => ?_
      exact and_iff_left fun _ _ _ => trivial
    exact element.bind reads collected fun v => (moves_times moves n).bind fun vs => .pure _

theorem Guarded.resize {counted : Bytes → Prop} (element : Guarded x counted) (reads : Reads x read)
    (moves : EStateM.Moves Advances x) (count : Int32) (least n : ℕ) :
    Guarded (do Decode.resize count least; Decode.times x n)
      fun view => 0 ≤ count ∧ count.toInt.toNat * least ≤ view.length ∧ CountedTimes read counted n view := by
  intro s fits
  by_cases negative : count < 0
  · have thrown : Decode.resize count least s = .error .lengthError s := if_pos negative
    rw [EStateM.bind_of_error thrown]
    exact iff_of_false (fun safe => safe.returned s rfl) fun bounds => Int32.not_lt.mpr bounds.1 negative
  · have resized : Decode.resize count least s =
        .ok () { s with resizes := s.resizes ++ [⟨some count.toInt.toNat, least, s.view.length⟩] } := if_neg negative
    rw [EStateM.bind_of_ok resized]
    refine Iff.trans ?_ (and_iff_right (Int32.not_lt.mp negative)).symm
    have new_iff : Resize.Fits ⟨some count.toInt.toNat, least, s.view.length⟩ ↔
        count.toInt.toNat * least ≤ s.view.length := by
      constructor
      · rintro ⟨_, ⟨⟩, bound⟩
        exact bound
      · exact fun bound => ⟨_, rfl, bound⟩
    constructor
    · intro safe
      have new := safe.sized _ ((moves_times moves n _).2.subset (List.mem_append_right _ (List.mem_singleton_self _)))
      have all : ∀ z ∈ s.resizes ++ [⟨some count.toInt.toNat, least, s.view.length⟩], z.Fits :=
        List.forall_mem_append.mpr ⟨fits, List.forall_mem_singleton.mpr new⟩
      exact ⟨new_iff.mp new, (element.times reads moves n ⟨s.view, _⟩ all).mp safe⟩
    · rintro ⟨bound, later⟩
      have all : ∀ z ∈ s.resizes ++ [⟨some count.toInt.toNat, least, s.view.length⟩], z.Fits :=
        List.forall_mem_append.mpr ⟨fits, List.forall_mem_singleton.mpr (new_iff.mpr bound)⟩
      exact (element.times reads moves n ⟨s.view, _⟩ all).mpr later

private theorem takeBytes_cases (n : ℕ) (view : Bytes) : (∃ p, takeBytes n view = .ok p) ∨
    view.length < n ∧ takeBytes n view = .error (.code (-E2BIG)) := by
  by_cases short : view.length < n
  · exact .inr ⟨short, if_pos short⟩
  · exact .inl ⟨_, if_neg short⟩

/-- A count is read, or the view is too short for one and stays as it is. -/
theorem take_deserializeInt (s : Decoder) : (∃ count rest, deserializeInt s.view = .ok (count, rest) ∧
        Decode.take deserializeInt s = .ok count { s with view := rest }) ∨
      s.view.length < 4 ∧ deserializeInt s.view = .error (.code (-E2BIG)) ∧
        Decode.take deserializeInt s = .error (.code (-E2BIG)) s := by
  unfold Decode.take
  rcases takeBytes_cases 4 s.view with ⟨p, taken⟩ | ⟨short, refused⟩
  · have read : deserializeInt s.view = .ok (Int32.ofNat (ntohl (load p.1)), p.2) := by
      rw [deserializeInt, bind_eq_of_ok taken]
      rfl
    rw [read]
    exact .inl ⟨_, _, rfl, rfl⟩
  · have read : deserializeInt s.view = .error (.code (-E2BIG)) := by
      change (takeBytes 4 s.view >>= _) = _
      rw [refused]
      rfl
    rw [read]
    exact .inr ⟨short, rfl, rfl⟩

theorem Guarded.vec {counted : Bytes → Prop} (element : Guarded x counted) (reads : Reads x read)
    (moves : EStateM.Moves Advances x) (initialised : Bool) (least : ℕ) :
    Guarded (Decode.vec initialised least x) (CountedVec initialised least read counted) := by
  intro s fits
  unfold Decode.vec CountedVec
  rcases take_deserializeInt s with ⟨count, rest, ok, ran⟩ | ⟨short, refused, ran⟩
  · have long : ¬s.view.length < 4 := by
      have size := congrArg List.length (deserializeInt_eq_ok ok)
      rw [List.length_append, serializeInt, ByteString.length_bigEndian] at size
      omega
    rw [ran, ok]
    refine (element.resize reads moves count least count.toInt.toNat { s with view := rest } fits).trans ?_
    constructor
    · intro bounds
      refine ⟨?_, fun short => absurd short long⟩
      rintro _ _ ⟨⟩
      exact bounds
    · exact fun all => all.1 count rest rfl
  · rw [ran, refused]
    constructor
    · intro safe
      refine ⟨fun _ _ impossible => (by cases impossible), fun _ => ?_⟩
      obtain ⟨_, same, -⟩ := safe.sized _ (List.mem_append_right _ (List.mem_singleton_self _))
      by_contra unset
      rw [if_neg unset] at same
      cases same
    · rintro ⟨-, set⟩
      refine ⟨fun _ impossible => (by cases impossible), ?_⟩
      refine List.forall_mem_append.mpr ⟨fits, List.forall_mem_singleton.mpr ⟨0, ?_, ?_⟩⟩
      · exact if_pos (set short)
      · rw [Nat.zero_mul]
        exact Nat.zero_le _

theorem Guarded.takeBytes {n : ℕ} (f : Bytes → α) :
    Guarded (Decode.take (do return f (← Coev.Zookeeper.takeBytes n))) fun _ => True := by
  refine .take fun view failed => ?_
  rcases takeBytes_cases n view with ⟨p, taken⟩ | ⟨-, refused⟩
  · rw [bind_eq_of_ok taken] at failed
    cases failed
  · change (Coev.Zookeeper.takeBytes n view >>= _) = _ at failed
    rw [refused] at failed
    cases failed

theorem Guarded.string : Guarded Decode.string fun _ => True := by
  have counted : Guarded (Decode.take deserializeInt) fun _ => True := .takeBytes _
  refine (counted.bind (.take _) (q := fun _ _ => True) (fun len => ?_) fun len => ?_).congr fun view => ?_
  · by_cases negative : len < 0
    · simp only [if_pos negative]
      exact fun s fits => iff_of_true ⟨fun _ impossible => (by cases impossible), fits⟩ trivial
    · simp only [if_neg negative]
      refine Guarded.take fun view failed => ?_
      unfold takeString at failed
      split at failed <;> cases failed
  · by_cases negative : len < 0
    · simp only [if_pos negative]
      exact .throw _
    · simp only [if_neg negative]
      exact moves_take fun ok => ⟨_, (takeString_eq_ok (Int32.not_lt.mp negative) ok).1⟩
  · exact iff_of_true ⟨trivial, fun _ _ _ => trivial⟩ trivial

theorem Kind.decode_guarded (kind : Kind) : Guarded kind.decode kind.Counted := by
  induction kind with
  | int => exact .takeBytes _
  | long => exact .takeBytes _
  | bool => exact .takeBytes _
  | string => exact .string
  | vec kind ih => exact ih.vec kind.decode_reads kind.decode_moves _ _
  | aclVec kind ih => exact ih.vec kind.decode_reads kind.decode_moves _ _
  | done => exact .pure ()
  | field name kind rest first second =>
    have collected (v : kind.Value) : Guarded (rest.decode >>= fun w => Pure.pure (v, w)) rest.Counted := by
      refine (second.bind rest.decode_reads (fun w => .pure (v, w)) fun w => .pure _).congr fun view => ?_
      exact and_iff_left fun _ _ _ => trivial
    exact first.bind kind.decode_reads collected fun v => rest.decode_moves.bind fun w => .pure _

/-! ## Robustness -/

/-- Decoding returns without a throw, resizes to counts that fit, stays within the view, and takes only whole values. -/
structure Robust (r : RecordType) (bytes : Bytes) : Prop where
  returned : ∀ s, r.iarchive.decode ⟨bytes, []⟩ ≠ .error .lengthError s
  sized : ∀ z ∈ (r.iarchive.decode ⟨bytes, []⟩).state.resizes, z.Fits
  within : (r.iarchive.decode ⟨bytes, []⟩).state.view <:+ bytes
  whole : ∀ v s, r.iarchive.decode ⟨bytes, []⟩ = .ok v s → ∃ w, bytes = w ++ s.view ∧ r.iarchive.Layout w

theorem Robust.counted {r : RecordType} {bytes : Bytes} (robust : Robust r bytes) : r.iarchive.Counted bytes :=
  (r.iarchive.decode_guarded ⟨bytes, []⟩ fun _ member => absurd member List.not_mem_nil).mp ⟨robust.returned, robust.sized⟩

/-- Decoding is robust where every vector counts what can be behind its count. -/
theorem decode_robust_iff (r : RecordType) (bytes : Bytes) : Robust r bytes ↔ r.iarchive.Counted bytes := by
  refine ⟨Robust.counted, fun counted => ?_⟩
  have safe := (r.iarchive.decode_guarded ⟨bytes, []⟩ fun _ member => absurd member List.not_mem_nil).mpr counted
  refine ⟨safe.returned, safe.sized, (r.iarchive.decode_moves ⟨bytes, []⟩).1, fun v s ran => ?_⟩
  exact r.iarchive.deserialize_eq_ok ((r.iarchive.decode_reads ⟨bytes, []⟩ v s.view).mpr ⟨s, ran, rfl⟩)

/-- A list of children with count -1 throws, and one with the greatest count is resized to it. -/
theorem children_count_trusted :
    ¬Robust Proto.GetChildrenResponse [255, 255, 255, 255] ∧ ¬Robust Proto.GetChildrenResponse [127, 255, 255, 255] := by
  constructor
  · exact fun robust => absurd (robust.counted.1.1 (-1) [] rfl).1 (by decide)
  · exact fun robust => absurd (robust.counted.1.1 2147483647 [] rfl).2.1 (by decide)

/-! ## Records of ZooKeeper, written and read back

A long is read from its high half, an empty string is written as no string, and the vectors of access control entries are
written without their entries. All other values come back, as far as their sizes fit the words that tell them.
-/

namespace Kind

/-- The values that come back, with so many bytes behind them. -/
def Survives : (kind : Kind) → kind.Value → ℕ → Prop
  | .int, _, _ => True
  | .long, d, _ => d = (0 : Int64)
  | .bool, d, _ => d = (0 : Int32) ∨ d = (1 : Int32)
  | .string, s, after => s ≠ [] ∧ Fits s after
  | .vec kind, vs, after => vs.length < 2 ^ 31 ∧ SurviveAll kind.Survives kind.serialize vs after
  | .aclVec _, vs, _ => vs = []
  | .done, _, _ => True
  | .field _ kind rest, v, after => kind.Survives v.1 ((rest.serialize v.2).length + after) ∧ rest.Survives v.2 after

private theorem deserialize_append_iff (kind : Kind) (v : kind.Value) (t r : Bytes) :
    kind.deserialize (kind.serialize v ++ t) = .ok (v, r) ↔ kind.Survives v t.length ∧ r = t := by
  induction kind generalizing t r with
  | int => exact deserializeInt_append_iff
  | long => exact deserializeLong_append_iff
  | bool => exact deserializeBool_append_iff
  | string => exact deserializeString_append_iff
  | vec kind ih =>
    rw [serialize, List.append_assoc]
    exact elements_append_iff ih
  | aclVec kind => exact elements_zero_iff
  | done =>
    constructor
    · rintro ⟨⟩
      exact ⟨trivial, rfl⟩
    · rintro ⟨-, rfl⟩
      rfl
  | field name kind rest ih ihRest =>
    rw [serialize, List.append_assoc]
    exact pair_append_iff ih ihRest v

end Kind

namespace RecordType

/-- What is read is the value that was written, and all of what was written. -/
def RoundTrips (r : RecordType) (v : r.Value) : Prop := r.deserialize (r.serialize v) = .ok (v, [])

/-- Every long is 0, every flag 0 or 1, no string is empty, every vector of access control entries is, and the sizes fit
their words. -/
def Survives (r : RecordType) (v : r.Value) : Prop := r.oarchive.Survives v 0

theorem roundTrips_iff (r : RecordType) (v : r.Value) : r.RoundTrips v ↔ r.Survives v := by
  obtain ⟨_, kind, rfl⟩ := r
  have read := kind.deserialize_append_iff v [] []
  rw [List.append_nil] at read
  exact read.trans (and_iff_left rfl)

end RecordType

namespace Proto

/-- Of every record type, exactly these values come back. -/
theorem records_round_trip_iff : ∀ r ∈ records, ∀ v : r.Value, r.RoundTrips v ↔ r.Survives v :=
  fun r _ v => r.roundTrips_iff v

/-- A reply header without a transaction comes back. -/
theorem header_round_trip : ReplyHeader.RoundTrips ((7 : Int32), (0 : Int64), (-101 : Int32), ()) := by
  have listed : ReplyHeader ∈ records := by simp [records]
  apply (records_round_trip_iff ReplyHeader listed _).mpr
  exact ⟨trivial, rfl, trivial, trivial⟩

/-- The transaction of a reply header is read as 0, an empty path is refused, and an access control list comes back empty. -/
theorem values_lost : ReplyHeader.deserialize (ReplyHeader.serialize ((7 : Int32), (1 : Int64), (0 : Int32), ())) =
      .ok (((7 : Int32), (0 : Int64), (0 : Int32), ()), []) ∧
    SyncResponse.deserialize (SyncResponse.serialize (([] : Bytes), ())) = .error (.code (-EINVAL)) ∧
    ACLVec.deserialize (ACLVec.serialize [((31 : Int32), ((([119] : Bytes), ([97] : Bytes), ())), ())]) =
      .ok (([] : List _), []) ∧ ¬ ∀ r ∈ records, ∀ v : r.Value, r.RoundTrips v := by
  refine ⟨rfl, rfl, rfl, fun all => ?_⟩
  have empty := all ReplyHeader (by simp [records]) ((7 : Int32), (1 : Int64), (0 : Int32), ())
  have zero : (1 : Int64) = 0 := ((ReplyHeader.roundTrips_iff _).mp empty).2.1
  exact absurd zero (by decide)

end Proto

end Coev.Zookeeper
