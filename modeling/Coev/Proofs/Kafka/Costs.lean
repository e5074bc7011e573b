import Coev.Proofs.Kafka.ExactValues

/-! # What decoding costs

In the flexible mode nothing is read from fewer bytes than it is written to: a read that succeeds moves past at least as many
as its value costs. Where a decoder moves past more than what was written for it, too little is left for what follows.
-/

namespace Coev.Kafka

open EStateM (bind_eq_ok_iff pure_eq_ok_iff)
open ByteString DecodeInto PacketDecoder PacketEncoder Leb128

variable {α σ τ δ : Type}
variable {put : Encode Unit} {x : DecodeInto σ Unit} {P : σ → Prop} {get : Decode α} {more : ℕ} {pd pd' : PacketDecoder}
  {o : σ} {cost : α → ℕ} {spoil : σ → σ} {most : ℕ} {bytes : Bytes}

/-- A read of the flexible mode moves past at least what its value costs. -/
def Charges (get : Decode α) (cost : α → ℕ) : Prop :=
  ∀ pd a pd', InMode true pd → get pd = .ok a pd' → ∃ n, pd' = pd.advance n ∧ cost a ≤ n ∧ n ≤ pd.remaining

/-- A decoder of the flexible mode moves past at least what the object costs that it leaves. -/
def Costs (x : DecodeInto σ Unit) (cost : σ → ℕ) : Prop :=
  ∀ o pd o' pd', InMode true pd → x (o, pd) = .ok () (o', pd') → ∃ n, pd' = pd.advance n ∧ cost o' ≤ n ∧ n ≤ pd.remaining

/-- Whatever `put` writes in the flexible mode is at most so many bytes, within the limit of a request. -/
def Weighs (put : Encode Unit) (most : ℕ) : Prop :=
  ∃ output, Writes true put () output ∧ ∀ bytes ∈ output, bytes.length ≤ maxRequestSize → bytes.length ≤ most

/-! ## Reads -/

theorem Charges.weaken {cost cost' : α → ℕ} (charges : Charges get cost) (le : ∀ a, cost' a ≤ cost a) :
    Charges get cost' := by
  intro pd a pd' mode run
  obtain ⟨n, moved, least, room⟩ := charges pd a pd' mode run
  exact ⟨n, moved, (le a).trans least, room⟩

theorem Charges.pure (a : α) : Charges (pure a) fun _ => 0 := by
  intro pd b pd' _ run
  obtain ⟨-, rfl⟩ := pure_eq_ok_iff.mp run
  exact ⟨0, rfl, Nat.le_refl 0, Nat.zero_le _⟩

theorem Charges.bind {β : Type} {k : α → Decode β} {least : ℕ} (first : Charges get fun _ => least)
    (next : ∀ a, Charges (k a) fun _ => 0) : Charges (get >>= k) fun _ => least := by
  intro pd b pd' mode run
  obtain ⟨a, pd₁, head, tail⟩ := bind_eq_ok_iff.mp run
  obtain ⟨m, rfl, enough, room⟩ := first pd a pd₁ mode head
  obtain ⟨n, rfl, -, room'⟩ := next a _ b pd' (mode.advance m) tail
  rw [remaining_advance] at room'
  exact ⟨m + n, advance_advance pd m n, Nat.le_add_right_of_le enough, by omega⟩

theorem getUVariantLoop_ok {i fuel : ℕ} {acc : UInt64} {x : UInt64} (rounds : i + fuel = 10)
    (below : acc.toNat < 2 ^ (7 * i)) (run : getUVariantLoop fuel acc pd = .ok x pd') :
    ∃ k, 0 < k ∧ pd' = pd.advance k ∧ x.toNat < 2 ^ (7 * (i + k)) ∧ k ≤ pd.remaining := by
  induction fuel generalizing i acc pd with
  | zero => cases run
  | succ fuel ih =>
    have shift : 9 - fuel = i := by omega
    cases ahead : pd.unread with
    | nil =>
      simp only [getUVariantLoop, ahead, insufficient] at run
      cases run
    | cons b tail =>
      have room : (pd.advance 1).remaining + 1 = pd.remaining := by
        have tail' : (pd.advance 1).unread = tail := @unread_advance pd [b] _ ahead
        rw [remaining_eq, remaining_eq, tail', ahead, List.length_cons]
      have below' := or_group_lt (b := b) (by omega : i ≤ 9) below
      simp only [getUVariantLoop, ahead, shift] at run
      split_ifs at run with last overflow
      · injection run with same moved
        rw [← same]
        exact ⟨1, Nat.one_pos, moved.symm, below', by omega⟩
      · obtain ⟨k, -, moved, small, le⟩ := ih (i := i + 1) (by omega) below' run
        refine ⟨1 + k, by omega, by rw [moved, advance_advance], ?_, by omega⟩
        rwa [← Nat.add_assoc]

/-- A varint takes at least its shortest encoding. -/
theorem charges_getUVariant : Charges getUVariant fun x => size x.toNat := by
  intro pd x pd' _ run
  obtain ⟨k, positive, moved, small, room⟩ := getUVariantLoop_ok (Nat.zero_add 10) (by decide) run
  rw [Nat.zero_add, pow_mul] at small
  exact ⟨k, moved, (size_le_iff positive _).mpr small, room⟩

theorem charges_some_getUVariant : Charges getUVariant fun _ => 1 := charges_getUVariant.weaken fun x => size_pos x.toNat

/-- A compact length is cut down, never up. -/
theorem le_of_compact {x : UInt64} {n : ℕ} (some_ : x ≠ 0) (length : (n : ℤ) ≤ (x - 1).toInt64.toInt32.toInt) :
    n + 1 ≤ x.toNat := by
  have positive : 0 < x.toNat := Nat.pos_of_ne_zero fun zero => some_ (UInt64.toNat_inj.mp zero)
  have pred : (x - 1).toNat = x.toNat - 1 := UInt64.toNat_sub_of_le x 1 (UInt64.le_iff_toNat_le.mpr positive)
  have cut : (x - 1).toInt64.toInt32 = Int32.ofNat (x - 1).toNat := by
    calc
      (x - 1).toInt64.toInt32 = (UInt64.ofNat (x - 1).toNat).toInt64.toInt32 := by rw [UInt64.ofNat_toNat]
      _ = Int32.ofNat (x - 1).toNat := by rw [UInt64.toInt64_ofNat', Int64.toInt32_ofNat']
  have size : Int32.size = 2 ^ 32 := rfl
  rw [cut, Int32.toInt_ofNat', Int.bmod_def, size] at length
  split_ifs at length <;> omega

theorem Charges.flexible {fixed flex : Decode α} (charges : Charges flex cost) :
    Charges (PacketDecoder.byMode fixed flex) cost := by
  intro pd a pd' mode run
  have notFixed : pd.flexible ≠ 0 := fun isFixed => Bool.noConfusion (mode.mp isFixed)
  rw [PacketDecoder.byMode, if_neg notFixed] at run
  exact charges pd a pd' mode run

theorem Charges.map {β : Type} {f : α → β} {cost' : β → ℕ} (charges : Charges get cost) (le : ∀ a, cost' (f a) ≤ cost a) :
    Charges (get >>= fun a => Pure.pure (f a)) cost' := by
  intro pd b pd' mode run
  obtain ⟨a, pd₁, first, last⟩ := bind_eq_ok_iff.mp run
  obtain ⟨rfl, rfl⟩ := pure_eq_ok_iff.mp last
  obtain ⟨n, moved, least, room⟩ := charges pd a pd₁ mode first
  exact ⟨n, moved, (le a).trans least, room⟩

/-- At least so many elements are announced by at least as much as it takes to announce them. -/
theorem charges_getArrayLength (n : ℕ) :
    Charges getArrayLength fun count => if n ≤ count.toInt.toNat then size (n + 1) else 0 := by
  apply Charges.flexible
  apply charges_getUVariant.map
  intro x
  split_ifs with none_ few few
  · obtain rfl : n = 0 := Nat.le_zero.mp few
    exact (show size 1 = 1 from rfl).trans_le (size_pos _)
  · exact Nat.zero_le _
  · rcases Nat.eq_zero_or_pos n with rfl | positive
    · exact (show size 1 = 1 from rfl).trans_le (size_pos _)
    · exact size_mono (le_of_compact none_ (by omega))
  · exact Nat.zero_le _

/-- What a string costs. -/
def stringCost (s : Bytes) : ℕ := size (s.length + 1) + s.length

theorem stringOf_consumes {length : Int32} {s : Bytes} (run : stringOf length pd = .ok s pd') :
    pd' = pd.advance s.length ∧ s.length ≤ pd.remaining ∧ (s = [] ∨ (s.length : ℤ) ≤ length.toInt ∧ length ≠ -1) := by
  obtain ⟨n, pd₁, checked, text⟩ := bind_eq_ok_iff.mp run
  rw [checkStringLength] at checked
  split at checked
  · cases checked
  split at checked
  · cases checked
  obtain ⟨rfl, rfl⟩ : length = n ∧ pd = pd₁ := by
    injection checked with same moved
    exact ⟨same, moved⟩
  split at text
  · obtain ⟨rfl, rfl⟩ := pure_eq_ok_iff.mp text
    exact ⟨rfl, Nat.zero_le _, .inl rfl⟩
  · next present =>
    obtain ⟨rfl, same, room⟩ := take_consumes text
    refine ⟨by rw [same], by omega, ?_⟩
    cases s with
    | nil => exact .inl rfl
    | cons b s => exact .inr ⟨by rw [List.length_cons] at same ⊢; omega, present⟩

theorem charges_getString : Charges getString stringCost := by
  rw [getString_eq]
  apply Charges.flexible
  intro pd s pd' mode run
  obtain ⟨x, pd₁, first, rest⟩ := bind_eq_ok_iff.mp run
  obtain ⟨k, rfl, least, room⟩ := charges_getUVariant pd x pd₁ mode first
  obtain ⟨rfl, enough, length⟩ := stringOf_consumes rest
  rw [remaining_advance] at enough
  refine ⟨k + s.length, advance_advance pd k _, ?_, by omega⟩
  have announced : size (s.length + 1) ≤ size x.toNat := by
    rcases length with rfl | ⟨length, present⟩
    · exact (show size 1 = 1 from rfl).trans_le (size_pos _)
    · split_ifs at length present with none_
      · exact absurd rfl present
      · exact size_mono (le_of_compact none_ length)
  exact Nat.add_le_add_right (announced.trans least) _

theorem charges_take_map {β : Type} (n : ℕ) (f : Bytes → β) :
    Charges (take n >>= fun bytes => Pure.pure (f bytes)) fun _ => n := by
  intro pd b pd' _ run
  obtain ⟨bytes, pd₁, first, last⟩ := bind_eq_ok_iff.mp run
  obtain ⟨rfl, rfl⟩ := pure_eq_ok_iff.mp last
  obtain ⟨rfl, -, room⟩ := take_consumes first
  exact ⟨n, rfl, Nat.le_refl n, room⟩

theorem charges_getInt8 : Charges getInt8 fun _ => 1 := charges_take_map 1 _

theorem charges_getInt16 : Charges getInt16 fun _ => 2 := charges_take_map 2 _

theorem charges_getInt32 : Charges getInt32 fun _ => 4 := charges_take_map 4 _

theorem charges_getBool : Charges getBool fun _ => 1 := by
  apply charges_getInt8.bind
  intro b
  split
  · exact Charges.pure false
  · split
    · intro pd a pd' _ run
      cases run
    · exact Charges.pure true

theorem charges_getRawBytes (length : Int32) : Charges (getRawBytes length) fun _ => 0 := by
  intro pd s pd' _ run
  obtain ⟨rfl, -, room⟩ := getRawBytes_consumes run
  exact ⟨s.length, rfl, Nat.zero_le _, room⟩

theorem Charges.repeatRead (charges : Charges get fun _ => 0) (n : ℕ) :
    Charges (PacketDecoder.repeatRead get n) fun _ => 0 := by
  induction n with
  | zero => exact Charges.pure []
  | succ n ih =>
    apply charges.bind
    intro a
    exact ih.bind fun _ => Charges.pure _

theorem charges_skipTaggedField : Charges skipTaggedField fun _ => 0 := by
  have free : Charges getUVariant fun _ => 0 := charges_getUVariant.weaken fun _ => Nat.zero_le _
  apply free.bind
  intro _
  apply free.bind
  intro length
  exact (charges_getRawBytes _).bind fun _ => Charges.pure ()

theorem charges_getEmptyTaggedFieldArray : Charges getEmptyTaggedFieldArray fun _ => 1 := by
  apply Charges.flexible
  apply charges_some_getUVariant.bind
  intro count
  exact (charges_skipTaggedField.repeatRead _).bind fun _ => Charges.pure ()

/-! ## Objects -/

/-- What follows leaves alone what the first part was paid for. -/
theorem Costs.seq {x y : DecodeInto σ Unit} {cost cost' : σ → ℕ} (first : Costs x cost) (next : Costs y cost')
    (keeps : Keeps cost y) : Costs (x >>= fun _ => y) fun o => cost o + cost' o := by
  intro o pd o' pd' mode run
  obtain ⟨_, ⟨o₁, pd₁⟩, head, tail⟩ := bind_eq_ok_iff.mp run
  obtain ⟨m, rfl, least, room⟩ := first o pd o₁ pd₁ mode head
  obtain ⟨n, rfl, least', room'⟩ := next o₁ _ o' pd' (mode.advance m) tail
  rw [remaining_advance] at room'
  rw [← keeps o₁ _ () o' _ tail] at least
  exact ⟨m + n, advance_advance pd m n, Nat.add_le_add least least', by omega⟩

theorem Charges.skip {get : Decode Unit} {least : ℕ} (charges : Charges get fun _ => least) :
    Costs (read get : DecodeInto σ Unit) fun _ => least := by
  intro o pd o' pd' mode run
  obtain ⟨read, rfl⟩ := read_eq_ok_iff.mp run
  exact charges pd () pd' mode read

theorem Charges.field {set : α → σ → σ} (f : σ → α) (charges : Charges get cost) (getSet : ∀ a o, f (set a o) = a) :
    Costs (fieldOr spoil get set) fun o => cost (f o) := by
  intro o pd o' pd' mode run
  obtain ⟨a, ⟨o₁, pd₁⟩, first, stored⟩ := bind_eq_ok_iff.mp run
  obtain ⟨read, rfl⟩ := readOr_eq_ok_iff.mp first
  obtain ⟨rfl, rfl⟩ := update_eq_ok_iff.mp stored
  dsimp only
  rw [getSet]
  exact charges pd a _ mode read

theorem Costs.failWith {cost : σ → ℕ} (costs : Costs x cost) (err : KError) : Costs (Kafka.failWith err x) cost :=
  fun o pd o' pd' mode run => costs o pd o' pd' mode (failWith_eq_ok_iff.mp run)

/-! ## Loops -/

/-- A round adds one thing, if any, and moves past at least what that costs. -/
def Pays (round : DecodeInto σ Unit) (has : σ → δ → Prop) (cost : δ → ℕ) : Prop :=
  ∀ o pd o' pd', InMode true pd → round (o, pd) = .ok () (o', pd') →
    ∃ added n, pd' = pd.advance n ∧ n ≤ pd.remaining ∧ ∀ d, has o' d → has o d ∨ d = added ∧ cost d ≤ n

/-- Whatever a loop adds was paid for. -/
theorem Pays.rounds {round : DecodeInto σ Unit} {has : σ → δ → Prop} {cost : δ → ℕ} (pays : Pays round has cost)
    (count : ℕ) {ds : List δ} (distinct : ds.Nodup) {o o' : σ} (mode : InMode true pd)
    (run : rounds round count (o, pd) = .ok () (o', pd')) (missing : ∀ d ∈ ds, ¬ has o d) (present : ∀ d ∈ ds, has o' d) :
    ∃ n, pd' = pd.advance n ∧ (ds.map cost).sum ≤ n ∧ n ≤ pd.remaining := by
  induction count generalizing ds o pd with
  | zero =>
    cases run
    cases ds with
    | nil => exact ⟨0, rfl, Nat.le_refl 0, Nat.zero_le _⟩
    | cons d ds => exact absurd (present d List.mem_cons_self) (missing d List.mem_cons_self)
  | succ count ih =>
    obtain ⟨_, ⟨o₁, pd₁⟩, first, others⟩ := bind_eq_ok_iff.mp run
    obtain ⟨added, m, rfl, room, adds⟩ := pays o pd o₁ pd₁ mode first
    have only (d : δ) (inside : d ∈ ds) (has_ : has o₁ d) : d = added ∧ cost d ≤ m :=
      (adds d has_).resolve_left (missing d inside)
    by_cases new : ∃ d ∈ ds, has o₁ d
    · obtain ⟨d, member, has_⟩ := new
      obtain ⟨rfl, enough⟩ := only d member has_
      obtain ⟨front, back, rfl⟩ := List.append_of_mem member
      obtain ⟨apart, distinct'⟩ := List.nodup_cons.mp (List.nodup_middle.mp distinct)
      have kept (d' : δ) (inside : d' ∈ front ++ back) : d' ∈ front ++ d :: back :=
        (List.perm_middle.mem_iff).mpr (List.mem_cons_of_mem _ inside)
      obtain ⟨n, rfl, enough', room'⟩ := ih distinct' (mode.advance m) others
        (fun d' inside has' => apart ((only d' (kept d' inside) has').1 ▸ inside)) fun d' inside =>
          present d' (kept d' inside)
      rw [remaining_advance] at room'
      refine ⟨m + n, advance_advance pd m n, ?_, by omega⟩
      rw [List.map_append, List.sum_append] at enough' ⊢
      rw [List.map_cons, List.sum_cons]
      omega
    · obtain ⟨n, rfl, enough', room'⟩ :=
        ih distinct (mode.advance m) others (fun d inside has_ => new ⟨d, inside, has_⟩) present
      rw [remaining_advance] at room'
      exact ⟨m + n, advance_advance pd m n, Nat.le_add_left_of_le enough', by omega⟩

/-! ## Writes -/

theorem weighs_of_length (writes : Writes true put () (some bytes)) : Weighs put bytes.length := by
  refine ⟨_, writes, ?_⟩
  rintro _ ⟨⟩ -
  exact Nat.le_refl _

theorem weighs_putInt8 (x : Int8) : Weighs (putInt8 x) 1 := weighs_of_length (writes_putInt8 x)

theorem weighs_putInt16 (x : Int16) : Weighs (putInt16 x) 2 := weighs_of_length (writes_putInt16 x)

theorem weighs_putInt32 (x : Int32) : Weighs (putInt32 x) 4 := weighs_of_length (writes_putInt32 x)

theorem weighs_putBool (x : Bool) : Weighs (putBool x) 1 := by
  have writes : Writes true (putBool x) () (some (bigEndian 1 (if x then 1 else 0 : Int8).toUInt8.toNat)) :=
    ⟨((prep_grow 1).byPass).of_eq (by rw [length_bigEndian]), (real_putInt8 _).byPass⟩
  exact weighs_of_length writes

theorem weighs_putString (s : Bytes) : Weighs (putString s) (stringCost s) := by
  refine ⟨_, writes_putString s, fun bytes member _ => ?_⟩
  obtain ⟨⟨n, counts⟩, stored⟩ := mem_accepted member
  obtain ⟨small, rfl⟩ := string_written_flexible counts stored
  rw [List.length_append, length_encodeUVariant, compactLength_toNat small, stringCost]

theorem weighs_putNullableString (s : Bytes) : Weighs (putNullableString s) (stringCost s) := by
  refine ⟨_, writes_putNullableString s, fun bytes member _ => ?_⟩
  obtain ⟨⟨n, counts⟩, stored⟩ := mem_accepted member
  rw [nullableStringOutput] at stored
  rw [nullableStringReserve] at counts
  split at stored
  · obtain rfl := Option.some.inj stored
    rw [if_pos rfl, length_encodeUVariant]
    exact (show size 0 = 1 from rfl).trans_le (Nat.le_add_right_of_le (size_pos _))
  · next some_ =>
    rw [if_neg some_] at counts
    obtain ⟨small, rfl⟩ := string_written_flexible counts stored
    rw [List.length_append, length_encodeUVariant, compactLength_toNat small, stringCost]

theorem writes_putUVarint (x : UInt64) : Writes true (putUVarint x) () (some (encodeUVariant x)) :=
  ⟨(prep_putUVarint x).of_eq (by rw [uvarintLen_eq, length_encodeUVariant]), real_putUVarint x⟩

theorem weighs_putUVarint (x : UInt64) : Weighs (putUVarint x) (size x.toNat) := by
  rw [← length_encodeUVariant]
  exact weighs_of_length (writes_putUVarint x)

theorem weighs_putEmptyTaggedFieldArray : Weighs putEmptyTaggedFieldArray 1 := by
  have writes : Writes true putEmptyTaggedFieldArray () (some (encodeUVariant 0)) := writes_putEmptyTaggedFieldArray
  have weighs := weighs_of_length writes
  rwa [length_encodeUVariant] at weighs

/-- What is written is the same whichever way it was found out. -/
theorem Weighs.of_writes {output : Option Bytes} (weighs : Weighs put most) (writes : Writes true put () output)
    (member : bytes ∈ output) (small : bytes.length ≤ maxRequestSize) : bytes.length ≤ most := by
  obtain ⟨output', writes', each⟩ := weighs
  obtain ⟨same, -⟩ := (encodeBody_eq_ok_iff writes').mp ((encodeBody_eq_ok_iff writes).mpr ⟨member, small⟩)
  exact each bytes same small

theorem Weighs.bind {put put' : Encode Unit} {m n : ℕ} (first : Weighs put m) (next : Weighs put' n) :
    Weighs (put >>= fun _ => put') (m + n) := by
  obtain ⟨p, writes, most⟩ := first
  obtain ⟨q, writes', most'⟩ := next
  refine ⟨_, writes.bind writes', fun bytes member small => ?_⟩
  obtain ⟨head, isHead, tail, isTail, rfl⟩ := append_of_mem member
  rw [List.length_append] at small ⊢
  exact Nat.add_le_add (most head isHead (by omega)) (most' tail isTail (by omega))

theorem Weighs.forM {put : δ → Encode Unit} {cost : δ → ℕ} {ds : List δ} (each : ∀ d ∈ ds, Weighs (put d) (cost d)) :
    Weighs (ds.forM put) (ds.map cost).sum := by
  induction ds with
  | nil => exact weighs_of_length (Writes.pure ())
  | cons d ds ih =>
    obtain ⟨head, tail⟩ := List.forall_mem_cons.mp each
    rw [List.map_cons, List.sum_cons]
    exact head.bind (ih tail)

theorem Weighs.sized (weighs : Weighs put most) : Sized true put 0 := by
  obtain ⟨output, writes, -⟩ := weighs
  exact ⟨output, writes, fun _ _ => Nat.zero_le _⟩

theorem Weighs.encodeFailWith (weighs : Weighs put most) (err : KError) : Weighs (failWith err put) most := by
  obtain ⟨output, writes, each⟩ := weighs
  exact ⟨output, writes_failWith err writes, each⟩

/-- So few elements have a number that takes no more than it has to. -/
theorem Weighs.counted {most n : ℕ} (weighs : Weighs put most) (sized : Sized true put n) :
    Weighs (putArrayLength (Int32.ofNat n) >>= fun _ => put) (size (n + 1) + most) := by
  obtain ⟨q, writes, each⟩ := sized
  refine ⟨_, (writes_putArrayLength _).bind writes, fun bytes member small => ?_⟩
  obtain ⟨head, isHead, tail, isTail, rfl⟩ := append_of_mem member
  obtain ⟨⟨m, counts⟩, stored⟩ := mem_accepted isHead
  rw [List.length_append] at small ⊢
  have few := (each tail isTail).trans (show tail.length ≤ maxRequestSize by omega)
  have below : n < int32Max := few.trans_lt (by decide)
  rw [arrayLengthOutput, if_pos rfl] at stored
  split at stored
  · cases stored
  · obtain rfl := Option.some.inj stored
    rw [length_encodeUVariant, compactLength_toNat below]
    exact Nat.add_le_add_left (weighs.of_writes writes isTail (by omega)) _

theorem Weighs.of_none (writes : Writes true put () none) : Weighs put most := by
  refine ⟨none, writes, ?_⟩
  rintro bytes ⟨⟩

/-! ## Too much -/

/-- Where `x` succeeds on what `put` writes and leaves an object with `P`, it moves past `more` bytes behind. -/
def Outruns (put : Encode Unit) (x : DecodeInto σ Unit) (o : σ) (P : σ → Prop) (more : ℕ) : Prop :=
  ∃ output, Writes true put () output ∧
    ∀ bytes ∈ output, bytes.length ≤ maxRequestSize → ∀ pd rest, InMode true pd → pd.unread = bytes ++ rest →
      ∀ o' pd', x (o, pd) = .ok () (o', pd') → P o' → ∃ n, pd' = pd.advance n ∧ bytes.length + more ≤ n ∧ n ≤ pd.remaining

theorem Carries.outruns {strict : Bool} {put put' : Encode Unit} {k : α → DecodeInto σ Unit} {a : α} {least more : ℕ}
    (first : Carries strict true put get a least) (next : Outruns put' (k a) o P more) :
    Outruns (put >>= fun _ => put') (readOr spoil get >>= k) o P more := by
  obtain ⟨p, writes, each⟩ := first
  obtain ⟨q, writes', outruns⟩ := next
  refine ⟨_, writes.bind writes', fun bytes member small pd rest mode ahead o' pd' run holds => ?_⟩
  obtain ⟨head, isHead, tail, isTail, rfl⟩ := append_of_mem member
  rw [List.length_append] at small ⊢
  rw [List.append_assoc] at ahead
  rw [(((each head isHead).2 (by omega)).reads.readOr spoil o).andThen ahead mode] at run
  obtain ⟨n, rfl, enough, room⟩ :=
    outruns tail isTail (by omega) _ rest (mode.advance _) (unread_advance ahead) o' pd' run holds
  have inside : head.length ≤ pd.remaining := by
    rw [remaining_eq, ahead, List.length_append]
    omega
  rw [remaining_advance] at room
  exact ⟨head.length + n, advance_advance pd _ n, by omega, by omega⟩

theorem CarriesInto.outruns {strict : Bool} {put put' : Encode Unit} {x y : DecodeInto σ Unit} {o o₁ : σ}
    {least more : ℕ} (first : CarriesInto strict true put x o o₁ least) (next : Outruns put' y o₁ P more) :
    Outruns (put >>= fun _ => put') (x >>= fun _ => y) o P more := by
  obtain ⟨p, writes, each⟩ := first
  obtain ⟨q, writes', outruns⟩ := next
  refine ⟨_, writes.bind writes', fun bytes member small pd rest mode ahead o' pd' run holds => ?_⟩
  obtain ⟨head, isHead, tail, isTail, rfl⟩ := append_of_mem member
  rw [List.length_append] at small ⊢
  rw [List.append_assoc] at ahead
  rw [((each head isHead).2 (by omega)).reads.andThen ahead mode] at run
  obtain ⟨n, rfl, enough, room⟩ :=
    outruns tail isTail (by omega) _ rest (mode.advance _) (unread_advance ahead) o' pd' run holds
  have inside : head.length ≤ pd.remaining := by
    rw [remaining_eq, ahead, List.length_append]
    omega
  rw [remaining_advance] at room
  exact ⟨head.length + n, advance_advance pd _ n, by omega, by omega⟩

theorem Outruns.imp {P P' : σ → Prop} (outruns : Outruns put x o P' more) (implies : ∀ o', P o' → P' o') :
    Outruns put x o P more := by
  obtain ⟨output, writes, each⟩ := outruns
  refine ⟨output, writes, fun bytes member small pd rest mode ahead o' pd' run holds => ?_⟩
  exact each bytes member small pd rest mode ahead o' pd' run (implies o' holds)

theorem Outruns.encodeFailWith (outruns : Outruns put x o P more) (err : KError) :
    Outruns (Kafka.failWith err put) x o P more := by
  obtain ⟨output, writes, each⟩ := outruns
  exact ⟨output, writes_failWith err writes, each⟩

theorem Outruns.decodeFailWith (outruns : Outruns put x o P more) (err : KError) :
    Outruns put (Kafka.failWith err x) o P more := by
  obtain ⟨output, writes, each⟩ := outruns
  refine ⟨output, writes, fun bytes member small pd rest mode ahead o' pd' run holds => ?_⟩
  exact each bytes member small pd rest mode ahead o' pd' (failWith_eq_ok_iff.mp run) holds

theorem Outruns.aside {x : DecodeInto τ Unit} {fresh : τ} {store : τ → σ → σ}
    (outruns : Outruns put x fresh (fun _ => True) more) :
    Outruns put (DecodeInto.aside fresh x store) o (fun _ => True) more := by
  obtain ⟨output, writes, each⟩ := outruns
  refine ⟨output, writes, fun bytes member small pd rest mode ahead o' pd' run _ => ?_⟩
  obtain ⟨t, inner, -⟩ := aside_eq_ok_iff.mp run
  exact each bytes member small pd rest mode ahead t pd' inner trivial

theorem Outruns.afterUpdate {f : σ → σ} (outruns : Outruns put x (f o) P more) :
    Outruns put (update f >>= fun _ => x) o P more := outruns

/-- What follows takes as much as was written for it, if what it leaves is to have `P`. -/
theorem Outruns.andThen {put put' : Encode Unit} {x y : DecodeInto σ Unit} {P P' : σ → Prop} {most more : ℕ}
    (first : Outruns put x o P' more) (weighs : Weighs put' most)
    (before : ∀ pd o₁ pd₁ o₂ pd₂, x (o, pd) = .ok () (o₁, pd₁) → y (o₁, pd₁) = .ok () (o₂, pd₂) → P o₂ → P' o₁)
    (pays : ∀ pd o₁ pd₁ o₂ pd₂, x (o, pd) = .ok () (o₁, pd₁) → InMode true pd₁ → y (o₁, pd₁) = .ok () (o₂, pd₂) → P o₂ →
      ∃ n, pd₂ = pd₁.advance n ∧ most ≤ n ∧ n ≤ pd₁.remaining) :
    Outruns (put >>= fun _ => put') (x >>= fun _ => y) o P more := by
  obtain ⟨p, writes, outruns⟩ := first
  obtain ⟨q, writes', each⟩ := weighs
  refine ⟨_, writes.bind writes', fun bytes member small pd rest mode ahead o₂ pd₂ run holds => ?_⟩
  obtain ⟨head, isHead, tail, isTail, rfl⟩ := append_of_mem member
  rw [List.length_append] at small ⊢
  rw [List.append_assoc] at ahead
  obtain ⟨_, ⟨o₁, pd₁⟩, front, back⟩ := bind_eq_ok_iff.mp run
  have holds' := before pd o₁ pd₁ o₂ pd₂ front back holds
  obtain ⟨m, rfl, enough, room⟩ := outruns head isHead (by omega) pd _ mode ahead o₁ pd₁ front holds'
  obtain ⟨n, rfl, enough', room'⟩ := pays pd o₁ _ o₂ pd₂ front (mode.advance m) back holds
  have light := each tail isTail (by omega)
  rw [remaining_advance] at room'
  exact ⟨m + n, advance_advance pd m n, by omega, by omega⟩

theorem Outruns.counted {get : Int32 → DecodeInto σ Unit} {loop : DecodeInto σ Unit} {n more : ℕ}
    (outruns : Outruns put loop o P more) (sized : Sized true put n)
    (same : n ≤ maxRequestSize → get (Int32.ofNat n) = loop) :
    Outruns (putArrayLength (Int32.ofNat n) >>= fun _ => put) (readOr spoil getArrayLength >>= get) o P more := by
  obtain ⟨q, writes, each⟩ := outruns
  refine ⟨_, (writes_putArrayLength _).bind writes, fun bytes member small pd rest mode ahead o' pd' run holds => ?_⟩
  obtain ⟨head, isHead, tail, isTail, rfl⟩ := append_of_mem member
  obtain ⟨-, stored⟩ := mem_accepted isHead
  rw [List.length_append] at small ⊢
  rw [List.append_assoc] at ahead
  have within : tail.length ≤ maxRequestSize := by omega
  have few : n ≤ maxRequestSize := (sized.le_length ((encodeBody_eq_ok_iff writes).mpr ⟨isTail, within⟩)).trans within
  have count : Reads true getArrayLength head (Int32.ofNat n) :=
    (@takes_getArrayLength false true n head few (fun isFixed => Bool.noConfusion isFixed) stored).reads
  rw [(count.readOr spoil o).andThen ahead mode, same few] at run
  obtain ⟨m, rfl, enough, room⟩ :=
    each tail isTail (by omega) _ rest (mode.advance _) (unread_advance ahead) o' pd' run holds
  have inside : head.length ≤ pd.remaining := by
    rw [remaining_eq, ahead, List.length_append]
    omega
  rw [remaining_advance] at room
  exact ⟨head.length + m, advance_advance pd _ m, by omega, by omega⟩

/-- A body that was decoded left nothing behind to move past. -/
theorem Outruns.not_decodeVersion {o o' : σ} (outruns : Outruns put x o P more) (positive : 0 < more) (notYet : ¬ P o)
    (encoded : encodeBody true put = .ok bytes) (decoded : decodeVersion true x bytes o = .ok () o') : ¬ P o' := by
  intro holds
  obtain ⟨output, writes, each⟩ := outruns
  obtain ⟨member, small⟩ := (encodeBody_eq_ok_iff writes).mp encoded
  rw [decodeVersion] at decoded
  split at decoded
  · cases decoded
    exact notYet holds
  split at decoded
  · cases decoded
  · next o₁ pd run =>
    split at decoded
    · cases decoded
    · obtain rfl : o₁ = o' := by cases decoded; rfl
      obtain ⟨n, -, enough, room⟩ :=
        each bytes member small _ [] (inMode_start true bytes) (List.append_nil _).symm o₁ pd run holds
      rw [remaining_eq] at room
      have all : bytes.length < bytes.length := (Nat.lt_add_of_pos_right positive).trans_le (enough.trans room)
      exact absurd all (Nat.lt_irrefl _)

end Coev.Kafka
