import Coev.Model.Zookeeper.Archive

/-! # What is read of what was written -/

namespace Coev.Zookeeper

open ByteString

variable {α β : Type}
variable {t r : Bytes}

theorem bind_eq_ok_iff {x : Deserialize α} {f : α → Deserialize β} {view : Bytes} {r : β × Bytes} :
    (x >>= f) view = .ok r ↔ ∃ a rest, x view = .ok (a, rest) ∧ f a rest = .ok r := by
  change (x view >>= fun p => f p.1 p.2) = .ok r ↔ _
  cases x view with
  | error failure =>
    constructor
    · intro impossible
      cases impossible
    · rintro ⟨a, rest, impossible, -⟩
      cases impossible
  | ok p =>
    constructor
    · exact fun later => ⟨p.1, p.2, rfl, later⟩
    · rintro ⟨a, rest, ⟨⟩, later⟩
      exact later

theorem bind_eq_of_ok {x : Deserialize α} {f : α → Deserialize β} {view rest : Bytes} {a : α} (ok : x view = .ok (a, rest)) :
    (x >>= f) view = f a rest := by
  change (x view >>= fun p => f p.1 p.2) = _
  rw [ok]
  rfl

/-! ## Primitives -/

/-- `ntohl` of a word in memory is the word that its first four bytes denote. -/
theorem ntohl_load (n : ℕ) (rest : Bytes) : ntohl (load (bigEndian 4 n ++ rest)) = n % 256 ^ 4 := by
  have low := bigEndian_value_append rest.reverse (bigEndian 4 n).reverse
  rw [List.length_reverse, length_bigEndian] at low
  rw [ntohl, load, List.reverse_append, low, List.reverse_reverse, value_bigEndian]

theorem takeBytes_append (front back : Bytes) : takeBytes front.length (front ++ back) = .ok (front, back) := by
  simp [takeBytes]

theorem deserializeInt_append (d : Int32) (t : Bytes) : deserializeInt (serializeInt d ++ t) = .ok (d, t) := by
  have taken := takeBytes_append (serializeInt d) t
  rw [serializeInt, length_bigEndian] at taken
  rw [deserializeInt, serializeInt, bind_eq_of_ok taken]
  have word := ntohl_load d.toUInt32.toNat []
  rw [List.append_nil, Nat.mod_eq_of_lt (show d.toUInt32.toNat < 256 ^ 4 from d.toUInt32.toNat_lt)] at word
  have same : Int32.ofNat d.toUInt32.toNat = d := Int32.toBitVec_inj.mp (by simp [Int32.toBitVec_ofNat'])
  rw [word, same]
  rfl

theorem deserializeInt_append_iff {d : Int32} : deserializeInt (serializeInt d ++ t) = .ok (d, r) ↔ True ∧ r = t := by
  rw [deserializeInt_append, Except.ok.injEq, Prod.mk.injEq, eq_comm (a := r), true_and, and_iff_right rfl]

/-- Of a long, only the high half is read, as the low one. -/
theorem deserializeLong_append (d : Int64) (t : Bytes) :
    deserializeLong (serializeLong d ++ t) = .ok (Int64.ofNat (d.toUInt64.toNat / 256 ^ 4), t) := by
  have taken := takeBytes_append (serializeLong d) t
  rw [serializeLong, length_bigEndian] at taken
  rw [deserializeLong, serializeLong, bind_eq_of_ok taken, bigEndian_add 4 4, ntohl_load,
    Nat.mod_eq_of_lt (by have small := d.toUInt64.toNat_lt; omega)]
  rfl

theorem deserializeLong_append_iff {d : Int64} :
    deserializeLong (serializeLong d ++ t) = .ok (d, r) ↔ d = 0 ∧ r = t := by
  rw [deserializeLong_append, Except.ok.injEq, Prod.mk.injEq, eq_comm (a := r)]
  refine and_congr_left fun _ => ?_
  constructor
  · intro same
    have word : d.toUInt64.toNat / 256 ^ 4 % 2 ^ 64 = d.toUInt64.toNat := by
      conv_rhs => rw [← same]
      exact (UInt64.toNat_ofNat' ..).symm
    have small := d.toUInt64.toNat_lt
    rw [Nat.mod_eq_of_lt (lt_of_le_of_lt (Nat.div_le_self _ _) small)] at word
    have zero : d.toUInt64.toNat = 0 := by omega
    exact Int64.toBitVec_inj.mp (BitVec.eq_of_toNat_eq zero)
  · rintro rfl
    rfl

theorem deserializeBool_append (d : Int32) (t : Bytes) :
    deserializeBool (serializeBool d ++ t) = .ok (if d ≠ 0 then 1 else 0, t) := by
  have taken : takeBytes 1 (serializeBool d ++ t) = .ok (serializeBool d, t) := takeBytes_append (serializeBool d) t
  rw [deserializeBool, bind_eq_of_ok taken, serializeBool]
  split <;> rfl

theorem deserializeBool_append_iff {d : Int32} :
    deserializeBool (serializeBool d ++ t) = .ok (d, r) ↔ (d = 0 ∨ d = 1) ∧ r = t := by
  rw [deserializeBool_append, Except.ok.injEq, Prod.mk.injEq, eq_comm (a := r)]
  refine and_congr_left fun _ => ?_
  split
  next some_ =>
    rw [eq_comm]
    exact ⟨.inr, fun either => either.resolve_left some_⟩
  next zero =>
    rw [not_not.mp zero]
    exact ⟨fun _ => .inl rfl, fun _ => rfl⟩

/-! ## Strings -/

theorem toInt_ofNat_le (n : ℕ) : (Int32.ofNat n).toInt ≤ n := by
  have size : (Int32.size : ℤ) = 2 ^ 32 := rfl
  rw [Int32.toInt_ofNat', Int.bmod_def, size]
  split <;> omega

/-- A length that an `int32_t` holds. -/
theorem toInt_ofNat_of_lt {n : ℕ} (small : n < 2 ^ 31) : (Int32.ofNat n).toInt = n := Int32.toInt_ofNat_of_lt small

/-- The bytes behind a string leave room for it in an `int32_t`. -/
def Fits (s : Bytes) (after : ℕ) : Prop := (s.length : ℤ) ≤ (Int32.ofNat (s.length + after)).toInt

theorem Fits.lt {s : Bytes} {after : ℕ} (fits : Fits s after) : s.length < 2 ^ 31 := by
  have bound := (Int32.ofNat (s.length + after)).toInt_lt
  have fits : (s.length : ℤ) ≤ (Int32.ofNat (s.length + after)).toInt := fits
  omega

theorem takeString_eq_ok_iff {len : Int32} {view s r : Bytes} : takeString len view = .ok (s, r) ↔
    ¬ Int32.ofNat view.length < len ∧ s = view.take len.toInt.toNat ∧ r = view.drop len.toInt.toNat := by
  unfold takeString
  split
  next short =>
    constructor
    · intro impossible
      cases impossible
    · exact fun long => absurd short long.1
  next long =>
    rw [Except.ok.injEq, Prod.mk.injEq, eq_comm (a := s), eq_comm (a := r)]
    exact (and_iff_right long).symm

theorem deserializeString_eq_ok_iff {len : Int32} {view s r : Bytes} :
    deserializeString (serializeInt len ++ view) = .ok (s, r) ↔ 0 ≤ len ∧ takeString len view = .ok (s, r) := by
  rw [deserializeString, bind_eq_of_ok (deserializeInt_append len view)]
  split
  next negative =>
    constructor
    · intro impossible
      cases impossible
    · exact fun positive => absurd negative (Int32.not_lt.mpr positive.1)
  next positive => exact (and_iff_right (Int32.not_lt.mp positive)).symm

/-- A string comes back if it is not empty and its length and that of the view are told from each other. -/
theorem deserializeString_append_iff {s t r : Bytes} :
    deserializeString (serializeString s ++ t) = .ok (s, r) ↔ (s ≠ [] ∧ Fits s t.length) ∧ r = t := by
  unfold serializeString
  split
  next empty =>
    rw [deserializeString_eq_ok_iff]
    constructor
    · exact fun read => absurd read.1 (by decide)
    · exact fun read => absurd empty read.1.1
  next some_ =>
    rw [List.append_assoc, deserializeString_eq_ok_iff, takeString_eq_ok_iff, Int32.le_iff_toInt_le, Int32.lt_iff_toInt_lt,
      List.length_append]
    constructor
    · rintro ⟨positive, long, same, rest⟩
      have len : (Int32.ofNat s.length).toInt.toNat = s.length := by
        have counted := congrArg List.length same
        have below := toInt_ofNat_le s.length
        rw [List.length_take, List.length_append] at counted
        omega
      have counts : (Int32.ofNat s.length).toInt = s.length := by
        have zero : (0 : Int32).toInt = 0 := rfl
        omega
      rw [len, List.drop_left] at rest
      exact ⟨⟨some_, by unfold Fits; omega⟩, rest⟩
    · rintro ⟨⟨-, fits⟩, rfl⟩
      have len := toInt_ofNat_of_lt fits.lt
      have zero : (0 : Int32).toInt = 0 := rfl
      rw [len, Int.toNat_natCast, List.take_left, List.drop_left]
      unfold Fits at fits
      exact ⟨by omega, by omega, rfl, rfl⟩

/-! ## Fields and elements -/

namespace Kind

variable {read : Deserialize α} {write : α → Bytes} {survives : α → ℕ → Prop}
variable {vs : List α}

theorem pair_append_iff {next : Deserialize β} {write' : β → Bytes} {survives' : β → ℕ → Prop}
    (first : ∀ v t r, read (write v ++ t) = .ok (v, r) ↔ survives v t.length ∧ r = t)
    (second : ∀ w t r, next (write' w ++ t) = .ok (w, r) ↔ survives' w t.length ∧ r = t) (p : α × β) :
    (do let v ← read; let w ← next; return (v, w) : Deserialize (α × β)) (write p.1 ++ (write' p.2 ++ t)) = .ok (p, r) ↔
      (survives p.1 ((write' p.2).length + t.length) ∧ survives' p.2 t.length) ∧ r = t := by
  rw [bind_eq_ok_iff]
  constructor
  · rintro ⟨v, rest, ok, later⟩
    obtain ⟨w, rest', ok', ⟨⟩⟩ := bind_eq_ok_iff.mp later
    obtain ⟨survived, rfl⟩ := (first _ _ _).mp ok
    obtain ⟨survived', same⟩ := (second _ _ _).mp ok'
    rw [List.length_append] at survived
    exact ⟨⟨survived, survived'⟩, same⟩
  · rintro ⟨⟨survived, survived'⟩, same⟩
    rw [← List.length_append] at survived
    refine ⟨p.1, _, (first _ _ _).mpr ⟨survived, rfl⟩, ?_⟩
    rw [bind_eq_of_ok ((second _ _ _).mpr ⟨survived', same⟩)]
    rfl

/-- Every value of a list comes back in front of what is behind it. -/
def SurviveAll (survives : α → ℕ → Prop) (write : α → Bytes) : List α → ℕ → Prop
  | [], _ => True
  | v :: vs, after => survives v ((vs.flatMap write).length + after) ∧ SurviveAll survives write vs after

theorem length_of_times {n : ℕ} {view r : Bytes} (ok : times read n view = .ok (vs, r)) : vs.length = n := by
  induction n generalizing view vs with
  | zero =>
    cases ok
    rfl
  | succ n ih =>
    obtain ⟨v, rest, -, later⟩ := bind_eq_ok_iff.mp ok
    obtain ⟨vs, rest, more, ⟨⟩⟩ := bind_eq_ok_iff.mp later
    rw [List.length_cons, ih more]

theorem times_append_iff (element : ∀ v t r, read (write v ++ t) = .ok (v, r) ↔ survives v t.length ∧ r = t)
    (vs : List α) :
    times read vs.length (vs.flatMap write ++ t) = .ok (vs, r) ↔ SurviveAll survives write vs t.length ∧ r = t := by
  induction vs with
  | nil =>
    constructor
    · rintro ⟨⟩
      exact ⟨trivial, rfl⟩
    · rintro ⟨-, rfl⟩
      rfl
  | cons v vs ih =>
    rw [List.flatMap_cons, List.append_assoc, List.length_cons, times, bind_eq_ok_iff]
    constructor
    · rintro ⟨v', rest, first, later⟩
      obtain ⟨vs', rest', more, ⟨⟩⟩ := bind_eq_ok_iff.mp later
      obtain ⟨survived, rfl⟩ := (element _ _ _).mp first
      obtain ⟨all, same⟩ := ih.mp more
      rw [List.length_append] at survived
      exact ⟨⟨survived, all⟩, same⟩
    · rintro ⟨⟨survived, all⟩, same⟩
      rw [← List.length_append] at survived
      refine ⟨v, _, (element _ _ _).mpr ⟨survived, rfl⟩, ?_⟩
      rw [bind_eq_of_ok (ih.mpr ⟨all, same⟩)]
      rfl

theorem elements_eq_ok_iff {count : Int32} {view r : Bytes} : elements read (serializeInt count ++ view) = .ok (vs, r) ↔
      0 ≤ count ∧ times read count.toInt.toNat view = .ok (vs, r) := by
  rw [elements, bind_eq_of_ok (deserializeInt_append count view)]
  split
  next negative =>
    constructor
    · intro impossible
      cases impossible
    · exact fun positive => absurd negative (Int32.not_lt.mpr positive.1)
  next positive => exact (and_iff_right (Int32.not_lt.mp positive)).symm

/-- A vector comes back if an `int32_t` holds its size and every element comes back. -/
theorem elements_append_iff (element : ∀ v t r, read (write v ++ t) = .ok (v, r) ↔ survives v t.length ∧ r = t) :
    elements read
      (serializeInt (Int32.ofNat vs.length) ++ ((vs.take (Int32.ofNat vs.length).toInt.toNat).flatMap write ++ t)) =
      .ok (vs, r) ↔ (vs.length < 2 ^ 31 ∧ SurviveAll survives write vs t.length) ∧ r = t := by
  have zero : (0 : Int32).toInt = 0 := rfl
  rw [elements_eq_ok_iff, Int32.le_iff_toInt_le]
  constructor
  · rintro ⟨positive, ok⟩
    have sized := length_of_times ok
    have bound := (Int32.ofNat vs.length).toInt_lt
    rw [← sized, List.take_length, times_append_iff element] at ok
    exact ⟨⟨by omega, ok.1⟩, ok.2⟩
  · rintro ⟨⟨small, all⟩, same⟩
    rw [toInt_ofNat_of_lt small, Int.toNat_natCast, List.take_length]
    exact ⟨by omega, (times_append_iff element vs).mpr ⟨all, same⟩⟩

/-- A vector of access control entries comes back empty. -/
theorem elements_zero_iff : elements read (serializeInt 0 ++ t) = .ok (vs, r) ↔ vs = [] ∧ r = t := by
  rw [elements_eq_ok_iff]
  constructor
  · rintro ⟨-, ok⟩
    cases ok
    exact ⟨rfl, rfl⟩
  · rintro ⟨rfl, rfl⟩
    exact ⟨Int32.le_refl 0, rfl⟩

end Kind

end Coev.Zookeeper
