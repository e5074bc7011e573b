import Coev.Proofs.Kafka.Leaves

/-! # Bodies that come back exactly under a condition

`Exact` joins what a decoder reads back with what it makes of the rest: a body comes back where it is good, and otherwise the
decoder fails or spoils what it reads into. It composes in the order of the text, too, so when a body comes back is put
together from when its parts do.
-/

namespace Coev.Kafka

open Std (ExtTreeMap)
open ByteString DecodeInto PacketDecoder PacketEncoder

variable {α β σ τ δ : Type} {strict flexible : Bool} {put put' : Encode Unit} {m n least : ℕ}
variable {loop : DecodeInto σ Unit} {xs : List δ} {count : Int32}

/-- Where the writing is good, `x` reads what `put` writes into `o`, which is `o'` then. Otherwise it fails, or the object is
bad, which `o'` is not. -/
structure Exact (strict flexible : Bool) (put : Encode Unit) (x : DecodeInto σ Unit) (o o' : σ) (bad : σ → Prop)
    (good : Prop)
    (least : ℕ) : Prop where
  carries : good → CarriesInto strict flexible put x o o' least
  spoils : ¬ good → Leaves flexible put x o (fun o₂ _ => bad o₂) least
  right : ¬ bad o'

/-- The same for a value that is read: otherwise another one is. -/
structure ExactValue (strict flexible : Bool) (put : Encode Unit) (get : Decode α) (a : α) (good : Prop) (least : ℕ) :
    Prop where
  carries : good → Carries strict flexible put get a least
  spoils : ¬ good → Leaves flexible put (field get fun b _ => some b) none (fun o _ => o ≠ some a) least

variable {x y : DecodeInto σ Unit} {o o₁ o₂ : σ} {bad bad' : σ → Prop} {good good' : Prop}

/-! ## Leaving -/

theorem Leaves.of_run {Q : σ → Bytes → Prop} (leaves : Leaves flexible put x o Q least)
    (same : ∀ pd, y (o, pd) = x (o, pd)) : Leaves flexible put y o Q least := by
  obtain ⟨output, writes, each⟩ := leaves
  refine ⟨output, writes, fun bytes member => ⟨(each bytes member).1, ?_⟩⟩
  intro small pd rest mode ahead o' pd' run
  rw [same] at run
  exact (each bytes member).2 small pd rest mode ahead o' pd' run

/-- A number of elements that can be read stands in front of the rest. -/
theorem Leaves.afterCount {getCount : Decode Int32} {get : Int32 → DecodeInto σ Unit} {Q : σ → Bytes → Prop}
    {spoil : σ → σ} (follows : EStateM.Extends getArrayLength getCount)
    (fits : flexible = false → CountReadable (bigEndian 4 n)) (rest : Leaves flexible put loop o Q least)
    (enough : n ≤ least) (same : n ≤ maxRequestSize → get (Int32.ofNat n) = loop) :
    Leaves flexible (putArrayLength (Int32.ofNat n) >>= fun _ => put) (readOr spoil getCount >>= get) o Q least := by
  obtain ⟨q, writes, each⟩ := rest
  refine ⟨_, (writes_putArrayLength _).bind writes, fun bytes member => ?_⟩
  obtain ⟨head, isHead, tail, isTail, rfl⟩ := append_of_mem member
  obtain ⟨-, stored⟩ := mem_accepted isHead
  obtain ⟨long, leaves⟩ := each tail isTail
  rw [List.length_append]
  refine ⟨Nat.le_add_left_of_le long, ?_⟩
  intro small pd rest mode ahead o' pd' run
  have few : n ≤ maxRequestSize := by omega
  have count := reads_of_extends (@takes_getArrayLength false _ _ _ few fits stored).reads follows
  rw [List.append_assoc] at ahead
  rw [(count.readOr spoil o).andThen ahead mode, same few] at run
  exact leaves (by omega) _ rest (mode.advance _) (unread_advance ahead) o' pd' run

/-! ## Sequencing -/

theorem Exact.sized (exact_ : Exact strict flexible put x o o₁ bad good least) : Sized flexible put least := by
  by_cases isGood : good
  · exact (exact_.carries isGood).sized
  · exact (exact_.spoils isGood).sized

theorem Exact.weaken (exact_ : Exact strict flexible put x o o₁ bad good n) (le : m ≤ n) :
    Exact strict flexible put x o o₁ bad good m where
  carries isGood := (exact_.carries isGood).weaken le
  spoils notGood := (exact_.spoils notGood).weaken (fun _ _ isBad => isBad) le
  right := exact_.right

/-- The condition, the object and the length as they are wanted. -/
theorem Exact.conclude (exact_ : Exact strict flexible put x o o₁ bad good n) (same : o₁ = o₂) (iff : good ↔ good')
    (le : m ≤ n) : Exact strict flexible put x o o₂ bad good' m := by
  obtain rfl := same
  obtain rfl := propext iff
  exact exact_.weaken le

/-- Another way to be bad. -/
theorem Exact.imp (exact_ : Exact strict flexible put x o o₁ bad good n) (implies : ∀ o₂, bad o₂ → bad' o₂)
    (right : ¬ bad' o₁) : Exact strict flexible put x o o₁ bad' good n where
  carries := exact_.carries
  spoils notGood := (exact_.spoils notGood).weaken (fun o₂ _ => implies o₂) (Nat.le_refl n)
  right := right

/-- A bad object is another one. -/
theorem Exact.finish (exact_ : Exact strict flexible put x o o₁ bad good n) (same : o₁ = o₂) (iff : good ↔ good')
    (le : m ≤ n) : Exact strict flexible put x o o₂ (· ≠ o₂) good' m := by
  apply (exact_.conclude same iff le).imp
  · rintro o isBad rfl
    exact exact_.right (same ▸ isBad)
  · exact fun differs => differs rfl

/-- What is read back in any case. -/
theorem CarriesInto.exact (carries : CarriesInto strict flexible put x o o₁ least) :
    Exact strict flexible put x o o₁ (fun _ => False) True least where
  carries _ := carries
  spoils notTrue := absurd trivial notTrue
  right := id

/-- What is read back in any case stands in front. -/
theorem CarriesInto.seqExact (first : CarriesInto strict flexible put x o o₁ m)
    (next : Exact strict flexible put' y o₁ o₂ bad good n) :
    Exact strict flexible (put >>= fun _ => put') (x >>= fun _ => y) o o₂ bad good (m + n) where
  carries isGood := first.seq (next.carries isGood)
  spoils notGood := first.leaves (next.spoils notGood)
  right := next.right

theorem Carries.seqExact {get : Decode α} {k : α → DecodeInto σ Unit} {a : α} {spoil : σ → σ}
    (first : Carries strict flexible put get a m) (next : Exact strict flexible put' (k a) o o₂ bad good n) :
    Exact strict flexible (put >>= fun _ => put') (readOr spoil get >>= k) o o₂ bad good (m + n) where
  carries isGood := first.seqInto (next.carries isGood)
  spoils notGood := first.leaves (next.spoils notGood)
  right := next.right

/-- Two parts, the second of which leaves alone what was bad. -/
theorem Exact.both (first : Exact strict flexible put x o o₁ bad good m)
    (next : Exact strict flexible put' y o₁ o₂ bad' good' n) (keeps : Keeps bad y) (right : ¬ bad o₂) :
    Exact strict flexible (put >>= fun _ => put') (x >>= fun _ => y) o o₂ (fun o => bad o ∨ bad' o) (good ∧ good')
      (m + n) where
  carries both := (first.carries both.1).seq (next.carries both.2)
  spoils notBoth := by
    by_cases isGood : good
    · have notGood : ¬ good' := fun isGood' => notBoth ⟨isGood, isGood'⟩
      exact ((first.carries isGood).leaves (next.spoils notGood)).weaken (fun _ _ => .inr) (Nat.le_refl _)
    · have behind := Leaves.andThen (f := bad) (P := id) (first.spoils isGood) next.sized keeps
      exact behind.weaken (fun _ _ => .inl) (Nat.le_refl _)
  right := by
    rintro (isBad | isBad)
    · exact right isBad
    · exact next.right isBad

/-- What is read back in any case stands behind. -/
theorem Exact.seqCarries (first : Exact strict flexible put x o o₁ bad good m)
    (next : CarriesInto strict flexible put' y o₁ o₂ n) (keeps : Keeps bad y) (right : ¬ bad o₂) :
    Exact strict flexible (put >>= fun _ => put') (x >>= fun _ => y) o o₂ bad good (m + n) :=
  ((first.both next.exact keeps right).imp (fun _ isBad => isBad.resolve_right id) right).conclude rfl
    (and_iff_left trivial) (Nat.le_refl _)

/-- What is read back without a trace stands behind. -/
theorem Exact.seqSkip (first : Exact strict flexible put x o o₁ bad good m) {get : Decode Unit}
    (next : Carries strict flexible put' get () n) :
    Exact strict flexible (put >>= fun _ => put') (x >>= fun _ => read get) o o₁ bad good (m + n) :=
  first.seqCarries (next.skip o₁) (Keeps.readOr id get) first.right

theorem Exact.of_run (exact_ : Exact strict flexible put x o o₁ bad good least) (same : ∀ pd, y (o, pd) = x (o, pd)) :
    Exact strict flexible put y o o₁ bad good least where
  carries isGood := (exact_.carries isGood).of_run same
  spoils notGood := (exact_.spoils notGood).of_run same
  right := exact_.right

theorem Exact.afterUpdate {f : σ → σ} (exact_ : Exact strict flexible put x (f o) o₁ bad good least) :
    Exact strict flexible put (update f >>= fun _ => x) o o₁ bad good least where
  carries isGood := (exact_.carries isGood).afterUpdate
  spoils notGood := (exact_.spoils notGood).afterUpdate
  right := exact_.right

theorem Exact.part {x : DecodeInto τ Unit} {get : σ → τ} {set : τ → σ → σ} {t : τ} {bad : τ → Prop}
    (exact_ : Exact strict flexible put x (get o) t bad good least) (law : ∀ t, get (set t o) = t) :
    Exact strict flexible put (part get set x) o (set t o) (fun o => bad (get o)) good least where
  carries isGood := (exact_.carries isGood).part
  spoils notGood := by
    apply Leaves.part
    apply (exact_.spoils notGood).weaken _ (Nat.le_refl _)
    intro t _ isBad
    rwa [law]
  right := by
    rw [law]
    exact exact_.right

/-- What is decoded apart is stored. -/
theorem Exact.aside {x : DecodeInto τ Unit} {fresh t : τ} {store : τ → σ → σ} {bad' : τ → Prop}
    (exact_ : Exact strict flexible put x fresh t bad' good least) (wrong : ∀ t', bad' t' → bad (store t' o))
    (right : ¬ bad (store t o)) : Exact strict flexible put (aside fresh x store) o (store t o) bad good least where
  carries isGood := (exact_.carries isGood).aside store o
  spoils notGood := by
    obtain ⟨output, writes, each⟩ := exact_.spoils notGood
    refine ⟨output, writes, fun bytes member => ⟨(each bytes member).1, ?_⟩⟩
    intro small pd rest mode ahead o' pd' run
    obtain ⟨t', inner, rfl⟩ := aside_eq_ok_iff.mp run
    exact wrong t' ((each bytes member).2 small pd rest mode ahead t' pd' inner)
  right := right

/-! ## Values -/

theorem ExactValue.iff {get : Decode α} {a : α} (exact_ : ExactValue strict flexible put get a good least)
    (iff : good ↔ good') : ExactValue strict flexible put get a good' least := propext iff ▸ exact_

/-- The value is stored in a member. -/
theorem ExactValue.field {get : Decode α} {a : α} {spoil : σ → σ} {set : α → σ → σ}
    (exact_ : ExactValue strict flexible put get a good least) (wrong : ∀ b, b ≠ a → bad (set b o))
    (right : ¬ bad (set a o)) : Exact strict flexible put (fieldOr spoil get set) o (set a o) bad good least where
  carries isGood := (exact_.carries isGood).field spoil set o
  spoils notGood := by
    obtain ⟨output, writes, each⟩ := exact_.spoils notGood
    refine ⟨output, writes, fun bytes member => ⟨(each bytes member).1, ?_⟩⟩
    intro small pd rest mode ahead o' pd' run
    obtain ⟨b, ⟨o₁, pd₁⟩, first, stored⟩ := EStateM.bind_eq_ok_iff.mp run
    obtain ⟨read, rfl⟩ := readOr_eq_ok_iff.mp first
    obtain ⟨rfl, rfl⟩ := update_eq_ok_iff.mp stored
    have value : DecodeInto.field get (fun b _ => some b) ((none : Option α), pd) = .ok () (some b, pd₁) :=
      (EStateM.bind_of_ok (readOr_eq_ok_iff.mpr ⟨read, rfl⟩) _).trans rfl
    have other := (each bytes member).2 small pd rest mode ahead (some b) pd₁ value
    exact wrong b fun same => other (congrArg some same)
  right := right

/-! ## Counts -/

/-- The number of elements stands in front of them; a negative number is as bad as it gets. A failure to read the number
need not matter, and where it does not, the reader is not strict. -/
theorem Exact.countedBy {getCount : Decode Int32} {get : Int32 → DecodeInto σ Unit} {spoil : σ → σ}
    (follows : EStateM.Extends getArrayLength getCount) (checks : strict = true → getCount = getArrayLength)
    (rest : Exact strict flexible put loop o o₁ bad good least) (enough : n ≤ least)
    (same : n ≤ maxRequestSize → get (Int32.ofNat n) = loop)
    (negative : ∀ count : Int32, count < 0 → n ≠ 0 → ∀ pd o' pd', get count (o, pd) = .ok () (o', pd') → bad o') :
    Exact strict flexible (putArrayLength (Int32.ofNat n) >>= fun _ => put) (readOr spoil getCount >>= get) o o₁ bad
      ((flexible = false → CountReadable (bigEndian 4 n)) ∧ good) 1 where
  carries both := by
    apply CarriesInto.atLeast _ ((sized_putArrayLength _).bind (rest.sized.weaken (Nat.zero_le _))) (by decide)
    · exact 0
    cases strict with
    | true =>
      rw [checks rfl]
      exact CarriesInto.counted both.1 ((rest.carries both.2).weaken enough) same
    | false => exact (CarriesInto.countedBy follows both.1 (rest.carries both.2) enough same).weaken (Nat.zero_le _)
  spoils notBoth := by
    apply Leaves.atLeast _ ((sized_putArrayLength _).bind (rest.sized.weaken (Nat.zero_le _))) (by decide)
    · exact 0
    by_cases fits : flexible = false → CountReadable (bigEndian 4 n)
    · have notGood : ¬ good := fun isGood => notBoth ⟨fits, isGood⟩
      exact ((rest.spoils notGood).afterCount follows fits enough same).weaken (fun _ _ isBad => isBad) (Nat.zero_le _)
    · obtain ⟨rfl, unreadable⟩ := Classical.not_imp.mp fits
      have behind : Leaves false put (get (countSeen n)) o (fun o' _ => bad o') least := by
        apply rest.sized.leaves
        intro small pd o' pd' run
        exact negative _ (countSeen_of_unreadable (enough.trans small) unreadable)
          (not_countReadable_size unreadable) pd o' pd' run
      exact (behind.countedBy follows enough fun _ => rfl).weaken (fun _ _ isBad => isBad) (Nat.zero_le _)
  right := rest.right

theorem Exact.counted {get : Int32 → DecodeInto σ Unit} {spoil : σ → σ}
    (rest : Exact strict flexible put loop o o₁ bad good least) (enough : n ≤ least)
    (same : n ≤ maxRequestSize → get (Int32.ofNat n) = loop)
    (negative : ∀ count : Int32, count < 0 → n ≠ 0 → ∀ pd o' pd', get count (o, pd) = .ok () (o', pd') → bad o') :
    Exact strict flexible (putArrayLength (Int32.ofNat n) >>= fun _ => put) (readOr spoil getArrayLength >>= get) o o₁ bad
      ((flexible = false → CountReadable (bigEndian 4 n)) ∧ good) 1 :=
  Exact.countedBy (.refl _) (fun _ => rfl) rest enough same negative

/-- The same where the loop is known only from the object on. -/
theorem Exact.countedAt {getCount : Decode Int32} {get : Int32 → DecodeInto σ Unit} {spoil : σ → σ}
    (follows : EStateM.Extends getArrayLength getCount) (checks : strict = true → getCount = getArrayLength)
    (rest : Exact strict flexible put loop o o₁ bad good least) (enough : n ≤ least)
    (same : n ≤ maxRequestSize → ∀ pd, get (Int32.ofNat n) (o, pd) = loop (o, pd))
    (negative : ∀ count : Int32, count < 0 → n ≠ 0 → ∀ pd o' pd', get count (o, pd) = .ok () (o', pd') → bad o') :
    Exact strict flexible (putArrayLength (Int32.ofNat n) >>= fun _ => put) (readOr spoil getCount >>= get) o o₁ bad
      ((flexible = false → CountReadable (bigEndian 4 n)) ∧ good) 1 := by
  by_cases small : n ≤ maxRequestSize
  · exact Exact.countedBy follows checks (rest.of_run (same small)) enough (fun _ => rfl) negative
  · exact Exact.countedBy follows checks rest enough (fun within => absurd within small) negative

theorem toInt_toNat_of_neg (negative : count < 0) : count.toInt.toNat = 0 := by
  have zero : (0 : Int32).toInt = 0 := rfl
  rw [Int32.lt_iff_toInt_lt, zero] at negative
  omega

/-! ## Vectors -/

/-- The number of the elements can be read, and each of them is good. -/
def ListReadable (flexible : Bool) (good : δ → Prop) (xs : List δ) : Prop :=
  (flexible = false → CountReadable (bigEndian 4 xs.length)) ∧ ∀ d ∈ xs, good d

/-- The number of the entries can be read, and each value is good. -/
def MapReadable {κ ν' : Type} [Ord κ] [Std.TransOrd κ] (flexible : Bool) (good : ν' → Prop)
    (source : ExtTreeMap κ ν') : Prop :=
  (flexible = false → CountReadable (bigEndian 4 source.size)) ∧ ∀ (k : κ) (v : ν'), source[k]? = some v → good v

/-- The elements of a vector that was resized. -/
theorem Exact.each {put : δ → Encode Unit} {fresh : σ} {g : δ → σ} {bad : δ → σ → Prop} {good : δ → Prop} {xs : List δ}
    (each : ∀ d ∈ xs, Exact strict flexible (put d) x fresh (g d) (bad d) (good d) 1) :
    Exact strict flexible (xs.forM put) (fun (os, pd) => DecodeInto.each x os pd) (List.replicate xs.length fresh) (xs.map g)
      (· ≠ xs.map g) (∀ d ∈ xs, good d) xs.length where
  carries isGood := CarriesInto.each fun d member => (each d member).carries (isGood d member)
  spoils notGood := by
    induction xs with
    | nil => exact absurd (fun d member => absurd member List.not_mem_nil) notGood
    | cons d xs ih =>
      obtain ⟨head, tail⟩ := List.forall_mem_cons.mp each
      have sized : Sized flexible (xs.forM put) xs.length := Sized.forM fun d member => (tail d member).sized
      have step (pd : PacketDecoder) := each_cons x fresh (List.replicate xs.length fresh) pd
      by_cases isGood : good d
      · have others : ¬ ∀ d ∈ xs, good d := fun all => notGood (List.forall_mem_cons.mpr ⟨isGood, all⟩)
        have first :
            CarriesInto strict flexible (put d)
              (DecodeInto.part (fun os => os.headD fresh) (fun o os => o :: os.tail) x)
            (List.replicate (xs.length + 1) fresh) (g d :: List.replicate xs.length fresh) 1 :=
              CarriesInto.part (head.carries isGood)
        have behind : Leaves flexible (xs.forM put)
            (DecodeInto.part List.tail (fun tail os => os.headD fresh :: tail) fun (os, pd) => DecodeInto.each x os pd)
            (g d :: List.replicate xs.length fresh) (fun os _ => os ≠ (d :: xs).map g) xs.length := by
          apply Leaves.part
          apply (ih tail others).weaken _ (Nat.le_refl _)
          intro os _ differ same
          exact differ (List.tail_eq_of_cons_eq same)
        exact ((first.leaves behind).of_run step).weaken (fun _ _ isBad => isBad) (Nat.le_of_eq (Nat.add_comm _ _))
      · have first : Leaves flexible (put d) (DecodeInto.part (fun os => os.headD fresh) (fun o os => o :: os.tail) x)
            (List.replicate (xs.length + 1) fresh) (fun os _ => bad d (os.headD fresh)) 1 := Leaves.part (head.spoils isGood)
        have keeps : Keeps (fun os : List σ => os.headD fresh)
            (DecodeInto.part List.tail (fun tail os => os.headD fresh :: tail) fun (os, pd) => DecodeInto.each x os pd) :=
          Keeps.part fun _ _ => rfl
        apply ((first.andThen sized keeps).of_run step).weaken _ (Nat.le_of_eq (Nat.add_comm _ _))
        rintro os - isBad rfl
        exact head.right isBad
  right := fun differ => differ rfl

/-- A vector is resized from nothing, and its elements are read. -/
theorem Exact.elements {put : δ → Encode Unit} {fresh : σ} {g : δ → σ} {bad : δ → σ → Prop} {good : δ → Prop}
    (each : ∀ d ∈ xs, Exact strict flexible (put d) x fresh (g d) (bad d) (good d) 1) :
    Exact strict flexible (xs.forM put) (DecodeInto.elements fresh xs.length x) [] (xs.map g) (· ≠ xs.map g)
      (∀ d ∈ xs, good d) xs.length := by
  apply Exact.afterUpdate
  rw [resize, List.take_nil, List.nil_append, List.length_nil, Nat.sub_zero]
  exact Exact.each each

theorem int32_ofNat_sign {n : ℕ} (small : n ≤ maxRequestSize) : ¬ Int32.ofNat n < 0 ∧ (n ≠ 0 → 0 < Int32.ofNat n) := by
  have zero : (0 : Int32).toInt = 0 := rfl
  have loop := int32_ofNat_toInt (n := n) (by simp only [maxRequestSize] at small; simp only [int32Max]; omega)
  rw [Int32.lt_iff_toInt_lt, Int32.lt_iff_toInt_lt, zero]
  omega

theorem int32_ofNat_not_neg {n : ℕ} (small : n ≤ maxRequestSize) : ¬ Int32.ofNat n < 0 :=
  (int32_ofNat_sign small).1

theorem int32_ofNat_pos {n : ℕ} (small : n ≤ maxRequestSize) (some_ : n ≠ 0) : 0 < Int32.ofNat n :=
  (int32_ofNat_sign small).2 some_

theorem resized_ofNat {fresh : σ} {n : ℕ} (small : n ≤ maxRequestSize) :
    DecodeInto.resized fresh (Int32.ofNat n) x = DecodeInto.elements fresh n x := by
  rw [DecodeInto.resized, if_neg (int32_ofNat_not_neg small), int32_ofNat_loop small]

/-- `resize` throws below zero. -/
theorem not_resized {fresh : σ} {os os' : List σ} {pd pd' : PacketDecoder} (negative : count < 0)
    (run : DecodeInto.resized fresh count x (os, pd) = .ok () (os', pd')) : False := by
  rw [DecodeInto.resized, if_pos negative] at run
  cases run

/-- A member is a vector, which goes by a number that was read. -/
theorem Exact.vectorMemberOf {put : δ → Encode Unit} {fresh : τ} {x : DecodeInto τ Unit} {g : δ → τ}
    {bad : δ → τ → Prop} {good : δ → Prop} {k : Int32 → DecodeInto σ Unit} {spoil : σ → σ} (get : σ → List τ)
    (set : List τ → σ → σ) (each : ∀ d ∈ xs, Exact strict flexible (put d) x fresh (g d) (bad d) (good d) 1)
    (getSet : ∀ os, get (set os o) = os) (setSet : set (xs.map g) o = o₁) (start : get o = [])
    (same : xs.length ≤ maxRequestSize → ∀ pd, k (Int32.ofNat xs.length) (o, pd) =
      DecodeInto.part get set (DecodeInto.elements fresh xs.length x) (o, pd))
    (negative : ∀ count : Int32, count < 0 → ∀ pd o' pd', k count (o, pd) = .ok () (o', pd') → get o' = []) :
    Exact strict flexible (putArrayLength (Int32.ofNat xs.length) >>= fun _ => xs.forM put)
      (readOr spoil getArrayLength >>= k) o o₁ (fun o => get o ≠ xs.map g) (ListReadable flexible good xs) 1 := by
  have loop := Exact.elements each
  rw [← start] at loop
  apply (Exact.countedAt (.refl _) (fun _ => rfl) (loop.part getSet) (Nat.le_refl _) same _).conclude setSet Iff.rfl
    (Nat.le_refl _)
  intro count below some_ pd o' pd' run empty
  rw [negative count below pd o' pd' run] at empty
  apply some_
  rw [← List.length_map g, ← empty, List.length_nil]

/-- A member is a vector, which is resized to a number that was read. -/
theorem Exact.vectorMember {put : δ → Encode Unit} {fresh : τ} {x : DecodeInto τ Unit} {g : δ → τ} {bad : δ → τ → Prop}
    {good : δ → Prop} {get : σ → List τ} {set : List τ → σ → σ} {spoil : σ → σ}
    (each : ∀ d ∈ xs, Exact strict flexible (put d) x fresh (g d) (bad d) (good d) 1)
    (getSet : ∀ os, get (set os o) = os) (setSet : set (xs.map g) o = o₁) (start : get o = []) :
    Exact strict flexible (putArrayLength (Int32.ofNat xs.length) >>= fun _ => xs.forM put)
      (readOr spoil getArrayLength >>= fun n => DecodeInto.part get set (DecodeInto.resized fresh n x)) o o₁
      (fun o => get o ≠ xs.map g) (ListReadable flexible good xs) 1 := by
  apply Exact.vectorMemberOf get set each getSet setSet start
  · intro small pd
    rw [resized_ofNat small]
  · intro count negative pd o' pd' run
    obtain ⟨os, inner, -⟩ := part_eq_ok_iff.mp run
    exact (not_resized negative inner).elim

theorem keeps_vectorMember {x : DecodeInto τ Unit} {fresh : τ} {get : σ → List τ} {set : List τ → σ → σ} {spoil : σ → σ}
    {f : σ → α} (keeps : ∀ os o, f (set os o) = f o) :
    Keeps f (readOr spoil getArrayLength >>= fun n => DecodeInto.part get set (DecodeInto.resized fresh n x)) :=
  (Keeps.readOr _ _).bind fun _ => Keeps.part keeps

/-! ## Maps -/

section Maps

variable {κ ν ν' : Type} [Ord κ] [Std.TransOrd κ] {fresh v : ν} {k : κ} {entries : ExtTreeMap κ ν}

/-- The entry at a key is there, and is another one. -/
def Misread (k : κ) (v : ν) (entries : ExtTreeMap κ ν) : Prop := ∃ v', entries[k]? = some v' ∧ v' ≠ v

theorem misread_insert {v' : ν} (differ : v' ≠ v) : Misread k v (entries.insert k v') :=
  ⟨v', ExtTreeMap.getElem?_insert_self, differ⟩

theorem not_misread_insert : ¬ Misread k v (entries.insert k v) := by
  rintro ⟨v', found, differ⟩
  rw [ExtTreeMap.getElem?_insert_self] at found
  exact differ (Option.some.inj found).symm

/-- The value of a new key is read in place. -/
theorem Exact.entry {value : DecodeInto ν Unit} {bad : ν → Prop}
    (exact_ : Exact strict flexible put value fresh v bad good least) (new : entries[k]? = none) :
    Exact strict flexible put (DecodeInto.entry fresh k value) entries (entries.insert k v)
      (Misread k v) good least where
  carries isGood := (exact_.carries isGood).entry new
  spoils notGood := by
    apply Leaves.part
    rw [new]
    apply (exact_.spoils notGood).weaken _ (Nat.le_refl _)
    intro v' _ isBad
    apply misread_insert
    rintro rfl
    exact exact_.right isBad
  right := not_misread_insert

/-- A key is given the value that was read apart. -/
theorem Exact.newEntry {value : DecodeInto ν Unit} {bad : ν → Prop}
    (exact_ : Exact strict flexible put value fresh v bad good least) :
    Exact strict flexible put (DecodeInto.aside fresh value fun v entries => entries.insert k v) entries
      (entries.insert k v) (Misread k v) good least := by
  apply exact_.aside
  · intro v' isBad
    apply misread_insert
    rintro rfl
    exact exact_.right isBad
  · exact not_misread_insert

/-- The elements of the vector of a new key, behind their number. -/
theorem Exact.entryResized {put : δ → Encode Unit} {fresh : σ} {g : δ → σ} {bad : δ → σ → Prop} {good : δ → Prop}
    {lists : ExtTreeMap κ (List σ)}
    (each : ∀ d ∈ xs, Exact strict flexible (put d) x fresh (g d) (bad d) (good d) 1) (new : lists[k]? = none) :
    Exact strict flexible (putArrayLength (Int32.ofNat xs.length) >>= fun _ => xs.forM put)
      (read getArrayLength >>= fun count => DecodeInto.entry [] k (DecodeInto.resized fresh count x)) lists
        (lists.insert k (xs.map g)) (Misread k (xs.map g)) (ListReadable flexible good xs) 1 := by
  apply ((Exact.elements each).entry new).counted (Nat.le_refl _)
  · intro small
    rw [resized_ofNat small]
  · intro count negative _ pd m' pd' run
    obtain ⟨os, inner, -⟩ := part_eq_ok_iff.mp run
    exact (not_resized negative inner).elim

/-- The same where each element is read back in any case. -/
theorem Exact.entryVector {put : δ → Encode Unit} {fresh : σ} {g : δ → σ} {os : List σ}
    {lists : ExtTreeMap κ (List σ)} (each : ∀ d ∈ xs, CarriesInto strict flexible (put d) x fresh (g d) 1)
    (same : xs.map g = os) (new : lists[k]? = none) :
    Exact strict flexible (putArrayLength (Int32.ofNat xs.length) >>= fun _ => xs.forM put)
      (read getArrayLength >>= fun count => DecodeInto.entry [] k (DecodeInto.resized fresh count x)) lists
        (lists.insert k os) (Misread k os) (flexible = false → CountReadable (bigEndian 4 xs.length)) 1 := by
  subst same
  apply (Exact.entryResized (fun d member => (each d member).exact) new).conclude rfl _ (Nat.le_refl _)
  exact and_iff_left fun _ _ => trivial

variable [Std.LawfulEqOrd κ]

/-- The entries of a map, in any order. -/
theorem Exact.rounds {put : κ × ν' → Encode Unit} {round : DecodeInto (ExtTreeMap κ ν) Unit} {g : ν' → ν}
    {good : ν' → Prop} {source : ExtTreeMap κ ν'} {order : List (κ × ν')} (perm : order.Perm source.toList)
    (each : ∀ k v (m : ExtTreeMap κ ν), m[k]? = none →
      Exact strict flexible (put (k, v)) round m (m.insert k (g v)) (Misread k (g v)) (good v) 1)
    (grows : ∀ m pd m' pd', round (m, pd) = .ok () (m', pd') → ExtTreeMap.GrewBy m m' 1) :
    Exact strict flexible (order.forM put) (DecodeInto.rounds round source.size) ∅ (source.map fun _ => g)
      (· ≠ source.map fun _ => g) (∀ (k : κ) (v : ν'), source[k]? = some v → good v) source.size := by
  have size : order.length = source.size := perm.length_eq.trans ExtTreeMap.length_toList
  have member (entry : κ × ν') : entry ∈ order ↔ source[entry.1]? = some entry.2 := by
    rw [perm.mem_iff, ExtTreeMap.mem_toList_iff_getElem?_eq_some]
  have grewBy {n : ℕ} {m m' : ExtTreeMap κ ν} {pd pd' : PacketDecoder}
      (run : DecodeInto.rounds round n (m, pd) = .ok () (m', pd')) : m.GrewBy m' n := by
    induction n generalizing m pd with
    | zero =>
      cases run
      exact .same _ 0
    | succ n ih =>
      obtain ⟨_, ⟨m₁, pd₁⟩, first, rest⟩ := EStateM.bind_eq_ok_iff.mp run
      rw [Nat.add_comm]
      exact (grows m pd m₁ pd₁ first).trans (ih rest)
  constructor
  · intro isGood
    rw [← ExtTreeMap.foldl_insert_order perm g, ← size]
    apply CarriesInto.rounds
    rintro front ⟨k, v⟩ rest split
    have isMember : (k, v) ∈ order := split ▸ List.mem_append_right front List.mem_cons_self
    have distinct := ExtTreeMap.pairwise_of_perm_toList perm
    rw [split, List.pairwise_append] at distinct
    apply (each k v _ _).carries (isGood k v ((member (k, v)).mp isMember))
    rw [ExtTreeMap.foldl_insert_eq distinct.1 fun _ _ => ExtTreeMap.getElem?_empty]
    exact ExtTreeMap.getElem?_foldl_front perm split
  · intro notGood
    have round : RoundOf flexible put (DecodeInto.rounds round) good g := by
      intro k v m new
      have exact_ := each k v m new
      by_cases isGood : good v
      · exact .inl ⟨isGood, fun put' Q n rest =>
          ((exact_.carries isGood).leaves rest).weaken (fun _ _ holds => holds) (Nat.le_of_eq (Nat.add_comm _ _))⟩
      · refine .inr fun put' n sized => ?_
        obtain ⟨output, writes, leaves⟩ := exact_.spoils isGood
        obtain ⟨output', writes', least⟩ := sized
        refine ⟨_, writes.bind writes', fun bytes isMember => ?_⟩
        obtain ⟨head, isHead, tail, isTail, rfl⟩ := append_of_mem isMember
        obtain ⟨long, holds⟩ := leaves head isHead
        have long' := least tail isTail
        rw [List.length_append]
        refine ⟨by omega, fun small pd rest mode ahead m' pd' run => ?_⟩
        obtain ⟨_, ⟨m₁, pd₁⟩, first, others⟩ := EStateM.bind_eq_ok_iff.mp run
        rw [List.append_assoc] at ahead
        have misread := holds (by omega) pd _ mode ahead m₁ pd₁ first
        exact ⟨m₁, grewBy others, (grows m pd m₁ pd₁ first).size_le, fun _ => misread⟩
    have leaves := round.leaves (fun entry => (each entry.1 entry.2 ∅ ExtTreeMap.getElem?_empty).sized)
      (ExtTreeMap.pairwise_of_perm_toList perm) (m := ∅) fun _ _ => ExtTreeMap.getElem?_empty
    rw [size] at leaves
    apply leaves.weaken _ (Nat.le_refl _)
    rintro m' - holds rfl
    apply notGood
    intro k v found
    apply holds _ _ (k, v) ((member (k, v)).mpr found)
    · rw [ExtTreeMap.size_map, ExtTreeMap.size_empty, Nat.zero_add]
    · intro entry inside
      rw [ExtTreeMap.getElem?_map, (member entry).mp inside]
      rfl
  · exact fun differ => differ rfl

omit [Std.LawfulEqOrd κ] in
theorem mapReadable_of_flexible {good : ν' → Prop} {source : ExtTreeMap κ ν'} (all : ∀ v, good v) :
    MapReadable true good source :=
  ⟨fun isFixed => Bool.noConfusion isFixed, fun _ v _ => all v⟩

/-- The loop that fills a map goes by a number that was read, below zero by none. -/
theorem rounds_of_neg {round : DecodeInto σ Unit} (negative : count < 0) :
    DecodeInto.rounds round count.toInt.toNat = Pure.pure () := by
  rw [toInt_toNat_of_neg negative]
  rfl

variable {get : σ → ExtTreeMap κ ν} {set : ExtTreeMap κ ν → σ → σ} {spoil : σ → σ} {getCount : Decode Int32}
  {put : κ × ν' → Encode Unit} {round : DecodeInto (ExtTreeMap κ ν) Unit} {g : ν' → ν} {good : ν' → Prop}
  {source : ExtTreeMap κ ν'} {order : List (κ × ν')}

/-- A member is a map, which goes by a number that was read. -/
theorem Exact.mapMemberOf {k : Int32 → DecodeInto σ Unit} (get : σ → ExtTreeMap κ ν)
    (set : ExtTreeMap κ ν → σ → σ) (follows : EStateM.Extends getArrayLength getCount)
    (checks : strict = true → getCount = getArrayLength) (perm : order.Perm source.toList)
    (each : ∀ k v (m : ExtTreeMap κ ν), m[k]? = none →
      Exact strict flexible (put (k, v)) round m (m.insert k (g v)) (Misread k (g v)) (good v) 1)
    (grows : ∀ m pd m' pd', round (m, pd) = .ok () (m', pd') → ExtTreeMap.GrewBy m m' 1)
    (getSet : ∀ m, get (set m o) = m) (setSet : set (source.map fun _ => g) o = o₁) (start : get o = ∅)
    (same : source.size ≤ maxRequestSize → ∀ pd, k (Int32.ofNat source.size) (o, pd) =
      DecodeInto.part get set (DecodeInto.rounds round source.size) (o, pd))
    (negative : ∀ count : Int32, count < 0 → ∀ pd o' pd', k count (o, pd) = .ok () (o', pd') → get o' = ∅) :
    Exact strict flexible (putArrayLength (Int32.ofNat source.size) >>= fun _ => order.forM put)
      (readOr spoil getCount >>= k) o o₁
      (fun o => get o ≠ source.map fun _ => g) (MapReadable flexible good source) 1 := by
  have loop := Exact.rounds perm each grows
  rw [← start] at loop
  apply (Exact.countedAt follows checks (loop.part getSet) (Nat.le_refl _) same _).conclude setSet Iff.rfl (Nat.le_refl _)
  intro count below some_ pd o' pd' run
  rw [negative count below pd o' pd' run]
  exact map_ne_empty g some_

/-- A member is a map, which is cleared and then filled behind the number of its entries. -/
theorem Exact.mapMemberBy (follows : EStateM.Extends getArrayLength getCount)
    (checks : strict = true → getCount = getArrayLength) (perm : order.Perm source.toList)
    (each : ∀ k v (m : ExtTreeMap κ ν), m[k]? = none →
      Exact strict flexible (put (k, v)) round m (m.insert k (g v)) (Misread k (g v)) (good v) 1)
    (grows : ∀ m pd m' pd', round (m, pd) = .ok () (m', pd') → ExtTreeMap.GrewBy m m' 1)
    (getSet : ∀ m, get (set m o) = m) (setSet : set (source.map fun _ => g) o = o₁) (start : set ∅ o = o) :
    Exact strict flexible (putArrayLength (Int32.ofNat source.size) >>= fun _ => order.forM put)
      (readOr spoil getCount >>= fun n => update (set ∅) >>= fun _ => DecodeInto.part get set
        (DecodeInto.rounds round n.toInt.toNat))
      o o₁ (fun o => get o ≠ source.map fun _ => g) (MapReadable flexible good source) 1 := by
  have empty : get o = ∅ := by rw [← start, getSet]
  have cleared (n : ℕ) (pd : PacketDecoder) :
      (update (set ∅) >>= fun _ => DecodeInto.part get set (DecodeInto.rounds round n)) (o, pd) =
        DecodeInto.part get set (DecodeInto.rounds round n) (o, pd) := by
    rw [EStateM.bind_of_ok (update_of_same start pd)]
  apply Exact.mapMemberOf get set follows checks perm each grows getSet setSet empty
  · intro small pd
    rw [cleared, int32_ofNat_loop small]
  · intro count negative pd o' pd' run
    rw [cleared, rounds_of_neg negative] at run
    obtain ⟨m, inner, rfl⟩ := part_eq_ok_iff.mp run
    rw [empty] at inner
    cases inner
    exact getSet ∅

theorem Exact.mapMember (perm : order.Perm source.toList) (each : ∀ k v (m : ExtTreeMap κ ν), m[k]? = none →
      Exact strict flexible (put (k, v)) round m (m.insert k (g v)) (Misread k (g v)) (good v) 1)
    (grows : ∀ m pd m' pd', round (m, pd) = .ok () (m', pd') → ExtTreeMap.GrewBy m m' 1)
    (getSet : ∀ m, get (set m o) = m) (setSet : set (source.map fun _ => g) o = o₁) (start : set ∅ o = o) :
    Exact strict flexible (putArrayLength (Int32.ofNat source.size) >>= fun _ => order.forM put)
      (readOr spoil getArrayLength >>= fun n => update (set ∅) >>= fun _ => DecodeInto.part get set
        (DecodeInto.rounds round n.toInt.toNat))
      o o₁ (fun o => get o ≠ source.map fun _ => g) (MapReadable flexible good source) 1 :=
  Exact.mapMemberBy (.refl _) (fun _ => rfl) perm each grows getSet setSet start

/-- A member is a hash table, in which room is reserved before it is filled. -/
theorem Exact.tableMember (perm : order.Perm source.toList) (each : ∀ k v (m : ExtTreeMap κ ν), m[k]? = none →
      Exact strict flexible (put (k, v)) round m (m.insert k (g v)) (Misread k (g v)) (good v) 1)
    (grows : ∀ m pd m' pd', round (m, pd) = .ok () (m', pd') → ExtTreeMap.GrewBy m m' 1)
    (getSet : ∀ m, get (set m o) = m) (setSet : set (source.map fun _ => g) o = o₁) (start : set ∅ o = o) :
    Exact strict flexible (putArrayLength (Int32.ofNat source.size) >>= fun _ => order.forM put)
      (readOr spoil getArrayLength >>= fun n => update (set ∅) >>= fun _ => reserve n >>= fun _ =>
        DecodeInto.part get set (DecodeInto.rounds round n.toInt.toNat))
      o o₁ (fun o => get o ≠ source.map fun _ => g) (MapReadable flexible good source) 1 := by
  have empty : get o = ∅ := by rw [← start, getSet]
  apply Exact.mapMemberOf get set (.refl _) (fun _ => rfl) perm each grows getSet setSet empty
  · intro small pd
    rw [EStateM.bind_of_ok (update_of_same start pd), reserve, if_neg (int32_ofNat_not_neg small), int32_ofNat_loop small]
    rfl
  · intro count negative pd o' pd' run
    rw [EStateM.bind_of_ok (update_of_same start pd), reserve, if_pos negative] at run
    cases run

omit [Std.TransOrd κ] [Std.LawfulEqOrd κ] in
theorem keeps_tableMember {f : σ → τ} (keeps : ∀ m o, f (set m o) = f o) :
    Keeps f (readOr spoil getArrayLength >>= fun n => update (set ∅) >>= fun _ => reserve n >>= fun _ =>
      DecodeInto.part get set (DecodeInto.rounds round n.toInt.toNat)) := by
  apply (Keeps.readOr _ _).bind
  intro n
  apply Keeps.seq
  · exact Keeps.update (keeps ∅)
  apply Keeps.seq
  · rw [reserve]
    split
    · rintro o pd u o' pd' ⟨⟩
    · exact Keeps.pure ()
  exact Keeps.part keeps

omit [Std.TransOrd κ] [Std.LawfulEqOrd κ] in
/-- What a member that is a map is filled by leaves other members alone. -/
theorem keeps_mapMember {f : σ → τ} (keeps : ∀ m o, f (set m o) = f o) :
    Keeps f (readOr spoil getCount >>= fun n => update (set ∅) >>= fun _ =>
      DecodeInto.part get set (DecodeInto.rounds round n.toInt.toNat)) := by
  apply (Keeps.readOr _ _).bind
  intro n
  apply (Keeps.update (keeps ∅)).bind
  intro _
  exact Keeps.part keeps

end Maps

/-! ## Whole bodies -/

/-- A body is decoded to what it should be exactly where it is good. -/
theorem Exact.decodeVersion_iff {bytes : Bytes} (exact_ : Exact strict flexible put x o o₁ bad good least)
    (positive : 0 < least)
    (encoded : encodeBody flexible put = .ok bytes) : decodeVersion flexible x bytes o = .ok () o₁ ↔ good := by
  constructor
  · intro decoded
    by_contra notGood
    exact exact_.right ((exact_.spoils notGood).of_decodeVersion positive encoded decoded)
  · intro isGood
    exact (exact_.carries isGood).decodeVersion_eq_ok positive encoded

/-- A body is decoded to another object only where that is no other one. -/
theorem Exact.decodeVersion_iff_and {bytes : Bytes} (exact_ : Exact strict flexible put x o o₁ bad good least)
    (positive : 0 < least)
    (encoded : encodeBody flexible put = .ok bytes) (only : ∀ pd pd', x (o, pd) = .ok () (o₂, pd') → o₁ = o₂) :
    decodeVersion flexible x bytes o = .ok () o₂ ↔ good ∧ o₁ = o₂ := by
  constructor
  · intro decoded
    have same : o₁ = o₂ := by
      obtain ⟨output, writes, each⟩ := exact_.sized
      obtain ⟨rfl, -⟩ := (encodeBody_eq_ok_iff writes).mp encoded
      have some_ : ¬ bytes.isEmpty := by
        rw [List.isEmpty_iff]
        rintro rfl
        exact absurd (each [] rfl) (Nat.not_le_of_lt positive)
      rw [decodeVersion, if_neg some_] at decoded
      rcases run : x (o, { raw := bytes, flexible := if flexible then 1 else 0 }) with ⟨u, o', pd'⟩ | ⟨e, o', pd'⟩
      · rw [run] at decoded
        dsimp only at decoded
        split at decoded
        · cases decoded
        · cases decoded
          exact only _ _ run
      · rw [run] at decoded
        cases decoded
    subst same
    exact ⟨(exact_.decodeVersion_iff positive encoded).mp decoded, rfl⟩
  · rintro ⟨isGood, rfl⟩
    exact (exact_.decodeVersion_iff positive encoded).mpr isGood

end Coev.Kafka
