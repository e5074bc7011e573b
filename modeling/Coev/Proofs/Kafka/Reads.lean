import Coev.Model.Kafka.PacketDecoder
import Coev.Proofs.Kafka.PutOperations
import Mathlib.Data.Nat.Bitwise

/-! # What a decoder reads

`Reads` says that a decoder standing in front of given bytes returns a given value and moves past
exactly those bytes, whatever follows them; `ReadsInto` says it of the decoder of an object in place.
Both compose along sequencing, so what a decoder makes of the output of an encoder is put together
from its reads. `Consumes` bounds from below what any successful read moves past.
-/

namespace Coev.Kafka.PacketDecoder

open ByteString DecodeInto Leb128
open PacketEncoder (variantBytesLength)

variable {α β σ τ : Type} {flexible : Bool}
variable {pd pd' : PacketDecoder} {x : DecodeInto σ α} {bytes : Bytes} {a : α} {o o' : σ} {k : α → DecodeInto σ β}
  {get : Decode α} {f : α → σ → σ} {err : KError}

/-- The reader is in the flexible mode exactly inside a flexible body. -/
def InMode (flexible : Bool) (pd : PacketDecoder) : Prop := pd.flexible = 0 ↔ flexible = false

/-- In front of `bytes`, `get` returns `a` and moves past them. -/
def Reads (flexible : Bool) (get : Decode α) (bytes : Bytes) (a : α) : Prop :=
  ∀ pd rest, InMode flexible pd → pd.unread = bytes ++ rest →
    get pd = .ok a (pd.advance bytes.length)

/-- In front of `bytes`, `x` turns the object `o` into `o'`, returns `a` and moves past them. -/
def ReadsInto (flexible : Bool) (x : DecodeInto σ α) (bytes : Bytes) (o o' : σ) (a : α) : Prop :=
  ∀ pd rest, InMode flexible pd → pd.unread = bytes ++ rest →
    x (o, pd) = .ok a (o', pd.advance bytes.length)

theorem InMode.advance {pd : PacketDecoder} (mode : InMode flexible pd) (n : ℕ) : InMode flexible (pd.advance n) :=
  mode

theorem advance_advance (pd : PacketDecoder) (m n : ℕ) : (pd.advance m).advance n = pd.advance (m + n) := by
  simp only [advance, Nat.add_assoc]

theorem unread_advance {pd : PacketDecoder} {bytes rest : Bytes} (ahead : pd.unread = bytes ++ rest) :
    (pd.advance bytes.length).unread = rest := by
  unfold unread at ahead
  rw [unread, advance, ← List.drop_drop, ahead, List.drop_left]

theorem remaining_eq (pd : PacketDecoder) : pd.remaining = pd.unread.length := by
  rw [remaining, unread, List.length_drop]

/-! ## Sequencing -/

theorem Reads.pure (a : α) : Reads flexible (pure a) [] a := fun _ _ _ _ => rfl

theorem Reads.bind {x : Decode α} {k : α → Decode β} {bytes rest : Bytes} {b : β} (first : Reads flexible x bytes a)
    (next : Reads flexible (k a) rest b) : Reads flexible (x >>= k) (bytes ++ rest) b := by
  intro pd tail mode ahead
  rw [List.append_assoc] at ahead
  refine (EStateM.bind_of_ok (first pd _ mode ahead) k).trans ?_
  refine (next _ tail (mode.advance _) (unread_advance ahead)).trans ?_
  rw [List.length_append, advance_advance]

theorem ReadsInto.pure (o : σ) (a : α) : ReadsInto flexible (pure a) [] o o a := fun _ _ _ _ => rfl

theorem ReadsInto.bind {bytes rest : Bytes} {o o' o'' : σ} {b : β} (first : ReadsInto flexible x bytes o o' a)
    (next : ReadsInto flexible (k a) rest o' o'' b) : ReadsInto flexible (x >>= k) (bytes ++ rest) o o'' b := by
  intro pd tail mode ahead
  rw [List.append_assoc] at ahead
  refine (EStateM.bind_of_ok (first pd _ mode ahead) k).trans ?_
  refine (next _ tail (mode.advance _) (unread_advance ahead)).trans ?_
  rw [List.length_append, advance_advance]

theorem Reads.map {x : Decode α} (reads : Reads flexible x bytes a) (f : α → β) :
    Reads flexible (do return f (← x)) bytes (f a) := by
  have both := reads.bind (k := fun a => Pure.pure (f a)) (Reads.pure (f a))
  rwa [List.append_nil] at both

theorem Reads.readOr (reads : Reads flexible get bytes a) (spoil : σ → σ) (o : σ) :
    ReadsInto flexible (readOr spoil get) bytes o o a := by
  intro pd rest mode ahead
  simp only [DecodeInto.readOr, reads pd rest mode ahead]

theorem Reads.read (reads : Reads flexible get bytes a) (o : σ) :
    ReadsInto flexible (read get) bytes o o a := reads.readOr id o

theorem readsInto_update (f : σ → σ) (o : σ) : ReadsInto flexible (update f) [] o (f o) () := fun _ _ _ _ => rfl

theorem Reads.failWith {x : Decode α} (reads : Reads flexible x bytes a) : Reads flexible (failWith err x) bytes a :=
  fun pd rest mode ahead => failWith_of_ok (reads pd rest mode ahead)

theorem ReadsInto.failWith (reads : ReadsInto flexible x bytes o o' a) :
    ReadsInto flexible (failWith err x) bytes o o' a :=
  fun pd rest mode ahead => failWith_of_ok (reads pd rest mode ahead)

theorem ReadsInto.ignoreCode {a spoiled : α} (reads : ReadsInto flexible x bytes o o' a) :
    ReadsInto flexible (ignoreCode spoiled x) bytes o o' a :=
  fun pd rest mode ahead => ignoreCode_of_ok (reads pd rest mode ahead)

theorem ReadsInto.of_eq {bytes bytes' : Bytes} (reads : ReadsInto flexible x bytes o o' a) (eq : bytes = bytes') :
    ReadsInto flexible x bytes' o o' a := eq ▸ reads

/-- Read a value, store it in the object and go on. -/
theorem ReadsInto.store {bytes rest : Bytes} {o o' o'' : σ} {b : β} (first : ReadsInto flexible x bytes o o' a)
    (next : ReadsInto flexible (k a) rest (f a o') o'' b) :
    ReadsInto flexible (x >>= fun a => update (f a) >>= fun _ => k a) (bytes ++ rest) o o'' b :=
  first.bind (k := fun a => update (f a) >>= fun _ => k a) ((readsInto_update (f a) o').bind next)

/-- The rest of a computation goes on behind what was read. -/
theorem ReadsInto.andThen {bytes rest : Bytes} (first : ReadsInto flexible x bytes o o' a) {pd : PacketDecoder}
    (ahead : pd.unread = bytes ++ rest) (mode : InMode flexible pd) :
    (x >>= k) (o, pd) = k a (o', pd.advance bytes.length) :=
  EStateM.bind_of_ok (first pd rest mode ahead) k

/-- Read a value and store it in the object. -/
theorem ReadsInto.storeLast (reads : ReadsInto flexible x bytes o o' a) :
    ReadsInto flexible (x >>= fun a => update (f a)) bytes o (f a o') () := by
  have both := reads.bind (k := fun a => update (f a)) (readsInto_update (f a) o')
  rwa [List.append_nil] at both

/-- Read a value, store it in the object and return. -/
theorem ReadsInto.storeReturn {g : α → β} (reads : ReadsInto flexible x bytes o o' a) :
    ReadsInto flexible (x >>= fun a => update (f a) >>= fun _ => Pure.pure (g a)) bytes o (f a o') (g a) :=
  (reads.store (k := fun a => Pure.pure (g a)) (ReadsInto.pure _ _)).of_eq (List.append_nil _)

theorem ReadsInto.part {x : DecodeInto τ α} {get : σ → τ} {set : τ → σ → σ} {o : σ} {t : τ}
    (reads : ReadsInto flexible x bytes (get o) t a) : ReadsInto flexible (part get set x) bytes o (set t o) a := by
  intro pd rest mode ahead
  simp only [DecodeInto.part, reads pd rest mode ahead]

/-- Elements are read one after the other. -/
theorem ReadsInto.each {x : DecodeInto σ Unit} {f : τ → Bytes} {g : τ → σ} {ts : List τ}
    (reads : ∀ t ∈ ts, ∀ o, ReadsInto flexible x (f t) o (g t) ()) {os : List σ} (length : os.length = ts.length) :
    ReadsInto flexible (fun (os, pd) => each x os pd) (ts.flatMap f) os (ts.map g) () := by
  induction ts generalizing os with
  | nil =>
    intro pd rest mode ahead
    obtain rfl : os = [] := List.eq_nil_of_length_eq_zero length
    rfl
  | cons t ts ih =>
    obtain ⟨o, os, rfl⟩ : ∃ o os', os = o :: os' := List.exists_cons_of_length_eq_add_one length
    intro pd rest mode ahead
    rw [List.flatMap_cons, List.append_assoc] at ahead
    have first := reads t (List.mem_cons_self ..) o pd _ mode ahead
    have others := ih (fun t member => reads t (List.mem_cons_of_mem _ member)) (Nat.succ.inj length)
      _ rest (mode.advance _) (unread_advance ahead)
    dsimp only at others
    simp only [DecodeInto.each, first, others, List.flatMap_cons, List.map_cons, List.length_append, advance_advance]

/-! ## Fixed-size values -/

theorem reads_take (bytes : Bytes) : Reads flexible (take bytes.length) bytes bytes := by
  intro pd rest mode ahead
  have enough : ¬ pd.remaining < bytes.length := by
    rw [remaining_eq, ahead, List.length_append]; omega
  simp only [take, enough, if_false, ahead, List.take_left]

theorem reads_value (w n : ℕ) {α : Type} (f : ℕ → α) :
    Reads flexible (do return f (value (← take w))) (bigEndian w n) (f (n % 256 ^ w)) := by
  have reads := @reads_take flexible (bigEndian w n)
  rw [length_bigEndian] at reads
  have mapped := reads.map fun bytes => f (value bytes)
  rwa [value_bigEndian] at mapped

theorem reads_getInt8 (x : Int8) : Reads flexible getInt8 (bigEndian 1 x.toUInt8.toNat) x := by
  have same : Int8.ofNat (x.toUInt8.toNat % 256 ^ 1) = x := Int8.toBitVec_inj.mp (by simp [Int8.toBitVec_ofNat'])
  have reads := @reads_value flexible 1 x.toUInt8.toNat _ Int8.ofNat
  rwa [same] at reads

theorem reads_getInt16 (x : Int16) : Reads flexible getInt16 (bigEndian 2 x.toUInt16.toNat) x := by
  have same : Int16.ofNat (x.toUInt16.toNat % 256 ^ 2) = x := Int16.toBitVec_inj.mp (by simp [Int16.toBitVec_ofNat'])
  have reads := @reads_value flexible 2 x.toUInt16.toNat _ Int16.ofNat
  rwa [same] at reads

theorem reads_getInt32 (x : Int32) : Reads flexible getInt32 (bigEndian 4 x.toUInt32.toNat) x := by
  have same : Int32.ofNat (x.toUInt32.toNat % 256 ^ 4) = x := Int32.toBitVec_inj.mp (by simp [Int32.toBitVec_ofNat'])
  have reads := @reads_value flexible 4 x.toUInt32.toNat _ Int32.ofNat
  rwa [same] at reads

theorem reads_getInt64 (x : Int64) : Reads flexible getInt64 (bigEndian 8 x.toUInt64.toNat) x := by
  have same : Int64.ofNat (x.toUInt64.toNat % 256 ^ 8) = x := Int64.toBitVec_inj.mp (by simp [Int64.toBitVec_ofNat'])
  have reads := @reads_value flexible 8 x.toUInt64.toNat _ Int64.ofNat
  rwa [same] at reads

/-! ## Variable-length integers -/

/-- Appending a seven-bit group above an accumulator. -/
theorem toNat_or_group {acc : UInt64} {b : UInt8} {i : ℕ} (round : i ≤ 9) (below : acc.toNat < 2 ^ (7 * i))
    (inside : (b &&& 0x7F).toNat * 2 ^ (7 * i) < 2 ^ 64) :
    (acc ||| (b &&& 0x7F).toUInt64 <<< UInt64.ofNat (7 * i)).toNat = acc.toNat + (b &&& 0x7F).toNat * 2 ^ (7 * i) := by
  have shift : (UInt64.ofNat (7 * i)).toNat = 7 * i := UInt64.toNat_ofNat_of_lt (by simp only [UInt64.size]; omega)
  have moved : ((b &&& 0x7F).toUInt64 <<< UInt64.ofNat (7 * i)).toNat = (b &&& 0x7F).toNat * 2 ^ (7 * i) := by
    rw [UInt64.toNat_shiftLeft, shift, Nat.mod_eq_of_lt (by omega : 7 * i < 64), Nat.shiftLeft_eq,
      UInt8.toNat_toUInt64, Nat.mod_eq_of_lt inside]
  rw [UInt64.toNat_or, moved, Nat.or_comm, Nat.mul_comm, ← Nat.two_pow_add_eq_or_of_lt below, Nat.add_comm]

/-- A group above an accumulator of `i` groups stays below the next power, whatever is shifted out. -/
theorem or_group_lt {acc : UInt64} {b : UInt8} {i : ℕ} (round : i ≤ 9) (below : acc.toNat < 2 ^ (7 * i)) :
    (acc ||| (b &&& 0x7F).toUInt64 <<< UInt64.ofNat (7 * i)).toNat < 2 ^ (7 * (i + 1)) := by
  have shift : (UInt64.ofNat (7 * i)).toNat = 7 * i := UInt64.toNat_ofNat_of_lt (by simp only [UInt64.size]; omega)
  have group : (b &&& 0x7F).toNat < 2 ^ 7 := by
    rw [UInt8.toNat_and]
    exact Nat.lt_of_le_of_lt Nat.and_le_right (by decide)
  have power : 2 ^ (7 * (i + 1)) = 2 ^ 7 * 2 ^ (7 * i) := by rw [← pow_add]; congr 1; omega
  rw [UInt64.toNat_or]
  refine Nat.or_lt_two_pow (below.trans_le (Nat.pow_le_pow_right (by omega) (by omega))) ?_
  rw [UInt64.toNat_shiftLeft, shift, Nat.mod_eq_of_lt (by omega : 7 * i < 64), Nat.shiftLeft_eq, UInt8.toNat_toUInt64, power]
  exact (Nat.mod_le _ _).trans_lt (Nat.mul_lt_mul_of_pos_right group (by positivity))

theorem toNat_group (b : UInt8) : (b &&& 0x7F).toNat = b.toNat % 128 := by
  rw [UInt8.toNat_and]
  exact Nat.and_two_pow_sub_one_eq_mod _ 7

/-- The top bit of a byte. -/
theorem and_top_eq_zero_iff (b : UInt8) : b &&& 0x80 = 0 ↔ b.toNat < 128 := by
  have bound := b.toNat_lt
  have top : b.toNat &&& 128 = b.toNat / 128 % 2 * 128 := by
    have bit := Nat.and_two_pow b.toNat 7
    rw [Nat.testBit_eq_decide_div_mod_eq] at bit
    rcases Nat.mod_two_eq_zero_or_one (b.toNat / 128) with zero | one
    · simpa [zero] using bit
    · simpa [one] using bit
  rw [← UInt8.toNat_inj, UInt8.toNat_and]
  change b.toNat &&& 128 = 0 ↔ _
  rw [top]
  omega

/-- Nine groups leave the highest bit of the accumulator clear, and a tenth sets it. -/
theorem and_overflow_ne_zero {ux : UInt64} (large : 2 ^ 63 ≤ ux.toNat) : ux &&& 0xFE00000000000000 ≠ 0 := by
  intro zero
  have bits := congrArg (fun x : UInt64 => x.toNat.testBit 63) zero
  simp only [UInt64.toNat_and, Nat.testBit_and] at bits
  have top : ux.toNat.testBit 63 = true := by
    have bound := ux.toNat_lt
    have one : ux.toNat / 2 ^ 63 % 2 = 1 := by omega
    rw [Nat.testBit_eq_decide_div_mod_eq, decide_eq_true one]
  rw [top] at bits
  exact absurd bits (by decide)

/-- The loop over the groups of `n` above an accumulator of `i` groups. -/
theorem getVariantLoop_encode {i fuel n : ℕ} {acc : UInt64} {pd : PacketDecoder} {rest : Bytes}
    (rounds : i + fuel = 10) (below : acc.toNat < 2 ^ (7 * i)) (total : acc.toNat + n * 2 ^ (7 * i) < 2 ^ 64)
    (canonical : 0 < i → 0 < n) (ahead : pd.unread = Leb128.encode n ++ rest) :
    if acc.toNat + n * 2 ^ (7 * i) < 2 ^ 63 then getVariantLoop fuel acc pd =
        .ok (zigzagDecode (UInt64.ofNat (acc.toNat + n * 2 ^ (7 * i)))) (pd.advance (Leb128.encode n).length)
    else ∃ s, getVariantLoop fuel acc pd = .error (.code ErrVariantOverflow) s := by
  induction fuel generalizing i n acc pd with
  | zero =>
    have positive := canonical (by omega)
    obtain rfl : i = 10 := by omega
    omega
  | succ fuel ih =>
    have shift : 9 - fuel = i := by omega
    by_cases small : n < 128
    · have value : (UInt8.ofNat n).toNat = n := by simp; omega
      have group : (UInt8.ofNat n &&& 0x7F).toNat = n := by rw [toNat_group, value]; omega
      have top := (and_top_eq_zero_iff (UInt8.ofNat n)).mpr (by omega)
      have sum := toNat_or_group (b := UInt8.ofNat n) (by omega : i ≤ 9) below (by rw [group]; omega)
      rw [group] at sum
      rw [encode_of_lt small, List.singleton_append] at ahead
      rw [encode_of_lt small]
      simp only [getVariantLoop, ahead, shift, top, if_true]
      split
      · next fits =>
        have more : fuel ≠ 0 := by
          rintro rfl
          obtain rfl : i = 9 := by omega
          have positive := canonical (by omega)
          omega
        rw [if_neg fun both => more both.1, ← sum, UInt64.ofNat_toNat]
        rfl
      · next large =>
        have last : i = 9 := by
          by_contra early
          have power : 2 ^ (7 * i) * 128 ≤ 2 ^ 63 := by
            calc 2 ^ (7 * i) * 128 = 2 ^ (7 * i + 7) := (pow_add 2 (7 * i) 7).symm
              _ ≤ 2 ^ 63 := Nat.pow_le_pow_right (by omega) (by omega)
          have digit : n * 2 ^ (7 * i) ≤ 127 * 2 ^ (7 * i) := Nat.mul_le_mul_right _ (by omega)
          omega
        have empty : fuel = 0 := by omega
        have overflow := and_overflow_ne_zero (by rw [sum]; omega :
          2 ^ 63 ≤ (acc ||| (UInt8.ofNat n &&& 0x7F).toUInt64 <<< UInt64.ofNat (7 * i)).toNat)
        exact ⟨_, if_pos ⟨empty, .inl overflow⟩⟩
    · have large : 128 ≤ n := by omega
      have value : (UInt8.ofNat (n % 128 + 128)).toNat = n % 128 + 128 := by simp; omega
      have group : (UInt8.ofNat (n % 128 + 128) &&& 0x7F).toNat = n % 128 := by rw [toNat_group, value]; omega
      have top : UInt8.ofNat (n % 128 + 128) &&& 0x80 ≠ 0 := by rw [Ne, and_top_eq_zero_iff]; omega
      have power : 2 ^ (7 * (i + 1)) = 128 * 2 ^ (7 * i) := by
        rw [Nat.mul_succ, pow_add, Nat.mul_comm]
        norm_num
      have digits : n * 2 ^ (7 * i) = n % 128 * 2 ^ (7 * i) + n / 128 * 2 ^ (7 * (i + 1)) := by
        rw [power, ← Nat.mul_assoc, ← Nat.add_mul]
        congr 1
        omega
      have sum := toNat_or_group (b := UInt8.ofNat (n % 128 + 128)) (by omega : i ≤ 9) below
        (by rw [group]; omega)
      have below' := or_group_lt (b := UInt8.ofNat (n % 128 + 128)) (by omega : i ≤ 9) below
      rw [group] at sum
      rw [encode_of_le large, List.cons_append] at ahead
      rw [encode_of_le large, List.length_cons]
      have tail : (pd.advance 1).unread = Leb128.encode (n / 128) ++ rest := @unread_advance pd [_] _ ahead
      have step := ih (i := i + 1) (n := n / 128) (by omega) below' (by rw [sum]; omega) (fun _ => by omega) tail
      rw [sum, Nat.add_assoc, ← digits] at step
      simp only [getVariantLoop, ahead, shift, top, if_false]
      rw [advance_advance, Nat.add_comm 1] at step
      exact step

/-- The window of values whose varint a decoder accepts: those of at most nine bytes. -/
def VarintReadable (x : ℤ) : Prop := -2 ^ 62 ≤ x ∧ x < 2 ^ 62
deriving Decidable

theorem varintReadable_iff (x : ℤ) : VarintReadable x ↔ zigzag x < 2 ^ 63 := by
  have window := zigzag_lt_two_mul_iff x (2 ^ 62)
  norm_num at window
  simp only [VarintReadable]
  norm_num
  exact window.symm

/-- Whatever the loop returns is in the window, and its zigzag value fits in the groups it moved past. -/
theorem getVariantLoop_ok {i fuel : ℕ} {acc : UInt64} {pd pd' : PacketDecoder} {x : Int64}
    (rounds : i + fuel = 10) (below : acc.toNat < 2 ^ (7 * i)) (run : getVariantLoop fuel acc pd = .ok x pd') :
    VarintReadable x.toInt ∧
      ∃ k, 0 < k ∧ pd' = pd.advance k ∧ zigzag x.toInt < 2 ^ (7 * (i + k)) ∧ k ≤ pd.remaining := by
  induction fuel generalizing i acc pd with
  | zero => cases run
  | succ fuel ih =>
    have shift : 9 - fuel = i := by omega
    cases ahead : pd.unread with
    | nil => simp only [getVariantLoop, ahead, insufficient] at run; cases run
    | cons b tail =>
      have room : (pd.advance 1).remaining + 1 = pd.remaining := by
        have tail' : (pd.advance 1).unread = tail := @unread_advance pd [b] _ ahead
        rw [remaining_eq, remaining_eq, tail', ahead, List.length_cons]
      have below' := or_group_lt (b := b) (by omega : i ≤ 9) below
      simp only [getVariantLoop, ahead, shift] at run
      split_ifs at run with last overflow
      · injection run with same moved
        rw [← same, varintReadable_iff, zigzag_zigzagDecode]
        refine ⟨?_, 1, Nat.one_pos, moved.symm, below', by omega⟩
        by_contra large
        rcases Nat.eq_zero_or_pos fuel with zero | more
        · exact overflow ⟨zero, .inl (and_overflow_ne_zero (not_lt.mp large))⟩
        · exact large (below'.trans_le (Nat.pow_le_pow_right (by omega) (by omega)))
      · obtain ⟨readable, k, -, moved, small, le⟩ := ih (i := i + 1) (by omega) below' run
        refine ⟨readable, 1 + k, by omega, by rw [moved, advance_advance], ?_, by omega⟩
        rwa [← Nat.add_assoc]

private theorem getVariant_encode {x : Int64} {pd : PacketDecoder} {rest : Bytes}
    (ahead : pd.unread = encodeVariant x ++ rest) :
    if VarintReadable x.toInt then getVariant pd = .ok x (pd.advance (encodeVariant x).length)
    else ∃ s, getVariant pd = .error (.code ErrVariantOverflow) s := by
  have word : zigzag x.toInt < 2 ^ 64 := by rw [← zigzagEncode_toNat]; exact (zigzagEncode x).toNat_lt
  have value : UInt64.ofNat (zigzag x.toInt) = zigzagEncode x := by rw [← zigzagEncode_toNat, UInt64.ofNat_toNat]
  have zero : (0 : UInt64).toNat = 0 := rfl
  rw [encodeVariant_eq] at ahead ⊢
  have loop := @getVariantLoop_encode 0 10 _ 0 _ _ (Nat.zero_add 10) (by decide)
    (by rw [zero]; omega) (fun positive => absurd positive (by omega)) ahead
  simp only [zero, Nat.mul_zero, pow_zero, Nat.mul_one, Nat.zero_add, value, zigzagDecode_zigzagEncode] at loop
  simpa only [varintReadable_iff, getVariant] using loop

/-- A varint of at most nine bytes is read back. -/
theorem reads_getVariant {x : Int64} (readable : VarintReadable x.toInt) :
    Reads flexible getVariant (encodeVariant x) x := by
  intro pd rest _ ahead
  have read := getVariant_encode ahead
  rwa [if_pos readable] at read

/-- A varint of ten bytes is refused. -/
theorem getVariant_of_unreadable {x : Int64} (unreadable : ¬ VarintReadable x.toInt) {pd : PacketDecoder}
    {rest : Bytes} (ahead : pd.unread = encodeVariant x ++ rest) :
    ∃ s, getVariant pd = .error (.code ErrVariantOverflow) s := by
  have read := getVariant_encode ahead
  rwa [if_neg unreadable] at read

/-- A successful read of a varint moves past at least its shortest encoding. -/
theorem getVariant_consumes {x : Int64} (run : getVariant pd = .ok x pd') :
    VarintReadable x.toInt ∧ ∃ k, pd' = pd.advance k ∧ size (zigzag x.toInt) ≤ k ∧ k ≤ pd.remaining := by
  obtain ⟨readable, k, positive, moved, small, le⟩ := @getVariantLoop_ok 0 10 0 _ _ _ (Nat.zero_add 10) (by decide) run
  rw [Nat.zero_add, pow_mul] at small
  exact ⟨readable, k, moved, (size_le_iff positive _).mpr small, le⟩

/-! ## Byte strings -/

theorem take_consumes {n : ℕ} (run : take n pd = .ok bytes pd') :
    pd' = pd.advance n ∧ bytes.length = n ∧ n ≤ pd.remaining := by
  unfold take at run
  split at run
  · cases run
  · next enough =>
    injection run with same moved
    refine ⟨moved.symm, ?_, by omega⟩
    rw [← same, List.length_take, ← remaining_eq]
    omega

theorem reads_getRawBytes {s : Bytes} (small : s.length ≤ int32Max) :
    Reads flexible (getRawBytes (Int32.ofNat s.length)) s s := by
  have value : (Int32.ofNat s.length).toInt = s.length :=
    Int32.toInt_ofNat_of_lt (by simp only [int32Max] at small; omega)
  have nonneg : ¬ Int32.ofNat s.length < 0 := by
    rw [Int32.lt_iff_toInt_lt, value]
    exact not_lt.mpr (Int.natCast_nonneg _)
  rw [getRawBytes, if_neg nonneg, value, Int.toNat_natCast]
  exact reads_take s

theorem getRawBytes_consumes {length : Int32} {s : Bytes} (run : getRawBytes length pd = .ok s pd') :
    pd' = pd.advance s.length ∧ (s.length : ℤ) = length.toInt ∧ s.length ≤ pd.remaining := by
  unfold getRawBytes at run
  split at run
  · cases run
  · next nonneg =>
    rw [Int32.lt_iff_toInt_lt, not_lt] at nonneg
    obtain ⟨moved, same, le⟩ := take_consumes run
    have zero : (0 : Int32).toInt = 0 := rfl
    rw [same]
    exact ⟨moved, by omega, le⟩

theorem reads_getVariantBytes {s : Bytes} (small : s.length ≤ int32Max) :
    Reads flexible getVariantBytes (encodeVariant (variantBytesLength s) ++ s) s := by
  have bound : s.length < 2 ^ 63 := by simp only [int32Max] at small; omega
  unfold variantBytesLength
  cases s with
  | nil =>
    have readable : VarintReadable (-1 : Int64).toInt := by decide
    exact (reads_getVariant readable).bind (Reads.pure [])
  | cons b s =>
    have value : (Int64.ofNat (b :: s).length).toInt = (b :: s).length := Int64.toInt_ofNat_of_lt bound
    have readable : VarintReadable (Int64.ofNat (b :: s).length).toInt := by
      rw [value]
      simp only [VarintReadable, int32Max] at small ⊢
      omega
    have present : Int64.ofNat (b :: s).length ≠ -1 := by
      intro minus
      have := congrArg Int64.toInt minus
      rw [value] at this
      have minusOne : (-1 : Int64).toInt = -1 := rfl
      omega
    refine (reads_getVariant readable).bind ?_
    rw [if_neg present, Int64.toInt32_ofNat']
    exact reads_getRawBytes small

/-- The size of a byte string behind its varint length. -/
def variantBytesSize (s : Bytes) : ℕ := size (zigzag (variantBytesLength s).toInt) + s.length

/-- A length cut down to 32 bits is no longer than the one read. -/
private theorem zigzag_toInt32_le {tmp : Int64} {n : ℕ} (same : (n : ℤ) = tmp.toInt32.toInt) :
    zigzag n ≤ zigzag tmp.toInt := by
  have wrapped : tmp.toInt32.toInt = tmp.toInt.bmod (2 ^ 32) := Int64.toInt_toInt32 tmp
  have bound := tmp.toInt32.toInt_lt
  rw [Int.bmod_def] at wrapped
  unfold zigzag
  split_ifs at * <;> omega

theorem getVariantBytes_consumes {s : Bytes} (run : getVariantBytes pd = .ok s pd') :
    ∃ k, pd' = pd.advance k ∧ variantBytesSize s ≤ k ∧ k ≤ pd.remaining := by
  obtain ⟨tmp, middle, length, rest⟩ := EStateM.bind_eq_ok_iff.mp run
  obtain ⟨-, k, rfl, le, room⟩ := getVariant_consumes length
  have positive := size_pos (zigzag tmp.toInt)
  by_cases absent : tmp = -1
  · rw [if_pos absent] at rest
    obtain ⟨rfl, rfl⟩ := EStateM.pure_eq_ok_iff.mp rest
    have short : variantBytesSize [] = 1 := by decide
    exact ⟨k, rfl, by omega, room⟩
  · rw [if_neg absent] at rest
    obtain ⟨moved, same, enough⟩ := getRawBytes_consumes rest
    refine ⟨k + s.length, by rw [moved, advance_advance], ?_, ?_⟩
    · rw [variantBytesSize, Nat.add_le_add_iff_right]
      cases s with
      | nil => exact (by decide : size (zigzag (variantBytesLength []).toInt) = 1).trans_le (by omega)
      | cons b s =>
        have bound := tmp.toInt32.toInt_lt
        have value : (Int64.ofNat (b :: s).length).toInt = (b :: s).length := Int64.toInt_ofNat_of_lt (by omega)
        rw [variantBytesLength, List.isEmpty_cons, if_neg Bool.false_ne_true, value]
        exact (size_mono (zigzag_toInt32_le same)).trans le
    · simp only [remaining, advance] at enough room ⊢
      omega

/-! ## Pushed fields -/

theorem push_variantLength {length : Int64} (field : VariantLengthField) (run : getVariant pd = .ok length pd') :
    push (.variantLength field) pd =
      .ok (.variantLength ⟨length⟩) { pd' with stack := ⟨pd.offset, .variantLength ⟨length⟩⟩ :: pd'.stack } :=
  EStateM.bind_of_ok run _

theorem push_crc32 {pd : PacketDecoder} (field : Crc32Field) (room : 4 ≤ pd.remaining) : push (.crc32 field) pd =
      .ok (.crc32 field) { pd.advance 4 with stack := ⟨pd.offset, .crc32 field⟩ :: pd.stack } := by
  simp only [push, if_neg (Nat.not_lt.mpr room)]
  rfl

/-- Past the end: every failed read of a fixed size leaves the reader there. -/
def atEnd (pd : PacketDecoder) : PacketDecoder := { pd with offset := pd.raw.length }

theorem push_crc32_of_short {pd : PacketDecoder} (field : Crc32Field) (short : pd.remaining < 4) :
    push (.crc32 field) pd = .error (.code ErrInsufficientData) pd.atEnd := by
  simp only [push, if_pos short, insufficient, atEnd]

/-- A pop whose code is dropped only shortens the stack when the field on top is a checksum. -/
theorem ignoreCode_pop_crc32 {pd : PacketDecoder} {start : ℕ} {field : Crc32Field} {stack : List Pushed} (o : σ)
    (top : pd.stack = ⟨start, .crc32 field⟩ :: stack) :
    ignoreCode () (read pop) (o, pd) = .ok () (o, { pd with stack }) := by
  simp only [ignoreCode, DecodeInto.read, DecodeInto.readOr, pop, top, Pushed.check]
  split_ifs <;> rfl

theorem pop_of_check {pd : PacketDecoder} {entry : Pushed} {stack : List Pushed} (top : pd.stack = entry :: stack)
    (passes : entry.check pd.offset pd.raw = some 0) : pop pd = .ok () { pd with stack } := by
  simp only [pop, top, passes, if_true]

/-! ## Successful decoders of objects -/

theorem readOr_eq_ok_iff {spoil : σ → σ} :
    readOr spoil get (o, pd) = .ok a (o', pd') ↔ get pd = .ok a pd' ∧ o = o' := by
  unfold readOr
  dsimp only
  split
  · next run => rw [run]; simp; tauto
  · next run => rw [run]; simp

theorem read_eq_ok_iff : read get (o, pd) = .ok a (o', pd') ↔ get pd = .ok a pd' ∧ o = o' := readOr_eq_ok_iff

theorem readOr_of_error {spoil : σ → σ} {o : σ} {e : Failure} (run : get pd = .error e pd') :
    readOr spoil get (o, pd) = .error e (spoil o, pd') := by
  simp only [readOr, run]

theorem read_of_error {o : σ} {e : Failure} (run : get pd = .error e pd') :
    read get (o, pd) = .error e (o, pd') := readOr_of_error run

theorem update_eq_ok_iff {f : σ → σ} {u : Unit} : update f (o, pd) = .ok u (o', pd') ↔ f o = o' ∧ pd = pd' := by
  simp [update]

theorem part_eq_ok_iff {x : DecodeInto τ α} {get : σ → τ} {set : τ → σ → σ} :
    part get set x (o, pd) = .ok a (o', pd') ↔ ∃ t, x (get o, pd) = .ok a (t, pd') ∧ set t o = o' := by
  unfold part
  dsimp only
  split
  · next run => rw [run]; simp; tauto
  · next run => rw [run]; simp

theorem onObject_eq_ok_iff {x : EStateM Failure σ α} :
    onObject x (o, pd) = .ok a (o', pd') ↔ x o = .ok a o' ∧ pd = pd' := by
  unfold onObject
  dsimp only
  split
  · next run => rw [run]; simp; tauto
  · next run => rw [run]; simp

theorem onObject_eq_error_iff {x : EStateM Failure σ α} {e : Failure} :
    onObject x (o, pd) = .error e (o', pd') ↔ x o = .error e o' ∧ pd = pd' := by
  unfold onObject
  dsimp only
  split
  · next run => rw [run]; simp
  · next run => rw [run]; simp; tauto

/-- From a fresh object, and with offsets that are `int`s, a successful run of `x` leaves an object and
moves past a number of bytes related to it by `post`. -/
def Consumes (fresh : σ → Prop) (x : DecodeInto σ Unit) (post : σ → ℕ → Prop) : Prop :=
  ∀ o pd o' pd', fresh o → pd.raw.length ≤ int32Max → x (o, pd) = .ok () (o', pd') →
    ∃ k, pd' = pd.advance k ∧ post o' k ∧ k ≤ pd.remaining

theorem remaining_advance (pd : PacketDecoder) (k : ℕ) : (pd.advance k).remaining = pd.remaining - k := by
  simp only [remaining, advance]
  omega

variable {fresh : σ → Prop} {post : σ → ℕ → Prop}

theorem Consumes.failWith {x : DecodeInto σ Unit} (consumes : Consumes fresh x post) :
    Consumes fresh (failWith err x) post :=
  fun o pd o' pd' isFresh small run => consumes o pd o' pd' isFresh small (failWith_eq_ok_iff.mp run)

theorem Consumes.each {x : DecodeInto σ Unit} (consumes : Consumes fresh x post) {os os' : List σ}
    {pd pd' : PacketDecoder} (allFresh : ∀ o ∈ os, fresh o) (small : pd.raw.length ≤ int32Max)
    (run : each x os pd = .ok () (os', pd')) : os'.length = os.length ∧
      ∃ ks, List.Forall₂ post os' ks ∧ pd' = pd.advance ks.sum ∧ ks.sum ≤ pd.remaining := by
  induction os generalizing os' pd with
  | nil =>
    injection run with _ same
    injection same with objects moved
    subst objects moved
    exact ⟨rfl, [], .nil, rfl, Nat.zero_le _⟩
  | cons o os ih =>
    obtain ⟨isFresh, allFresh⟩ := List.forall_mem_cons.mp allFresh
    unfold DecodeInto.each at run
    split at run
    · cases run
    · next o' middle first =>
      split at run
      · cases run
      · next rest last others =>
        injection run with _ same
        injection same with objects moved
        subst objects moved
        obtain ⟨j, rfl, head, roomJ⟩ := consumes _ _ _ _ isFresh small first
        have smallRest : (pd.advance j).raw.length ≤ int32Max := small
        obtain ⟨length, ks, tail, rfl, roomK⟩ := ih allFresh smallRest others
        rw [remaining_advance] at roomK
        refine ⟨by rw [List.length_cons, List.length_cons, length], j :: ks, .cons head tail, ?_, ?_⟩
        · rw [advance_advance, List.sum_cons]
        · rw [List.sum_cons]
          omega

/-- What the objects cost is no more than what was moved past. -/
theorem sum_cost_le {cost : σ → ℕ} {os : List σ} {ks : List ℕ} (each : List.Forall₂ post os ks)
    (bound : ∀ o k, post o k → cost o ≤ k) : (os.map cost).sum ≤ ks.sum :=
  (List.forall₂_map_left_iff.mpr (each.imp bound)).sum_le_sum

/-! ## Independence of the object -/

/-- Whether `x` succeeds, what it returns and where it leaves the reader do not depend on the object. -/
def Uniform (x : DecodeInto σ α) : Prop :=
  ∀ o t pd a o' pd', x (o, pd) = .ok a (o', pd') → ∃ t', x (t, pd) = .ok a (t', pd')

theorem uniform_readOr (spoil : σ → σ) (get : Decode α) : Uniform (readOr spoil get) := by
  intro o t pd a o' pd' run
  obtain ⟨read, -⟩ := readOr_eq_ok_iff.mp run
  exact ⟨t, readOr_eq_ok_iff.mpr ⟨read, rfl⟩⟩

theorem uniform_read (get : Decode α) : Uniform (read get : DecodeInto σ α) := uniform_readOr id get

theorem uniform_update (f : σ → σ) : Uniform (update f) := by
  intro o t pd a o' pd' run
  obtain ⟨-, rfl⟩ := update_eq_ok_iff.mp run
  exact ⟨f t, rfl⟩

theorem uniform_pure (a : α) : Uniform (pure a : DecodeInto σ α) := by
  intro o t pd b o' pd' run
  obtain ⟨rfl, same⟩ := EStateM.pure_eq_ok_iff.mp run
  obtain ⟨-, rfl⟩ := Prod.mk.inj same
  exact ⟨t, rfl⟩

theorem uniform_faultWith (f : Fault) : Uniform (faultWith f : DecodeInto σ α) := fun _ _ _ _ _ _ run => nomatch run

theorem Uniform.bind (first : Uniform x) (next : ∀ a, Uniform (k a)) : Uniform (x >>= k) := by
  intro o t pd b o' pd' run
  obtain ⟨a, ⟨o₁, pd₁⟩, head, tail⟩ := EStateM.bind_eq_ok_iff.mp run
  obtain ⟨t₁, head'⟩ := first o t pd a o₁ pd₁ head
  obtain ⟨t', tail'⟩ := next a o₁ t₁ pd₁ b o' pd' tail
  exact ⟨t', (EStateM.bind_of_ok head' k).trans tail'⟩

theorem Uniform.failWith (uniform : Uniform x) : Uniform (failWith err x) := by
  intro o t pd a o' pd' run
  obtain ⟨t', run'⟩ := uniform o t pd a o' pd' (failWith_eq_ok_iff.mp run)
  exact ⟨t', failWith_of_ok run'⟩

theorem Uniform.each {x : DecodeInto σ Unit} (uniform : Uniform x) {os ts os' : List σ} {pd pd' : PacketDecoder}
    (length : ts.length = os.length) (run : each x os pd = .ok () (os', pd')) :
    ∃ ts', each x ts pd = .ok () (ts', pd') ∧ ts'.length = ts.length := by
  induction os generalizing ts os' pd with
  | nil =>
    obtain rfl := List.eq_nil_of_length_eq_zero length
    injection run with _ same
    injection same with _ moved
    exact ⟨[], by rw [← moved]; rfl, rfl⟩
  | cons o os ih =>
    obtain ⟨t, ts, rfl⟩ : ∃ t ts', ts = t :: ts' := List.exists_cons_of_length_eq_add_one length
    unfold DecodeInto.each at run
    split at run
    · cases run
    · next o₁ pd₁ first =>
      split at run
      · cases run
      · next os₁ pd₂ others =>
        injection run with _ same
        injection same with _ moved
        subst moved
        obtain ⟨t₁, first'⟩ := uniform o t pd () o₁ pd₁ first
        obtain ⟨ts₁, others', count⟩ := ih (Nat.succ.inj length) others
        refine ⟨t₁ :: ts₁, ?_, congrArg (· + 1) count⟩
        rw [DecodeInto.each, first']
        simp only [others']

end Coev.Kafka.PacketDecoder
