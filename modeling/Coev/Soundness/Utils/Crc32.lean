import Coev.Model.Kafka.PushField
import Coev.Model.Utils.Hash
import Coev.ToMathlib.Crc
import Coev.ToMathlib.Transition

/-! # The implementations of CRC-32 agree
Each loop is a fold over the bytes whose step takes one byte into the register of the bitwise division: by eight rounds
after the byte was added, or by a look-up under the low byte. What is complemented on entry and exit of a call cancels
between two calls.
-/

namespace Coev.Crc32

open ByteString

variable {poly : Polynomial} {tables : Table}

/-- The CRC of a message, bit by bit: it begins with ones, and its complement is what counts. -/
def bitwise (poly : Polynomial) (message : Bytes) : UInt32 := ⟨Crc.checksum poly.toBitVec (message.map UInt8.toBitVec)⟩

/-! ## One bit -/

private theorem lowest_eq (crc : UInt32) : crc.toBitVec.getLsbD 0 = decide (crc.toNat % 2 = 1) := by
  have bit : crc.toBitVec.getLsbD 0 = crc.toNat.testBit 0 := rfl
  rw [bit, Nat.testBit_zero]

private theorem toNat_and_one (crc : UInt32) : (crc &&& 1).toNat = crc.toNat % 2 := by
  rw [UInt32.toNat_and, UInt32.toNat_one, Nat.and_one_is_mod]

private theorem toBitVec_divide (poly crc : UInt32) : (divide poly crc).toBitVec = Crc.shift poly.toBitVec crc.toBitVec := by
  have odd : crc &&& 1 ≠ 0 ↔ crc.toNat % 2 = 1 := by
    rw [ne_eq, ← UInt32.toNat_inj, toNat_and_one, UInt32.toNat_zero]
    omega
  rw [divide, Crc.shift, Crc.take, Bool.xor_false, lowest_eq]
  simp only [odd, decide_eq_true_eq]
  split <;> rfl

private theorem toBitVec_crcBit (poly crc : UInt32) :
    (Kafka.crcBit poly crc).toBitVec = Crc.shift poly.toBitVec crc.toBitVec := by
  have odd : crc &&& 1 = 1 ↔ crc.toNat % 2 = 1 := by
    rw [← UInt32.toNat_inj, toNat_and_one, UInt32.toNat_one]
  rw [Kafka.crcBit, Crc.shift, Crc.take, Bool.xor_false, lowest_eq]
  simp only [odd, decide_eq_true_eq]
  split <;> rfl

private theorem toBitVec_iterate {step : UInt32 → UInt32} {bit : BitVec 32 → BitVec 32}
    (one : ∀ crc, (step crc).toBitVec = bit crc.toBitVec) (n : ℕ) (crc : UInt32) :
    (step^[n] crc).toBitVec = bit^[n] crc.toBitVec :=
  (Function.Semiconj.iterate_right one n).eq crc

/-! ## One byte -/

/-- A step of a loop takes a byte into the register. -/
def Takes (poly : Polynomial) (step : UInt32 → UInt8 → UInt32) : Prop :=
  ∀ crc byte, (step crc byte).toBitVec = (Crc.low 8 byte.toBitVec).foldl (Crc.take poly.toBitVec) crc.toBitVec

private theorem takes_crcIEEEByte : Takes IEEE Kafka.crcIEEEByte := by
  intro crc byte
  have added : (crc ^^^ byte.toUInt32).toBitVec = crc.toBitVec ^^^ byte.toBitVec.setWidth 32 := rfl
  rw [Kafka.crcIEEEByte, toBitVec_iterate (toBitVec_crcBit _), added, Crc.register_byte _ _ _ (by decide)]
  rfl

private theorem takes_crcCastagnoliByte : Takes Castagnoli Kafka.crcCastagnoliByte := by
  intro crc byte
  have index :
      ((crc &&& 0xFF).toUInt8 ^^^ byte).toUInt32.toBitVec =
        (crc.toBitVec.setWidth 8 ^^^ byte.toBitVec).setWidth 32 := by
    have masked : (crc &&& 0xFF).toUInt8 = crc.toUInt8 := by rw [UInt32.toUInt8_and]; exact UInt8.and_neg_one
    rw [masked]
    rfl
  have entry := toBitVec_iterate (toBitVec_crcBit Castagnoli) 8 ((crc &&& 0xFF).toUInt8 ^^^ byte).toUInt32
  rw [index] at entry
  rw [Kafka.crcCastagnoliByte, UInt32.toBitVec_xor, Kafka.castagnoliTable, Crc.register_lookup _ _ _ (by decide),
    BitVec.xor_comm]
  exact congrArg (· ^^^ crc.toBitVec >>> 8) entry

/-- The sign of a `char` is masked out. -/
theorem index_eq (crc : UInt32) (byte : UInt8) :
    ((crc ^^^ byte.toInt8.toInt32.toUInt32) &&& 0xFF).toUInt8 = crc.toUInt8 ^^^ byte := by
  have extended : byte.toInt8.toInt32.toUInt32.toUInt8 = byte := by
    rw [← UInt8.toBitVec_inj]
    apply BitVec.eq_of_getLsbD_eq
    intro k below
    change ((byte.toBitVec.signExtend 32).setWidth 8).getLsbD k = byte.toBitVec.getLsbD k
    rw [BitVec.getLsbD_setWidth, BitVec.getLsbD_signExtend, if_pos below, decide_eq_true below,
      decide_eq_true (show k < 32 by omega), Bool.true_and, Bool.true_and]
  rw [UInt32.toUInt8_and, UInt32.toUInt8_xor, extended]
  exact UInt8.and_neg_one

/-- The step of `SimpleUpdate`. -/
theorem takes_simpleUpdate (poly : Polynomial) : Takes poly fun crc byte =>
      SimpleMakeHandle poly ((crc ^^^ byte.toInt8.toInt32.toUInt32) &&& 0xFF).toUInt8 ^^^ (crc >>> 8) := by
  intro crc byte
  have index : (crc.toUInt8 ^^^ byte).toUInt32.toBitVec = (crc.toBitVec.setWidth 8 ^^^ byte.toBitVec).setWidth 32 := rfl
  have entry := toBitVec_iterate (toBitVec_divide poly) 8 (crc.toUInt8 ^^^ byte).toUInt32
  rw [index] at entry
  beta_reduce
  rw [index_eq, UInt32.toBitVec_xor, SimpleMakeHandle, Crc.register_lookup _ _ _ (by decide)]
  exact congrArg (· ^^^ crc.toBitVec >>> 8) entry

/-! ## Messages -/

/-- A loop whose step takes a byte takes a message. -/
theorem Takes.foldl {step : UInt32 → UInt8 → UInt32} (takes : Takes poly step) (message : Bytes) (crc : UInt32) :
    (message.foldl step crc).toBitVec = Crc.register poly.toBitVec crc.toBitVec (message.map UInt8.toBitVec) := by
  induction message generalizing crc with
  | nil => rfl
  | cons byte message ih => rw [List.foldl_cons, ih, takes, List.map_cons, Crc.register_cons]

/-- Both branches of `Crc32Field::crc`. -/
theorem Takes.complemented {step : UInt32 → UInt8 → UInt32} (takes : Takes poly step) (message : Bytes) :
    message.foldl step 0xFFFFFFFF ^^^ 0xFFFFFFFF = bitwise poly message := by
  rw [← UInt32.toBitVec_inj, UInt32.toBitVec_xor, takes.foldl, bitwise, Crc.checksum]
  exact BitVec.xor_allOnes

/-- What `SimpleUpdate` keeps between two calls. -/
theorem toBitVec_simpleUpdate (poly : Polynomial) (crc : UInt32) (data : Bytes) :
    (SimpleUpdate crc data (SimpleMakeHandle poly)).toBitVec =
      ~~~Crc.register poly.toBitVec (~~~crc.toBitVec) (data.map UInt8.toBitVec) := by
  rw [SimpleUpdate, UInt32.toBitVec_not, (takes_simpleUpdate poly).foldl, UInt32.toBitVec_not]

private theorem update_nil (crc : UInt32) (table : Table) : Update crc [] table = crc := UInt32.not_not

private theorem update_append (crc : UInt32) (front rest : Bytes) (table : Table) :
    Update crc (front ++ rest) table = Update (Update crc front table) rest table := by
  simp only [Update, SimpleUpdate]
  rw [List.foldl_append, UInt32.not_not]

private theorem update_flatten (crc : UInt32) (chunks : List Bytes) (table : Table) :
    chunks.foldl (fun crc chunk => Update crc chunk table) crc = Update crc chunks.flatten table := by
  induction chunks generalizing crc with
  | nil => exact (update_nil crc table).symm
  | cons chunk chunks ih => rw [List.foldl_cons, ih, List.flatten_cons, update_append]

private theorem checksum_eq (poly : Polynomial) (data : Bytes) :
    Checksum data (SimpleMakeHandle poly) = bitwise poly data := by
  rw [← UInt32.toBitVec_inj, Checksum, Update, toBitVec_simpleUpdate, bitwise, Crc.checksum]
  rfl

/-- A check goes on where it stopped. -/
theorem update_bitwise (poly : Polynomial) (front data : Bytes) :
    Update (bitwise poly front) data (SimpleMakeHandle poly) = bitwise poly (front ++ data) := by
  rw [← checksum_eq, ← checksum_eq, Checksum, Checksum, update_append]

/-! ## Objects -/

/-- The handle of a polynomial points to its table when it was just made. -/
theorem table_makeHandle (poly : Polynomial) (tables : Table) :
    (MakeHandle poly tables).1.table (MakeHandle poly tables).2 = SimpleMakeHandle poly := by
  unfold MakeHandle
  split
  · next same => rw [same]; rfl
  split
  · next same => rw [same]; rfl
  split
  · next same => rw [same]; rfl
  · rfl

/-- An object that is fed in chunks keeps its handle, and its register is fed the same chunks. -/
theorem CRC32.foldl_update (tables : Table) (chunks : List Bytes) (c : CRC32) : chunks.foldl (CRC32.Update tables) c =
      ⟨{ c.m_digest with crc := Crc32.Update c.m_digest.crc chunks.flatten (c.m_digest.hdl.table tables) }⟩ := by
  induction chunks generalizing c with
  | nil => exact congrArg (fun crc => (⟨{ c.m_digest with crc }⟩ : CRC32)) (update_nil c.m_digest.crc _).symm
  | cons chunk chunks ih => rw [List.foldl_cons, ih, List.flatten_cons, update_append]; rfl

/-- The polynomial of a field. -/
def ofField : Kafka.CrcPolynomial → Polynomial
  | .CrcIEEE => IEEE
  | .CrcCastagnoli => Castagnoli

/-- The field of a frame checks the region from behind it to the current offset. However that region is cut into chunks,
its check is the bitwise one, and so is what `Checksum`, a chain of updates and an object of the same polynomial answer.
-/
theorem implementations_agree (field : Kafka.Crc32Field) (startOffset curOffset : ℕ) (buf : Bytes) (chunks : List Bytes)
    (shared : Table) (cut : chunks.flatten = Kafka.Pushed.covered ⟨startOffset, .crc32 field⟩ curOffset buf) :
    Kafka.crc32 field.polynomial (Kafka.Pushed.covered ⟨startOffset, .crc32 field⟩ curOffset buf) =
        bitwise (ofField field.polynomial) chunks.flatten ∧
      Checksum chunks.flatten (SimpleMakeHandle (ofField field.polynomial)) =
        bitwise (ofField field.polynomial) chunks.flatten ∧
      chunks.foldl (fun crc chunk => Update crc chunk (SimpleMakeHandle (ofField field.polynomial))) 0 =
        bitwise (ofField field.polynomial) chunks.flatten ∧
      (chunks.foldl (CRC32.Update (CRC32.make (ofField field.polynomial) shared).2)
        (CRC32.make (ofField field.polynomial) shared).1).Final = bitwise
          (ofField field.polynomial) chunks.flatten := by
  have checked := checksum_eq (ofField field.polynomial) chunks.flatten
  refine ⟨?_, checked, ?_, ?_⟩
  · rw [← cut]
    unfold Kafka.crc32
    cases field.polynomial with
    | CrcIEEE => exact takes_crcIEEEByte.complemented chunks.flatten
    | CrcCastagnoli => exact takes_crcCastagnoliByte.complemented chunks.flatten
  · rw [update_flatten]
    exact checked
  · rw [CRC32.foldl_update]
    change Update 0 chunks.flatten ((MakeHandle _ shared).1.table (MakeHandle _ shared).2) = _
    rw [table_makeHandle]
    exact checked

/-- A frame of two bytes behind the field, the second of them negative as a `char`. -/
theorem implementations_agree_two : Kafka.crc32 .CrcIEEE [97, 200] = bitwise IEEE [97, 200] ∧
      (([[97], [200]] : List Bytes).foldl (CRC32.Update (CRC32.make IEEE fun _ => 0).2)
        (CRC32.make IEEE fun _ => 0).1).Final = bitwise IEEE [97, 200] := by
  have agree := implementations_agree ⟨.CrcIEEE⟩ 1 7 [9, 0, 0, 0, 0, 97, 200, 8] [[97], [200]] (fun _ => 0) rfl
  exact ⟨agree.1, agree.2.2.2⟩

end Coev.Crc32

/-! # Objects with CRC-32 registers
A program with several objects is compared with objects that keep their polynomial and their bytes for themselves. They
agree as long as an object is used only while the table it reads is its own, and messages are read only by objects that
the second entry of their table tells apart.
-/

namespace Coev.Crc32

open ByteString Transition

variable {poly : Polynomial} {tables : Table} {w w' : World} {e : Event} {i : ℕ}

/-! ## Objects of their own -/

/-- A polynomial, and the bytes that count. -/
structure Own where
  polynomial : Polynomial
  bytes : Bytes := []
deriving DecidableEq, Repr

/-- Objects that share nothing. -/
structure Independent where
  objects : List Own := []
  messages : List Own := []
  accepted : List Bool := []
deriving DecidableEq, Repr

/-- A message is accepted by the objects of its polynomial, and they go on where it was made. -/
def Independent.step (g : Independent) : Event → Independent
  | .create polynomial => { g with objects := g.objects ++ [{ polynomial }] }
  | .update i data => { g with objects := g.objects.modify i fun own => { own with bytes := own.bytes ++ data } }
  | .reset i => { g with objects := g.objects.modify i fun own => { own with bytes := [] } }
  | .marshal i => { g with messages := g.messages ++ g.objects[i]?.toList }
  | .unmarshal i k =>
    match g.objects[i]?, g.messages[k]? with
    | some own, some message =>
      if own.polynomial = message.polynomial then
        { g with objects := g.objects.set i message, accepted := g.accepted ++ [true] }
      else { g with accepted := g.accepted ++ [false] }
    | _, _ => g

variable {g : Independent} {own message : Own}

/-- A call of the program, and what the objects of their own make of it. -/
def Step (s : World × Independent) (e : Event) (t : World × Independent) : Prop :=
  s.1.step e = some t.1 ∧ t.2 = s.2.step e

/-- The handle of a polynomial. -/
def handle (poly : Polynomial) : Handle := (MakeHandle poly fun _ => 0).1

/-- The table that an object reads is that of its polynomial. -/
def Undisturbed (s : World × Independent) (i : ℕ) : Prop :=
  ∀ own ∈ s.2.objects[i]?, (handle own.polynomial).table s.1.default_handle = SimpleMakeHandle own.polynomial

/-- An object and a message of another polynomial differ in the entry that the message tells about. -/
def Distinguished (s : World × Independent) (i k : ℕ) : Prop :=
  ∀ own ∈ s.2.objects[i]?, ∀ message ∈ s.2.messages[k]?,
    SimpleMakeHandle own.polynomial 1 = SimpleMakeHandle message.polynomial 1 → own.polynomial = message.polynomial

/-- Objects are used only while their table is their own. -/
def Regular (s : World × Independent) : Event → Prop
  | .create _ => True
  | .update i data => data = [] ∨ Undisturbed s i
  | .reset _ => True
  | .marshal i => Undisturbed s i
  | .unmarshal i k => Undisturbed s i ∧ Distinguished s i k

/-! ## What a message tells -/

private theorem divide_zero (poly : Polynomial) : divide poly 0 = 0 := rfl

private theorem simpleMakeHandle_zero (poly : Polynomial) : SimpleMakeHandle poly 0 = 0 :=
  Function.iterate_fixed (divide_zero poly) 8

/-- A register takes a word in memory like the word itself. -/
theorem register_inMemory (p c : BitVec 32) (word : UInt32) :
    Crc.register p c ((inMemory word).map UInt8.toBitVec) = (Crc.shift p)^[32] (c ^^^ word.toBitVec) := by
  have octet (d : BitVec 32) : Crc.low 8 d = Crc.low 8 (d.setWidth 8) := (Crc.low_setWidth d (Nat.le_refl 8)).symm
  have bits : Crc.low (8 + (8 + (8 + 8))) word.toBitVec = ((inMemory word).map UInt8.toBitVec).flatMap (Crc.low 8) := by
    rw [Crc.low_add, Crc.low_add, Crc.low_add, octet, octet (word.toBitVec >>> 8), octet (word.toBitVec >>> 8 >>> 8),
      octet (word.toBitVec >>> 8 >>> 8 >>> 8), ← BitVec.shiftRight_add, ← BitVec.shiftRight_add]
    simp only [inMemory, List.map_cons, List.map_nil, List.flatMap_cons, List.flatMap_nil, List.append_nil]
    rfl
  rw [Crc.register, ← bits, Crc.foldl_take_low]

/-- Two tables have the same sum only with the same second entry. -/
theorem tableSum_inj (p q : Polynomial) (same : tableSum (SimpleMakeHandle p) = tableSum (SimpleMakeHandle q)) :
    SimpleMakeHandle p 1 = SimpleMakeHandle q 1 := by
  have injective := (Crc.shift_injective IEEE.toBitVec rfl).iterate 32
  simp only [tableSum, ChecksumIEEE, checksum_eq, bitwise, Crc.checksum, simpleMakeHandle_zero, List.map_append,
    Crc.register_append, register_inMemory, UInt32.ofBitVec.injEq, BitVec.not_inj] at same
  have entries := BitVec.xor_right_inj _ |>.mp (injective same)
  exact UInt32.toBitVec_inj.mp entries

private theorem bEUint32_bigEndian (front rest : Bytes) (word : UInt32) :
    BEUint32 (front ++ (bigEndian 4 word.toNat ++ rest)) front.length = word := by
  have fits : word.toNat < 256 ^ 4 := word.toNat_lt
  have four : (bigEndian 4 word.toNat).length = 4 := length_bigEndian 4 _
  rw [BEUint32, List.drop_left, List.take_left' four, value_bigEndian_of_lt fits, UInt32.ofNat_toNat]

/-- A message is accepted by the objects whose table has its sum. -/
theorem CRC32.unmarshal_marshal (tables before : Table) (c d : CRC32) :
    c.UnmarshalBinary tables (d.MarshalBinary before) =
      if tableSum (c.m_digest.hdl.table tables) = tableSum (d.m_digest.hdl.table before) then
        (true, ⟨{ c.m_digest with crc := d.m_digest.crc }⟩) else (false, c) := by
  have form : d.MarshalBinary before =
      magic ++ (bigEndian 4 (tableSum (d.m_digest.hdl.table before)).toNat ++ (bigEndian 4 d.m_digest.crc.toNat ++ [])) := by
    rw [MarshalBinary, BEAppendUint32, BEAppendUint32, List.append_nil, List.append_assoc]
  have size : (d.MarshalBinary before).length = marshaled_size := by
    rw [form]
    simp only [List.length_append, length_bigEndian, List.length_nil]
    rfl
  have start : (d.MarshalBinary before).take 4 = magic := by
    rw [form]
    exact List.take_left' rfl
  have sum : BEUint32 (d.MarshalBinary before) 4 = tableSum (d.m_digest.hdl.table before) := by
    rw [form]
    exact bEUint32_bigEndian magic _ _
  have crc : BEUint32 (d.MarshalBinary before) 8 = d.m_digest.crc := by
    rw [form, ← List.append_assoc]
    exact bEUint32_bigEndian (magic ++ bigEndian 4 _) [] _
  have accepted : ¬((d.MarshalBinary before).length < 4 ∨ (d.MarshalBinary before).take 4 ≠ magic) := by
    rw [size, start]
    decide
  rw [UnmarshalBinary, if_neg accepted, if_neg (not_not_intro size), sum, crc, ite_not]

/-! ## Agreement -/

/-- The object that has taken its bytes undisturbed. -/
def Own.object (own : Own) : CRC32 := ⟨⟨bitwise own.polynomial own.bytes, handle own.polynomial⟩⟩

/-- What an object marshals while its table is its own. -/
def Own.marshalled (own : Own) : Bytes :=
  BEAppendUint32 (BEAppendUint32 magic (tableSum (SimpleMakeHandle own.polynomial))) (bitwise own.polynomial own.bytes)

structure Agrees (w : World) (g : Independent) : Prop where
  objects : w.objects = g.objects.map Own.object
  messages : w.messages = g.messages.map Own.marshalled
  accepted : w.accepted = g.accepted

private theorem makeHandle_eq (poly : Polynomial) (tables : Table) : (MakeHandle poly tables).1 = handle poly := by
  unfold handle MakeHandle
  split
  · rfl
  split
  · rfl
  split <;> rfl

private theorem bitwise_nil (poly : Polynomial) : bitwise poly [] = 0 := by
  rw [← checksum_eq]
  exact update_nil 0 _

private theorem object_make (poly : Polynomial) (tables : Table) :
    (CRC32.make poly tables).1 = Own.object { polynomial := poly } := by
  rw [Own.object, bitwise_nil]
  exact congrArg (fun hdl => (⟨⟨0, hdl⟩⟩ : CRC32)) (makeHandle_eq poly tables)

private theorem object_reset (own : Own) : own.object.Reset = Own.object { own with bytes := [] } := by
  rw [Own.object, Own.object, bitwise_nil]
  rfl

private theorem object_update (own : Own) (data : Bytes)
    (whole : data = [] ∨ (handle own.polynomial).table tables = SimpleMakeHandle own.polynomial) :
    own.object.Update tables data = Own.object { own with bytes := own.bytes ++ data } := by
  have register : Crc32.Update (bitwise own.polynomial own.bytes) data ((handle own.polynomial).table tables) =
      bitwise own.polynomial (own.bytes ++ data) := by
    obtain rfl | table := whole
    · rw [update_nil, List.append_nil]
    · rw [table, update_bitwise]
  exact congrArg (fun crc => (⟨⟨crc, handle own.polynomial⟩⟩ : CRC32)) register

private theorem object_marshal (own : Own) (table : (handle own.polynomial).table tables = SimpleMakeHandle own.polynomial) :
    own.object.MarshalBinary tables = own.marshalled := by
  rw [CRC32.MarshalBinary, Own.marshalled, ← table]
  rfl

/-- An object that reads its own table accepts the messages of its polynomial, where the tables can be told apart. -/
theorem object_unmarshal (own message : Own)
    (table : (handle own.polynomial).table tables = SimpleMakeHandle own.polynomial)
    (apart : SimpleMakeHandle own.polynomial 1 = SimpleMakeHandle message.polynomial 1 →
      own.polynomial = message.polynomial) : own.object.UnmarshalBinary tables message.marshalled =
      if own.polynomial = message.polynomial then (true, message.object) else (false, own.object) := by
  obtain ⟨made, read⟩ : ∃ made, (handle message.polynomial).table made = SimpleMakeHandle message.polynomial :=
    ⟨_, makeHandle_eq message.polynomial (fun _ => 0) ▸ table_makeHandle message.polynomial fun _ => 0⟩
  have sums : tableSum (own.object.m_digest.hdl.table tables) = tableSum (message.object.m_digest.hdl.table made) ↔
      own.polynomial = message.polynomial := by
    change tableSum ((handle own.polynomial).table tables) = tableSum ((handle message.polynomial).table made) ↔ _
    rw [table, read]
    exact ⟨fun same => apart (tableSum_inj _ _ same), fun same => by rw [same]⟩
  rw [← object_marshal message read, CRC32.unmarshal_marshal]
  simp only [sums]
  split
  · next same => exact congrArg (Prod.mk true) (by rw [Own.object, Own.object, same])
  · rfl

/-- A call on objects that are used regularly is the call on objects of their own. -/
theorem Agrees.step (agrees : Agrees w g) (regular : Regular (w, g) e) (taken : w.step e = some w') :
    Agrees w' (g.step e) := by
  obtain ⟨objects, messages, accepted⟩ := agrees
  cases e with
  | create poly =>
    have made : some { w with
      objects := w.objects ++ [(CRC32.make poly w.default_handle).1]
      default_handle := (CRC32.make poly w.default_handle).2 } = some w' := taken
    obtain rfl := Option.some.inj made
    refine ⟨?_, messages, accepted⟩
    rw [Independent.step, List.map_append, List.map_singleton, ← object_make poly w.default_handle, ← objects]
  | update i data =>
    obtain ⟨object, found, ⟨⟩⟩ := Option.bind_eq_some_iff.mp taken
    rw [objects, List.getElem?_map] at found
    obtain ⟨own, at_, rfl⟩ := Option.map_eq_some_iff.mp found
    refine ⟨?_, messages, accepted⟩
    have whole := regular.imp_right fun undisturbed => undisturbed own at_
    dsimp only [Independent.step]
    rw [List.modify_eq_set_getElem?, at_, objects, object_update own data whole]
    exact List.map_set.symm
  | reset i =>
    obtain ⟨object, found, ⟨⟩⟩ := Option.bind_eq_some_iff.mp taken
    rw [objects, List.getElem?_map] at found
    obtain ⟨own, at_, rfl⟩ := Option.map_eq_some_iff.mp found
    refine ⟨?_, messages, accepted⟩
    dsimp only [Independent.step]
    rw [List.modify_eq_set_getElem?, at_, objects, object_reset]
    exact List.map_set.symm
  | marshal i =>
    obtain ⟨object, found, ⟨⟩⟩ := Option.bind_eq_some_iff.mp taken
    rw [objects, List.getElem?_map] at found
    obtain ⟨own, at_, rfl⟩ := Option.map_eq_some_iff.mp found
    refine ⟨objects, ?_, accepted⟩
    dsimp only [Independent.step]
    rw [at_, messages, object_marshal own (regular own at_), List.map_append]
    rfl
  | unmarshal i k =>
    obtain ⟨object, found, rest⟩ := Option.bind_eq_some_iff.mp taken
    obtain ⟨b, read, last⟩ := Option.bind_eq_some_iff.mp rest
    have answered : some { w with
      objects := w.objects.set i (object.UnmarshalBinary w.default_handle b).2
      accepted := w.accepted ++ [(object.UnmarshalBinary w.default_handle b).1] } = some w' := last
    obtain rfl := Option.some.inj answered
    rw [objects, List.getElem?_map] at found
    rw [messages, List.getElem?_map] at read
    obtain ⟨own, at_, rfl⟩ := Option.map_eq_some_iff.mp found
    obtain ⟨message, there, rfl⟩ := Option.map_eq_some_iff.mp read
    have table : (handle own.polynomial).table w.default_handle = SimpleMakeHandle own.polynomial := regular.1 own at_
    have answer := object_unmarshal own message table (regular.2 own at_ message there)
    dsimp only [Independent.step]
    rw [at_, there, answer]
    dsimp only
    split
    · exact ⟨by rw [objects]; exact List.map_set.symm, messages, by rw [accepted]⟩
    · refine ⟨?_, messages, by rw [accepted]⟩
      obtain ⟨bound, same⟩ := List.getElem?_eq_some_iff.mp at_
      rw [objects, ← List.map_set, ← same, List.set_getElem_self bound]

/-- In every run of regular calls each object answers the check of its own bytes with its own polynomial, and a message
is accepted by the objects of its polynomial only, which then are as the object was that made it. -/
theorem objects_independent (w : World) (g : Independent) (run : Reaches (When Regular Step) ({}, {}) (w, g)) :
    w.objects.map CRC32.Final = g.objects.map (fun own => bitwise own.polynomial own.bytes) ∧
      w.objects = g.objects.map Own.object ∧ w.accepted = g.accepted := by
  have keeps (s : World × Independent) (e : Event) (t : World × Independent) (agrees : Agrees s.1 s.2)
      (taken : When Regular Step s e t) : Agrees t.1 t.2 := by
    obtain ⟨regular, stepped, shown⟩ := taken
    rw [shown]
    exact agrees.step regular stepped
  have agrees : (fun s : World × Independent => Agrees s.1 s.2) (w, g) := run.invariant keeps ⟨rfl, rfl, rfl⟩
  refine ⟨?_, agrees.objects, agrees.accepted⟩
  rw [agrees.objects, List.map_map]
  rfl

theorem Step.of_step (taken : w.step e = some w') : Step (w, g) e (w', g.step e) := ⟨taken, rfl⟩

/-- An object of the IEEE polynomial is fed around one whose table is shared, and each accepts only its own message. -/
theorem objects_independent_two : ∃ (w : World) (g : Independent), g.objects = [⟨IEEE, [97, 98]⟩, ⟨0xD5828281, [99]⟩] ∧
    w.objects.map CRC32.Final = g.objects.map (fun own => bitwise own.polynomial own.bytes) ∧
      w.accepted = [false, true] := by
  have run : Reaches (When Regular Step) ({}, {}) ({}, {}) := .refl _
  have run := run.tail_when (Step.of_step (e := .create IEEE) rfl) trivial
  have run := run.tail_when (Step.of_step (e := .update 0 [97]) rfl) (.inr fun _ held => by cases held; rfl)
  have run := run.tail_when (Step.of_step (e := .create 0xD5828281) rfl) trivial
  have run := run.tail_when (Step.of_step (e := .update 1 [99]) rfl) (.inr fun _ held => by cases held; rfl)
  have run := run.tail_when (Step.of_step (e := .marshal 1) rfl) fun _ held => by cases held; rfl
  have run := run.tail_when (Step.of_step (e := .update 0 [98]) rfl) (.inr fun _ held => by cases held; rfl)
  have run := run.tail_when (Step.of_step (e := .unmarshal 0 0) rfl)
    ⟨fun _ held => by cases held; rfl, fun _ held _ sent => by cases held; cases sent; decide +kernel⟩
  have run := run.tail_when (Step.of_step (e := .unmarshal 1 0) rfl)
    ⟨fun _ held => by cases held; rfl, fun _ held _ sent => by cases held; cases sent; exact fun _ => rfl⟩
  have independent := objects_independent _ _ run
  exact ⟨_, _, rfl, independent.1, independent.2.2⟩

/-- The second object of a polynomial without a table of its own builds its table where the first one reads. -/
theorem objects_interfere : (∃ s, Reaches Step ({}, {}) s ∧
      s.1.objects.map CRC32.Final ≠ s.2.objects.map fun own => bitwise own.polynomial own.bytes) ∧
      ∃ s, Reaches Step ({}, {}) s ∧ s.1.accepted = [true] ∧ s.2.accepted = [false] := by
  have overwritten : Reaches Step ({}, {}) ({}, {}) := .refl _
  have overwritten := overwritten.tail (Step.of_step (e := .create 1) rfl)
  have overwritten := overwritten.tail (Step.of_step (e := .create 2) rfl)
  have overwritten := overwritten.tail (Step.of_step (e := .update 0 [97]) rfl)
  have confused : Reaches Step ({}, {}) ({}, {}) := .refl _
  have confused := confused.tail (Step.of_step (e := .create 0x80000000) rfl)
  have confused := confused.tail (Step.of_step (e := .marshal 0) rfl)
  have confused := confused.tail (Step.of_step (e := .create 0x7FFFFFFF) rfl)
  have confused := confused.tail (Step.of_step (e := .unmarshal 1 0) rfl)
  exact ⟨⟨_, overwritten, by decide +kernel⟩, _, confused, by decide +kernel, by decide +kernel⟩

end Coev.Crc32
