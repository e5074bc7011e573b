import Coev.Model.Kafka.PacketDecoder
import Coev.Model.Kafka.PacketEncoder

/-! # Protocol bodies

What the bodies of requests and responses share: parts that only some versions have, members that are read in place, maps
that are filled entry by entry, and the two functions that run a whole body.
-/

namespace Coev.Kafka

open PacketDecoder PacketEncoder

/-- A part of a body that only some versions have. -/
def inVersions {m : Type → Type} [Monad m] (versions : Prop) [Decidable versions] (part : m Unit) : m Unit :=
  if versions then part else pure ()

/-- `encode` of a body that keeps nothing of the encoding. -/
def encodeBody (isFlexible : Bool) (body : Encode Unit) : Except Failure Bytes :=
  (encode isFlexible (fun _ : Unit => body) ()).map Prod.fst

namespace DecodeInto

variable {σ τ α κ ν : Type}

/-- Read a value into a member; a failing call leaves it as `spoil` says. -/
def fieldOr (spoil : σ → σ) (get : Decode α) (set : α → σ → σ) : DecodeInto σ Unit := do
  let a ← readOr spoil get
  update (set a)

/-- Read a value into a member, which is lost with the body when the call fails. -/
def field (get : Decode α) (set : α → σ → σ) : DecodeInto σ Unit := fieldOr id get set

/-- A number that could not be read is `-1`. -/
def intField [OfNat α 1] [Neg α] (get : Decode α) (set : α → σ → σ) : DecodeInto σ Unit := fieldOr (set (-1)) get set

/-- A code that could not be read is `-1`. -/
def errField (set : Int16 → σ → σ) : DecodeInto σ Unit := fieldOr (set (-1)) getKError fun err => set (Int16.ofInt err)

/-- A time that could not be read is zero. -/
def durationField (set : Int64 → σ → σ) : DecodeInto σ Unit := fieldOr (set 0) getDurationMs set

/-- A loop of so many rounds. -/
def rounds (round : DecodeInto σ Unit) : ℕ → DecodeInto σ Unit
  | 0 => return ()
  | n + 1 => do
    round
    rounds round n

/-- A vector is resized and its elements are decoded in place. -/
def elements (fresh : σ) (n : ℕ) (x : DecodeInto σ Unit) : DecodeInto (List σ) Unit := do
  update (resize n fresh)
  fun (xs, pd) => each x xs pd

/-- A vector is resized to a count that was read, and its elements are decoded in place; `resize` throws below zero. -/
def resized (fresh : σ) (n : Int32) (x : DecodeInto σ Unit) : DecodeInto (List σ) Unit :=
  if n < 0 then onObject (faultWith (.thrown .lengthError)) else elements fresh n.toInt.toNat x

/-- A value is decoded apart from the object, which it is stored in when it was. -/
def aside (fresh : τ) (x : DecodeInto τ Unit) (store : τ → σ → σ) : DecodeInto σ Unit := fun (o, pd) =>
  match x (fresh, pd) with
  | .ok () (t, pd) => .ok () (store t o, pd)
  | .error e (_, pd) => .error e (o, pd)

/-- `reserve` of a hash table, which throws below zero. -/
def reserve (n : Int32) : DecodeInto σ Unit := if n < 0 then faultWith (.thrown .badAlloc) else return ()

variable [Ord κ] [Std.TransOrd κ]

/-- `m[k]`, a fresh value when there is none, and decoded in place. -/
def entry (fresh : ν) (k : κ) (value : DecodeInto ν α) : DecodeInto (Std.ExtTreeMap κ ν) α :=
  part (fun m => m[k]?.getD fresh) (fun v m => m.insert k v) value

/-- One entry: `next` reads the key and what stands in front of the value, and says how that is read. -/
def nextEntry (fresh : ν) (next : Decode (κ × DecodeInto ν Unit)) : DecodeInto (Std.ExtTreeMap κ ν) Unit := do
  let (k, value) ← read next
  entry fresh k value

/-- A loop over so many entries. -/
def entries (fresh : ν) (next : Decode (κ × DecodeInto ν Unit)) (n : ℕ) : DecodeInto (Std.ExtTreeMap κ ν) Unit :=
  rounds (nextEntry fresh next) n

end DecodeInto

/-- `decode_version`: an empty buffer leaves the object alone, and bytes left over are refused. -/
def decodeVersion {σ : Type} (isFlexible : Bool) (decode : DecodeInto σ Unit) (buf : Bytes) :
    EStateM Failure σ Unit := fun o =>
  if buf.isEmpty then .ok () o
  else
    match decode (o, { raw := buf, flexible := if isFlexible then 1 else 0 }) with
    | .error failure (o, _) => .error failure o
    | .ok () (o, pd) => if pd.remaining ≠ 0 then .error (.code ErrDecodeError) o else .ok () o

/-- `prepare_flexible_decoder`: the flexible mode is left on every way out. -/
def prepareFlexibleDecoder {σ : Type} (isFlexible : Bool) (decode : DecodeInto σ Unit) : DecodeInto σ Unit :=
  if isFlexible then do
    DecodeInto.read pushFlexible
    finally_ (DecodeInto.read popFlexible) decode
  else decode

/-- `decode_version` with the reader that it leaves, of a body that changes the mode itself. -/
def decodeVersionReader {σ : Type} (isFlexible : Bool) (decode : DecodeInto σ Unit) (buf : Bytes) (o : σ) :
    EStateM.Result Failure (σ × PacketDecoder) Unit :=
  if buf.isEmpty then .ok () (o, { raw := buf })
  else
    match prepareFlexibleDecoder isFlexible decode (o, { raw := buf }) with
    | .error failure ended => .error failure ended
    | .ok () ended => if ended.2.remaining ≠ 0 then .error (.code ErrDecodeError) ended else .ok () ended

/-- Decoding any proper prefix of the bytes returns an error. -/
def RefusesPrefixes {σ : Type} (isFlexible : Bool) (decode : DecodeInto σ Unit) (o : σ) (bytes : Bytes) : Prop :=
  ∀ front rest, bytes = front ++ rest → rest ≠ [] →
    ∃ err s, decode (o, { raw := front, flexible := if isFlexible then 1 else 0 }) = .error (.code err) s

end Coev.Kafka

/-! ## Topics and their partitions
Several bodies hold a map of topics with a map of partitions each. They differ in what a partition holds, in what
becomes of the code of a name, and in what stands behind a topic.
-/

namespace Coev.Kafka.TopicPartitions

open PacketDecoder PacketEncoder DecodeInto

variable {ν : Type}

/-- One partition: its number and what it holds. -/
def encodePartition (value : ν → Encode Unit) (entry : Int32 × ν) : Encode Unit := do
  putInt32 entry.1
  value entry.2

/-- One topic: its name, and its partitions in some order behind their number. -/
def encodeTopic (name : Bytes → Encode Unit) (value : ν → Encode Unit) (trailer : Encode Unit)
    (orderOf : Bytes → Std.ExtTreeMap Int32 ν → List (Int32 × ν)) (entry : Bytes × Std.ExtTreeMap Int32 ν) :
    Encode Unit := do
  name entry.1
  putArrayLength (Int32.ofNat entry.2.size)
  (orderOf entry.1 entry.2).forM (encodePartition value)
  trailer

/-- The order of an ordered map. -/
def inOrder (_topic : Bytes) (partitions : Std.ExtTreeMap Int32 ν) : List (Int32 × ν) := partitions.toList

/-- One partition, decoded in place. -/
def decodePartition (fresh : ν) (value : DecodeInto ν Unit) : DecodeInto (Std.ExtTreeMap Int32 ν) Unit := do
  let partition ← read getInt32
  entry fresh partition value

/-- One partition, which the map has once it was decoded. -/
def decodeNewPartition (fresh : ν) (value : DecodeInto ν Unit) : DecodeInto (Std.ExtTreeMap Int32 ν) Unit := do
  let partition ← read getInt32
  aside fresh value fun v m => m.insert partition v

/-- One topic, whose partitions are read one by one. -/
def decodeTopic (partition : DecodeInto (Std.ExtTreeMap Int32 ν) Unit) (trailer : Decode Unit) :
    DecodeInto (Std.ExtTreeMap Bytes (Std.ExtTreeMap Int32 ν)) Unit := do
  let topic ← read getString
  let n ← read getArrayLength
  entry ∅ topic (rounds partition n.toInt.toNat)
  read trailer

end Coev.Kafka.TopicPartitions
