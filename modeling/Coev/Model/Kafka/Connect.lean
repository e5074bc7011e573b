import Coev.Model.Core.Async
import Coev.Model.Kafka.Basic
import Coev.ToMathlib.ByteString
import Coev.ToMathlib.Loop

/-! # Reading and writing so many bytes
`Connect::ReadFull` and `Connect::Write` over `recv` and `send` of `io_context`, which suspend. Another coroutine may
close the connection while they do, so that they see it closed when they go on.
-/

namespace Coev.Kafka

/-- What `::recv` or `::send` comes to: an amount, `EAGAIN` and the like, or an error. -/
inductive Kernel (α : Type) where
  | moved (amount : α)
  | again
  | failed
deriving DecidableEq, Repr

/-- A round of `recv` or `send`: what the waiter is woken with, whether the connection is valid then, and what the kernel
answers. -/
structure IoTurn (α : Type) where
  value : Int64 := 0
  valid : Bool := true
  kernel : Kernel α
deriving DecidableEq, Repr

/-- What `recv` and `send` return. -/
inductive IoResult where
  | invalid
  | zero
  | moved (bytes : Bytes)
deriving DecidableEq, Repr

namespace IoContext

/-- What Linux transfers at most. -/
def maxTransfer : ℕ := 0x7ffff000

/-- The size that the kernel sees: the `size_t` goes through an `int`. -/
def kernelSize (size : ℕ) : ℕ :=
  let asInt := (Int32.ofNat size).toInt
  if asInt < 0 then maxTransfer else min asInt.toNat maxTransfer

/-- `io_context::recv`, on a connection that is valid or not; `none` while it is suspended. The kernel has some bytes,
and the descriptor of a closed connection is none. -/
def recv (size : ℕ) : Bool → List (IoTurn Bytes) → Option (IoResult × Bool × List (IoTurn Bytes))
  | false, turns => some (.invalid, false, turns)
  | true, [] => none
  | true, turn :: rest =>
    if turn.value = invalid then some (.zero, turn.valid, rest)
    else if turn.valid = false then some (.invalid, false, rest)
    else
      match turn.kernel with
      | .again => recv size turn.valid rest
      | .failed => some (.invalid, true, rest)
      | .moved stream =>
        let received := stream.take (kernelSize size)
        if received = [] then some (.invalid, true, rest) else some (.moved received, true, rest)

/-- `io_context::send`, which waits when the kernel takes nothing; `none` while it is suspended. -/
def send (buffer : Bytes) : Bool → List (IoTurn ℕ) → Option (IoResult × Bool × List (IoTurn ℕ))
  | false, turns => some (.invalid, false, turns)
  | true, [] => none
  | true, turn :: rest =>
    match turn.kernel with
    | .again => if turn.value = invalid then some (.invalid, turn.valid, rest) else send buffer turn.valid rest
    | .failed => some (.invalid, true, rest)
    | .moved count =>
      let sent := buffer.take (min count (kernelSize buffer.length))
      if sent = [] then some (.invalid, true, rest) else some (.moved sent, true, rest)

end IoContext

/-- The loop of `ReadFull` and `Write`: the connection, how much is missing, the buffer, and the turns to come. `moved` is no
variable: what the kernel moved so far. -/
structure Transfer (α : Type) where
  valid : Bool
  res : ℕ
  buf : Bytes
  moved : Bytes := []
  turns : List (IoTurn α)

/-- What the loop leaves. -/
structure Transferred where
  code : KError
  buf : Bytes
  moved : Bytes
deriving DecidableEq, Repr

namespace Connect

/-- One round of either loop, over `io` and with what it stores; `none` while it is suspended. -/
def transferRound {α : Type} (io : Bytes → Bool → List (IoTurn α) → Option (IoResult × Bool × List (IoTurn α)))
    (store : ℕ → Bytes → Bytes → Bytes) (s : Transfer α) : Transfer α ⊕ Option Transferred :=
  if s.valid = true ∧ 0 < s.res then
    let offset := s.buf.length - s.res
    match io (s.buf.drop offset) s.valid s.turns with
    | none => .inr none
    | some (.moved chunk, valid, turns) =>
      .inl ⟨valid, s.res - chunk.length, store offset chunk s.buf, s.moved ++ chunk, turns⟩
    | some (.invalid, _, _) => .inr (some ⟨ErrIOEOF, s.buf, s.moved⟩)
    | some (.zero, _, _) => .inr (some ⟨ErrIOEOF, s.buf, s.moved⟩)
  else .inr (some ⟨ErrNoError, s.buf, s.moved⟩)

/-- A round of `ReadFull`, which receives behind what it has. -/
def readRound : Transfer Bytes → Transfer Bytes ⊕ Option Transferred :=
  transferRound (fun missing => IoContext.recv missing.length) fun offset chunk buf => ByteString.overlay buf offset chunk

/-- A round of `Write`. -/
def writeRound : Transfer ℕ → Transfer ℕ ⊕ Option Transferred :=
  transferRound IoContext.send fun _ _ buf => buf

/-- `ReadFull` into a buffer of the size that is asked for. A round that goes on takes a turn. -/
def readFull (valid : Bool) (buf : Bytes) (turns : List (IoTurn Bytes)) : Option Transferred :=
  (Loop.run readRound (turns.length + 1) { valid, res := buf.length, buf, turns }).join

def write (valid : Bool) (buf : Bytes) (turns : List (IoTurn ℕ)) : Option Transferred :=
  (Loop.run writeRound (turns.length + 1) { valid, res := buf.length, buf, turns }).join

end Connect

end Coev.Kafka
