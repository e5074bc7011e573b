import Coev.Model.Kafka.RecordBatch
import Coev.Model.Kafka.TransactionManager

/-! # `ProducerMessage` and the configuration of a producer

Messages are shared pointers in the source; here they are values, and a message that the producer counts as in
flight gets a ticket, the number of messages counted before it, that tells it from every other one.
-/

namespace Coev.Kafka

/-- `FlagSet`, a set of bits. -/
abbrev FlagSet := UInt16

def Syn : FlagSet := (1 : UInt16) <<< 0
def Fin_ : FlagSet := (1 : UInt16) <<< 1
def Shutdown : FlagSet := (1 : UInt16) <<< 2
def Endtxn : FlagSet := (1 : UInt16) <<< 3
def Committxn : FlagSet := (1 : UInt16) <<< 4
def Aborttxn : FlagSet := (1 : UInt16) <<< 5

def ProducerMessageOverhead : ℤ := 26
def MaximumRecordOverhead : ℤ := 77

structure ProducerMessage where
  topic : Bytes := []
  key : Bytes := []
  value : Bytes := []
  headers : List RecordHeader := []
  offset : Int64 := 0
  partition : Int32 := 0
  timestamp : Timestamp := {}
  retries : ℕ := 0
  flags : FlagSet := 0
  sequenceNumber : Int32 := 0
  producerEpoch : Int16 := 0
  hasSequence : Bool := false
  err : KError := ErrNoError
  ticket : ℕ := 0
deriving DecidableEq, Repr, Inhabited

namespace ProducerMessage

/-- `m_flags & flag`. -/
def has (msg : ProducerMessage) (flag : FlagSet) : Bool := msg.flags &&& flag ≠ 0

/-- The size of a header next to two lengths. -/
def headerSize (h : RecordHeader) : ℤ := h.key.length + h.value.length + 2 * 5

def byteSize (msg : ProducerMessage) (version : ℕ) : ℤ :=
  (if 2 ≤ version then MaximumRecordOverhead + (msg.headers.map headerSize).sum else ProducerMessageOverhead) +
    msg.key.length + msg.value.length

def clear (msg : ProducerMessage) : ProducerMessage :=
  { msg with flags := 0, retries := 0, sequenceNumber := 0, producerEpoch := 0, hasSequence := false }

end ProducerMessage

/-- `Producer.Flush`; the frequency is a count of milliseconds. -/
structure FlushConfig where
  bytes : ℤ := 0
  messages : ℤ := 0
  frequency : ℤ := 0
  maxMessages : ℤ := 0

/-- What the producers read of the configuration. `Producer.Retry.Max` is validated not to be negative. -/
structure ProducerConfig where
  version : KafkaVersion := V2_1_0_0
  maxMessageBytes : ℤ := 1024 * 1024
  acks : Int16 := 1
  /-- `Timeout`, in milliseconds. -/
  timeout : Int64 := 10000
  compression : CompressionCodec := .None
  idempotent : Bool := false
  /-- `Transaction.ID`. -/
  transactionID : Bytes := []
  flush : FlushConfig := {}
  /-- `Retry.Max`. -/
  retryMax : ℕ := 3
  /-- `Retry.Backoff`, in milliseconds. -/
  retryBackoff : ℤ := 100
  /-- `Retry.MaxBufferLength`. -/
  maxBufferLength : ℤ := 0
  /-- `Retry.MaxBufferBytes`. -/
  maxBufferBytes : ℤ := 0
  /-- `Return.Errors`. -/
  returnErrors : Bool := true
  /-- `Return.Successes`. -/
  returnSuccesses : Bool := false
  /-- The number of `Interceptors`. -/
  interceptors : ℕ := 0

end Coev.Kafka

/-! # `retry_handler`

The coroutine buffers what comes from the retry channel. Beyond a limit, or on a null pointer, it takes the
message in front of the buffer and puts it into the input channel of the producer.
-/

namespace Coev.Kafka

def minFunctionalRetryBufferLength : ℤ := 4 * 1024
def minFunctionalRetryBufferBytes : ℤ := 32 * 1024 * 1024

/-- What the coroutine keeps, and what it put into `m_input`. -/
structure RetryHandler where
  buf : List ProducerMessage := []
  currentByteSize : Int64 := 0
  input : List ProducerMessage := []
deriving DecidableEq, Repr

namespace RetryHandler

variable (conf : ProducerConfig)

/-- A limit that is set is not taken below what works. -/
def functional (limit least : ℤ) : ℤ := if 0 < limit ∧ limit < least then least else limit

def maxBufferLength : ℤ := functional conf.maxBufferLength minFunctionalRetryBufferLength

/-- The configured `int64_t` becomes an `int`. -/
def maxBufferBytes : ℤ := functional (Int32.ofInt conf.maxBufferBytes).toInt minFunctionalRetryBufferBytes

/-- `byte_size(version)`, an `int`. -/
def size (msg : ProducerMessage) : Int32 := Int32.ofInt (msg.byteSize (if conf.version.isAtLeast V0_11_0_0 then 2 else 1))

/-- The message in front of the buffer goes to the input channel. -/
def forward (s : RetryHandler) (subtract : ProducerMessage → Bool) : Except Fault RetryHandler :=
  match s.buf with
  | [] => .error .outOfBounds
  | msg :: buf => .ok
    { buf
      currentByteSize := if subtract msg then s.currentByteSize - (size conf msg).toInt64 else s.currentByteSize
      input := s.input ++ [msg] }

/-- Neither limit is reached. -/
def hasRoom (s : RetryHandler) : Bool :=
  (maxBufferLength conf ≤ 0 || (s.buf.length : ℤ) < maxBufferLength conf) &&
    (maxBufferBytes conf ≤ 0 || s.currentByteSize.toInt < maxBufferBytes conf)

/-- One round of the loop, up to the next wait. -/
def round (s : RetryHandler) : Option ProducerMessage → Except Fault RetryHandler
  | some msg =>
    let s := { s with buf := s.buf ++ [msg], currentByteSize := s.currentByteSize + (size conf msg).toInt64 }
    if s.hasRoom conf then .ok s else s.forward conf fun front => front.flags = 0
  | none => s.forward conf fun _ => true

/-- The rounds for what was received. -/
def run (received : List (Option ProducerMessage)) : Except Fault RetryHandler := received.foldlM (round conf) {}

end RetryHandler

end Coev.Kafka
