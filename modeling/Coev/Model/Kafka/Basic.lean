import Mathlib.Data.Int.Notation
import Mathlib.Data.Nat.Notation
import Std.Data.ExtTreeMap

/-! # Error codes and the ways a call can fail to return

The code reports errors as `int`: members of `KError` and a few bare negative literals share one
range, so codes are integers here. A call can also leave the defined behaviour altogether (a failed
`assert`, a null dereference, `back()` of an empty vector, an `int` overflow), throw, or never
return; these are faults and no caller can turn them into a code.
-/

namespace Coev.Kafka

/-- `std::string` and `std::string_view` contents. -/
abbrev Bytes := List UInt8

instance : LawfulBEq Bytes := inferInstance

/-- `KError` and the plain `int` results share one code range. -/
abbrev KError := ℤ

def ErrNoError : KError := 0
def ErrInsufficientData : KError := 1010
def ErrUnsupportedRecordBatchVersion : KError := 1031
def ErrVariantOverflow : KError := 1032
def ErrTaggedFieldsInNonFlexibleContext : KError := 1033
def ErrInvalidStringLength : KError := 1034
def ErrUVariantOverflow : KError := 1035
def ErrInvalidArrayLength : KError := 1036
def ErrInvalidBool : KError := 1037
def ErrValidByteSliceLength : KError := 1038
def ErrPacketDecodingError : KError := 1041
def ErrEncodeError : KError := 1043
def ErrDecodeError : KError := 1044
def ErrCRCMismatch : KError := 1058
def ErrUnknownRecordsType : KError := 1059

inductive IsolationLevel where
  | ReadUncommitted
  | ReadCommitted
deriving DecidableEq, Repr

/-- Exceptions the code throws or lets the standard library throw. -/
inductive Thrown where
  /-- `PacketError`, which derives from `std::exception` directly. -/
  | packetError
  | runtimeError (what : String)
  | lengthError
  | badAlloc
deriving DecidableEq, Repr

/-- Every way a call ends without returning a value or an error code. -/
inductive Fault where
  | assertion
  | outOfBounds
  | emptyStack
  | nullPointer
  | overflow
  | divergence
  | thrown (exception : Thrown)
deriving DecidableEq, Repr

/-- A non-zero return code, or a fault. -/
inductive Failure where
  | code (err : KError)
  | fault (fault : Fault)
deriving DecidableEq, Repr

/-- `std::numeric_limits<int32_t>::max()`. -/
def int32Max : ℕ := 2147483647

/-- `std::numeric_limits<int16_t>::max()`. -/
def int16Max : ℕ := 32767

/-- `MaxRequestSize`, and `MaxResponseSize` with the same value. -/
def maxRequestSize : ℕ := 100 * 1024 * 1024
def maxResponseSize : ℕ := 100 * 1024 * 1024

variable {σ τ α : Type}

/-- `if (f(..) != 0) return err;`: any error code of the call becomes `err`. -/
def failWith (err : KError) (x : EStateM Failure σ α) : EStateM Failure σ α := fun s =>
  match x s with
  | .error (.code _) s' => .error (.code err) s'
  | result => result

/-- A call whose error code the caller drops: the out-parameter is then `spoiled`. -/
def ignoreCode (spoiled : α) (x : EStateM Failure σ α) : EStateM Failure σ α := fun s =>
  match x s with
  | .error (.code _) s' => .ok spoiled s'
  | result => result

/-- `finally(cleanup)`: the clean-up runs on every regular exit, its own result dropped. -/
def finally_ (cleanup : EStateM Failure σ Unit) (x : EStateM Failure σ α) : EStateM Failure σ α := fun s =>
  match x s with
  | .ok a s' =>
    match ignoreCode () cleanup s' with
    | .ok _ t => .ok a t
    | .error e t => .error e t
  | .error (.code err) s' =>
    match ignoreCode () cleanup s' with
    | .ok _ t => .error (.code err) t
    | .error e t => .error e t
  | .error (.fault f) s' => .error (.fault f) s'

def faultWith (f : Fault) : EStateM Failure σ α := throw (.fault f)

def failCode (err : KError) : EStateM Failure σ α := throw (.code err)

variable {x : EStateM Failure σ α} {s s' : σ} {err : KError}

theorem failWith_of_ok {a : α} (run : x s = .ok a s') : failWith err x s = .ok a s' := by
  simp only [failWith, run]

theorem failWith_of_fault {f : Fault} (run : x s = .error (.fault f) s') : failWith err x s = .error (.fault f) s' := by
  simp only [failWith, run]

theorem failWith_of_code {err c : KError} (run : x s = .error (.code c) s') :
    failWith err x s = .error (.code err) s' := by
  simp only [failWith, run]

/-- Renaming error codes changes no successful run. -/
theorem failWith_eq_ok_iff {a : α} : failWith err x s = .ok a s' ↔ x s = .ok a s' := by
  unfold failWith
  split
  · next h => simp [h]
  · exact Iff.rfl

theorem ignoreCode_of_ok {spoiled : α} {a : α} (run : x s = .ok a s') : ignoreCode spoiled x s = .ok a s' := by
  simp only [ignoreCode, run]

theorem ignoreCode_of_fault {spoiled : α} {f : Fault} (run : x s = .error (.fault f) s') :
    ignoreCode spoiled x s = .error (.fault f) s' := by
  simp only [ignoreCode, run]

theorem ignoreCode_of_code {spoiled : α} (run : x s = .error (.code err) s') :
    ignoreCode spoiled x s = .ok spoiled s' := by
  simp only [ignoreCode, run]

end Coev.Kafka

/-! # Codes of the broker and of the client, as the producers and consumers compare them -/

namespace Coev.Kafka

def INVALID : KError := -1
def ErrUnknownTopicOrPartition : KError := 3
def ErrLeaderNotAvailable : KError := 5
def ErrNotLeaderForPartition : KError := 6
def ErrRequestTimedOut : KError := 7
def ErrBrokerNotAvailable : KError := 8
def ErrOffsetMetadataTooLarge : KError := 12
def ErrOffsetsLoadInProgress : KError := 14
def ErrConsumerCoordinatorNotAvailable : KError := 15
def ErrNotCoordinatorForConsumer : KError := 16
def ErrIllegalGeneration : KError := 22
def ErrUnknownMemberId : KError := 25
def ErrInvalidCommitOffsetSize : KError := 28
def ErrTopicAuthorizationFailed : KError := 29
def ErrGroupAuthorizationFailed : KError := 30
def ErrUnsupportedVersion : KError := 35
def ErrInvalidPartitions : KError := 37
def ErrNotController : KError := 41
def ErrInvalidProducerIDMapping : KError := 49
def ErrConcurrentTransactions : KError := 51
def ErrOperationNotAttempted : KError := 55
def ErrUnknownProducerID : KError := 59
def ErrFencedInstancedId : KError := 82
def ErrIOEOF : KError := 1000
def ErrIncompleteResponse : KError := 1006
def ErrShuttingDown : KError := 1011
def ErrMessageTooLarge : KError := 1012
def ErrControllerNotAvailable : KError := 1015
def ErrReassignPartitions : KError := 1018
def ErrTxnOffsetCommit : KError := 1022
def ErrTransactionNotReady : KError := 1023
def ErrTransitionNotAllowed : KError := 1025
def ErrCannotTransitionNilError : KError := 1026
def ErrThrottled : KError := 1053

end Coev.Kafka

/-! # Versions of the Kafka protocol that the client is configured for -/

namespace Coev.Kafka

/-- `KafkaVersion`, its four components in order. -/
structure KafkaVersion where
  major : UInt32 := 0
  minor : UInt32 := 0
  veryMinor : UInt32 := 0
  patch : UInt32 := 0
deriving DecidableEq, Repr, Inhabited

namespace KafkaVersion

/-- One round of the loop of `IsAtLeast`; `rest` is the result of the rounds after it. -/
def isAtLeastFrom (mine other : UInt32) (rest : Bool) : Bool :=
  if mine > other then true else if mine < other then false else rest

/-- `KafkaVersion::IsAtLeast`. -/
def isAtLeast (v other : KafkaVersion) : Bool :=
  isAtLeastFrom v.major other.major (isAtLeastFrom v.minor other.minor
    (isAtLeastFrom v.veryMinor other.veryMinor (isAtLeastFrom v.patch other.patch true)))

end KafkaVersion

def V0_8_2_0 : KafkaVersion := ⟨0, 8, 2, 0⟩
def V0_9_0_0 : KafkaVersion := ⟨0, 9, 0, 0⟩
def V0_10_0_0 : KafkaVersion := ⟨0, 10, 0, 0⟩
def V0_10_2_0 : KafkaVersion := ⟨0, 10, 2, 0⟩
def V0_11_0_0 : KafkaVersion := ⟨0, 11, 0, 0⟩
def V1_0_0_0 : KafkaVersion := ⟨1, 0, 0, 0⟩
def V2_0_0_0 : KafkaVersion := ⟨2, 0, 0, 0⟩
def V2_1_0_0 : KafkaVersion := ⟨2, 1, 0, 0⟩
def V2_2_0_0 : KafkaVersion := ⟨2, 2, 0, 0⟩
def V2_3_0_0 : KafkaVersion := ⟨2, 3, 0, 0⟩
def V2_4_0_0 : KafkaVersion := ⟨2, 4, 0, 0⟩
def V2_5_0_0 : KafkaVersion := ⟨2, 5, 0, 0⟩
def V2_7_0_0 : KafkaVersion := ⟨2, 7, 0, 0⟩

end Coev.Kafka

/-! # Maps of the code and the keys it uses in them

`std::map` and `std::unordered_map` are extensional ordered maps here; where the code walks an unordered
map, nothing modelled depends on the order. A map from topics to a map from partitions is one map
keyed by both.
-/

namespace Coev.Kafka

/-- The topic and the partition of `TopicPartition` and `topic_t`. -/
abbrev TopicPartition := Bytes × Int32

instance : Ord TopicPartition := lexOrd

instance : Std.TransOrd TopicPartition := inferInstanceAs (Std.TransOrd (Bytes × Int32))

instance : Std.LawfulEqOrd TopicPartition := inferInstanceAs (Std.LawfulEqOrd (Bytes × Int32))

abbrev TopicPartitionMap (α : Type) := Std.ExtTreeMap TopicPartition α

end Coev.Kafka
