import Coev.Model.Kafka.ProduceRequest
import Coev.ToMathlib.Regex

/-! # API versions

A broker tells which versions of each request it takes. A request is made for the configured version, and its version is
lowered to what the broker takes when it is sent.
-/

namespace Coev.Kafka

structure ApiVersionRange where
  minVersion : Int16
  maxVersion : Int16
deriving DecidableEq, Repr

/-- `ApiVersionMap`: the ranges by API key. -/
abbrev ApiVersionMap := Std.ExtTreeMap Int16 ApiVersionRange

/-- The version that `RestrictApiVersion` selects. -/
def ApiVersionRange.selected (range : ApiVersionRange) (clientMax : Int16) : Int16 :=
  min clientMax (max range.minVersion (min clientMax range.maxVersion))

def apiKeyProduce : Int16 := 0
def apiKeyMetadata : Int16 := 3
def apiKeySaslHandshake : Int16 := 17
def apiKeyApiVersions : Int16 := 18
def apiKeySASLAuth : Int16 := 36

/-- `RestrictApiVersion` of a request with this key and version: the version that `set_version` gives it. -/
def restrictApiVersion (key clientMax : Int16) (brokerVersions : ApiVersionMap) : Int16 :=
  match brokerVersions[key]? with
  | some range => range.selected clientMax
  | none => clientMax

/-- `SendInternal` restricts the version of a request before it is encoded. -/
def ProduceRequest.restricted (req : ProduceRequest) (brokerVersions : ApiVersionMap) : ProduceRequest :=
  { req with version := restrictApiVersion apiKeyProduce req.version brokerVersions }

/-! ## The answer that tells the versions -/

open PacketDecoder PacketEncoder DecodeInto

/-- `ApiVersionsResponseKey`; nothing uses its own version. -/
structure ApiVersionsResponseKey where
  apiKey : Int16 := 0
  minVersion : Int16 := 0
  maxVersion : Int16 := 0
deriving DecidableEq, Repr

namespace ApiVersionsResponseKey

def encode (version : Int16) (block : ApiVersionsResponseKey) : Encode Unit := do
  putInt16 block.apiKey
  putInt16 block.minVersion
  putInt16 block.maxVersion
  inVersions (3 ≤ version) putEmptyTaggedFieldArray

def decode (version : Int16) : DecodeInto ApiVersionsResponseKey Unit := failWith ErrDecodeError do
  intField getInt16 fun apiKey block => { block with apiKey }
  intField getInt16 fun minVersion block => { block with minVersion }
  intField getInt16 fun maxVersion block => { block with maxVersion }
  inVersions (3 ≤ version) (read getEmptyTaggedFieldArray)

end ApiVersionsResponseKey

structure ApiVersionsResponse where
  version : Int16 := 0
  code : Int16 := 0
  apiKeys : List ApiVersionsResponseKey := []
  throttleTime : Int64 := 0
deriving DecidableEq, Repr

namespace ApiVersionsResponse

def IsValidVersion (version : Int16) : Prop := 0 ≤ version ∧ version ≤ 3
deriving Decidable

def isFlexibleVersion (version : Int16) : Bool := 3 ≤ version

def encodeKeys (r : ApiVersionsResponse) : Encode Unit := do
  putArrayLength (Int32.ofNat r.apiKeys.length)
  r.apiKeys.forM (ApiVersionsResponseKey.encode r.version)

/-- What stands behind the ranges. -/
def encodeTail (r : ApiVersionsResponse) : Encode Unit := do
  inVersions (1 ≤ r.version) (putDurationMs r.throttleTime)
  inVersions (3 ≤ r.version) putEmptyTaggedFieldArray

def encode (r : ApiVersionsResponse) : Encode Unit := failWith ErrEncodeError do
  putInt16 r.code
  r.encodeKeys
  r.encodeTail

def downgradeFlexibleDecoder : Decode Unit := fun pd => if pd.flexible = 0 then .ok () pd else popFlexible pd

def decodeKeys (version : Int16) : DecodeInto ApiVersionsResponse Unit := do
  let numApiKeys ← read getArrayLength
  part apiKeys (fun apiKeys r => { r with apiKeys }) (resized {} numApiKeys (ApiVersionsResponseKey.decode version))

def decodeTail (version : Int16) : DecodeInto ApiVersionsResponse Unit := do
  inVersions (1 ≤ version) (durationField fun throttleTime r => { r with throttleTime })
  inVersions (3 ≤ version) (read getEmptyTaggedFieldArray)

/-- Behind the code everything goes by the version that the object has then. -/
def decodeBody : DecodeInto ApiVersionsResponse Unit := do
  let r ← onObject get
  decodeKeys r.version
  decodeTail r.version

/-- An answer that does not support the version of the request is one of version 0. -/
def downgrade : DecodeInto ApiVersionsResponse Unit := do
  let r ← onObject get
  if r.code.toInt = ErrUnsupportedVersion then do
    update ({ · with version := 0 })
    read downgradeFlexibleDecoder

def decode (version : Int16) : DecodeInto ApiVersionsResponse Unit := failWith ErrDecodeError do
  update ({ · with version })
  intField getInt16 fun code r => { r with code }
  downgrade
  decodeBody

end ApiVersionsResponse

/-! ## Versions: their second comparison, and how they are printed and parsed

`IsAtLeast` and `operator>=` both say whether one version is at least another.
-/

def DefaultVersion : KafkaVersion := ⟨2, 1, 0, 0⟩

namespace KafkaVersion

/-- `operator>=`. -/
def ge (v o : KafkaVersion) : Bool :=
  v.major ≥ o.major || (v.major = o.major && v.minor ≥ o.minor) || (v.minor = o.minor && v.veryMinor ≥ o.veryMinor) ||
    (v.veryMinor = o.veryMinor && v.patch ≥ o.patch)

def period : UInt8 := 46

/-- `String`, which prints the patch only of a version 0. -/
def string (v : KafkaVersion) : List UInt8 :=
  if v.major = 0 then
    [Decimal.digit 0, period] ++ (Decimal.ofNat v.minor.toNat ++ ([period] ++ (Decimal.ofNat v.veryMinor.toNat ++
      ([period] ++ Decimal.ofNat v.patch.toNat))))
  else
    Decimal.ofNat v.major.toNat ++ ([period] ++ (Decimal.ofNat v.minor.toNat ++ ([period] ++
      Decimal.ofNat v.veryMinor.toNat)))

end KafkaVersion

open KafkaVersion (period)

open Regex in
def validPreKafka1Version : Regex UInt8 :=
  seq start (seq (literal [Decimal.digit 0, period]) (seq (some Decimal.isDigit) (seq (literal [period])
    (seq (some Decimal.isDigit) (seq (literal [period]) (seq (some Decimal.isDigit) finish))))))

open Regex in
def validPostKafka1Version : Regex UInt8 :=
  seq start (seq (some Decimal.isDigit) (seq (literal [period]) (seq (some Decimal.isDigit) (seq (literal [period])
    (seq (some Decimal.isDigit) finish)))))

/-- What a format of `sscanf` asks for: a byte of the text, or `%u`. -/
inductive Conversion where
  | text (c : UInt8)
  | unsigned
deriving DecidableEq, Repr

/-- The numbers that `sscanf` assigns, up to the first mismatch. -/
def sscanf : List Conversion → List UInt8 → List ℕ
  | [], _ => []
  | .text c :: format, s => if s.head? = some c then sscanf format s.tail else []
  | .unsigned :: format, s =>
    if s.takeWhile Decimal.isDigit = [] then []
    else Decimal.toNat (s.takeWhile Decimal.isDigit) :: sscanf format (s.dropWhile Decimal.isDigit)

/-- A number as a `uint`; there is none where `sscanf` is asked for more than fits. -/
def uint (n : ℕ) : Option UInt32 := if n < 2 ^ 32 then some (UInt32.ofNat n) else none

/-- `ParseKafkaVersion`; `none` where a number does not fit, which is undefined. -/
def ParseKafkaVersion (s : List UInt8) : Option KafkaVersion :=
  if s.length < 5 then some DefaultVersion
  else if s.head? = some (Decimal.digit 0) then
    if !validPreKafka1Version.fullMatch s then some DefaultVersion
    else do
      let numbers := sscanf [.text (Decimal.digit 0), .text period, .unsigned, .text period, .unsigned, .text period,
        .unsigned] s
      return ⟨0, ← uint (numbers.getD 0 0), ← uint (numbers.getD 1 0), ← uint (numbers.getD 2 0)⟩
  else
    if !validPostKafka1Version.fullMatch s then some DefaultVersion
    else do
      let numbers := sscanf [.unsigned, .text period, .unsigned, .text period, .unsigned] s
      return ⟨← uint (numbers.getD 0 0), ← uint (numbers.getD 1 0), ← uint (numbers.getD 2 0), 0⟩

end Coev.Kafka
