import Coev.Model.Kafka.ApiVersions
import Coev.Model.Kafka.Request

/-! # SASL/PLAIN

The first version of the handshake copies the parts of the message into a buffer, the second one concatenates strings. A
string literal that is appended ends at its first NUL.
-/

namespace Coev.Kafka

open ByteString

/-- The members of `Net.SASL` that are used. -/
structure SaslConfig where
  authIdentity : Bytes := []
  user : Bytes := []
  password : Bytes := []

/-- The message of the mechanism: the parts with a NUL between any two. -/
def SaslConfig.message (sasl : SaslConfig) : Bytes := sasl.authIdentity ++ 0 :: sasl.user ++ 0 :: sasl.password

structure SaslAuthenticateRequest where
  version : Int16 := 0
  saslAuthBytes : Bytes := []
deriving DecidableEq

namespace SaslAuthenticateRequest

/-- The constructor from a configuration and a message. -/
def ofMessage (conf : KafkaVersion) (msg : Bytes) : SaslAuthenticateRequest where
  saslAuthBytes := msg
  version := if conf.isAtLeast V2_2_0_0 then 1 else 0

end SaslAuthenticateRequest

/-- The four bytes of a length, as they are shifted out of it. -/
def lengthBytes (len : UInt32) : Bytes := [(len >>> 24).toUInt8, (len >>> 16).toUInt8, (len >>> 8).toUInt8, len.toUInt8]

/-- `memcpy` to an offset that moves behind what is copied. -/
def copyTo (written : Bytes × ℕ) (s : Bytes) : Bytes × ℕ := (overlay written.1 written.2 s, written.2 + s.length)

/-- What `SendAndReceiveSASLPlainAuthV0` writes. -/
def plainAuthV0 (sasl : SaslConfig) : Bytes :=
  let length := sasl.authIdentity.length + 1 + sasl.user.length + 1 + sasl.password.length
  let authBytes := overlay (List.replicate (length + 4) 0) 0 (lengthBytes (UInt32.ofNat length))
  ([sasl.authIdentity, [0], sasl.user, [0], sasl.password].foldl copyTo (authBytes, 4)).1

/-- A string literal as `operator+` reads it. -/
def cString (literal : Bytes) : Bytes := literal.takeWhile (· ≠ 0)

/-- `"\x00"`, with the NUL that ends it. -/
def nulLiteral : Bytes := [0, 0]

/-- The request of `SendAndReceiveSASLPlainAuthV1`, as `DefaultAuthSendReceiver` makes it. -/
def plainAuthV1 (conf : KafkaVersion) (sasl : SaslConfig) : SaslAuthenticateRequest :=
  .ofMessage conf
    (sasl.authIdentity ++ cString nulLiteral ++ sasl.user ++ cString nulLiteral ++ sasl.password)

end Coev.Kafka

/-! # The exchanges of SASL
`AuthenticateViaSASLv0` and `AuthenticateViaSASLv1` on a connection that takes so many writes and whose server sends a
stream of bytes. The client of a SCRAM mechanism and the provider of tokens come with the configuration. The time to
authenticate again is never set, so no call of `SendAndReceive` authenticates first.
-/

namespace Coev.Kafka

open PacketDecoder PacketEncoder DecodeInto ByteString

def ErrCorrelationID : KError := 1063

/-! ## Messages -/

inductive SaslBody where
  | handshake (version : Int16) (mechanism : Bytes)
  | authenticate (request : SaslAuthenticateRequest)
deriving DecidableEq

/-- `SaslHandshakeRequest` and `SaslAuthenticateRequest`. -/
def saslBodies : ProtocolBodies SaslBody where
  key
    | .handshake _ _ => apiKeySaslHandshake
    | .authenticate _ => apiKeySASLAuth
  version
    | .handshake version _ => version
    | .authenticate request => request.version
  headerVersion _ := 1
  isFlexibleVersion _ _ := false
  encode
    | .handshake version mechanism => do
      putString mechanism
      return .handshake version mechanism
    | .authenticate request => do
      putBytes request.saslAuthBytes
      return .authenticate request
  decode version := fun (body, pd) =>
    match body with
    | .handshake _ _ => field getString (fun mechanism _ => .handshake version mechanism) (body, pd)
    | .authenticate _ => field getBytes (fun bytes _ => .authenticate ⟨version, bytes⟩) (body, pd)
  make key version := if key = apiKeySaslHandshake then .handshake version [] else .authenticate { version }

structure SaslHandshakeResponse where
  err : Int16 := 0
  enabledMechanisms : List Bytes := []
deriving DecidableEq, Repr

def SaslHandshakeResponse.decode : DecodeInto SaslHandshakeResponse Unit := do
  errField fun err r => { r with err }
  field getStringArray fun enabledMechanisms r => { r with enabledMechanisms }

structure SaslAuthenticateResponse where
  err : Int16 := 0
  saslAuthBytes : Bytes := []
  sessionLifetimeMs : Int64 := 0
deriving DecidableEq, Repr

/-- The message goes into a local variable. -/
def SaslAuthenticateResponse.decode (version : Int16) : DecodeInto SaslAuthenticateResponse Unit := do
  errField fun err r => { r with err }
  let _ ← read getNullableString
  field getBytes fun saslAuthBytes r => { r with saslAuthBytes }
  inVersions (0 < version) (field getInt64 fun sessionLifetimeMs r => { r with sessionLifetimeMs })

/-! ## What comes with the configuration -/

/-- `SCRAMClient`: the codes of its calls, and the response of `Step`. -/
structure ScramClient (ς : Type) where
  begin_ : Bytes → Bytes → Bytes → ς → KError × ς
  step : Bytes → ς → KError × Bytes × ς
  done : ς → Bool

structure AccessToken where
  token : Bytes
  extensions : Std.ExtTreeMap Bytes Bytes := ∅

/-- The members of `Config` that are used; `scram` is what `ScramClientGeneratorFunc` makes, and `token` what `Token`
returns. -/
structure SaslConf (ς : Type) where
  mechanism : Bytes
  version : Int16 := 1
  handshake : Bool := true
  sasl : SaslConfig := {}
  scramAuthzID : Bytes := []
  client : ScramClient ς
  scram : ς
  token : KError × Option AccessToken := (ErrNoError, none)
  clientID : Bytes := []
  kafkaVersion : KafkaVersion := {}
  brokerVersions : ApiVersionMap := ∅

def saslText (s : String) : Bytes := s.toUTF8.data.toList

def SaslConf.isScram {ς : Type} (conf : SaslConf ς) : Prop :=
  conf.mechanism = saslText "SCRAM-SHA-256" ∨ conf.mechanism = saslText "SCRAM-SHA-512"
deriving Decidable

/-! ## The connection -/

/-- How many writes the connection takes, what the server sends and what was written, and the client. `requests` counts
the frames written, and `challenges` are what `Step` was given behind its first call. -/
structure SaslLink (ς : Type) where
  stream : Bytes
  writable : ℕ
  correlationId : Int32 := 0
  scram : ς
  written : Bytes := []
  requests : ℕ := 0
  challenges : List Bytes := []

abbrev Sasl (ς : Type) := EStateM Failure (SaslLink ς)

namespace Sasl

variable {ς : Type} (conf : SaslConf ς)

/-- `Write`; nothing is sent of no bytes. -/
def write (buf : Bytes) : Sasl ς Unit := fun s =>
  if buf = [] then .ok () s
  else if s.writable = 0 then .error (.code ErrIOEOF) s
  else .ok () { s with writable := s.writable - 1, written := s.written ++ buf }

/-- A whole request was written. -/
def requested : Sasl ς Unit := modify fun s => { s with requests := s.requests + 1 }

/-- `m_correlation_id++`. -/
def nextCorrelation : Sasl ς Unit := modify fun s => { s with correlationId := s.correlationId + 1 }

/-- `ReadFull`: so many bytes, or the end of the stream. -/
def readFull (n : ℕ) : Sasl ς Bytes := fun s =>
  if s.stream.length < n then .error (.code INVALID) { s with stream := [] }
  else .ok (s.stream.take n) { s with stream := s.stream.drop n }

/-- The frame of a request. -/
def frame (correlationId : Int32) (body : SaslBody) : Except Failure Bytes :=
  RequestContents.frame saslBodies { correlationId, clientId := conf.clientID, body }

/-- `encode` and `Write`; the code of `encode` is dropped, and nothing is written then. -/
def sendFrame (body : SaslBody) : Sasl ς Unit := do
  match frame conf (← get).correlationId body with
  | .ok buf => do
    write buf
    requested
  | .error (.code _) => return ()
  | .error (.fault f) => faultWith f

/-! ## The first version -/

/-- `(header[0] << 24) | (header[1] << 16) | (header[2] << 8) | header[3]` as a `uint32_t`. -/
def headerLength (header : Bytes) : UInt32 := (signedWord header).toUInt32

def sendAndReceiveSASLHandshake (saslType : Bytes) (version : Int16) : Sasl ς Unit := do
  sendFrame conf (.handshake version saslType)
  nextCorrelation
  let header ← readFull 8
  let payload ← readFull (headerLength header - 4).toNat
  match decodeVersion false SaslHandshakeResponse.decode payload {} with
  | .ok () res => if res.err ≠ 0 then failCode res.err.toInt
  | .error failure _ => throw failure

def sendAndReceiveSASLPlainAuthV0 : Sasl ς Unit := do
  if conf.handshake then sendAndReceiveSASLHandshake conf (saslText "PLAIN") conf.version
  write (plainAuthV0 conf.sasl)
  requested
  let _ ← readFull 4

def begin_ : Sasl ς Unit := fun s =>
  let (err, scram) := conf.client.begin_ conf.sasl.user conf.sasl.password conf.scramAuthzID s.scram
  if err ≠ 0 then .error (.code err) { s with scram } else .ok () { s with scram }

def step (challenge : Bytes) : Sasl ς Bytes := fun s =>
  let (err, response, scram) := conf.client.step challenge s.scram
  if err ≠ 0 then .error (.code err) { s with scram } else .ok response { s with scram }

/-- `Step`, of an answer. -/
def stepAnswer (challenge : Bytes) : Sasl ς Bytes := do
  modify fun s => { s with challenges := s.challenges ++ [challenge] }
  step conf challenge

/-- The loop of either version until the client is done; an exchange takes bytes of the stream. -/
def rounds (exchange : Bytes → Sasl ς Bytes) : ℕ → Bytes → Sasl ς Unit
  | 0, _ => faultWith .divergence
  | fuel + 1, msg => do
    if conf.client.done (← get).scram then return ()
    else
      let answer ← exchange msg
      let msg ← stepAnswer conf answer
      rounds exchange fuel msg

def scramRounds (exchange : Bytes → Sasl ς Bytes) (msg : Bytes) : Sasl ς Unit := do
  rounds conf exchange ((← get).stream.length + 1) msg

/-- A round of the first version. -/
def exchangeV0 (msg : Bytes) : Sasl ς Bytes := do
  write (lengthBytes (UInt32.ofNat msg.length))
  write msg
  requested
  nextCorrelation
  let header ← readFull 4
  readFull (headerLength header).toNat

def sendAndReceiveSASLSCRAMv0 : Sasl ς Unit := do
  sendAndReceiveSASLHandshake conf conf.mechanism 0
  modify fun s => { s with scram := conf.scram }
  failWith 1 (begin_ conf)
  let msg ← failWith 1 (step conf [])
  scramRounds conf exchangeV0 msg

/-- `SendAndReceiveKerberos`: nothing makes the authenticator that is pointed to. -/
def sendAndReceiveKerberos : Sasl ς Unit := faultWith .nullPointer

def authenticateViaSASLv0 : Sasl ς Unit :=
  if conf.isScram then sendAndReceiveSASLSCRAMv0 conf
  else if conf.mechanism = saslText "GSSAPI" then sendAndReceiveKerberos
  else sendAndReceiveSASLPlainAuthV0 conf

/-! ## The second version -/

/-- `SendInternal`, with the version restricted; the correlation id of the request. -/
def sendInternal (body : SaslBody) : Sasl ς Int32 := do
  let correlationId := (← get).correlationId
  sendFrame conf <| match body with
    | .handshake version mechanism =>
        .handshake (restrictApiVersion apiKeySaslHandshake version conf.brokerVersions) mechanism
    | .authenticate request =>
      .authenticate { request with version := restrictApiVersion apiKeySASLAuth request.version conf.brokerVersions }
  nextCorrelation
  return correlationId

/-- `decode` of the promise. -/
def decodeResponse (version : Int16) (body : Bytes) (response : SaslAuthenticateResponse) :
    Sasl ς SaslAuthenticateResponse :=
  match decodeVersion false (SaslAuthenticateResponse.decode version) body response with
  | .ok () response => return response
  | .error (.code _) _ => failCode ErrDecodeError
  | .error (.fault f) _ => faultWith f

/-- `ResponseReceiver` and the decoding behind it; `resize` throws when the length is less than four. -/
def responseReceiver (version : Int16) (correlationId : Int32) : Sasl ς SaslAuthenticateResponse := do
  let header ← readFull 8
  let length := Int32.ofNat (value (header.take 4))
  if Int32.ofNat (value (header.drop 4)) ≠ correlationId then failCode ErrCorrelationID
  else if length.toInt < 4 then faultWith (.thrown .lengthError)
  else
    let body ← readFull (length.toInt - 4).toNat
    let response ← decodeResponse version body {}
    decodeResponse version body response

def defaultAuthSendReceiver (authBytes : Bytes) : Sasl ς SaslAuthenticateResponse := do
  let request := SaslAuthenticateRequest.ofMessage conf.kafkaVersion authBytes
  let correlationId ← sendInternal conf (.authenticate request)
  responseReceiver (restrictApiVersion apiKeySASLAuth request.version conf.brokerVersions) correlationId

/-- The lambda of `AuthenticateViaSASLv1`: the response is assigned to its own copy of the pointer. -/
def authSendReceiver (authBytes : Bytes) (res : SaslAuthenticateResponse) : Sasl ς SaslAuthenticateResponse := do
  let _ ← defaultAuthSendReceiver conf authBytes
  return res

def sendAndReceiveSASLPlainAuthV1 : Sasl ς Unit := do
  let _ ← authSendReceiver conf (plainAuthV1 conf.kafkaVersion conf.sasl).saslAuthBytes {}

def mapToString (extensions : Std.ExtTreeMap Bytes Bytes) (keyValSep elemSep : Bytes) : Bytes :=
  let buf := extensions.toList.map fun (key, value) => key ++ keyValSep ++ value
  elemSep.intercalate (buf.mergeSort fun a b => decide (a ≤ b))

/-- `BuildClientFirstMessage`; in the literal `"n,,\x01auth=Bearer "` the escape takes the letter behind it. -/
def buildClientFirstMessage : Option AccessToken → Except KError Bytes
  | none => .error 1
  | some token =>
    if saslText "auth" ∈ token.extensions then .error 1
    else
      let ext := if token.extensions.isEmpty then [] else 1 :: mapToString token.extensions (saslText "=") [1]
      .ok (saslText "n,," ++ 0x1a :: saslText "uth=Bearer " ++ token.token ++ ext ++ [1, 1])

def sendAndReceiveSASLOAuth : Sasl ς Unit := do
  let (err, token) := conf.token
  if err ≠ ErrNoError then failCode err
  else
    match buildClientFirstMessage token with
    | .error err => failCode err
    | .ok message => do
      let res ← authSendReceiver conf message {}
      if res.saslAuthBytes ≠ [] then
        let _ ← authSendReceiver conf [1] res

/-- A round of the second version, for the response of the caller. -/
def exchangeV1 (res : SaslAuthenticateResponse) (msg : Bytes) : Sasl ς Bytes := do
  let res ← authSendReceiver conf msg res
  return res.saslAuthBytes

def sendAndReceiveSASLSCRAMv1 : Sasl ς Unit := do
  modify fun s => { s with scram := conf.scram }
  begin_ conf
  let msg ← step conf []
  scramRounds conf (exchangeV1 conf {}) msg

/-- The handshake of the second version looks at the code of a response that is not received. -/
def handshakeV1 : Sasl ς Unit := do
  let _ ← sendInternal conf (.handshake conf.version conf.mechanism)
  if ({} : SaslHandshakeResponse).err ≠ 0 then failCode ({} : SaslHandshakeResponse).err.toInt

def authenticateViaSASLv1 : Sasl ς Unit := do
  if conf.handshake then handshakeV1 conf
  if conf.mechanism = saslText "GSSAPI" then sendAndReceiveKerberos
  else if conf.mechanism = saslText "OAUTHBEARER" then sendAndReceiveSASLOAuth conf
  else if conf.isScram then sendAndReceiveSASLSCRAMv1 conf
  else sendAndReceiveSASLPlainAuthV1 conf

end Sasl

end Coev.Kafka
