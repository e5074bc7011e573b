import Coev.Model.Kafka.SaslExchange

/-! # Agreement of the handshakes

The two versions never send the same message: the second one has no NUL between its parts.
-/

namespace Coev.Kafka

open ByteString

/-- Copies one behind the other are one copy. -/
theorem foldl_copyTo {buf : Bytes} {start : ℕ} {parts : List Bytes} (fits : start + parts.flatten.length ≤ buf.length) :
    parts.foldl copyTo (buf, start) = (overlay buf start parts.flatten, start + parts.flatten.length) := by
  induction parts using List.reverseRecOn with
  | nil => rw [List.foldl_nil, List.flatten_nil, overlay_nil, List.length_nil, Nat.add_zero]
  | append_singleton parts last ih =>
    rw [List.flatten_append, List.flatten_singleton] at fits ⊢
    rw [List.length_append] at fits
    rw [List.foldl_append, ih (by omega), List.foldl_cons, List.foldl_nil, copyTo, overlay_overlay_append (by omega),
      List.length_append, Nat.add_assoc]

/-- The first version sends the message behind its length. -/
theorem plainAuthV0_eq (sasl : SaslConfig) :
    plainAuthV0 sasl = lengthBytes (UInt32.ofNat sasl.message.length) ++ sasl.message := by
  have message : [sasl.authIdentity, [0], sasl.user, [0], sasl.password].flatten = sasl.message := by
    simp only [List.flatten_cons, List.flatten_nil, SaslConfig.message, List.append_assoc, List.cons_append, List.nil_append,
      List.append_nil]
  have length : sasl.message.length = sasl.authIdentity.length + 1 + sasl.user.length + 1 + sasl.password.length := by
    simp only [SaslConfig.message, List.length_append, List.length_cons]
    omega
  have room : (List.replicate (sasl.message.length + 4) (0 : UInt8)).length = sasl.message.length + 4 :=
    List.length_replicate
  have header : (lengthBytes (UInt32.ofNat sasl.message.length)).length = 4 := rfl
  have whole :
      (overlay (List.replicate (sasl.message.length + 4) 0) 0 (lengthBytes (UInt32.ofNat sasl.message.length))).length =
      sasl.message.length + 4 := by
    rw [length_overlay (by omega), room]
  have joined := @overlay_overlay_append _ (List.replicate (sasl.message.length + 4) 0)
    (lengthBytes (UInt32.ofNat sasl.message.length)) sasl.message 0 (by omega)
  rw [header, Nat.zero_add] at joined
  rw [plainAuthV0, ← length, foldl_copyTo (by rw [message, whole]; omega), message, joined, overlay_all]
  rw [List.length_append]
  omega

private theorem plainAuthV1_eq (conf : KafkaVersion) (sasl : SaslConfig) :
    (plainAuthV1 conf sasl).saslAuthBytes = sasl.authIdentity ++ sasl.user ++ sasl.password := by
  have nothing : cString nulLiteral = [] := rfl
  rw [plainAuthV1, SaslAuthenticateRequest.ofMessage, nothing, List.append_nil, List.append_nil]

/-- The message of the second version lacks the two NULs. -/
theorem saslPlain_disagree (conf : KafkaVersion) (sasl : SaslConfig) :
    (plainAuthV0 sasl).drop 4 = sasl.message ∧ (plainAuthV1 conf sasl).saslAuthBytes ≠ (plainAuthV0 sasl).drop 4 := by
  have message : (plainAuthV0 sasl).drop 4 = sasl.message := by
    rw [plainAuthV0_eq]
    exact List.drop_left' rfl
  refine ⟨message, ?_⟩
  rw [message, plainAuthV1_eq]
  intro same
  have length := congrArg List.length same
  simp only [SaslConfig.message, List.length_append, List.length_cons] at length
  omega

theorem saslPlain_alice : (plainAuthV0 { user := [97], password := [112] }).drop 4 = [0, 97, 0, 112] ∧
      (plainAuthV1 V1_0_0_0 { user := [97], password := [112] }).saslAuthBytes = [97, 112] ∧
      (plainAuthV1 V1_0_0_0 { user := [97], password := [112] }).saslAuthBytes ≠
        (plainAuthV0 { user := [97], password := [112] }).drop 4 := by
  decide

end Coev.Kafka

/-! # What the exchanges of SASL read, and what they make of it
Every request has an answer, which is a frame of the stream: the handshake, a bare token of the first version, or a
response of the second one. The exchanges are faithful as long as no handshake is made in the second version, every
length comes out of its bytes as it was announced, and no answer of the second version says anything but that the
request was accepted.
-/

namespace Coev.Kafka

open EStateM ByteString

variable {ς : Type}
variable {stream : Bytes}

/-! ## The frames of a stream -/

/-- The length of the frame in front. -/
def announced (stream : Bytes) : ℕ := value (stream.take 4)

/-- The contents of the frame in front. -/
def answer (stream : Bytes) : Bytes := (stream.drop 4).take (announced stream)

/-- What is behind the frame in front. -/
def behind (stream : Bytes) : Bytes := (stream.drop 4).drop (announced stream)

/-- The frame in front is there as a whole. -/
def Arrives (stream : Bytes) : Prop := 4 + announced stream ≤ stream.length

/-- The stream from a frame on. -/
def fromFrame (stream : Bytes) (i : ℕ) : Bytes := behind^[i] stream

private theorem fromFrame_succ (stream : Bytes) (i : ℕ) : fromFrame stream (i + 1) = behind (fromFrame stream i) :=
  Function.iterate_succ_apply' behind i stream

private theorem announced_lt (stream : Bytes) : announced stream < 2 ^ 32 := by
  have short : (stream.take 4).length ≤ 4 := List.length_take_le 4 stream
  exact (value_lt _).trans_le (Nat.pow_le_pow_right (n := 256) (by decide) short)

/-- Nothing comes behind the end of the stream. -/
theorem fromFrame_of_end {n i : ℕ} (ends : fromFrame stream n = []) (later : n ≤ i) : fromFrame stream i = [] := by
  obtain ⟨d, rfl⟩ := Nat.exists_eq_add_of_le later
  have fixed : behind^[d] [] = [] := Function.iterate_fixed rfl d
  rw [fromFrame, Nat.add_comm, Function.iterate_add_apply]
  exact (congrArg _ ends).trans fixed

private theorem behind_eq_drop (stream : Bytes) : behind stream = stream.drop (4 + announced stream) := List.drop_drop

private theorem behind_eq_nil (short : stream.length ≤ 4 + announced stream) : behind stream = [] := by
  rw [behind_eq_drop]
  exact List.drop_eq_nil_of_le short

private theorem answer_length (arrives : Arrives stream) : (answer stream).length = announced stream := by
  rw [answer, List.length_take, List.length_drop]
  exact Nat.min_eq_left (Nat.le_sub_of_add_le' arrives)

/-- The two functions. -/
inductive SaslVersion where
  | v0
  | v1
deriving DecidableEq, Repr

/-- What a frame is an answer to. -/
inductive SaslAnswer where
  | handshake
  | token
  | response (version : Int16)
deriving DecidableEq, Repr

namespace SaslAnswer

/-- The body of an answer behind its correlation id. -/
def decoded {σ : Type} (decode : DecodeInto σ Unit) (fresh : σ) (contents : Bytes) : Option σ :=
  if 4 < contents.length then
    match decodeVersion false decode (contents.drop 4) fresh with
    | .ok () r => some r
    | .error _ _ => none
  else none

private theorem decoded_ok {σ : Type} {decode : DecodeInto σ Unit} {fresh r : σ} {contents : Bytes}
    (body : 4 < contents.length)
    (decodes : decodeVersion false decode (contents.drop 4) fresh = .ok () r) :
    decoded decode fresh contents = some r := by
  rw [decoded, if_pos body, decodes]

private theorem decoded_error {σ : Type} {decode : DecodeInto σ Unit} {fresh r : σ} {contents : Bytes} {failure : Failure}
    (refuses : decodeVersion false decode (contents.drop 4) fresh = .error failure r) :
    decoded decode fresh contents = none := by
  rw [decoded, refuses]
  split <;> rfl

/-- The code of an answer. -/
def err (contents : Bytes) : SaslAnswer → Option KError
  | .handshake => (decoded SaslHandshakeResponse.decode {} contents).map fun r => r.err.toInt
  | .token => some ErrNoError
  | .response version => (decoded (SaslAuthenticateResponse.decode version) {} contents).map fun r => r.err.toInt

/-- The token of an answer. -/
def saslAuthBytes (contents : Bytes) : SaslAnswer → Option Bytes
  | .handshake => none
  | .token => some contents
  | .response version =>
      (decoded (SaslAuthenticateResponse.decode version) {} contents).map SaslAuthenticateResponse.saslAuthBytes

end SaslAnswer

namespace SaslConf

variable (conf : SaslConf ς)

/-- Whether the first request is a handshake. -/
def handshakes : SaslVersion → Bool
  | .v0 => conf.isScram ∨ conf.mechanism ≠ saslText "GSSAPI" ∧ conf.handshake = true
  | .v1 => conf.handshake

/-- The version of the responses. -/
def responseVersion : Int16 :=
  restrictApiVersion apiKeySASLAuth (SaslAuthenticateRequest.ofMessage conf.kafkaVersion []).version conf.brokerVersions

/-- What the frames are answers to. -/
def role (v : SaslVersion) (i : ℕ) : SaslAnswer :=
  if conf.handshakes v = true ∧ i = 0 then .handshake
  else
    match v with
    | .v0 => .token
    | .v1 => .response conf.responseVersion

/-- The server accepts a step; a token of the mechanism OAUTHBEARER is a challenge. -/
def Accepts (v : SaslVersion) (i : ℕ) (contents : Bytes) : Prop :=
  (conf.role v i).err contents = some ErrNoError ∧
    (v = .v1 → conf.mechanism = saslText "OAUTHBEARER" → (conf.role v i).saslAuthBytes contents = some [])

/-- What `Step` was given are the tokens of the answers. -/
def Told (v : SaslVersion) (s t : SaslLink ς) : Prop :=
  ∀ (j : ℕ) (challenge : Bytes), t.challenges[j]? = some challenge →
    ∃ i, i = j + (conf.handshakes v).toNat ∧ Arrives (fromFrame s.stream i) ∧
      (conf.role v i).saslAuthBytes (answer (fromFrame s.stream i)) = some challenge

/-- The handshake's answer carries a code. -/
def Refused (v : SaslVersion) (s t : SaslLink ς) (err : KError) : Prop :=
  conf.handshakes v = true ∧ 1 ≤ t.requests ∧ Arrives s.stream ∧ SaslAnswer.handshake.err (answer s.stream) = some err ∧
    err ≠ ErrNoError

/-- One whole frame is read for each request, `Step` is given the tokens, the code of the handshake is returned, and
success is that the server accepted every step. -/
structure Faithful (v : SaslVersion) (s : SaslLink ς) (result : Result Failure (SaslLink ς) Unit) : Prop where
  reads : result.state.stream = fromFrame s.stream result.state.requests
  told : conf.Told v s result.state
  refused : ∀ err, conf.Refused v s result.state err → result = .error (.code err) result.state
  accepted : result.returned = some () → ∀ i < result.state.requests,
    Arrives (fromFrame s.stream i) ∧ conf.Accepts v i (answer (fromFrame s.stream i))

/-! ## The requests of an exchange -/

/-- How many writes some buffers take; nothing is sent of an empty one. -/
def writes (bufs : List Bytes) : ℕ := bufs.countP (· ≠ [])

/-- The handshake. -/
def handshakeBody : SaslVersion → SaslBody
  | .v0 => if conf.isScram then .handshake 0 conf.mechanism else .handshake conf.version (saslText "PLAIN")
  | .v1 => .handshake (restrictApiVersion apiKeySaslHandshake conf.version conf.brokerVersions) conf.mechanism

/-- What a body is written in. -/
def framed (correlationId : Int32) (body : SaslBody) : Except Failure (List Bytes) :=
  (Sasl.frame conf correlationId body).map ([·])

/-- What a message is written in as the request `i`. -/
def buffers (v : SaslVersion) (s : SaslLink ς) (i : ℕ) (msg : Bytes) : Except Failure (List Bytes) :=
  match v with
  | .v0 => .ok [lengthBytes (UInt32.ofNat msg.length), msg]
  | .v1 => conf.framed (s.correlationId + Int32.ofNat i) (.authenticate ⟨conf.responseVersion, msg⟩)

/-- What the message of `PLAIN` is written in as the request `i`. -/
def plainBuffers (v : SaslVersion) (s : SaslLink ς) (i : ℕ) : Except Failure (List Bytes) :=
  match v with
  | .v0 => .ok [plainAuthV0 conf.sasl]
  | .v1 => conf.buffers .v1 s i (plainAuthV1 conf.kafkaVersion conf.sasl).saslAuthBytes

/-- The first request behind the handshake, if there is one, is answered by the frame `i`; so many writes are left. -/
inductive Opens (v : SaslVersion) (s : SaslLink ς) : ℕ → ℕ → Prop
  | atOnce (none_ : conf.handshakes v = false) : Opens v s 0 s.writable
  | shaken {bufs : List Bytes} (handshakes : conf.handshakes v = true)
    (encodes : conf.framed s.correlationId (conf.handshakeBody v) = .ok bufs) (sent : writes bufs ≤ s.writable)
    (arrives : Arrives s.stream) (accepted : SaslAnswer.handshake.err (answer s.stream) = some ErrNoError) :
    Opens v s 1 (s.writable - writes bufs)

/-- A round of SCRAM: the frame that answers it, the writes left, the message, and the client, which was told the tokens
of the frames before. -/
inductive Round (v : SaslVersion) (s : SaslLink ς) : ℕ → ℕ → Bytes → ς → Prop
  | first {i w : ℕ} {msg : Bytes} {scram scram' : ς} (opens : conf.Opens v s i w)
    (begins : conf.client.begin_ conf.sasl.user conf.sasl.password conf.scramAuthzID conf.scram = (0, scram))
    (steps : conf.client.step [] scram = (0, msg, scram')) : Round v s i w msg scram'
  | next {i w : ℕ} {msg msg' challenge : Bytes} {scram scram' : ς} {bufs : List Bytes} (round : Round v s i w msg scram)
    (more : conf.client.done scram = false) (encodes : conf.buffers v s i msg = .ok bufs) (sent : writes bufs ≤ w)
    (arrives : Arrives (fromFrame s.stream i))
    (token : (conf.role v i).saslAuthBytes (answer (fromFrame s.stream i)) = some challenge)
    (steps : conf.client.step challenge scram = (0, msg', scram')) : Round v s (i + 1) (w - writes bufs) msg' scram'

/-- The requests that an exchange comes to: the frame that answers each, the writes left, and what it is written in. -/
inductive Asks (v : SaslVersion) (s : SaslLink ς) : ℕ → ℕ → Except Failure (List Bytes) → Prop
  | handshake (handshakes : conf.handshakes v = true) :
    Asks v s 0 s.writable (conf.framed s.correlationId (conf.handshakeBody v))
  | scram {i w : ℕ} {msg : Bytes} {scram : ς} (isScram : conf.isScram) (round : conf.Round v s i w msg scram)
    (more : conf.client.done scram = false) : Asks v s i w (conf.buffers v s i msg)
  | oauth {i w : ℕ} {msg : Bytes} (second : v = .v1) (isOAuth : conf.mechanism = saslText "OAUTHBEARER")
    (opens : conf.Opens v s i w) (provides : conf.token.1 = ErrNoError)
    (builds : Sasl.buildClientFirstMessage conf.token.2 = .ok msg) : Asks v s i w (conf.buffers v s i msg)
  | plain {i w : ℕ} (notScram : ¬conf.isScram) (notKerberos : conf.mechanism ≠ saslText "GSSAPI")
    (notOAuth : v = .v1 → conf.mechanism ≠ saslText "OAUTHBEARER") (opens : conf.Opens v s i w) :
    Asks v s i w (conf.plainBuffers v s i)

/-! ## The frames that are answered faithfully -/

/-- Eight bytes are read first. If they are all there, the length comes out of them as it is announced, and leaves a body;
otherwise nothing is left behind the frame. -/
structure GoodHandshake (stream : Bytes) : Prop where
  short : stream.length < 8 → behind stream = stream.drop 8
  body : 8 ≤ stream.length → (Sasl.headerLength stream).toNat = announced stream ∧ 4 < announced stream

/-- A length that is there comes out of its bytes as it is announced; with `PLAIN` it is zero. -/
def GoodToken (stream : Bytes) : Prop :=
  4 ≤ stream.length → (Sasl.headerLength stream).toNat = announced stream ∧ (¬conf.isScram → announced stream = 0)

/-- The eight bytes in front are no response to the request, or its length is refused. -/
def Foreign (correlationId : Int32) (stream : Bytes) : Prop :=
  stream.length < 8 ∨ Int32.ofNat (value ((stream.drop 4).take 4)) ≠ correlationId ∨ announced stream < 4 ∨
    0x80000000 ≤ announced stream
deriving Decidable

/-- Nothing is left of a foreign frame behind its eight bytes. Any other one has a body, its code is none, and there is a
token only with `PLAIN`. -/
structure GoodResponse (correlationId : Int32) (stream : Bytes) : Prop where
  foreign : Foreign correlationId stream → behind stream = stream.drop 8
  body : ¬Foreign correlationId stream → 4 < announced stream
  accepted : ¬Foreign correlationId stream → Arrives stream → ∀ r,
    SaslAnswer.decoded (SaslAuthenticateResponse.decode conf.responseVersion) {} (answer stream) = some r →
    r.err = 0 ∧ (conf.isScram ∨ conf.mechanism = saslText "OAUTHBEARER" → r.saslAuthBytes = [])

/-- The stream from the frame `i` on is read as the answer that it is; the answer to a handshake of the second version
never is. -/
def Good (v : SaslVersion) (s : SaslLink ς) (i : ℕ) (stream : Bytes) : Prop :=
  match conf.role v i with
  | .handshake => v = .v0 ∧ GoodHandshake stream
  | .token => conf.GoodToken stream
  | .response _ => conf.GoodResponse (s.correlationId + Int32.ofNat i) stream

/-- The inputs that are answered faithfully: every request that the exchange comes to can be encoded, and the frame that
answers it is good if the connection takes the request. -/
def Regular (s : SaslLink ς) (v : SaslVersion) : Prop :=
  ∀ i w request, conf.Asks v s i w request → (∀ code, request ≠ .error (.code code)) ∧
    ∀ bufs, request = .ok bufs → writes bufs ≤ w → conf.Good v s i (fromFrame s.stream i)

/-! ## Where a run has come to -/

/-- So many requests were accepted, a handshake among them if there is one. -/
structure Progress (v : SaslVersion) (s t : SaslLink ς) (k : ℕ) : Prop where
  requests : t.requests = k
  reads : t.stream = fromFrame s.stream k
  correlation : v = .v1 → t.correlationId = s.correlationId + Int32.ofNat k
  accepted : ∀ i < k, Arrives (fromFrame s.stream i) ∧ conf.Accepts v i (answer (fromFrame s.stream i))
  told : conf.Told v s t
  settled : conf.handshakes v = true → 1 ≤ k

/-- A failure leaves whole frames behind, and is the code of a handshake that was refused. -/
structure Fails (v : SaslVersion) (s : SaslLink ς) (failure : Failure) (t : SaslLink ς) : Prop where
  reads : t.stream = fromFrame s.stream t.requests
  told : conf.Told v s t
  refused : ∀ err, conf.Refused v s t err → failure = .code err

variable {conf} {v : SaslVersion} {s t u : SaslLink ς} {k : ℕ} {failure : Failure}

/-- A handshake that was accepted carries no code. -/
theorem Progress.unrefused (progress : conf.Progress v s t k) {err : KError} : ¬conf.Refused v s u err := by
  rintro ⟨handshakes, _, _, carried, nonzero⟩
  have accepted := (progress.accepted 0 (progress.settled handshakes)).2.1
  have role : conf.role v 0 = .handshake := if_pos ⟨handshakes, rfl⟩
  rw [role] at accepted
  exact nonzero (Option.some.inj (carried.symm.trans accepted))

theorem Progress.fails (progress : conf.Progress v s t k) (reads : u.stream = fromFrame s.stream u.requests)
    (challenges : u.challenges = t.challenges) : conf.Fails v s failure u := by
  refine ⟨reads, ?_, fun err refused => absurd refused progress.unrefused⟩
  intro j challenge found
  rw [challenges] at found
  exact progress.told j challenge found

/-- One more request was accepted. -/
theorem Progress.succ (progress : conf.Progress v s t k) (requests : u.requests = t.requests + 1)
    (reads : u.stream = behind t.stream)
    (correlation : v = .v1 → u.correlationId = t.correlationId + 1) (challenges : u.challenges = t.challenges)
    (arrives : Arrives t.stream) (accepts : conf.Accepts v k (answer t.stream)) : conf.Progress v s u (k + 1) := by
  constructor
  · rw [requests, progress.requests]
  · rw [reads, fromFrame_succ, progress.reads]
  · intro second
    rw [correlation second, progress.correlation second, Int32.ofNat_add, Int32.add_assoc]
    rfl
  · intro i below
    obtain earlier | rfl := Nat.lt_succ_iff_lt_or_eq.mp below
    · exact progress.accepted i earlier
    · rw [← progress.reads]
      exact ⟨arrives, accepts⟩
  · intro j challenge found
    rw [challenges] at found
    exact progress.told j challenge found
  · exact fun _ => Nat.succ_le_succ (Nat.zero_le k)

theorem Progress.fails_behind (progress : conf.Progress v s t k) (requests : u.requests = t.requests + 1)
    (reads : u.stream = behind t.stream) (challenges : u.challenges = t.challenges) : conf.Fails v s failure u := by
  apply progress.fails ?_ challenges
  rw [reads, requests, fromFrame_succ, progress.reads, progress.requests]

theorem Progress.fails_here (progress : conf.Progress v s t k) (requests : u.requests = t.requests)
    (reads : u.stream = t.stream) (challenges : u.challenges = t.challenges) : conf.Fails v s failure u := by
  apply progress.fails ?_ challenges
  rw [reads, requests, progress.reads, progress.requests]

theorem Faithful.of_wp {run : Sasl ς Unit} (wp : Wp (conf.Fails v s) run (fun _ t => ∃ k, conf.Progress v s t k) s) :
    conf.Faithful v s (run s) := by
  cases ends : run s with
  | ok a t =>
    obtain ⟨k, progress⟩ := wp.ok ends
    refine ⟨?_, progress.told, fun err refused => absurd refused progress.unrefused, fun _ => ?_⟩
    · exact progress.reads.trans (congrArg _ progress.requests.symm)
    · exact progress.requests ▸ progress.accepted
  | error failure t =>
    have fails := wp.error ends
    refine ⟨fails.reads, fails.told, fun err refused => ?_, nofun⟩
    rw [fails.refused err refused]
    rfl

end SaslConf

namespace Sasl

open SaslConf (writes framed)

variable {conf : SaslConf ς} {v : SaslVersion} {s t : SaslLink ς} {k : ℕ} {β : Type}
  {failing : Failure → SaslLink ς → Prop} {after : β → SaslLink ς → Prop}

/-! ## The parts of an exchange -/

private theorem readFull_wp {n : ℕ} {f : Bytes → Sasl ς β}
    (short : t.stream.length < n → failing (.code INVALID) { t with stream := [] })
    (enough : n ≤ t.stream.length → Wp failing (f (t.stream.take n)) after { t with stream := t.stream.drop n }) :
    Wp failing (readFull n >>= f) after t := by
  obtain less | more := lt_or_ge t.stream.length n
  · have ends : readFull n t = .error (.code INVALID) { t with stream := [] } := if_pos less
    exact Wp.of_error (bind_of_error ends f) (short less)
  · have reads : readFull n t = .ok (t.stream.take n) { t with stream := t.stream.drop n } := if_neg (Nat.not_lt.mpr more)
    exact Wp.step reads (enough more)

private theorem writes_cons (buf : Bytes) (bufs : List Bytes) : writes (buf :: bufs) = writes [buf] + writes bufs :=
  @List.countP_append _ _ [buf] bufs

private theorem write_wp {buf : Bytes} {f : Unit → Sasl ς β} (fails : failing (.code ErrIOEOF) t)
    (goes : ∀ written, writes [buf] ≤ t.writable →
      Wp failing (f ()) after { t with writable := t.writable - writes [buf], written }) :
    Wp failing (write buf >>= f) after t := by
  obtain rfl | some_ := eq_or_ne buf []
  · exact Wp.step rfl (goes t.written (Nat.zero_le _))
  · have one : writes [buf] = 1 := by simp [writes, some_]
    rw [one] at goes
    obtain broken | takes := eq_or_ne t.writable 0
    · have ends : write buf t = .error (.code ErrIOEOF) t := (if_neg some_).trans (if_pos broken)
      exact Wp.of_error (bind_of_error ends f) fails
    · have sent : write buf t = .ok () { t with writable := t.writable - 1, written := t.written ++ buf } :=
        (if_neg some_).trans (if_neg takes)
      exact Wp.step sent (goes _ (Nat.pos_of_ne_zero takes))

/-- A request that can be encoded is written as a whole, if the connection takes it. -/
theorem sendFrame_wp {body : SaslBody} {f : Unit → Sasl ς β}
    (encodes : ∀ code, conf.framed t.correlationId body ≠ .error (.code code)) (fails : ∀ failure, failing failure t)
    (goes : ∀ bufs written, conf.framed t.correlationId body = .ok bufs → writes bufs ≤ t.writable →
      Wp failing (f ()) after { t with writable := t.writable - writes bufs, written, requests := t.requests + 1 }) :
    Wp failing (sendFrame conf body >>= f) after t := by
  have sent : Wp failing (sendFrame conf body) (fun _ u => ∃ bufs written, conf.framed t.correlationId body = .ok bufs ∧
      writes bufs ≤ t.writable ∧
      u = { t with writable := t.writable - writes bufs, written, requests := t.requests + 1 }) t := by
    unfold sendFrame
    apply Wp.get
    rw [framed] at encodes ⊢
    cases encoded : frame conf t.correlationId body with
    | ok buf => exact write_wp (fails _) fun written enough => ⟨[buf], written, rfl, enough, rfl⟩
    | error failure =>
      cases failure with
      | code code =>
        rw [encoded] at encodes
        exact absurd rfl (encodes code)
      | fault fault => exact fails _
  apply sent.bind
  rintro ⟨⟩ u _ ⟨bufs, written, encoded, enough, rfl⟩
  exact goes bufs written encoded enough

end Sasl

namespace Sasl

open SaslConf (writes)

variable {conf : SaslConf ς} {v : SaslVersion} {s t u : SaslLink ς} {k : ℕ} {failing : Failure → SaslLink ς → Prop}
  {post : Bytes → SaslLink ς → Prop}
variable {exchange : Bytes → Sasl ς Bytes} {msg : Bytes}

private theorem headerLength_take {n : ℕ} (four : 4 ≤ n) (stream : Bytes) :
    headerLength (stream.take n) = headerLength stream := by
  have same (k : ℕ) (below : k < 4) : (stream.take n).getD k 0 = stream.getD k 0 := by
    rw [List.getD_eq_getElem?_getD, List.getElem?_take_of_lt (Nat.lt_of_lt_of_le below four), List.getD_eq_getElem?_getD]
  rw [headerLength, headerLength, PacketDecoder.signedWord, PacketDecoder.signedWord]
  dsimp only
  rw [same 0 (by decide), same 1 (by decide), same 2 (by decide), same 3 (by decide)]

/-- A length and as many bytes are read, when the length comes out right. -/
theorem token_wp (right : 4 ≤ t.stream.length → (headerLength t.stream).toNat = announced t.stream)
    (short : failing (.code INVALID) { t with stream := behind t.stream })
    (full : Arrives t.stream → post (answer t.stream) { t with stream := behind t.stream }) :
    Wp failing (readFull 4 >>= fun header => readFull (headerLength header).toNat) post t := by
  apply readFull_wp
  · intro less
    rw [behind_eq_nil (Nat.le_add_right_of_le less.le)] at short
    exact short
  · intro more
    rw [headerLength_take (Nat.le_refl 4), right more, ← bind_pure (readFull _)]
    apply readFull_wp
    · intro less
      have within : t.stream.length ≤ 4 + announced t.stream := by
        have less : (t.stream.drop 4).length < announced t.stream := less
        rw [List.length_drop] at less
        omega
      rw [behind_eq_nil within] at short
      exact short
    · intro enough
      have enough : announced t.stream ≤ (t.stream.drop 4).length := enough
      rw [List.length_drop] at enough
      exact full (by unfold Arrives; omega)

/-- The rest of a frame is read behind its length and its correlation id. -/
theorem body_wp {β : Type} {f : Bytes → Sasl ς β} {after : β → SaslLink ς → Prop} (four : 4 ≤ announced t.stream)
    (eight : 8 ≤ t.stream.length) (short : ¬Arrives t.stream → failing (.code INVALID) { t with stream := [] })
    (full : Arrives t.stream → Wp failing (f ((answer t.stream).drop 4)) after { t with stream := behind t.stream }) :
    Wp failing (readFull (announced t.stream - 4) >>= f) after { t with stream := t.stream.drop 8 } := by
  have payload : (t.stream.drop 8).take (announced t.stream - 4) = (answer t.stream).drop 4 := by
    rw [answer, List.drop_take, List.drop_drop]
  have rest : (t.stream.drop 8).drop (announced t.stream - 4) = behind t.stream := by
    rw [behind_eq_drop, List.drop_drop]
    congr 1
    omega
  apply readFull_wp
  · intro less
    have less : (t.stream.drop 8).length < announced t.stream - 4 := less
    rw [List.length_drop] at less
    apply short
    unfold Arrives
    omega
  · intro enough
    have enough : announced t.stream - 4 ≤ (t.stream.drop 8).length := enough
    rw [List.length_drop] at enough
    have whole := full (by unfold Arrives; omega)
    rw [← payload, ← rest] at whole
    exact whole

/-! ## The first version -/

private theorem handshake_wp {mechanism : Bytes} {version : Int16} (regular : conf.Regular s .v0)
    (handshakes : conf.handshakes .v0 = true) (body : .handshake version mechanism = conf.handshakeBody .v0)
    (start : s.requests = 0 ∧ s.challenges = []) :
    Wp (conf.Fails .v0 s) (sendAndReceiveSASLHandshake conf mechanism version)
      (fun _ t => conf.Progress .v0 s t 1 ∧ t.challenges = [] ∧ conf.Opens .v0 s 1 t.writable) s := by
  obtain ⟨encodes, good⟩ := regular 0 s.writable _ (.handshake handshakes)
  obtain ⟨none_, untold⟩ := start
  have role : conf.role .v0 0 = .handshake := if_pos ⟨handshakes, rfl⟩
  have told {t : SaslLink ς} (challenges : t.challenges = s.challenges) : conf.Told .v0 s t := by
    intro j challenge found
    rw [challenges, untold] at found
    cases found
  -- A failure behind the whole frame.
  have ends {t : SaslLink ς} (failure : Failure) (requests : t.requests = s.requests + 1)
      (stream : t.stream = behind s.stream)
      (challenges : t.challenges = s.challenges) (code : ∀ err, Arrives s.stream →
        SaslAnswer.handshake.err (answer s.stream) = some err → err ≠ ErrNoError → failure = .code err) :
      conf.Fails .v0 s failure t := by
    refine ⟨?_, told challenges, fun err refused => code err refused.2.2.1 refused.2.2.2.1 refused.2.2.2.2⟩
    rw [stream, requests, none_]
    rfl
  unfold sendAndReceiveSASLHandshake
  apply sendFrame_wp (body.symm ▸ encodes)
  · refine fun failure => ⟨?_, told rfl, fun err refused => absurd refused.2.1 ?_⟩
    · rw [none_]
      rfl
    · rw [none_]
      exact Nat.not_succ_le_zero 0
  · intro bufs written encoded sent
    rw [body] at encoded
    have good : SaslConf.GoodHandshake s.stream := by
      have good := good bufs encoded sent
      rw [SaslConf.Good, role] at good
      exact good.2
    refine Wp.step rfl ?_
    apply readFull_wp
    · intro less
      have less : s.stream.length < 8 := less
      have nothing : s.stream.drop 8 = [] := List.drop_eq_nil_of_le less.le
      refine ends _ rfl ((good.short less).trans nothing).symm rfl fun err arrives carried => ?_
      have bodiless : ¬4 < (answer s.stream).length := by
        rw [answer_length arrives]
        unfold Arrives at arrives
        omega
      rw [SaslAnswer.err, SaslAnswer.decoded, if_neg bodiless] at carried
      cases carried
    · intro eight
      have eight : 8 ≤ s.stream.length := eight
      obtain ⟨right, body⟩ := good.body eight
      have four : (4 : UInt32) ≤ headerLength s.stream := by
        rw [UInt32.le_iff_toNat_le, right]
        exact body.le
      have size : (headerLength (s.stream.take 8) - 4).toNat = announced s.stream - 4 := by
        rw [headerLength_take (by decide), UInt32.toNat_sub_of_le _ _ four, right]
        rfl
      change Wp _ (readFull (headerLength (s.stream.take 8) - 4).toNat >>= _) _ _
      rw [size]
      refine body_wp (t := { s with
        writable := s.writable - writes bufs, written := written, requests := s.requests + 1,
        correlationId := s.correlationId + 1 }) body.le eight ?_ ?_
      · exact fun missing => ends _ rfl (behind_eq_nil (Nat.not_le.mp missing).le).symm rfl fun _ arrives =>
          absurd arrives missing
      · intro arrives
        have body : 4 < (answer s.stream).length := by rw [answer_length arrives]; exact body
        dsimp only
        cases decodes : decodeVersion false SaslHandshakeResponse.decode ((answer s.stream).drop 4) {} with
        | ok a res =>
          have carried : SaslAnswer.handshake.err (answer s.stream) = some res.err.toInt := by
            rw [SaslAnswer.err, SaslAnswer.decoded_ok body decodes]
            rfl
          obtain zero | nonzero := eq_or_ne res.err 0
          · rw [zero] at carried
            have accepts : conf.Accepts .v0 0 (answer s.stream) := ⟨by rw [role]; exact carried, nofun⟩
            change Wp _ (if res.err ≠ 0 then failCode res.err.toInt else pure ()) _ _
            rw [if_neg (not_not_intro zero)]
            refine ⟨⟨congrArg (· + 1) none_, rfl, nofun, ?_, told rfl, fun _ => Nat.le_refl 1⟩, untold,
              .shaken handshakes encoded sent arrives carried⟩
            intro i below
            obtain rfl := Nat.lt_one_iff.mp below
            exact ⟨arrives, accepts⟩
          · change Wp _ (if res.err ≠ 0 then failCode res.err.toInt else pure ()) _ _
            rw [if_pos nonzero]
            refine ends _ rfl rfl rfl fun err _ code _ => ?_
            rw [Option.some.inj (carried.symm.trans code)]
        | error failure res =>
          refine ends _ rfl rfl rfl fun err _ code => ?_
          rw [SaslAnswer.err, SaslAnswer.decoded_error decodes] at code
          cases code

private theorem role_v0 (progress : conf.Progress .v0 s t k) : conf.role .v0 k = .token := by
  refine if_neg fun both => ?_
  have positive := progress.settled both.1
  omega

/-- A bare token is accepted. -/
theorem accepts_v0 (progress : conf.Progress .v0 s t k) (contents : Bytes) : conf.Accepts .v0 k contents := by
  refine ⟨?_, nofun⟩
  rw [role_v0 progress]
  rfl

/-- What an exchange of SCRAM comes to: the next step of the client makes the next round. -/
def Exchanges (conf : SaslConf ς) (v : SaslVersion) (s : SaslLink ς) (exchange : Bytes → Sasl ς Bytes) : Prop :=
  ∀ t k msg, conf.Progress v s t k → conf.Round v s k t.writable msg t.scram → conf.client.done t.scram = false →
    Wp (conf.Fails v s) (exchange msg) (fun token u => conf.Progress v s u (k + 1) ∧ u.challenges = t.challenges ∧
      (conf.role v k).saslAuthBytes (answer (fromFrame s.stream k)) = some token ∧
      ∀ msg' scram', conf.client.step token u.scram = (0, msg', scram') →
        conf.Round v s (k + 1) u.writable msg' scram') t

private theorem exchangeV0_wp (regular : conf.Regular s .v0) (scram : conf.isScram) : Exchanges conf .v0 s exchangeV0 := by
  intro t k msg progress round more
  have good := (regular k t.writable _ (.scram scram round more)).2 _ rfl
  unfold exchangeV0
  refine write_wp (progress.fails_here rfl rfl rfl) fun _ first => ?_
  refine write_wp (progress.fails_here rfl rfl rfl) fun _ second => ?_
  have second : writes [msg] ≤ t.writable - writes [lengthBytes (UInt32.ofNat msg.length)] := second
  have sent : writes [lengthBytes (UInt32.ofNat msg.length), msg] ≤ t.writable := by
    rw [writes_cons]
    omega
  have right : 4 ≤ t.stream.length → (headerLength t.stream).toNat = announced t.stream := by
    have good := good sent
    rw [SaslConf.Good, role_v0 progress] at good
    rw [progress.reads]
    exact fun four => (good four).1
  refine Wp.step rfl (Wp.step rfl ?_)
  refine token_wp right (progress.fails_behind rfl rfl rfl) fun arrives => ?_
  have token : (conf.role .v0 k).saslAuthBytes (answer (fromFrame s.stream k)) = some (answer t.stream) := by
    rw [role_v0 progress, ← progress.reads]
    rfl
  refine ⟨progress.succ rfl rfl nofun rfl arrives (accepts_v0 progress _), rfl, token, fun msg' scram' steps => ?_⟩
  have next := SaslConf.Round.next round more rfl sent (progress.reads ▸ arrives) token steps
  rw [writes_cons, ← Nat.sub_sub] at next
  exact next

private theorem begin_wp {post : Unit → SaslLink ς → Prop} (fails : ∀ err scram, failing (.code err) { t with scram })
    (goes : ∀ scram, conf.client.begin_ conf.sasl.user conf.sasl.password conf.scramAuthzID t.scram = (0, scram) →
      post () { t with scram }) : Wp failing (begin_ conf) post t := by
  unfold begin_
  obtain zero | nonzero := eq_or_ne (conf.client.begin_ conf.sasl.user conf.sasl.password conf.scramAuthzID t.scram).1 0
  · exact Wp.of_ok (if_neg (not_not_intro zero)) (goes _ (Prod.ext zero rfl))
  · exact Wp.of_error (if_pos nonzero) (fails _ _)

private theorem step_wp {challenge : Bytes} (fails : ∀ err scram, failing (.code err) { t with scram })
    (goes : ∀ msg scram, conf.client.step challenge t.scram = (0, msg, scram) → post msg { t with scram }) :
    Wp failing (step conf challenge) post t := by
  unfold step
  obtain zero | nonzero := eq_or_ne (conf.client.step challenge t.scram).1 0
  · exact Wp.of_ok (if_neg (not_not_intro zero)) (goes _ _ (Prod.ext zero rfl))
  · exact Wp.of_error (if_pos nonzero) (fails _ _)

/-- The token of the next answer is told. -/
theorem stepAnswer_wp {challenge : Bytes} (progress : conf.Progress v s t (k + 1))
    (index : t.challenges.length + (conf.handshakes v).toNat = k)
    (token : (conf.role v k).saslAuthBytes (answer (fromFrame s.stream k)) = some challenge) :
    Wp (conf.Fails v s) (stepAnswer conf challenge) (fun msg u => conf.Progress v s u (k + 1) ∧
      u.challenges.length + (conf.handshakes v).toNat = k + 1 ∧ u.writable = t.writable ∧
      conf.client.step challenge t.scram = (0, msg, u.scram)) t := by
  have told (u : SaslLink ς) (challenges : u.challenges = t.challenges ++ [challenge]) : conf.Told v s u := by
    intro j other found
    rw [challenges] at found
    obtain before | behind := lt_or_ge j t.challenges.length
    · rw [List.getElem?_append_left before] at found
      exact progress.told j other found
    · rw [List.getElem?_append_right behind] at found
      have first : j - t.challenges.length = 0 := by
        have below := (List.getElem?_eq_some_iff.mp found).1
        rw [List.length_singleton] at below
        exact Nat.lt_one_iff.mp below
      rw [first] at found
      cases found
      refine ⟨k, by omega, (progress.accepted k (Nat.lt_succ_self k)).1, token⟩
  have stays (u : SaslLink ς) (challenges : u.challenges = t.challenges ++ [challenge]) (requests : u.requests = t.requests)
      (stream : u.stream = t.stream) (correlationId : u.correlationId = t.correlationId) : conf.Progress v s u (k + 1) :=
    ⟨requests.trans progress.requests, stream.trans progress.reads,
      fun second => correlationId.trans (progress.correlation second), progress.accepted, told u challenges,
        progress.settled⟩
  unfold stepAnswer
  refine Wp.step rfl (step_wp (fun err scram => ?_) fun msg scram steps => ?_)
  · have kept := stays { t with challenges := t.challenges ++ [challenge], scram } rfl rfl rfl rfl
    exact kept.fails_here rfl rfl rfl
  · refine ⟨stays _ rfl rfl rfl rfl, ?_, rfl, steps⟩
    change (t.challenges ++ [challenge]).length + _ = _
    rw [List.length_append, List.length_singleton, ← index]
    omega

/-- The loop keeps to the answers, whatever the client makes of them. -/
theorem rounds_wp (exchanges : Exchanges conf v s exchange) (fuel : ℕ) (round : conf.Round v s k t.writable msg t.scram)
    (progress : conf.Progress v s t k) (index : t.challenges.length + (conf.handshakes v).toNat = k) :
    Wp (conf.Fails v s) (rounds conf exchange fuel msg) (fun _ u => ∃ k, conf.Progress v s u k) t := by
  induction fuel generalizing msg t k with
  | zero => exact progress.fails_here rfl rfl rfl
  | succ fuel ih =>
    unfold rounds
    refine Wp.get (Wp.ite (fun done => ?_) fun more => ?_)
    · exact ⟨k, progress⟩
    · refine (exchanges t k msg progress round (Bool.eq_false_of_not_eq_true more)).bind fun answer u _ ends => ?_
      obtain ⟨progress, challenges, token, next⟩ := ends
      refine (stepAnswer_wp progress (challenges ▸ index) token).bind fun msg w _ ends => ?_
      obtain ⟨progress, index, writable, steps⟩ := ends
      exact ih (writable ▸ next msg w.scram steps) progress index

private theorem failWith_wp {α : Type} {err : KError} {x : Sasl ς α} {post : α → SaslLink ς → Prop}
    (wp : Wp (fun _ u => ∀ failure, failing failure u) x post t) : Wp failing (failWith err x) post t := by
  cases run : x t with
  | ok a u => exact Wp.of_ok (failWith_of_ok run) (wp.ok run)
  | error failure u =>
    cases failure with
    | code code => exact Wp.of_error (failWith_of_code run) (wp.error run _)
    | fault fault => exact Wp.of_error (failWith_of_fault run) (wp.error run _)

private theorem wp_of_every {α : Type} {x : Sasl ς α} {post : α → SaslLink ς → Prop}
    (wp : Wp (fun _ u => ∀ failure, failing failure u) x post t) : Wp failing x post t := by
  cases run : x t with
  | ok a u => exact Wp.of_ok run (wp.ok run)
  | error failure u => exact Wp.of_error run (wp.error run failure)

/-- Before the first request, when that is no handshake. -/
theorem Progress.fresh (none_ : conf.handshakes v = false) (start : s.requests = 0 ∧ s.challenges = []) :
    conf.Progress v s s 0 := by
  constructor
  · exact start.1
  · rfl
  · exact fun _ => (Int32.add_zero s.correlationId).symm
  · exact nofun
  · intro j challenge found
    rw [start.2] at found
    cases found
  · intro some_
    cases none_.symm.trans some_

theorem Progress.of_scram (progress : conf.Progress v s t k) (scram : ς) : conf.Progress v s { t with scram } k :=
  ⟨progress.requests, progress.reads, progress.correlation, progress.accepted, progress.told, progress.settled⟩

/-- The client begins. -/
theorem begin_kept (progress : conf.Progress v s t k) : Wp (fun _ u => ∀ failure, conf.Fails v s failure u) (begin_ conf)
    (fun _ u => conf.Progress v s u k ∧ u.challenges = t.challenges ∧ u.writable = t.writable ∧
      conf.client.begin_ conf.sasl.user conf.sasl.password conf.scramAuthzID t.scram = (0, u.scram)) t := by
  apply begin_wp
  · exact fun _ scram _ => (Progress.of_scram progress scram).fails_here rfl rfl rfl
  · exact fun scram begins => ⟨Progress.of_scram progress scram, rfl, rfl, begins⟩

/-- The client makes its first message. -/
theorem step_kept (progress : conf.Progress v s t k) : Wp (fun _ u => ∀ failure, conf.Fails v s failure u) (step conf [])
    (fun msg u => conf.Progress v s u k ∧ u.challenges = t.challenges ∧ u.writable = t.writable ∧
      conf.client.step [] t.scram = (0, msg, u.scram)) t := by
  apply step_wp
  · exact fun _ scram _ => (Progress.of_scram progress scram).fails_here rfl rfl rfl
  · exact fun msg scram steps => ⟨Progress.of_scram progress scram, rfl, rfl, steps⟩

private theorem scramV0_wp (regular : conf.Regular s .v0) (scram : conf.isScram)
    (start : s.requests = 0 ∧ s.challenges = []) :
    Wp (conf.Fails .v0 s) (sendAndReceiveSASLSCRAMv0 conf) (fun _ t => ∃ k, conf.Progress .v0 s t k) s := by
  have handshakes : conf.handshakes .v0 = true := decide_eq_true (.inl scram)
  unfold sendAndReceiveSASLSCRAMv0
  refine (handshake_wp regular handshakes (if_pos scram).symm start).bind fun _ t _ ends => ?_
  obtain ⟨progress, untold, opens⟩ := ends
  refine Wp.step rfl ?_
  refine (failWith_wp (begin_kept (Progress.of_scram progress conf.scram))).bind fun _ u _ ends => ?_
  obtain ⟨progress, begun, kept, begins⟩ := ends
  refine (failWith_wp (step_kept progress)).bind fun msg w _ ends => ?_
  obtain ⟨progress, stepped, kept', steps⟩ := ends
  have index : w.challenges.length + (conf.handshakes .v0).toNat = 1 := by
    rw [stepped, begun, handshakes]
    change t.challenges.length + 1 = 1
    rw [untold]
    rfl
  have round : conf.Round .v0 s 1 w.writable msg w.scram := by
    rw [kept', kept]
    exact .first opens begins steps
  unfold scramRounds
  exact Wp.get (rounds_wp (exchangeV0_wp regular scram) _ round progress index)

/-- `PLAIN`, from where its message is sent. -/
theorem plainV0_wp (regular : conf.Regular s .v0) (plain : ¬conf.isScram) (other : conf.mechanism ≠ saslText "GSSAPI")
    (progress : conf.Progress .v0 s t k) (opens : conf.Opens .v0 s k t.writable) :
    Wp (conf.Fails .v0 s) (write (plainAuthV0 conf.sasl) >>= fun _ => do
      requested
      let _ ← readFull 4) (fun _ u => ∃ k, conf.Progress .v0 s u k) t := by
  refine write_wp (progress.fails_here rfl rfl rfl) fun _ sent => ?_
  have good := (regular k t.writable _ (.plain plain other nofun opens)).2 _ rfl sent
  rw [SaslConf.Good, role_v0 progress, ← progress.reads] at good
  refine Wp.step rfl ?_
  refine readFull_wp (fun less => ?_) fun four => ?_
  · refine progress.fails_behind rfl ?_ rfl
    exact (behind_eq_nil (Nat.le_add_right_of_le less.le)).symm
  · have nothing := (good four).2 plain
    refine ⟨k + 1, progress.succ rfl ?_ nofun rfl ?_ (accepts_v0 progress _)⟩
    · rw [behind_eq_drop, nothing]
    · unfold Arrives
      rw [nothing]
      exact four

private theorem authenticateViaSASLv0_wp (regular : conf.Regular s .v0) (start : s.requests = 0 ∧ s.challenges = []) :
    Wp (conf.Fails .v0 s) (authenticateViaSASLv0 conf) (fun _ t => ∃ k, conf.Progress .v0 s t k) s := by
  unfold authenticateViaSASLv0
  refine Wp.ite (fun scram => scramV0_wp regular scram start) fun plain => Wp.ite (fun kerberos => ?_) fun other => ?_
  · have none_ : conf.handshakes .v0 = false :=
      decide_eq_false fun either => either.elim plain fun other => other.1 kerberos
    exact (Progress.fresh none_ start).fails_here rfl rfl rfl
  · unfold sendAndReceiveSASLPlainAuthV0
    cases handshake : conf.handshake with
    | true =>
      have handshakes : conf.handshakes .v0 = true := decide_eq_true (.inr ⟨other, handshake⟩)
      refine (handshake_wp regular handshakes (if_neg plain).symm start).bind fun _ t _ ends => ?_
      exact plainV0_wp regular plain other ends.1 ends.2.2
    | false =>
      have none_ : conf.handshakes .v0 = false := decide_eq_false fun either => either.elim plain fun both => by
        cases handshake.symm.trans both.2
      exact plainV0_wp regular plain other (Progress.fresh none_ start) (.atOnce none_)

/-! ## The second version -/

private theorem decodeResponse_wp {version : Int16} {body : Bytes} {fresh : SaslAuthenticateResponse}
    {post : SaslAuthenticateResponse → SaslLink ς → Prop} (fails : ∀ failure, failing failure t)
    (decodes : ∀ r, decodeVersion false (SaslAuthenticateResponse.decode version) body fresh = .ok () r → post r t) :
    Wp failing (decodeResponse version body fresh) post t := by
  unfold decodeResponse
  cases run : decodeVersion false (SaslAuthenticateResponse.decode version) body fresh with
  | ok a r => exact decodes r run
  | error failure r =>
    cases failure with
    | code err => exact fails _
    | fault fault => exact fails _

private theorem role_v1 (without : conf.handshake = false) : conf.role .v1 k = .response conf.responseVersion :=
  if_neg fun both => by cases without.symm.trans both.1

/-- A response with a body is accepted as its members say. -/
theorem accepts_v1 {id : Int32} {r : SaslAuthenticateResponse} (without : conf.handshake = false)
    (arrives : Arrives stream) (good : conf.GoodResponse id stream) (own : ¬SaslConf.Foreign id stream)
    (decodes : decodeVersion false (SaslAuthenticateResponse.decode conf.responseVersion) ((answer stream).drop 4) {} =
      .ok () r) : conf.Accepts .v1 k (answer stream) ∧
      (conf.isScram → (conf.role .v1 k).saslAuthBytes (answer stream) = some []) := by
  have body : 4 < (answer stream).length := by
    rw [answer_length arrives]
    exact good.body own
  have decoded := SaslAnswer.decoded_ok body decodes
  obtain ⟨zero, empty⟩ := good.accepted own arrives r decoded
  rw [SaslConf.Accepts, role_v1 without, SaslAnswer.err, SaslAnswer.saslAuthBytes, decoded]
  refine ⟨⟨?_, fun _ oauth => ?_⟩, fun scram => ?_⟩
  · rw [Option.map_some, zero]
    rfl
  · rw [Option.map_some, empty (.inr oauth)]
  · rw [Option.map_some, empty (.inl scram)]

/-- The answer to the request `k`, which was written from `t` on. -/
theorem responseReceiver_wp (without : conf.handshake = false) (good : conf.GoodResponse t.correlationId t.stream)
    (progress : conf.Progress .v1 s t k) (requests : u.requests = t.requests + 1) (stream : u.stream = t.stream)
    (correlation : u.correlationId = t.correlationId + 1) (challenges : u.challenges = t.challenges) :
    Wp (conf.Fails .v1 s) (responseReceiver conf.responseVersion t.correlationId) (fun _ w =>
      w = { u with stream := behind t.stream } ∧ conf.Progress .v1 s w (k + 1) ∧
      (conf.isScram → (conf.role .v1 k).saslAuthBytes (answer (fromFrame s.stream k)) = some [])) u := by
  have ends (w : SaslLink ς) (failure : Failure) (same : w.requests = u.requests) (reads : w.stream = behind t.stream)
      (told : w.challenges = u.challenges) : conf.Fails .v1 s failure w :=
    progress.fails_behind (same.trans requests) reads (told.trans challenges)
  unfold responseReceiver
  apply readFull_wp
  · intro less
    rw [stream] at less
    have nothing : t.stream.drop 8 = [] := List.drop_eq_nil_of_le less.le
    exact ends _ _ rfl ((good.foreign (.inl less)).trans nothing).symm rfl
  · intro eight
    rw [stream] at eight ⊢
    have id : (t.stream.take 8).drop 4 = (t.stream.drop 4).take 4 := List.drop_take
    have length : value ((t.stream.take 8).take 4) = announced t.stream := by
      rw [List.take_take]
      rfl
    dsimp only
    rw [id, length]
    refine Wp.ite (fun other => ?_) fun same => Wp.ite (fun refused => ?_) fun enough => ?_
    · exact ends _ _ rfl (good.foreign (.inr (.inl other))).symm rfl
    · refine ends _ _ rfl (good.foreign (.inr (.inr ?_))).symm rfl
      by_contra fits
      rw [not_or, Nat.not_lt, Nat.not_le] at fits
      rw [Int32.toInt_ofNat_of_lt fits.2] at refused
      omega
    · have own : ¬SaslConf.Foreign t.correlationId t.stream := by
        rintro (short | other | short | long)
        · omega
        · exact same other
        · rw [Int32.toInt_ofNat_of_lt (by omega)] at enough
          omega
        · have below := announced_lt t.stream
          have size : Int32.size = 2 ^ 32 := rfl
          rw [Int32.toInt_ofNat', Int.bmod_def, size] at enough
          omega
      have body := good.body own
      have small : announced t.stream < 0x80000000 := Nat.not_le.mp fun long => own (.inr (.inr (.inr long)))
      have size : ((announced t.stream : ℤ) - 4).toNat = announced t.stream - 4 := by omega
      rw [Int32.toInt_ofNat_of_lt small, size]
      rw [← stream] at eight ⊢
      refine body_wp (by rw [stream]; exact body.le) eight (fun missing => ?_) fun arrives => ?_
      · rw [stream] at missing
        exact ends _ _ rfl (behind_eq_nil (Nat.not_le.mp missing).le).symm rfl
      · rw [stream] at arrives ⊢
        have fails (failure : Failure) : conf.Fails .v1 s failure { u with stream := behind t.stream } :=
          ends _ _ rfl rfl rfl
        have first : Wp (conf.Fails .v1 s) (decodeResponse conf.responseVersion ((answer t.stream).drop 4) {}) (fun r w =>
            w = { u with stream := behind t.stream } ∧ decodeVersion false
              (SaslAuthenticateResponse.decode conf.responseVersion) ((answer t.stream).drop 4) {} = .ok () r)
            { u with stream := behind t.stream } :=
          decodeResponse_wp fails fun r decodes => ⟨rfl, decodes⟩
        refine first.bind fun r w _ ends => ?_
        obtain ⟨rfl, decodes⟩ := ends
        obtain ⟨accepts, empty⟩ := accepts_v1 without arrives good own decodes
        refine decodeResponse_wp fails fun _ _ => ⟨rfl, ?_, progress.reads ▸ empty⟩
        exact progress.succ requests rfl (fun _ => correlation) challenges arrives accepts

/-- What a request of the second version comes to. -/
structure Answered (conf : SaslConf ς) (s t : SaslLink ς) (k : ℕ) (msg : Bytes) (w : SaslLink ς) : Prop where
  progress : conf.Progress .v1 s w (k + 1)
  challenges : w.challenges = t.challenges
  scram : w.scram = t.scram
  sent : ∃ bufs, conf.buffers .v1 s k msg = .ok bufs ∧ writes bufs ≤ t.writable ∧ w.writable = t.writable - writes bufs
  empty : conf.isScram → (conf.role .v1 k).saslAuthBytes (answer (fromFrame s.stream k)) = some []

private theorem defaultAuthSendReceiver_wp (regular : conf.Regular s .v1) (without : conf.handshake = false)
    (asks : conf.Asks .v1 s k t.writable (conf.buffers .v1 s k msg)) (progress : conf.Progress .v1 s t k) :
    Wp (conf.Fails .v1 s) (defaultAuthSendReceiver conf msg) (fun _ w => Answered conf s t k msg w) t := by
  obtain ⟨encodes, good⟩ := regular k t.writable _ asks
  have correlation := progress.correlation rfl
  have sent : Wp (conf.Fails .v1 s) (sendInternal conf (.authenticate (.ofMessage conf.kafkaVersion msg))) (fun id u =>
      ∃ bufs written, conf.buffers .v1 s k msg = .ok bufs ∧ writes bufs ≤ t.writable ∧ id = t.correlationId ∧
        u = { t with writable := t.writable - writes bufs, written, requests := t.requests + 1,
                     correlationId := t.correlationId + 1 }) t := by
    unfold sendInternal
    rw [SaslConf.buffers, ← correlation] at encodes ⊢
    refine Wp.get (sendFrame_wp encodes (fun _ => progress.fails_here rfl rfl rfl) fun bufs written encoded enough => ?_)
    exact ⟨bufs, written, encoded, enough, rfl, rfl⟩
  unfold defaultAuthSendReceiver
  refine sent.bind ?_
  rintro _ _ - ⟨bufs, written, encoded, enough, rfl, rfl⟩
  have good : conf.GoodResponse t.correlationId t.stream := by
    have good := good bufs encoded enough
    rw [SaslConf.Good, role_v1 without, ← correlation, ← progress.reads] at good
    exact good
  refine (responseReceiver_wp (u := { t with
    writable := t.writable - writes bufs, written := written, requests := t.requests + 1,
    correlationId := t.correlationId + 1 }) without good progress rfl rfl rfl rfl).imp ?_
  rintro _ _ - ⟨rfl, after, empty⟩
  exact ⟨after, rfl, rfl, ⟨bufs, encoded, enough, rfl⟩, empty⟩

/-- The response of the caller is the one that it had. -/
theorem authSendReceiver_wp (regular : conf.Regular s .v1) (without : conf.handshake = false)
    (asks : conf.Asks .v1 s k t.writable (conf.buffers .v1 s k msg)) (progress : conf.Progress .v1 s t k)
    (res : SaslAuthenticateResponse) :
    Wp (conf.Fails .v1 s) (authSendReceiver conf msg res) (fun r w => r = res ∧ Answered conf s t k msg w) t := by
  unfold authSendReceiver
  exact (defaultAuthSendReceiver_wp regular without asks progress).bind fun _ _ _ ends => ⟨rfl, ends⟩

private theorem exchangeV1_wp (regular : conf.Regular s .v1) (without : conf.handshake = false) (scram : conf.isScram) :
    Exchanges conf .v1 s (exchangeV1 conf {}) := by
  intro t k msg progress round more
  unfold exchangeV1
  refine (authSendReceiver_wp regular without (.scram scram round more) progress {}).bind fun res u _ ends => ?_
  obtain ⟨rfl, answered⟩ := ends
  obtain ⟨bufs, encoded, enough, left⟩ := answered.sent
  have token := answered.empty scram
  refine ⟨answered.progress, answered.challenges, token, fun msg' scram' steps => ?_⟩
  rw [answered.scram] at steps
  rw [left]
  exact .next round more encoded enough (answered.progress.accepted k (Nat.lt_succ_self k)).1 token steps

private theorem scramV1_wp (regular : conf.Regular s .v1) (without : conf.handshake = false) (scram : conf.isScram)
    (progress : conf.Progress .v1 s t 0) (opens : conf.Opens .v1 s 0 t.writable) (untold : t.challenges = []) :
    Wp (conf.Fails .v1 s) (sendAndReceiveSASLSCRAMv1 conf) (fun _ t => ∃ k, conf.Progress .v1 s t k) t := by
  unfold sendAndReceiveSASLSCRAMv1
  refine Wp.step rfl ?_
  refine (wp_of_every (begin_kept (Progress.of_scram progress conf.scram))).bind fun _ u _ ends => ?_
  obtain ⟨progress, begun, kept, begins⟩ := ends
  refine (wp_of_every (step_kept progress)).bind fun msg w _ ends => ?_
  obtain ⟨progress, stepped, kept', steps⟩ := ends
  have index : w.challenges.length + (conf.handshakes .v1).toNat = 0 := by
    rw [stepped, begun, SaslConf.handshakes, without]
    change t.challenges.length = 0
    rw [untold]
    rfl
  have round : conf.Round .v1 s 0 w.writable msg w.scram := by
    rw [kept', kept]
    exact .first opens begins steps
  unfold scramRounds
  exact Wp.get (rounds_wp (exchangeV1_wp regular without scram) _ round progress index)

private theorem oauth_wp (regular : conf.Regular s .v1) (without : conf.handshake = false)
    (oauth : conf.mechanism = saslText "OAUTHBEARER") (progress : conf.Progress .v1 s t 0)
    (opens : conf.Opens .v1 s 0 t.writable) :
    Wp (conf.Fails .v1 s) (sendAndReceiveSASLOAuth conf) (fun _ t => ∃ k, conf.Progress .v1 s t k) t := by
  have fails (failure : Failure) : conf.Fails .v1 s failure t := progress.fails_here rfl rfl rfl
  unfold sendAndReceiveSASLOAuth
  refine Wp.ite (fun _ => fails _) fun provides => ?_
  split
  · exact fails _
  · next message built =>
    have asks := SaslConf.Asks.oauth rfl oauth opens (not_not.mp provides) built
    refine (authSendReceiver_wp regular without asks progress {}).bind fun res u _ ends => ?_
    obtain ⟨rfl, answered⟩ := ends
    exact ⟨1, answered.progress⟩

/-- No handshake of the second version is written, so nothing comes of one. -/
theorem handshakeV1_wp (regular : conf.Regular s .v1) (handshake : conf.handshake = true)
    (start : s.requests = 0 ∧ s.challenges = []) : Wp (conf.Fails .v1 s) (handshakeV1 conf) (fun _ _ => False) s := by
  obtain ⟨encodes, good⟩ := regular 0 s.writable _ (.handshake handshake)
  have role : conf.role .v1 0 = .handshake := if_pos ⟨handshake, rfl⟩
  have fails (failure : Failure) : conf.Fails .v1 s failure s := by
    refine ⟨?_, fun j challenge found => ?_, fun err refused => absurd refused.2.1 ?_⟩
    · rw [start.1]
      rfl
    · rw [start.2] at found
      cases found
    · rw [start.1]
      exact Nat.not_succ_le_zero 0
  have sent : Wp (conf.Fails .v1 s) (sendInternal conf (.handshake conf.version conf.mechanism)) (fun _ _ => False) s := by
    unfold sendInternal
    refine Wp.get (sendFrame_wp encodes fails fun bufs _ encoded enough => ?_)
    have good := good bufs encoded enough
    rw [SaslConf.Good, role] at good
    cases good.1
  unfold handshakeV1
  exact sent.bind fun _ _ _ impossible => impossible.elim

private theorem authenticateViaSASLv1_wp (regular : conf.Regular s .v1) (start : s.requests = 0 ∧ s.challenges = []) :
    Wp (conf.Fails .v1 s) (authenticateViaSASLv1 conf) (fun _ t => ∃ k, conf.Progress .v1 s t k) s := by
  unfold authenticateViaSASLv1
  refine Wp.ite (fun handshake => ?_) fun notHandshake => ?_
  · exact (handshakeV1_wp regular handshake start).bind fun _ _ _ impossible => impossible.elim
  have without : conf.handshake = false := Bool.eq_false_of_not_eq_true notHandshake
  have fresh : conf.Progress .v1 s s 0 := Progress.fresh without start
  have opens : conf.Opens .v1 s 0 s.writable := .atOnce without
  refine Wp.ite (fun _ => fresh.fails_here rfl rfl rfl) fun notKerberos => ?_
  refine Wp.ite (fun oauth => oauth_wp regular without oauth fresh opens) fun other => ?_
  refine Wp.ite (fun scram => scramV1_wp regular without scram fresh opens start.2) fun plain => ?_
  have asks := SaslConf.Asks.plain plain notKerberos (fun _ => other) opens
  unfold sendAndReceiveSASLPlainAuthV1
  refine (authSendReceiver_wp regular without asks fresh {}).bind fun res u _ ends => ?_
  exact ⟨1, ends.2.progress⟩

/-! ## The loop ends -/

/-- An exchange takes bytes of the stream whenever it succeeds. -/
def Consumes (exchange : Bytes → Sasl ς Bytes) : Prop :=
  ∀ msg t, Wp (fun _ _ => True) (exchange msg) (fun _ u => u.stream.length < t.stream.length) t

/-- Reading does not make the stream longer. -/
theorem readFull_shortens (n : ℕ) (t : SaslLink ς) :
    Wp (fun _ _ => True) (readFull n) (fun _ u => u.stream.length ≤ t.stream.length) t := by
  rw [← bind_pure (readFull n)]
  exact readFull_wp (fun _ => trivial) fun _ => (List.drop_sublist n t.stream).length_le

private theorem exchangeV0_consumes : Consumes (ς := ς) exchangeV0 := by
  intro msg t
  unfold exchangeV0
  refine write_wp trivial fun _ _ => write_wp trivial fun _ _ => Wp.step rfl (Wp.step rfl ?_)
  refine readFull_wp (fun _ => trivial) fun four => ?_
  refine (readFull_shortens _ _).imp fun _ u _ shorter => Nat.lt_of_le_of_lt shorter ?_
  have four : 4 ≤ t.stream.length := four
  change (t.stream.drop 4).length < t.stream.length
  rw [List.length_drop]
  omega

private theorem sendFrame_keeps (conf : SaslConf ς) (body : SaslBody) (t : SaslLink ς) :
    Wp (fun _ _ => True) (sendFrame conf body) (fun _ u => u.stream = t.stream) t := by
  unfold sendFrame
  refine Wp.get ?_
  split
  · exact write_wp trivial fun _ _ => rfl
  · exact rfl
  · exact trivial

private theorem responseReceiver_consumes (version : Int16) (id : Int32) (t : SaslLink ς) :
    Wp (fun _ _ => True) (responseReceiver version id) (fun _ u => u.stream.length < t.stream.length) t := by
  unfold responseReceiver
  refine readFull_wp (fun _ => trivial) fun eight => Wp.ite (fun _ => trivial) fun _ => Wp.ite (fun _ => trivial) fun _ => ?_
  have less : (t.stream.drop 8).length < t.stream.length := by
    rw [List.length_drop]
    omega
  refine (readFull_shortens _ _).bind fun body u _ shorter => ?_
  have first : Wp (fun _ _ => True) (decodeResponse version body {}) (fun _ w => w = u) u :=
    decodeResponse_wp (fun _ => trivial) fun _ _ => rfl
  refine first.bind fun response w _ same => ?_
  subst same
  exact decodeResponse_wp (fun _ => trivial) fun _ _ => Nat.lt_of_le_of_lt shorter less

private theorem exchangeV1_consumes (conf : SaslConf ς) (res : SaslAuthenticateResponse) :
    Consumes (exchangeV1 conf res) := by
  intro msg t
  have sent (body : SaslBody) : Wp (fun _ _ => True) (sendInternal conf body) (fun _ u => u.stream = t.stream) t := by
    unfold sendInternal
    refine Wp.get ((sendFrame_keeps conf _ t).bind fun _ u _ same => ?_)
    exact same
  have received :
      Wp (fun _ _ => True) (defaultAuthSendReceiver conf msg) (fun _ u => u.stream.length < t.stream.length) t := by
    unfold defaultAuthSendReceiver
    refine (sent _).bind fun id u _ same => ?_
    rw [← same]
    exact responseReceiver_consumes _ id u
  have lost : Wp (fun _ _ => True) (authSendReceiver conf msg res) (fun _ u => u.stream.length < t.stream.length) t := by
    unfold authSendReceiver
    exact received.bind fun _ _ _ shorter => shorter
  unfold exchangeV1
  exact lost.bind fun _ _ _ shorter => shorter

private theorem stepAnswer_keeps (conf : SaslConf ς) (challenge : Bytes) (t : SaslLink ς) :
    Wp (fun _ _ => True) (stepAnswer conf challenge) (fun _ u => u.stream = t.stream) t := by
  unfold stepAnswer
  exact Wp.step rfl (step_wp (fun _ _ => trivial) fun _ _ _ => rfl)

/-- The loop as the code has it, without a bound: the rounds that are made up to a client that is done or to the first
call that fails, and what the loop ends with. -/
inductive Finishes (conf : SaslConf ς) (exchange : Bytes → Sasl ς Bytes) :
    Bytes → SaslLink ς → Result Failure (SaslLink ς) Unit → Prop
  | done {msg : Bytes} {t : SaslLink ς} (done : conf.client.done t.scram = true) : Finishes conf exchange msg t (.ok () t)
  | unanswered {msg : Bytes} {t u : SaslLink ς} {failure : Failure} (goes : conf.client.done t.scram = false)
      (failed : exchange msg t = .error failure u) : Finishes conf exchange msg t (.error failure u)
  | refused {msg answer : Bytes} {t u w : SaslLink ς} {failure : Failure} (goes : conf.client.done t.scram = false)
      (exchanged : exchange msg t = .ok answer u) (failed : stepAnswer conf answer u = .error failure w) :
      Finishes conf exchange msg t (.error failure w)
  | next {msg answer msg' : Bytes} {t u w : SaslLink ς} {result : Result Failure (SaslLink ς) Unit}
      (goes : conf.client.done t.scram = false) (exchanged : exchange msg t = .ok answer u)
      (stepped : stepAnswer conf answer u = .ok msg' w) (rest : Finishes conf exchange msg' w result) :
      Finishes conf exchange msg t result

/-- The bytes of the stream are enough rounds: each takes some of them. -/
theorem rounds_finish (consumes : Consumes exchange) (conf : SaslConf ς) (fuel : ℕ) (msg : Bytes) (t : SaslLink ς)
    (enough : t.stream.length < fuel) : Finishes conf exchange msg t (rounds conf exchange fuel msg t) := by
  induction fuel generalizing msg t with
  | zero => cases enough
  | succ fuel ih =>
    unfold rounds
    rw [get_bind_apply]
    split
    · next done => exact .done done
    · next goes =>
      have goes := eq_false_of_ne_true goes
      rw [bind_apply]
      cases exchanged : exchange msg t with
      | error failure u => exact .unanswered goes exchanged
      | ok answer u =>
        have shorter := (consumes msg t).ok exchanged
        dsimp only
        rw [bind_apply]
        cases stepped : stepAnswer conf answer u with
        | error failure w => exact .refused goes exchanged stepped
        | ok msg' w =>
          have same := (stepAnswer_keeps conf answer u).ok stepped
          exact .next goes exchanged stepped (ih msg' w (by rw [same]; omega))

/-- The loop ends in one way. -/
theorem Finishes.unique {conf : SaslConf ς} {t : SaslLink ς} {first second : Result Failure (SaslLink ς) Unit}
    (finishes : Finishes conf exchange msg t first) (finishes' : Finishes conf exchange msg t second) :
    first = second := by
  induction finishes with
  | done => cases finishes' <;> simp_all
  | unanswered => cases finishes' <;> simp_all
  | refused => cases finishes' <;> simp_all
  | next goes exchanged stepped rest ih =>
    cases finishes' with
    | next goes' exchanged' stepped' rest' =>
      obtain ⟨rfl, rfl⟩ := Result.ok.inj (exchanged.symm.trans exchanged')
      obtain ⟨rfl, rfl⟩ := Result.ok.inj (stepped.symm.trans stepped')
      exact ih rest'
    | _ => simp_all

/-- Either version. -/
def authenticate (conf : SaslConf ς) : SaslVersion → Sasl ς Unit
  | .v0 => authenticateViaSASLv0 conf
  | .v1 => authenticateViaSASLv1 conf

/-- Under the condition either version reads one whole frame for each request, gives `Step` the tokens of the answers,
returns the code that the handshake carries, and returns 0 only if the server accepted every step. -/
theorem authenticate_faithful (conf : SaslConf ς) (v : SaslVersion) (s : SaslLink ς)
    (start : s.requests = 0 ∧ s.challenges = [])
    (regular : conf.Regular s v) : conf.Faithful v s (authenticate conf v s) := by
  cases v with
  | v0 => exact SaslConf.Faithful.of_wp (authenticateViaSASLv0_wp regular start)
  | v1 => exact SaslConf.Faithful.of_wp (authenticateViaSASLv1_wp regular start)

/-- A client that is done after its third step. -/
def thirdStep : ScramClient ℕ where
  begin_ _ _ _ n := (0, n)
  step _ n := (0, [1], n + 1)
  done n := 3 ≤ n

/-- The mechanism SCRAM-SHA-256, with that client. -/
def scramConf : SaslConf ℕ := { mechanism := saslText "SCRAM-SHA-256", handshake := false, client := thirdStep, scram := 0 }

/-- The mechanism PLAIN. -/
def plainConf (handshake : Bool) : SaslConf ℕ :=
  { mechanism := saslText "PLAIN", handshake, client := thirdStep, scram := 0 }

/-- A server that sends some bytes. -/
def sending (stream : Bytes) : SaslLink ℕ := { stream, writable := 10, scram := 0 }

/-- The answer to a handshake. -/
def acceptedHandshake : Bytes := [0, 0, 0, 10, 0, 0, 0, 0, 0, 0, 0, 0, 0, 0]

/-- A response with a correlation id, a code and a token, in the first version. -/
def saslResponse (correlationId err : UInt8) (token : Bytes) : Bytes :=
  [0, 0, 0, UInt8.ofNat (12 + token.length), 0, 0, 0, correlationId, 0, err, 255, 255, 0, 0, 0,
    UInt8.ofNat token.length] ++ token

private theorem ne_code_of_isSome {request : Except Failure (List Bytes)} (encodes : request.toOption.isSome = true)
    (code : KError) : request ≠ .error (.code code) := by
  rintro rfl
  cases encodes

/-- Two tokens of SCRAM behind a handshake; and the response to `PLAIN`, where the bytes behind it are not read. -/
theorem authenticate_faithful_scram : (∃ s, scramConf.Faithful .v0 s (authenticate scramConf .v0 s) ∧
      (authenticate scramConf .v0 s).returned = some () ∧
      (authenticate scramConf .v0 s).state.challenges = [[7, 7], [9]]) ∧
    ∃ s, (plainConf false).Faithful .v1 s (authenticate (plainConf false) .v1 s) ∧
      (authenticate (plainConf false) .v1 s).returned = some () ∧
      (authenticate (plainConf false) .v1 s).state.stream = [0, 0, 0, 1] := by
  have isScram : scramConf.isScram := .inl rfl
  have regular : scramConf.Regular (sending (acceptedHandshake ++ [0, 0, 0, 2, 7, 7, 0, 0, 0, 1, 9])) .v0 := by
    intro i w request asks
    have token {i : ℕ} (positive : i ≠ 0) : scramConf.role .v0 i = .token := if_neg fun both => positive both.2
    constructor
    · cases asks with
      | handshake => exact ne_code_of_isSome (by decide +kernel)
      | scram => exact nofun
      | plain => exact nofun
      | oauth second => cases second
    · intro _ _ _
      match i with
      | 0 => exact ⟨rfl, by decide +kernel, by decide +kernel⟩
      | 1 => rw [SaslConf.Good, token (by decide)]; exact fun _ => ⟨by decide +kernel, fun plain => absurd isScram plain⟩
      | 2 => rw [SaslConf.Good, token (by decide)]; exact fun _ => ⟨by decide +kernel, fun plain => absurd isScram plain⟩
      | i + 3 =>
        rw [SaslConf.Good, token (by omega), fromFrame_of_end (n := 3) (by decide +kernel) (Nat.le_add_left 3 i)]
        exact fun four => absurd four (by decide)
  have plain : (plainConf false).Regular (sending (saslResponse 0 0 [] ++ [0, 0, 0, 1])) .v1 := by
    intro i w request asks
    cases asks with
    | handshake handshakes => cases handshakes
    | scram isScram => exact absurd isScram (by decide +kernel)
    | oauth _ isOAuth => exact absurd isOAuth (by decide +kernel)
    | plain _ _ _ opens =>
      cases opens with
      | shaken handshakes => cases handshakes
      | atOnce =>
        refine ⟨ne_code_of_isSome (by decide +kernel), fun _ _ _ => ⟨by decide +kernel, by decide +kernel, ?_⟩⟩
        intro _ _ r decoded
        have empty :
            SaslAnswer.decoded (SaslAuthenticateResponse.decode 0) {} (answer (saslResponse 0 0 [] ++ [0, 0, 0, 1])) =
          some {} := by decide +kernel
        obtain rfl := Option.some.inj (empty.symm.trans decoded)
        exact ⟨rfl, fun _ => rfl⟩
  exact ⟨⟨_, authenticate_faithful scramConf .v0 _ ⟨rfl, rfl⟩ regular, by decide +kernel, by decide +kernel⟩,
    ⟨_, authenticate_faithful (plainConf false) .v1 _ ⟨rfl, rfl⟩ plain, by decide +kernel, by decide +kernel⟩⟩

/-- The code of a response is not looked at; the answer to a handshake of the second version is not read; a token does
not reach the client of the second version; and the length of a token of the first version goes wrong from 128 on. -/
theorem authenticate_unfaithful : (∃ s, ¬(plainConf false).Faithful .v1 s (authenticate (plainConf false) .v1 s)) ∧
    (∃ s, ¬(plainConf true).Faithful .v1 s (authenticate (plainConf true) .v1 s)) ∧
    (∃ s, ¬scramConf.Faithful .v1 s (authenticate scramConf .v1 s)) ∧
    ∃ s, ¬scramConf.Faithful .v0 s (authenticate scramConf .v0 s) := by
  refine ⟨⟨sending (saslResponse 0 58 []), fun faithful => ?_⟩,
    ⟨sending (acceptedHandshake ++ saslResponse 1 0 []), fun faithful => ?_⟩,
    ⟨sending (saslResponse 0 0 [7, 7] ++ saslResponse 1 0 [9]), fun faithful => ?_⟩,
    ⟨sending (acceptedHandshake ++ [0, 0, 0, 128] ++ List.replicate 128 7 ++ [0, 0, 0, 1, 9]), fun faithful => ?_⟩⟩
  · have accepted := (faithful.accepted (by decide +kernel) 0 (by decide +kernel)).2.1
    exact absurd accepted (by decide +kernel)
  · exact absurd faithful.reads (by decide +kernel)
  · obtain ⟨i, index, _, token⟩ := faithful.told 0 [] (by decide +kernel)
    rw [index] at token
    exact absurd token (by decide +kernel)
  · exact absurd faithful.reads (by decide +kernel)

end Sasl

end Coev.Kafka
