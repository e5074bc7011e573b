import Coev.Model.Kafka.PartitionProducer

/-! # What a partition producer does with its messages

The calls made so far tell what was received, forwarded and returned, and which retry levels are open. The
invariant relates them to the state: every message received is in exactly one place, the buffers lie below the
high watermark, and the levels whose marker is out are the ones that expect it.
-/

namespace Coev.Kafka.PartitionProducer

open Calls (Ensures Runs Ends Answered Allowed Every every_pure every_send)

variable {level : ℕ} {msg : ProducerMessage}
variable {broker : Int32}

/-- Calls with their answers. -/
abbrev Trace := List (Sigma ParentCall.Answer)

/-- A message but for its stamp. -/
def unstamped (msg : ProducerMessage) : ProducerMessage :=
  { msg with sequenceNumber := 0, producerEpoch := 0, hasSequence := false }

/-- The messages that an entry receives; markers are not among them. -/
def receives : Sigma ParentCall.Answer → List ProducerMessage
  | ⟨.get, msg⟩ => if msg.flags = 0 then [unstamped msg] else []
  | _ => []

def forwards : Sigma ParentCall.Answer → List ProducerMessage
  | ⟨.set _ msg, _⟩ => if msg.flags = 0 then [unstamped msg] else []
  | _ => []

def returns : Sigma ParentCall.Answer → List ProducerMessage
  | ⟨.returnError msg _, _⟩ => [unstamped msg]
  | _ => []

/-- A marker goes out for a level or comes back for it. -/
def marks (level : ℕ) (out : Bool) : Sigma ParentCall.Answer → Bool
  | ⟨.set _ msg, _⟩ => if msg.has Fin_ ∧ msg.retries + 1 = level then true else out
  | ⟨.get, msg⟩ => if msg.has Fin_ ∧ msg.retries = level then false else out
  | _ => out

def received (trace : Trace) : List ProducerMessage := trace.flatMap receives
def forwarded (trace : Trace) : List ProducerMessage := trace.flatMap forwards
def returned (trace : Trace) : List ProducerMessage := trace.flatMap returns

/-- The marker of a level is out. -/
def isOpen (level : ℕ) (trace : Trace) : Bool := trace.foldl (marks level) false

/-- A message that was never retried. -/
def fresh (msg : ProducerMessage) : Bool := msg.retries = 0

/-- A message of a level above another one. -/
def above (level : ℕ) (msg : ProducerMessage) : Bool := level < msg.retries

theorem above_iff : above level msg = true ↔ level < msg.retries := decide_eq_true_iff

theorem fresh_iff : fresh msg = true ↔ msg.retries = 0 := decide_eq_true_iff

/-- What is relied on: the messages received have levels up to the maximum, and the markers among them are out. -/
def Expected (conf : ProducerConfig) (trace : Trace) : (call : ParentCall) → call.Answer → Prop
  | .get, msg => msg.retries ≤ conf.retryMax ∧ (msg.flags = 0 ∨ msg.flags = Fin_ ∧ isOpen msg.retries trace = true)
  | _, _ => True

/-- No higher level is open, and its messages that were received have been forwarded or returned. -/
def Settled (level : ℕ) (trace : Trace) : Prop :=
  (∀ higher, level < higher → isOpen higher trace = false) ∧
    ((received trace).filter (above level)).Perm ((forwarded trace ++ returned trace).filter (above level))

/-- What is guaranteed: no pointer is null, no index out of range, and a message is forwarded behind higher levels. -/
def InOrder (trace : Trace) : ParentCall → Prop
  | .set _ msg => msg.flags = 0 → Settled msg.retries trace
  | .abort _ => False
  | _ => True

/-! ## Retry levels -/

/-- The level expects its marker. -/
def expects (levels : List PartitionRetryState) (level : ℕ) : Bool := (levels[level]?.getD {}).expectChaser

/-- The messages that wait at a level. -/
def bufAt (levels : List PartitionRetryState) (level : ℕ) : List ProducerMessage := (levels[level]?.getD {}).buf

def waits (state : PartitionRetryState) : List ProducerMessage := state.buf.map unstamped

/-- The messages that wait at any level. -/
def buffered (levels : List PartitionRetryState) : List ProducerMessage := levels.flatMap waits

variable {levels : List PartitionRetryState} {k : ℕ} {state state' : PartitionRetryState}

theorem expects_set (inRange : level < levels.length) :
    expects (levels.set level state) k = if k = level then state.expectChaser else expects levels k := by
  unfold expects
  rw [List.getElem?_set]
  split
  · next same => rw [if_pos same.symm]; rfl
  · next other => rw [if_neg (Ne.symm other)]

theorem bufAt_set (inRange : level < levels.length) :
    bufAt (levels.set level state) k = if k = level then state.buf else bufAt levels k := by
  unfold bufAt
  rw [List.getElem?_set]
  split
  · next same => rw [if_pos same.symm]; rfl
  · next other => rw [if_neg (Ne.symm other)]

theorem bufAt_of_getElem? (found : levels[level]? = some state) : bufAt levels level = state.buf := by
  rw [bufAt, found]
  rfl

/-- A change of one level trades what waits there. -/
theorem buffered_set_perm (found : levels[level]? = some state) :
    (waits state ++ buffered (levels.set level state')).Perm (waits state' ++ buffered levels) := by
  obtain ⟨inRange, rfl⟩ := List.getElem?_eq_some_iff.mp found
  have after : (buffered (levels.set level state')).Perm (waits state' ++ buffered (levels.eraseIdx level)) :=
    (List.set_perm_cons_eraseIdx inRange state').flatMap_right waits
  have before : (waits levels[level] ++ buffered (levels.eraseIdx level)).Perm (buffered levels) :=
    (List.getElem_cons_eraseIdx_perm inRange).flatMap_right waits
  refine (after.append_left _).trans ?_
  rw [← List.append_assoc]
  refine (List.perm_append_comm.append_right _).trans ?_
  rw [List.append_assoc]
  exact before.append_left _

theorem mem_buffered_iff {msg : ProducerMessage} :
    msg ∈ buffered levels ↔ ∃ level, ∃ m ∈ bufAt levels level, unstamped m = msg := by
  unfold buffered bufAt waits
  constructor
  · intro member
    obtain ⟨state, inLevels, waiting⟩ := List.mem_flatMap.mp member
    obtain ⟨m, inBuf, rfl⟩ := List.mem_map.mp waiting
    obtain ⟨level, found⟩ := List.mem_iff_getElem?.mp inLevels
    exact ⟨level, m, by rwa [found], rfl⟩
  · rintro ⟨level, m, inBuf, rfl⟩
    cases found : levels[level]? with
    | none =>
      rw [found] at inBuf
      cases inBuf
    | some state =>
      rw [found] at inBuf
      exact List.mem_flatMap.mpr ⟨state, List.mem_of_getElem? found, List.mem_map.mpr ⟨m, inBuf, rfl⟩⟩

/-! ## The invariant -/

variable {conf : ProducerConfig} {hand : List ProducerMessage} {trace : Trace} {hwm : ℕ}
  {entry : Sigma ParentCall.Answer} {pp pp' : PartitionProducer}

/-- Between the calls, with the messages that the coroutine has in hand, at the levels and the high watermark. -/
structure Inv (conf : ProducerConfig) (hand : List ProducerMessage) (trace : Trace) (levels : List PartitionRetryState)
    (hwm : ℕ) : Prop where
  length : levels.length = conf.retryMax + 1
  bounded : hwm ≤ conf.retryMax
  below : ∀ level, ∀ m ∈ bufAt levels level, level < hwm ∧ m.retries = level ∧ m.flags = 0
  chasers : ∀ level, isOpen level trace = expects levels level
  expected : ∀ level, expects levels level = true → 0 < level ∧ level ≤ hwm
  data : ∀ m ∈ hand, m.flags = 0
  conserved : (received trace).Perm (forwarded trace ++ returned trace ++ buffered levels ++ hand.map unstamped)
  inOrder : ((forwarded trace).filter fresh ++ (bufAt levels 0).map unstamped ++ (hand.map unstamped).filter fresh).Sublist
    ((received trace).filter fresh)

/-- The call neither moves a message nor opens or closes a level. -/
structure Quiet (entry : Sigma ParentCall.Answer) : Prop where
  receives : receives entry = []
  forwards : forwards entry = []
  returns : returns entry = []
  marks : ∀ level out, marks level out entry = out

theorem received_append_singleton : received (trace ++ [entry]) = received trace ++ receives entry := by
  simp [received]

theorem forwarded_append_singleton : forwarded (trace ++ [entry]) = forwarded trace ++ forwards entry := by
  simp [forwarded]

theorem returned_append_singleton : returned (trace ++ [entry]) = returned trace ++ returns entry := by
  simp [returned]

theorem isOpen_append_singleton : isOpen level (trace ++ [entry]) = marks level (isOpen level trace) entry := by
  simp [isOpen]

theorem Inv.quiet (inv : Inv conf hand trace levels hwm) (quiet : Quiet entry) :
    Inv conf hand (trace ++ [entry]) levels hwm := by
  constructor
  · exact inv.length
  · exact inv.bounded
  · exact inv.below
  · intro level
    rw [isOpen_append_singleton, quiet.marks]
    exact inv.chasers level
  · exact inv.expected
  · exact inv.data
  · rw [received_append_singleton, forwarded_append_singleton, returned_append_singleton, quiet.receives, quiet.forwards,
      quiet.returns, List.append_nil, List.append_nil, List.append_nil]
    exact inv.conserved
  · rw [received_append_singleton, forwarded_append_singleton, quiet.receives, quiet.forwards, List.append_nil,
      List.append_nil]
    exact inv.inOrder

/-- Behind all that is in hand and at or above the high watermark, a message may be forwarded. -/
theorem Inv.settled (inv : Inv conf hand trace levels hwm) (reached : hwm ≤ level) (top : ∀ m ∈ hand, m.retries ≤ level) :
    Settled level trace := by
  constructor
  · intro higher isAbove
    rw [inv.chasers]
    cases chaser : expects levels higher with
    | false => rfl
    | true =>
      have upTo := (inv.expected higher chaser).2
      omega
  · have nowhere : (buffered levels ++ hand.map unstamped).filter (above level) = [] := by
      refine List.filter_eq_nil_iff.mpr fun m member => ?_
      rcases List.mem_append.mp member with waiting | inHand
      · obtain ⟨k, b, inBuf, rfl⟩ := mem_buffered_iff.mp waiting
        have low := inv.below k b inBuf
        rw [above_iff, show (unstamped b).retries = b.retries from rfl]
        omega
      · obtain ⟨b, held, rfl⟩ := List.mem_map.mp inHand
        have low := top b held
        rw [above_iff, show (unstamped b).retries = b.retries from rfl]
        omega
    have all := inv.conserved.filter (above level)
    rwa [List.append_assoc, List.filter_append, nowhere, List.append_nil] at all

/-- A message in hand is forwarded. -/
theorem Inv.forward {answer : ParentCall.Answer (.set broker msg)} {sent : ProducerMessage}
    (inv : Inv conf (msg :: hand) trace levels hwm) (same : unstamped sent = unstamped msg)
    (noFresh : fresh msg = true → bufAt levels 0 = []) :
    Inv conf hand (trace ++ [⟨.set broker sent, answer⟩]) levels hwm := by
  have flags : sent.flags = 0 := by
    have data := inv.data msg List.mem_cons_self
    exact (congrArg ProducerMessage.flags same).trans data
  have forwards_ : forwards ⟨.set broker sent, answer⟩ = [unstamped msg] := by rw [forwards, if_pos flags, same]
  have notMarker : ¬ sent.has Fin_ = true := by
    rw [ProducerMessage.has, flags]
    decide
  constructor
  · exact inv.length
  · exact inv.bounded
  · exact inv.below
  · intro level
    rw [isOpen_append_singleton, marks, if_neg fun marker => notMarker marker.1]
    exact inv.chasers level
  · exact inv.expected
  · exact fun m member => inv.data m (List.mem_cons_of_mem _ member)
  · rw [received_append_singleton, forwarded_append_singleton, returned_append_singleton, forwards_]
    refine List.perm_iff_count.mpr fun m => ?_
    have counts := inv.conserved.count_eq m
    simp only [receives, returns, List.append_nil, List.map_cons, List.count_append, List.count_cons, List.count_nil]
      at counts ⊢
    omega
  · have inOrder := inv.inOrder
    rw [received_append_singleton, forwarded_append_singleton, forwards_]
    simp only [receives, List.append_nil, List.filter_append, List.map_cons] at inOrder ⊢
    cases isFresh : fresh (unstamped msg) with
    | true =>
      rw [noFresh (fresh_iff.mpr (fresh_iff.mp isFresh))] at inOrder ⊢
      simpa [List.filter_cons, isFresh] using inOrder
    | false => simpa [List.filter_cons, isFresh] using inOrder

/-- A message in hand is returned. -/
theorem Inv.giveBack {err : KError} {answer : ParentCall.Answer (.returnError msg err)}
    (inv : Inv conf (msg :: hand) trace levels hwm) :
    Inv conf hand (trace ++ [⟨.returnError msg err, answer⟩]) levels hwm := by
  constructor
  · exact inv.length
  · exact inv.bounded
  · exact inv.below
  · intro level
    rw [isOpen_append_singleton]
    exact inv.chasers level
  · exact inv.expected
  · exact fun m member => inv.data m (List.mem_cons_of_mem _ member)
  · rw [received_append_singleton, forwarded_append_singleton, returned_append_singleton]
    refine List.perm_iff_count.mpr fun m => ?_
    have counts := inv.conserved.count_eq m
    simp only [receives, forwards, returns, List.append_nil, List.map_cons, List.count_append, List.count_cons,
      List.count_nil] at counts ⊢
    omega
  · rw [received_append_singleton, forwarded_append_singleton]
    simp only [receives, forwards, List.append_nil]
    refine List.Sublist.trans ?_ inv.inOrder
    exact (List.Sublist.refl _).append ((List.sublist_cons_self _ _).filter _)

/-- A message is received. -/
theorem Inv.receive (inv : Inv conf [] trace levels hwm) (flags : msg.flags = 0) :
    Inv conf [msg] (trace ++ [⟨.get, msg⟩]) levels hwm := by
  have receives_ : receives ⟨.get, msg⟩ = [unstamped msg] := if_pos flags
  have notMarker : ¬ msg.has Fin_ = true := by
    rw [ProducerMessage.has, flags]
    decide
  constructor
  · exact inv.length
  · exact inv.bounded
  · exact inv.below
  · intro level
    rw [isOpen_append_singleton, marks, if_neg fun marker => notMarker marker.1]
    exact inv.chasers level
  · exact inv.expected
  · intro m member
    rw [List.mem_singleton.mp member]
    exact flags
  · rw [received_append_singleton, forwarded_append_singleton, returned_append_singleton, receives_]
    simpa [forwards, returns] using inv.conserved.append_right [unstamped msg]
  · rw [received_append_singleton, forwarded_append_singleton, receives_]
    have appended := inv.inOrder.append (List.Sublist.refl ([unstamped msg].filter fresh))
    simpa [forwards] using appended

/-- The state of a level that is in range. -/
theorem Inv.found (inv : Inv conf hand trace levels hwm) (upTo : level ≤ conf.retryMax) :
    ∃ state, levels[level]? = some state :=
  List.getElem?_eq_some_iff.mpr ⟨by rw [inv.length]; omega, rfl⟩ |> fun found => ⟨_, found⟩

/-- Setting what a level expects changes no buffer. -/
theorem bufAt_setExpected {expectChaser : Bool} (found : levels[level]? = some state) :
    bufAt (levels.set level { state with expectChaser }) k = bufAt levels k := by
  rw [bufAt_set (List.getElem?_eq_some_iff.mp found).1]
  split
  · next same => rw [same, bufAt_of_getElem? found]
  · rfl

theorem buffered_setExpected_perm {expectChaser : Bool} (found : levels[level]? = some state) :
    (buffered (levels.set level { state with expectChaser })).Perm (buffered levels) :=
  (List.perm_append_left_iff (waits state)).mp (@buffered_set_perm level levels state { state with expectChaser } found)

/-- The marker of a level comes back. -/
theorem Inv.receiveMarker (inv : Inv conf hand trace levels hwm) (flags : msg.flags = Fin_)
    (found : levels[msg.retries]? = some state) :
    Inv conf hand (trace ++ [⟨.get, msg⟩]) (levels.set msg.retries { state with expectChaser := false }) hwm := by
  have receives_ : receives ⟨.get, msg⟩ = [] := by
    rw [receives, flags]
    rfl
  have marker : msg.has Fin_ = true := by
    rw [ProducerMessage.has, flags]
    decide
  have inRange := (List.getElem?_eq_some_iff.mp found).1
  constructor
  · rw [List.length_set]
    exact inv.length
  · exact inv.bounded
  · intro k m member
    rw [bufAt_setExpected found] at member
    exact inv.below k m member
  · intro k
    rw [isOpen_append_singleton, marks, expects_set inRange, inv.chasers k]
    by_cases same : k = msg.retries
    · rw [if_pos ⟨marker, same.symm⟩, if_pos same]
    · rw [if_neg fun both => same both.2.symm, if_neg same]
  · intro k chaser
    rw [expects_set inRange] at chaser
    split at chaser
    · cases chaser
    · exact inv.expected k chaser
  · exact inv.data
  · rw [received_append_singleton, forwarded_append_singleton, returned_append_singleton, receives_]
    refine List.perm_iff_count.mpr fun m => ?_
    have counts := inv.conserved.count_eq m
    have kept := (@buffered_setExpected_perm _ levels state false found).count_eq m
    simp only [forwards, returns, List.append_nil, List.count_append] at counts ⊢
    omega
  · rw [received_append_singleton, forwarded_append_singleton, receives_, bufAt_setExpected found]
    simp only [forwards, List.append_nil]
    exact inv.inOrder

/-- A message above the high watermark opens its level. -/
theorem Inv.raise {marker : ProducerMessage} {answer : ParentCall.Answer (.set broker marker)}
    (inv : Inv conf hand trace levels hwm) (higher : hwm < level) (bounded : level ≤ conf.retryMax)
    (found : levels[level]? = some state) (flags : marker.flags = Fin_) (retries : marker.retries + 1 = level) :
    Inv conf hand (trace ++ [⟨.set broker marker, answer⟩])
      (levels.set level { state with expectChaser := true }) level := by
  have inRange := (List.getElem?_eq_some_iff.mp found).1
  have forwards_ : forwards ⟨.set broker marker, answer⟩ = [] := by
    rw [forwards, flags]
    rfl
  have isMarker : marker.has Fin_ = true := by
    rw [ProducerMessage.has, flags]
    decide
  constructor
  · rw [List.length_set]
    exact inv.length
  · exact bounded
  · intro k m member
    rw [bufAt_setExpected found] at member
    have low := inv.below k m member
    exact ⟨by omega, low.2⟩
  · intro k
    rw [isOpen_append_singleton, marks, expects_set inRange, inv.chasers k]
    by_cases same : k = level
    · rw [if_pos ⟨isMarker, by omega⟩, if_pos same]
    · rw [if_neg fun both => same (both.2.symm.trans retries), if_neg same]
  · intro k chaser
    rw [expects_set inRange] at chaser
    split at chaser
    · omega
    · have low := inv.expected k chaser
      omega
  · exact inv.data
  · rw [received_append_singleton, forwarded_append_singleton, returned_append_singleton, forwards_]
    refine List.perm_iff_count.mpr fun m => ?_
    have counts := inv.conserved.count_eq m
    have kept := (@buffered_setExpected_perm level levels state true found).count_eq m
    simp only [receives, returns, List.append_nil, List.count_append] at counts ⊢
    omega
  · rw [received_append_singleton, forwarded_append_singleton, forwards_, bufAt_setExpected found]
    simp only [receives, List.append_nil]
    exact inv.inOrder

/-- A message below the high watermark waits at its level. -/
theorem Inv.park (inv : Inv conf [msg] trace levels hwm) (low : msg.retries < hwm)
    (found : levels[msg.retries]? = some state) :
    Inv conf [] trace (levels.set msg.retries { state with buf := state.buf ++ [msg] }) hwm := by
  have inRange := (List.getElem?_eq_some_iff.mp found).1
  have flags := inv.data msg (List.mem_singleton.mpr rfl)
  constructor
  · rw [List.length_set]
    exact inv.length
  · exact inv.bounded
  · intro k m member
    rw [bufAt_set inRange] at member
    split at member
    · next same =>
      subst same
      rcases List.mem_append.mp member with before | last
      · rw [← bufAt_of_getElem? found] at before
        exact inv.below _ m before
      · rw [List.mem_singleton.mp last]
        exact ⟨low, rfl, flags⟩
    · exact inv.below k m member
  · intro k
    rw [inv.chasers k, expects_set inRange]
    split
    · next same => rw [same, expects, found]; rfl
    · rfl
  · intro k chaser
    rw [expects_set inRange] at chaser
    split at chaser
    · next same =>
      rw [same]
      apply inv.expected
      rw [expects, found]
      exact chaser
    · exact inv.expected k chaser
  · exact fun m member => absurd member List.not_mem_nil
  · refine List.perm_iff_count.mpr fun m => ?_
    have counts := inv.conserved.count_eq m
    have traded := (@buffered_set_perm _ levels state { state with buf := state.buf ++ [msg] } found).count_eq m
    simp only [waits, List.map_append, List.map_cons, List.map_nil, List.count_append, List.count_nil] at counts traded ⊢
    omega
  · refine List.Sublist.trans ?_ inv.inOrder
    rw [bufAt_set inRange]
    split
    · next zero =>
      have isFresh : fresh (unstamped msg) = true := fresh_iff.mpr zero.symm
      have bottom : bufAt levels 0 = state.buf := by rw [zero, bufAt_of_getElem? found]
      simp [bottom, isFresh]
    · next notZero =>
      have notFresh : ¬ fresh (unstamped msg) = true := fun isFresh => notZero (fresh_iff.mp isFresh).symm
      simp [notFresh]

/-- The messages that wait at the level below the high watermark are taken in hand. -/
theorem Inv.unload (inv : Inv conf [] trace levels (level + 1)) (closed : expects levels (level + 1) = false)
    (found : levels[level]? = some state) :
    Inv conf state.buf trace (levels.set level { state with buf := [] }) level := by
  have inRange := (List.getElem?_eq_some_iff.mp found).1
  have bounded := inv.bounded
  have mine := bufAt_of_getElem? found
  constructor
  · rw [List.length_set]
    exact inv.length
  · omega
  · intro k m member
    rw [bufAt_set inRange] at member
    split at member
    · cases member
    · next other =>
      have low := inv.below k m member
      exact ⟨by omega, low.2⟩
  · intro k
    rw [inv.chasers k, expects_set inRange]
    split
    · next same => rw [same, expects, found]; rfl
    · rfl
  · intro k chaser
    have chaser' : expects levels k = true := by
      rw [expects_set inRange] at chaser
      split at chaser
      · next same => rw [same, expects, found]; exact chaser
      · exact chaser
    have low := inv.expected k chaser'
    have other : k ≠ level + 1 := by
      rintro rfl
      rw [closed] at chaser'
      cases chaser'
    omega
  · intro m member
    rw [← mine] at member
    exact (inv.below level m member).2.2
  · refine List.perm_iff_count.mpr fun m => ?_
    have counts := inv.conserved.count_eq m
    have traded := (@buffered_set_perm level levels state { state with buf := [] } found).count_eq m
    simp only [waits, List.map_nil, List.count_append, List.count_nil] at counts traded ⊢
    omega
  · refine List.Sublist.trans ?_ inv.inOrder
    rw [bufAt_set inRange]
    split
    · next zero =>
      have bottom : bufAt levels 0 = state.buf := by rw [zero, mine]
      rw [bottom]
      simp
    · next notZero =>
      have none_ : (state.buf.map unstamped).filter fresh = [] := by
        refine List.filter_eq_nil_iff.mpr fun b member => ?_
        obtain ⟨m, inBuf, rfl⟩ := List.mem_map.mp member
        rw [← mine] at inBuf
        have retries := (inv.below level m inBuf).2.1
        rw [fresh_iff, show (unstamped m).retries = m.retries from rfl]
        omega
      rw [none_, List.append_nil]
      simp

/-! ## Calls that move no message -/

variable {α β : Type}

/-- The program keeps the invariant as it is, for any levels, and its value has the property. -/
def Silent (conf : ProducerConfig) (x : Dispatch α) (property : α → Prop) : Prop :=
  ∀ hand trace levels hwm, Inv conf hand trace levels hwm →
    Ensures (Expected conf) InOrder trace x fun a trace' => Inv conf hand trace' levels hwm ∧ property a

theorem silent_pure {a : α} {property : α → Prop} (holds : property a) : Silent conf (pure a) property :=
  fun _ _ _ _ inv => ⟨inv, holds⟩

theorem silent_ask {c : ParentCall} (isAllowed : ∀ trace, InOrder trace c) (quiet : ∀ r, Quiet ⟨c, r⟩) :
    Silent conf (ask c) fun _ => True := by
  intro hand trace levels hwm inv
  exact Ensures.send (isAllowed trace) fun r _ => ⟨inv.quiet (quiet r), trivial⟩

theorem Silent.bind {x : Dispatch α} {f : α → Dispatch β} {p : α → Prop} {q : β → Prop} (first : Silent conf x p)
    (rest : ∀ a, p a → Silent conf (f a) q) : Silent conf (x >>= f) q := by
  intro hand trace levels hwm inv
  apply Ensures.bind (first hand trace levels hwm inv)
  rintro a trace' ⟨inv', holds⟩
  exact rest a holds hand trace' levels hwm inv'

theorem quiet_syn {answer : ParentCall.Answer (.set broker msg)} (flags : msg.flags = Syn) :
    Quiet ⟨.set broker msg, answer⟩ := by
  constructor
  · rfl
  · rw [forwards, flags]
    rfl
  · rfl
  · intro level out
    rw [marks, ProducerMessage.has, flags]
    exact if_neg fun marker => absurd marker.1 (by decide)

theorem inOrder_of_flags (flags : msg.flags ≠ 0) (trace : Trace) : InOrder trace (.set broker msg) :=
  fun data => absurd data flags

/-- The coroutine keeps its levels and its high watermark. -/
def SameLevels (pp pp' : PartitionProducer) : Prop :=
  pp'.retryState = pp.retryState ∧ pp'.highWatermark = pp.highWatermark

theorem silent_setSyn (broker : pp.brokerProducer ≠ none) (flags : msg.flags = Syn) :
    Silent conf (pp.setInput msg) fun _ => True := by
  unfold setInput
  split
  · apply silent_ask (inOrder_of_flags (by rw [flags]; decide))
    exact fun _ => quiet_syn flags
  · next none_ => exact absurd none_ broker

theorem silent_toLeader (pp : PartitionProducer) :
    Silent conf pp.toLeader fun r => SameLevels pp r.2 ∧ (r.1 = 0 → r.2.brokerProducer ≠ none) := by
  have found : Silent conf (ask (.leader pp.topic pp.partition)) fun _ => True :=
    silent_ask (fun _ => trivial) fun _ => ⟨rfl, rfl, rfl, fun _ _ => rfl⟩
  apply found.bind
  rintro ⟨err, leader⟩ -
  dsimp only
  split
  · next failed => exact silent_pure ⟨⟨rfl, rfl⟩, fun ok => absurd ok failed⟩
  · have started : Silent conf (ask (.getBrokerProducer leader)) fun _ => True :=
      silent_ask (fun _ => trivial) fun _ => ⟨rfl, rfl, rfl, fun _ _ => rfl⟩
    apply started.bind
    rintro - -
    have counted : Silent conf (ask .inFlightAdd) fun _ => True :=
      silent_ask (fun _ => trivial) fun _ => ⟨rfl, rfl, rfl, fun _ _ => rfl⟩
    have opened : Silent conf ({ pp with leader := some leader, brokerProducer := some leader }.sendControl Syn 0)
        fun _ => True := by
      apply counted.bind
      rintro ticket -
      exact silent_setSyn (Option.some_ne_none leader) rfl
    apply opened.bind
    rintro - -
    exact silent_pure ⟨⟨rfl, rfl⟩, fun _ => Option.some_ne_none leader⟩

theorem silent_updateLeader (pp : PartitionProducer) :
    Silent conf pp.updateLeader fun r => SameLevels pp r.2 ∧ (r.1 = 0 → r.2.brokerProducer ≠ none) := by
  have refreshed : Silent conf (ask (.refreshMetadata [pp.topic])) fun _ => True :=
    silent_ask (fun _ => trivial) fun _ => ⟨rfl, rfl, rfl, fun _ _ => rfl⟩
  apply refreshed.bind
  intro err _
  split
  · next failed => exact silent_pure ⟨⟨rfl, rfl⟩, fun ok => absurd ok failed⟩
  · exact silent_toLeader pp

theorem silent_backoff : Silent conf (backoff conf) fun _ => True := by
  unfold backoff
  split
  · exact silent_ask (fun _ => trivial) fun _ => ⟨rfl, rfl, rfl, fun _ _ => rfl⟩
  · exact silent_pure trivial

theorem silent_toBrokerProducer (pp : PartitionProducer) :
    Silent conf pp.toBrokerProducer fun r => SameLevels pp r.2 ∧ (r.1 = 0 → r.2.brokerProducer ≠ none) := by
  unfold toBrokerProducer
  split
  · next broker found =>
    refine silent_pure ⟨⟨rfl, rfl⟩, fun _ => ?_⟩
    rw [found]
    exact Option.some_ne_none broker
  · exact silent_updateLeader pp

theorem silent_stamp (msg : ProducerMessage) (skip : Bool) :
    Silent conf (stamp conf msg skip) fun sent => unstamped sent = unstamped msg := by
  have asked : Silent conf (ask (.getAndIncrementSequenceNumber msg.topic msg.partition)) fun _ => True :=
    silent_ask (fun _ => trivial) fun _ => ⟨rfl, rfl, rfl, fun _ _ => rfl⟩
  unfold stamp
  split
  · apply asked.bind
    rintro ⟨sequence, epoch⟩ -
    exact silent_pure rfl
  · exact silent_pure rfl

theorem silent_addToTransaction (pp : PartitionProducer) : Silent conf pp.addToTransaction fun _ => True := by
  have asked : Silent conf (ask .isTransactional) fun _ => True :=
    silent_ask (fun _ => trivial) fun _ => ⟨rfl, rfl, rfl, fun _ _ => rfl⟩
  apply asked.bind
  intro transactional _
  split
  · exact silent_ask (fun _ => trivial) fun _ => ⟨rfl, rfl, rfl, fun _ _ => rfl⟩
  · exact silent_pure trivial

theorem silent_dropAbandoned (pp : PartitionProducer) : Silent conf pp.dropAbandoned (SameLevels pp) := by
  unfold dropAbandoned
  split
  · exact silent_pure ⟨rfl, rfl⟩
  · next broker _ =>
    have asked : Silent conf (ask (.tryGetAbandoned broker)) fun _ => True :=
      silent_ask (fun _ => trivial) fun _ => ⟨rfl, rfl, rfl, fun _ _ => rfl⟩
    apply asked.bind
    intro abandoned _
    have slept : Silent conf (ask .sleepFor) fun _ => True :=
      silent_ask (fun _ => trivial) fun _ => ⟨rfl, rfl, rfl, fun _ _ => rfl⟩
    split
    · apply slept.bind
      rintro - -
      exact silent_pure ⟨rfl, rfl⟩
    · exact silent_pure ⟨rfl, rfl⟩

/-! ## Programs that move messages -/

/-- A message in hand at or above the high watermark is sent. -/
theorem setInput_ensures {sent : ProducerMessage} (inv : Inv conf (msg :: hand) trace levels hwm)
    (broker : pp.brokerProducer ≠ none) (same : unstamped sent = unstamped msg) (reached : hwm ≤ msg.retries)
    (top : ∀ m ∈ hand, m.retries ≤ msg.retries) :
    Ensures (Expected conf) InOrder trace (pp.setInput sent) fun _ trace' => Inv conf hand trace' levels hwm := by
  have retries : sent.retries = msg.retries := by
    have all := congrArg ProducerMessage.retries same
    exact all
  unfold setInput
  split
  · apply Ensures.send
    · intro _
      rw [retries]
      exact inv.settled reached (List.forall_mem_cons.mpr ⟨le_refl _, top⟩)
    · intro answer _
      apply inv.forward same
      intro isFresh
      refine List.eq_nil_iff_forall_not_mem.mpr fun m member => ?_
      have low := (inv.below 0 m member).1
      have zero := fresh_iff.mp isFresh
      omega
  · next none_ => exact absurd none_ broker

theorem updateLeaderIfBrokerProducerIsNil_ensures (inv : Inv conf [msg] trace levels hwm) :
    Ensures (Expected conf) InOrder trace (pp.updateLeaderIfBrokerProducerIsNil conf msg) fun r trace' =>
      SameLevels pp r.2 ∧ if r.1 = 0 then Inv conf [msg] trace' levels hwm ∧ r.2.brokerProducer ≠ none
        else Inv conf [] trace' levels hwm := by
  apply Ensures.bind (silent_toBrokerProducer pp _ _ _ _ inv)
  rintro ⟨err, pp'⟩ trace' ⟨kept, same, found⟩
  dsimp only at same found ⊢
  split
  · next failed =>
    have returned : Ensures (Expected conf) InOrder trace' (ask (.returnError msg err)) fun _ t =>
        Inv conf [] t levels hwm :=
      Ensures.send trivial fun _ _ => kept.giveBack
    apply returned.bind
    intro _ t given
    apply Ensures.bind (silent_backoff _ _ _ _ given)
    rintro _ u ⟨rested, -⟩
    refine Ensures.pure ⟨same, ?_⟩
    rw [if_neg failed]
    exact rested
  · next ok =>
    refine Ensures.pure ⟨same, ?_⟩
    rw [if_pos rfl]
    exact ⟨kept, found (not_not.mp ok)⟩

theorem sendBuffered_ensures (inv : Inv conf (msg :: hand) trace levels hwm) (broker : pp.brokerProducer ≠ none)
    (reached : hwm ≤ msg.retries) (top : ∀ m ∈ hand, m.retries ≤ msg.retries) :
    Ensures (Expected conf) InOrder trace (sendBuffered conf pp msg) fun _ trace' => Inv conf hand trace' levels hwm := by
  apply Ensures.bind (silent_stamp msg _ _ _ _ _ inv)
  rintro sent trace' ⟨kept, same⟩
  exact setInput_ensures kept broker same reached top

theorem forM_sendBuffered_ensures (inv : Inv conf hand trace levels hwm) (broker : pp.brokerProducer ≠ none)
    (leveled : ∀ m ∈ hand, m.retries = hwm) :
    Ensures (Expected conf) InOrder trace (hand.forM (sendBuffered conf pp)) fun _ trace' => Inv conf
      [] trace' levels hwm := by
  induction hand generalizing trace with
  | nil => exact Ensures.pure inv
  | cons msg rest ih =>
    obtain ⟨mine, others⟩ := List.forall_mem_cons.mp leveled
    have below : ∀ m ∈ rest, m.retries ≤ msg.retries := fun m member => by rw [others m member, mine]
    apply Ensures.bind (sendBuffered_ensures inv broker (le_of_eq mine.symm) below)
    exact fun _ _ sent => ih sent others

theorem returnErrors_ensures {err : KError} (inv : Inv conf hand trace levels hwm) :
    Ensures (Expected conf) InOrder trace (returnErrors hand err) fun _ trace' => Inv conf [] trace' levels hwm := by
  induction hand generalizing trace with
  | nil => exact Ensures.pure inv
  | cons msg rest ih =>
    have returned : Ensures (Expected conf) InOrder trace (ask (.returnError msg err)) fun _ t =>
        Inv conf rest t levels hwm :=
      Ensures.send trivial fun _ _ => inv.giveBack
    apply returned.bind
    exact fun _ _ given => ih given

theorem modifyRetryState_ensures {f : PartitionRetryState → PartitionRetryState} {post : PartitionProducer → Trace → Prop}
    (found : pp.retryState[level]? = some state)
    (holds : post { pp with retryState := pp.retryState.set level (f state) } trace) :
    Ensures (Expected conf) InOrder trace (pp.modifyRetryState level f) post := by
  unfold modifyRetryState retryStateAt
  rw [found]
  exact holds

theorem modifyRetryState_bind {f : PartitionRetryState → PartitionRetryState} {rest : PartitionProducer → Dispatch β}
    {last : β → Trace → Prop} (found : pp.retryState[level]? = some state)
    (goesOn : Ensures (Expected conf) InOrder trace
    (rest { pp with retryState := pp.retryState.set level (f state) }) last) :
    Ensures (Expected conf) InOrder trace (pp.modifyRetryState level f >>= rest) last := by
  unfold modifyRetryState retryStateAt
  rw [found]
  exact goesOn

theorem retryStateAt_ensures (found : pp.retryState[level]? = some state) :
    Ensures (Expected conf) InOrder trace (pp.retryStateAt level) fun s t => s = state ∧ t = trace := by
  unfold retryStateAt
  rw [found]
  exact Ensures.pure ⟨rfl, rfl⟩

/-- The level that is reached is emptied, one way or the other. -/
theorem flushLevel_ensures (inv : Inv conf [] trace pp.retryState (level + 1)) (reached : pp.highWatermark = level)
    (closed : expects pp.retryState (level + 1) = false) :
    Ensures (Expected conf) InOrder trace (flushLevel conf pp level) fun pp' trace' =>
      Inv conf [] trace' pp'.retryState level ∧ pp'.highWatermark = level := by
  have upTo : level ≤ conf.retryMax := Nat.le_of_succ_le inv.bounded
  obtain ⟨state, found⟩ := inv.found upTo
  have leveled : ∀ m ∈ state.buf, m.retries = level := by
    intro m member
    rw [← bufAt_of_getElem? found] at member
    exact (inv.below level m member).2.1
  -- the messages of the level are in hand from the look-up of the leader on
  apply Ensures.bind (silent_toBrokerProducer pp _ _ _ _ (inv.unload closed found))
  rintro ⟨err, pp'⟩ trace' ⟨unloaded, ⟨sameState, sameMark⟩, isBroker⟩
  have found' : pp'.retryState[level]? = some state := by rw [sameState, found]
  dsimp only at isBroker ⊢
  have cleared : ∀ t, Inv conf [] t (pp.retryState.set level { state with buf := [] }) level →
      Ensures (Expected conf) InOrder t (pp'.modifyRetryState level ({ · with buf := [] })) fun pp'' t' =>
        Inv conf [] t' pp''.retryState level ∧ pp''.highWatermark = level := by
    intro t emptied
    apply modifyRetryState_ensures found'
    rw [sameState]
    exact ⟨emptied, sameMark.trans reached⟩
  apply (retryStateAt_ensures found').bind
  rintro _ _ ⟨rfl, rfl⟩
  split
  · exact (returnErrors_ensures unloaded).bind fun _ => cleared
  · next ok => exact (forM_sendBuffered_ensures unloaded (isBroker (not_not.mp ok)) leveled).bind fun _ => cleared

/-- Between two rounds nothing is in hand, and the level at the high watermark expects its marker. -/
structure Waiting (conf : ProducerConfig) (trace : Trace) (pp : PartitionProducer) : Prop where
  inv : Inv conf [] trace pp.retryState pp.highWatermark
  top : 0 < pp.highWatermark → expects pp.retryState pp.highWatermark = true

theorem flushFrom_ensures (inv : Inv conf [] trace pp.retryState hwm) (positive : 0 < hwm)
    (closed : expects pp.retryState hwm = false) :
    Ensures (Expected conf) InOrder trace (flushFrom conf hwm pp) fun pp' trace' => Waiting conf trace' pp' := by
  induction hwm generalizing trace pp with
  | zero => exact absurd positive (Nat.lt_irrefl 0)
  | succ level ih =>
    have flushed := @flushLevel_ensures level conf trace { pp with highWatermark := level } inv rfl closed
    apply flushed.bind
    rintro pp' trace' ⟨inv', mark⟩
    obtain ⟨state, found⟩ := inv'.found inv'.bounded
    have chaser : expects pp'.retryState level = state.expectChaser := by rw [expects, found]; rfl
    apply (retryStateAt_ensures found).bind
    rintro _ _ ⟨rfl, rfl⟩
    split
    · next isExpected =>
      refine Ensures.pure ⟨by rw [mark]; exact inv', fun _ => ?_⟩
      rw [mark, chaser]
      exact isExpected
    · next notExpected =>
      split
      · next zero =>
        refine Ensures.pure ⟨by rw [mark]; exact inv', fun isAbove => ?_⟩
        omega
      · next notZero => exact ih inv' (Nat.pos_of_ne_zero notZero) (chaser.trans (Bool.not_eq_true _ ▸ notExpected))

/-! ## One round -/

/-- A message at or above the high watermark is forwarded or returned. -/
theorem forward_ensures (inv : Inv conf [msg] trace pp.retryState pp.highWatermark)
    (reached : pp.highWatermark ≤ msg.retries)
    (top : 0 < pp.highWatermark → expects pp.retryState pp.highWatermark = true) :
    Ensures (Expected conf) InOrder trace (pp.forward conf msg) fun pp' trace' => Waiting conf trace' pp' := by
  apply Ensures.bind (updateLeaderIfBrokerProducerIsNil_ensures inv)
  rintro ⟨err, pp'⟩ trace' ⟨⟨sameState, sameMark⟩, kept⟩
  dsimp only at sameState sameMark kept ⊢
  have waiting : ∀ t, Inv conf [] t pp.retryState pp.highWatermark → Waiting conf t pp' := by
    intro t emptied
    constructor
    · rw [sameState, sameMark]
      exact emptied
    · rw [sameState, sameMark]
      exact top
  split
  · next failed =>
    rw [if_neg failed] at kept
    exact Ensures.pure (waiting _ kept)
  · next ok =>
    rw [if_pos (not_not.mp ok)] at kept
    obtain ⟨kept, isBroker⟩ := kept
    apply Ensures.bind (silent_stamp msg _ _ _ _ _ kept)
    rintro sent t ⟨kept, same⟩
    apply Ensures.bind (silent_addToTransaction pp' _ _ _ _ kept)
    rintro _ t ⟨kept, -⟩
    apply Ensures.bind (setInput_ensures kept isBroker same reached fun m member => absurd member List.not_mem_nil)
    exact fun _ t emptied => Ensures.pure (waiting t emptied)

/-- A message above the high watermark opens its level, and the broker producer is left. -/
theorem newHighWatermark_ensures (inv : Inv conf [msg] trace pp.retryState pp.highWatermark)
    (higher : pp.highWatermark < msg.retries) (bounded : msg.retries ≤ conf.retryMax) (broker : pp.brokerProducer ≠ none) :
    Ensures (Expected conf) InOrder trace (pp.newHighWatermark msg.retries) fun pp' trace' =>
      Inv conf [msg] trace' pp'.retryState pp'.highWatermark ∧ pp'.highWatermark = msg.retries ∧
        expects pp'.retryState msg.retries = true := by
  obtain ⟨state, found⟩ := inv.found bounded
  obtain ⟨id, isBroker⟩ := Option.ne_none_iff_exists'.mp broker
  have inRange := (List.getElem?_eq_some_iff.mp found).1
  have opened : expects (pp.retryState.set msg.retries { state with expectChaser := true }) msg.retries = true := by
    rw [expects_set inRange, if_pos rfl]
  unfold newHighWatermark
  have found' : ({ pp with highWatermark := msg.retries } : PartitionProducer).retryState[msg.retries]? = some state := found
  apply modifyRetryState_bind found'
  have counted : Ensures (Expected conf) InOrder trace (ask .inFlightAdd) fun _ t =>
      Inv conf [msg] t pp.retryState pp.highWatermark :=
    Ensures.send trivial fun _ _ => inv.quiet ⟨rfl, rfl, rfl, fun _ _ => rfl⟩
  have sent : Ensures (Expected conf) InOrder trace
      ({ pp with
        highWatermark := msg.retries
        retryState := pp.retryState.set msg.retries { state with expectChaser := true } }.sendControl
        Fin_ (msg.retries - 1)) fun _ t =>
      Inv conf [msg] t (pp.retryState.set msg.retries { state with expectChaser := true }) msg.retries := by
    apply counted.bind
    intro ticket t kept
    unfold setInput
    rw [isBroker]
    apply Ensures.send
    · intro data
      have notData : Fin_ ≠ 0 := by decide
      exact absurd data notData
    · intro answer _
      exact kept.raise higher bounded found rfl (Nat.sub_add_cancel (Nat.lt_of_le_of_lt (Nat.zero_le _) higher))
  apply sent.bind
  exact fun _ t kept => Ensures.pure ⟨kept, rfl, opened⟩

theorem raise_ensures (inv : Inv conf [msg] trace pp.retryState pp.highWatermark) (higher : pp.highWatermark < msg.retries)
    (bounded : msg.retries ≤ conf.retryMax)
    (top : 0 < pp.highWatermark → expects pp.retryState pp.highWatermark = true) :
    Ensures (Expected conf) InOrder trace (pp.raise conf msg) fun pp' trace' => Waiting conf trace' pp' := by
  apply Ensures.bind (updateLeaderIfBrokerProducerIsNil_ensures inv)
  rintro ⟨err, pp'⟩ trace' ⟨⟨sameState, sameMark⟩, kept⟩
  dsimp only at sameState sameMark kept ⊢
  rw [← sameState, ← sameMark] at kept top
  rw [← sameMark] at higher
  split
  · next failed =>
    rw [if_neg failed] at kept
    exact Ensures.pure ⟨kept, top⟩
  · next ok =>
    rw [if_pos (not_not.mp ok)] at kept
    apply Ensures.bind (newHighWatermark_ensures kept.1 higher bounded kept.2)
    rintro pp'' t ⟨raised, mark, opened⟩
    apply Ensures.bind (silent_backoff _ _ _ _ raised)
    rintro _ t' ⟨rested, -⟩
    exact forward_ensures rested (le_of_eq mark) fun _ => by rw [mark]; exact opened

/-- The levels once the marker of one of them came back. -/
def closeLevel (levels : List PartitionRetryState) (level : ℕ) : List PartitionRetryState :=
  levels.set level { levels[level]?.getD {} with expectChaser := false }

theorem closeLevel_of_found (found : levels[level]? = some state) :
    closeLevel levels level = levels.set level { state with expectChaser := false } := by
  rw [closeLevel, found]
  rfl

/-- The marker of a level below the high watermark. -/
theorem hold_ensures_of_marker (inv : Inv conf [] trace (closeLevel pp.retryState msg.retries) pp.highWatermark)
    (low : msg.retries < pp.highWatermark) (marker : msg.has Fin_ = true)
    (top : expects pp.retryState pp.highWatermark = true) :
    Ensures (Expected conf) InOrder trace (pp.hold msg) fun pp' trace' => Waiting conf trace' pp' := by
  have inRange : msg.retries < pp.retryState.length := by
    have length := inv.length
    have bounded := inv.bounded
    rw [closeLevel, List.length_set] at length
    omega
  have found := List.getElem?_eq_getElem inRange
  have closed := closeLevel_of_found found
  rw [closed] at inv
  unfold hold
  rw [if_pos marker]
  apply modifyRetryState_bind found
  have settled : Ensures (Expected conf) InOrder trace (ask (.inFlightDone msg)) fun _ t =>
      Inv conf [] t (pp.retryState.set msg.retries { pp.retryState[msg.retries] with expectChaser := false })
        pp.highWatermark :=
    Ensures.send trivial fun _ _ => inv.quiet ⟨rfl, rfl, rfl, fun _ _ => rfl⟩
  apply settled.bind
  intro _ t kept
  refine Ensures.pure ⟨kept, fun _ => ?_⟩
  rw [expects_set inRange, if_neg (Nat.ne_of_gt low)]
  exact top

theorem hold_ensures_of_data (inv : Inv conf [msg] trace pp.retryState pp.highWatermark)
    (low : msg.retries < pp.highWatermark) (top : expects pp.retryState pp.highWatermark = true) :
    Ensures (Expected conf) InOrder trace (pp.hold msg) fun pp' trace' => Waiting conf trace' pp' := by
  have flags := inv.data msg (List.mem_singleton.mpr rfl)
  have notMarker : ¬ msg.has Fin_ = true := by
    rw [ProducerMessage.has, flags]
    decide
  obtain ⟨state, found⟩ := inv.found (le_trans (Nat.le_of_lt low) inv.bounded)
  unfold hold
  rw [if_neg notMarker]
  apply modifyRetryState_ensures found
  refine ⟨inv.park low found, fun _ => ?_⟩
  rw [expects_set (List.getElem?_eq_some_iff.mp found).1, if_neg (Nat.ne_of_gt low)]
  exact top

/-- The marker of the high watermark. -/
theorem lower_ensures (inv : Inv conf [] trace (closeLevel pp.retryState pp.highWatermark) pp.highWatermark)
    (positive : 0 < pp.highWatermark) :
    Ensures (Expected conf) InOrder trace (pp.lower conf msg) fun pp' trace' => Waiting conf trace' pp' := by
  have inRange : pp.highWatermark < pp.retryState.length := by
    have length := inv.length
    have bounded := inv.bounded
    rw [closeLevel, List.length_set] at length
    omega
  have found := List.getElem?_eq_getElem inRange
  rw [closeLevel_of_found found] at inv
  unfold lower
  apply modifyRetryState_bind found
  have closed : expects (pp.retryState.set pp.highWatermark { pp.retryState[pp.highWatermark] with expectChaser := false })
      pp.highWatermark = false := by
    rw [expects_set inRange, if_pos rfl]
  apply Ensures.bind (flushFrom_ensures inv positive closed)
  intro pp' t waiting
  have settled : Ensures (Expected conf) InOrder t (ask (.inFlightDone msg)) fun _ u => Waiting conf u pp' :=
    Ensures.send trivial fun _ _ => ⟨waiting.inv.quiet ⟨rfl, rfl, rfl, fun _ _ => rfl⟩, waiting.top⟩
  exact settled.bind fun _ u done => Ensures.pure done

/-- One round keeps the invariant. -/
theorem dispatchOne_ensures (waiting : Waiting conf trace pp) :
    Ensures (Expected conf) InOrder trace (pp.dispatchOne conf) fun pp' trace' => Waiting conf trace' pp' := by
  have got : Ensures (Expected conf) InOrder trace (ask .get) fun msg t => t = trace ++ [⟨.get, msg⟩] ∧
      Expected conf trace .get msg :=
    Ensures.send trivial fun _ relied => ⟨rfl, relied⟩
  apply got.bind
  rintro msg _ ⟨rfl, bounded, kind⟩
  rcases kind with flags | ⟨flags, isOut⟩
  · apply Ensures.bind (silent_dropAbandoned pp _ _ _ _ (waiting.inv.receive flags))
    rintro pp' t ⟨kept, sameState, sameMark⟩
    have top := waiting.top
    have notMarker : ¬ msg.has Fin_ = true := by
      rw [ProducerMessage.has, flags]
      decide
    rw [← sameState, ← sameMark] at kept top
    split
    · next higher => exact raise_ensures kept higher bounded top
    · next notHigher =>
      split
      · next low => exact hold_ensures_of_data kept low.2 (top low.1)
      · next notLow =>
        rw [if_neg fun both => notMarker both.2]
        exact forward_ensures kept (by omega) top
  · have expected : expects pp.retryState msg.retries = true := by
      rw [← waiting.inv.chasers]
      exact isOut
    obtain ⟨positive, upTo⟩ := waiting.inv.expected _ expected
    obtain ⟨state, found⟩ := waiting.inv.found bounded
    have closing := waiting.inv.receiveMarker flags found
    rw [← closeLevel_of_found found] at closing
    apply Ensures.bind (silent_dropAbandoned pp _ _ _ _ closing)
    rintro pp' t ⟨kept, sameState, sameMark⟩
    have top := waiting.top
    have marker : msg.has Fin_ = true := by
      rw [ProducerMessage.has, flags]
      decide
    rw [← sameState, ← sameMark] at kept top
    rw [← sameMark] at upTo
    rw [if_neg (Nat.not_lt.mpr upTo)]
    split
    · next low => exact hold_ensures_of_marker kept low.2 marker (top low.1)
    · next notLow =>
      have reached : msg.retries = pp'.highWatermark := by omega
      rw [if_pos ⟨by omega, marker⟩]
      rw [reached] at kept
      exact lower_ensures kept (by omega)

theorem dispatchLoop_ensures (n : ℕ) (waiting : Waiting conf trace pp) :
    Ensures (Expected conf) InOrder trace (pp.dispatchLoop conf n) fun pp' trace' => Waiting conf trace' pp' := by
  induction n generalizing trace pp with
  | zero => exact Ensures.pure waiting
  | succ n ih =>
    apply Ensures.bind (dispatchOne_ensures waiting)
    exact fun _ _ later => ih later


/-! ## Messages taken -/

/-- The messages that were taken from the input. -/
def taken (trace : Trace) : List ProducerMessage :=
  trace.filterMap fun
    | ⟨.get, msg⟩ => some msg
    | _ => none

/-- Not the call that takes a message. -/
def NotGet : ParentCall → Prop
  | .get => False
  | _ => True

theorem taken_of_notGet (quiet : ∀ entry ∈ trace, NotGet entry.1) : taken trace = [] := by
  refine List.filterMap_eq_nil_iff.mpr fun entry member => ?_
  have notGet := quiet entry member
  obtain ⟨call, answer⟩ := entry
  cases call with
  | get => exact absurd notGet id
  | _ => rfl

theorem every_retryStateAt (level : ℕ) : Every NotGet (pp.retryStateAt level) := by
  unfold retryStateAt
  split
  · exact every_pure
  · exact ⟨trivial, nofun⟩

theorem every_modifyRetryState (level : ℕ) (f : PartitionRetryState → PartitionRetryState) :
    Every NotGet (pp.modifyRetryState level f) := by
  apply Every.bind (every_retryStateAt level)
  exact fun _ => every_pure

theorem every_setInput (msg : ProducerMessage) : Every NotGet (pp.setInput msg) := by
  unfold setInput
  split
  · exact every_send trivial
  · exact ⟨trivial, nofun⟩

theorem every_sendControl (flags : FlagSet) (retries : ℕ) : Every NotGet (pp.sendControl flags retries) := by
  apply Every.bind (every_send trivial)
  exact fun _ => every_setInput _

theorem every_toLeader : Every NotGet pp.toLeader := by
  apply Every.bind (every_send trivial)
  rintro ⟨err, leader⟩
  dsimp only
  split
  · exact every_pure
  · apply Every.bind (every_send trivial)
    intro _
    apply Every.bind (every_sendControl _ _)
    exact fun _ => every_pure

theorem every_toBrokerProducer : Every NotGet pp.toBrokerProducer := by
  unfold toBrokerProducer
  split
  · exact every_pure
  · apply Every.bind (every_send trivial)
    intro err
    split
    · exact every_pure
    · exact every_toLeader

theorem every_backoff : Every NotGet (backoff conf) := by
  unfold backoff
  split
  · exact every_send trivial
  · exact every_pure

theorem every_updateLeaderIfBrokerProducerIsNil : Every NotGet (pp.updateLeaderIfBrokerProducerIsNil conf msg) := by
  apply Every.bind every_toBrokerProducer
  rintro ⟨err, pp'⟩
  dsimp only
  split
  · apply Every.bind (every_send trivial)
    intro _
    apply Every.bind every_backoff
    exact fun _ => every_pure
  · exact every_pure

theorem every_newHighWatermark (level : ℕ) : Every NotGet (pp.newHighWatermark level) := by
  apply Every.bind (every_modifyRetryState _ _)
  intro _
  apply Every.bind (every_sendControl _ _)
  exact fun _ => every_pure

theorem every_stamp (skip : Bool) : Every NotGet (stamp conf msg skip) := by
  unfold stamp
  split
  · apply Every.bind (every_send trivial)
    exact fun _ => every_pure
  · exact every_pure

theorem every_forM {f : ProducerMessage → Dispatch Unit} (each : ∀ msg, Every NotGet (f msg))
    (batch : List ProducerMessage) : Every NotGet (batch.forM f) := by
  induction batch with
  | nil => exact every_pure
  | cons msg _ ih => exact (each msg).bind fun _ => ih

theorem every_flushLevel (level : ℕ) : Every NotGet (flushLevel conf pp level) := by
  apply Every.bind every_toBrokerProducer
  rintro ⟨err, pp'⟩
  apply Every.bind (every_retryStateAt _)
  intro state
  have cleared : Every NotGet (pp'.modifyRetryState level ({ · with buf := [] })) := every_modifyRetryState _ _
  dsimp only
  split
  · apply Every.bind (every_forM (fun _ => every_send trivial) _)
    exact fun _ => cleared
  · apply Every.bind
    · apply every_forM
      intro msg
      apply Every.bind (every_stamp _)
      exact fun _ => every_setInput _
    · exact fun _ => cleared

theorem every_flushFrom (level : ℕ) : Every NotGet (flushFrom conf level pp) := by
  induction level generalizing pp with
  | zero => exact ⟨trivial, nofun⟩
  | succ level ih =>
    apply Every.bind (every_flushLevel _)
    intro pp'
    apply Every.bind (every_retryStateAt _)
    intro state
    split
    · exact every_pure
    · split
      · exact every_pure
      · exact ih

theorem every_dropAbandoned : Every NotGet pp.dropAbandoned := by
  unfold dropAbandoned
  split
  · exact every_pure
  · apply Every.bind (every_send trivial)
    intro abandoned
    split
    · apply Every.bind (every_send trivial)
      exact fun _ => every_pure
    · exact every_pure

theorem every_forward : Every NotGet (pp.forward conf msg) := by
  apply Every.bind every_updateLeaderIfBrokerProducerIsNil
  rintro ⟨err, pp'⟩
  dsimp only
  split
  · exact every_pure
  · apply Every.bind (every_stamp _)
    intro sent
    have added : Every NotGet pp'.addToTransaction := by
      apply Every.bind (every_send trivial)
      intro transactional
      split
      · exact every_send trivial
      · exact every_pure
    apply added.bind
    intro _
    apply Every.bind (every_setInput _)
    exact fun _ => every_pure

theorem every_raise : Every NotGet (pp.raise conf msg) := by
  apply Every.bind every_updateLeaderIfBrokerProducerIsNil
  rintro ⟨err, pp'⟩
  dsimp only
  split
  · exact every_pure
  · apply Every.bind (every_newHighWatermark _)
    intro _
    apply Every.bind every_backoff
    exact fun _ => every_forward

theorem every_hold : Every NotGet (pp.hold msg) := by
  unfold hold
  split
  · apply Every.bind (every_modifyRetryState _ _)
    intro _
    apply Every.bind (every_send trivial)
    exact fun _ => every_pure
  · exact every_modifyRetryState _ _

theorem every_lower : Every NotGet (pp.lower conf msg) := by
  apply Every.bind (every_modifyRetryState _ _)
  intro _
  apply Every.bind (every_flushFrom _)
  intro _
  apply Every.bind (every_send trivial)
  exact fun _ => every_pure

theorem taken_append {before after : Trace} : taken (before ++ after) = taken before ++ taken after := List.filterMap_append

/-- A round takes one message. -/
theorem length_taken_of_dispatchOne (run : Runs (pp.dispatchOne conf) trace pp') : (taken trace).length = 1 := by
  obtain ⟨first, rest, msg, rfl, got, tail⟩ := Calls.runs_bind_iff.mp run
  have afterGet : Every NotGet (do
      let pp ← pp.dropAbandoned
      if pp.highWatermark < msg.retries then pp.raise conf msg
      else if 0 < pp.highWatermark ∧ msg.retries < pp.highWatermark then pp.hold msg
      else if 0 < pp.highWatermark ∧ msg.has Fin_ then pp.lower conf msg
      else pp.forward conf msg) := by
    apply Every.bind every_dropAbandoned
    intro pp
    split
    · exact every_raise
    · split
      · exact every_hold
      · split
        · exact every_lower
        · exact every_forward
  rw [Calls.runs_send_iff.mp got, taken_append, taken_of_notGet (afterGet.run tail), List.append_nil]
  rfl

theorem length_taken_of_dispatchLoop {n : ℕ} (run : Runs (pp.dispatchLoop conf n) trace pp') : (taken trace).length = n := by
  induction n generalizing trace pp with
  | zero =>
    obtain ⟨rfl, -⟩ := Calls.runs_pure_iff.mp run
    rfl
  | succ n ih =>
    obtain ⟨first, rest, next, rfl, head, tail⟩ := Calls.runs_bind_iff.mp run
    rw [taken_append, List.length_append, length_taken_of_dispatchOne head, ih tail, Nat.add_comm]

end Coev.Kafka.PartitionProducer
