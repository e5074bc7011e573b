import Coev.Model.Nghttp2.Session
import Coev.ToMathlib.Transition
import Mathlib.Data.Bool.Basic

/-! # The frames of an HTTP/2 session reach the socket in order
Whatever the socket answers, the bytes it took and the bytes that are left are those of the frames. But an answer that
it would block comes back to `nghttp2` as a count, which calls again: no coroutine waits, and the thread does nothing
else until the socket takes more.
-/

namespace Coev.Nghttp2.Sending

open Transition

variable {send_offset : ℕ}

/-- The socket would block. -/
def Event.Blocks : Event → Prop
  | .socket outcome _ => outcome = .wantWrite ∨ outcome = .wantRead
  | _ => False

variable {s t : Sending} {e : Event} {who : Sender} {frame : Bytes} {rest : List Bytes} {r : ℤ} {isSsl : Bool}

def Step (s : Sending) (e : Event) (t : Sending) : Prop := s.step e = some t

/-- The bytes of the frames that the socket did not take yet. -/
def unsent (s : Sending) : Bytes := s.pending.flatten.drop ((s.calling.map Prod.snd).getD 0)

/-- Where the socket would block, the thread is free for the event loop, and the sender waits for the socket. -/
def Suspends (s : Sending) (e : Event) : Prop :=
  ∀ t, Step s e t → e.Blocks → t.calling = none ∧ ∃ who place, (who, place) ∈ t.waiting ∧ place ≠ .forFrames

/-- The socket does not answer that it would block. -/
def Unblocked (s : Sending) (e : Event) : Prop := ∀ t, Step s e t → ¬ e.Blocks

/-! ## Frames between two calls of the socket -/

/-- The frames, apart from who sends them. -/
structure Whole (s : Sending) : Prop where
  frames : [] ∉ s.pending
  conserved : s.written ++ s.pending.flatten = s.submitted.flatten

/-- A sender calls the socket with a part of the frame in front. -/
structure Calls (s : Sending) (send_offset : ℕ) : Prop where
  processing : s.processing = true
  front : ∃ frame rest, s.pending = frame :: rest ∧ send_offset < frame.length ∧ frame.length ≤ INT_MAX

structure Accounted (s : Sending) : Prop where
  frames : [] ∉ s.pending
  conserved : s.written ++ s.unsent = s.submitted.flatten
  calls : ∀ who send_offset, s.calling = some (who, send_offset) → Calls s send_offset

theorem Whole.idle (whole : Whole s) (idle : s.calling = none) : Accounted s where
  frames := whole.frames
  conserved := by
    rw [unsent, idle]
    exact whole.conserved
  calls who send_offset calling := by rw [idle] at calling; cases calling

theorem Accounted.whole (accounted : Accounted s) (idle : s.calling = none) : Whole s where
  frames := accounted.frames
  conserved := by
    have conserved := accounted.conserved
    rw [unsent, idle] at conserved
    exact conserved

theorem Whole.finish (whole : Whole s) (r : ℤ) (who : Sender) : Accounted (s.finish r who) := by
  unfold Sending.finish
  split
  · exact Whole.idle ⟨whole.frames, whole.conserved⟩ rfl
  · split
    · exact Whole.idle ⟨whole.frames, whole.conserved⟩ rfl
    · exact Whole.idle ⟨whole.frames, whole.conserved⟩ rfl

theorem Whole.callback (whole : Whole s) (front : s.pending = frame :: rest) (who : Sender) :
    Accounted (s.callback frame who) := by
  unfold Sending.callback
  split
  · exact Whole.finish (s := { s with broken := true }) ⟨whole.frames, whole.conserved⟩ _ who
  · next passes =>
    obtain ⟨within, passes⟩ := not_or.mp passes
    obtain ⟨processing, some_⟩ := not_or.mp passes
    refine ⟨whole.frames, whole.conserved, fun _ _ calling => ?_⟩
    cases calling
    exact ⟨Bool.of_not_eq_false processing, frame, rest, front, List.length_pos_iff.mpr some_, Nat.not_lt.mp within⟩

theorem Whole.sendLoop (whole : Whole s) (who : Sender) : Accounted (s.sendLoop who) := by
  unfold Sending.sendLoop
  split
  · exact whole.finish 0 who
  · next front => exact whole.callback front who

theorem Whole.sessionSend (whole : Whole s) (who : Sender) : Accounted (s.sessionSend who) := by
  unfold Sending.sessionSend
  split
  · next front => exact whole.callback front who
  · split
    · exact Whole.idle ⟨whole.frames, whole.conserved⟩ rfl
    · exact whole.sendLoop who

theorem Whole.send (whole : Whole s) (who : Sender) : Accounted (s.send who) := by
  unfold Sending.send
  split
  · exact whole.sendLoop who
  · exact whole.finish INVALID who

theorem Whole.processingWrite (whole : Whole s) (idle : s.calling = none) : Accounted s.processingWrite := by
  unfold Sending.processingWrite
  split
  · exact whole.idle idle
  split
  · exact whole.send .writer
  · exact Whole.idle ⟨whole.frames, whole.conserved⟩ idle

theorem Whole.resumed (whole : Whole s) (idle : s.calling = none) (valid : Bool) (waiter : Sender × Place) :
    Accounted (s.resumed valid waiter) := by
  unfold Sending.resumed
  split
  · split
    · exact whole.sendLoop _
    · exact whole.finish INVALID _
  all_goals
    split
    · exact whole.processingWrite idle
    · exact whole.idle idle

/-! ## Calls of the socket -/

private theorem cleared_eq (s : Sending) :
    s.cleared.pending = s.pending ∧ s.cleared.written = s.written ∧ s.cleared.submitted = s.submitted ∧
    s.cleared.processing = s.processing := by
  unfold cleared
  split <;> exact ⟨rfl, rfl, rfl, rfl⟩

/-- What the socket does not take stays in front. -/
theorem Accounted.kept (accounted : Accounted s) (calling : s.calling = some (who, send_offset))
    (front : s.pending = frame :: rest) (inside : send_offset < frame.length) :
    [] ∉ rest ∧ s.written ++ (frame.drop send_offset ++ rest.flatten) = s.submitted.flatten := by
  obtain ⟨frames, conserved, -⟩ := accounted
  rw [front, List.mem_cons, not_or] at frames
  rw [unsent, front, calling, List.flatten_cons] at conserved
  change s.written ++ (frame ++ rest.flatten).drop send_offset = _ at conserved
  rw [List.drop_append_of_le_length (Nat.le_of_lt inside)] at conserved
  exact ⟨frames.2, conserved⟩

theorem Accounted.socket (accounted : Accounted s) (calling : s.calling = some (who, send_offset))
    (front : s.pending = frame :: rest) {outcome : Outcome}
    (answered : s.socket outcome who send_offset frame rest = some t) : Accounted t := by
  obtain ⟨processing, _, _, same, inside, within⟩ := accounted.calls who send_offset calling
  rw [front] at same
  obtain ⟨rfl, rfl⟩ := List.cons_eq_cons.mp same
  obtain ⟨behind, conserved⟩ := accounted.kept calling front inside
  obtain ⟨pending, written, submitted, going⟩ := cleared_eq s
  have left : frame.drop send_offset ≠ [] := List.ne_nil_of_length_pos (by rw [List.length_drop]; omega)
  have whole (s' : Sending) (p : s'.pending = frame.drop send_offset :: rest) (w : s'.written = s.written)
      (f : s'.submitted = s.submitted) : Whole s' := by
    refine ⟨?_, ?_⟩
    · rw [p, List.mem_cons, not_or]
      exact ⟨left.symm, behind⟩
    · rw [p, w, f, List.flatten_cons, conserved]
  cases outcome with
  | sent count =>
    obtain ⟨fits, answered⟩ := Option.ite_none_left_eq_some.mp answered
    obtain ⟨some_, room⟩ := not_or.mp fits
    have taken : s.written ++ (frame.drop send_offset).take count ++ ((frame.drop send_offset).drop count ++ rest.flatten) =
        s.submitted.flatten := by
      rw [List.append_assoc, ← List.append_assoc (List.take _ _), List.take_append_drop, conserved]
    dsimp only at answered
    split at answered
    · next more =>
      obtain rfl := Option.some.inj answered
      refine ⟨?_, ?_, fun _ _ calling => ?_⟩
      · rw [pending]
        exact accounted.frames
      · change s.written ++ _ ++ (s.cleared.pending.flatten.drop (send_offset + count)) = s.cleared.submitted.flatten
        rw [pending, submitted, front, List.flatten_cons, List.drop_append_of_le_length (Nat.le_of_lt more),
          ← List.drop_drop, taken]
      · cases calling
        exact ⟨going.trans processing, frame, rest, pending.trans front, more, within⟩
    · next all =>
      obtain rfl := Option.some.inj answered
      have gone : (frame.drop send_offset).drop count = [] := by
        rw [List.drop_drop]
        exact List.drop_eq_nil_of_le (Nat.not_lt.mp all)
      apply Whole.sessionSend
      refine ⟨behind, ?_⟩
      change s.written ++ _ ++ rest.flatten = s.cleared.submitted.flatten
      rw [submitted, ← taken, gone, List.nil_append]
  | wantWrite =>
    obtain rfl := Option.some.inj answered
    apply Whole.sessionSend
    exact whole _ rfl written submitted
  | wantRead =>
    obtain ⟨-, answered⟩ := Option.ite_none_right_eq_some.mp answered
    obtain rfl := Option.some.inj answered
    apply Whole.sessionSend
    exact whole _ rfl written submitted
  | failed =>
    obtain rfl := Option.some.inj answered
    apply Whole.finish
    exact whole _ rfl written submitted

/-! ## Runs -/

private theorem step_react (taken : Step s e t) : s.react e = some t := (Option.ite_none_left_eq_some.mp taken).2

/-- A sender that calls the socket goes on with its answer only. -/
theorem step_calling (calling : s.calling = some (who, send_offset)) (taken : Step s e t) :
    ∃ outcome inProcess frame rest, e = .socket outcome inProcess ∧ s.pending = frame :: rest ∧
      { s with inProcess }.socket outcome who send_offset frame rest = some t := by
  replace taken := step_react taken
  unfold react at taken
  split at taken
  · next outcome inProcess same =>
    cases calling.symm.trans same
    split at taken
    · cases taken
    · next frame rest front => exact ⟨outcome, inProcess, frame, rest, rfl, front, taken⟩
  all_goals
    first
      | next idle => exact absurd (calling.symm.trans idle) (Option.some_ne_none _)
      | cases taken

theorem Accounted.inProcess (accounted : Accounted s) (inProcess : Bool) : Accounted { s with inProcess } :=
  ⟨accounted.frames, accounted.conserved, fun who send_offset calling =>
    ⟨(accounted.calls who send_offset calling).processing, (accounted.calls who send_offset calling).front⟩⟩

theorem Accounted.step (accounted : Accounted s) (taken : Step s e t) : Accounted t := by
  cases calling : s.calling with
  | some call =>
    obtain ⟨outcome, inProcess, frame, rest, rfl, front, answered⟩ := step_calling calling taken
    exact (accounted.inProcess inProcess).socket calling front answered
  | none =>
    have whole := accounted.whole calling
    replace taken := step_react taken
    unfold react at taken
    rw [calling] at taken
    cases e with
    | submit frame =>
      obtain ⟨some_, ⟨⟩⟩ := Option.ite_none_left_eq_some.mp taken
      refine Whole.idle ⟨?_, ?_⟩ rfl
      · rw [List.mem_append, List.mem_singleton, not_or]
        exact ⟨whole.frames, Ne.symm some_⟩
      · rw [List.flatten_append, List.flatten_append, ← List.append_assoc, whole.conserved]
    | start =>
      cases taken
      exact whole.processingWrite calling
    | send id =>
      cases taken
      exact whole.send (.caller id)
    | socket outcome inProcess => cases taken
    | errno inProcess =>
      cases taken
      exact Whole.idle ⟨whole.frames, whole.conserved⟩ rfl
    | resume who place valid =>
      obtain ⟨-, ⟨⟩⟩ := Option.ite_none_right_eq_some.mp taken
      apply Whole.resumed
      · exact ⟨whole.frames, whole.conserved⟩
      · rfl
    | close =>
      cases taken
      exact Whole.idle ⟨whole.frames, whole.conserved⟩ rfl

private theorem accounted_of_run (run : Reaches Step { isSsl } s) : Accounted s :=
  run.invariant (fun _ _ _ accounted taken => accounted.step taken) (Whole.idle ⟨List.not_mem_nil, rfl⟩ rfl)

/-! ## What the socket answers -/

private theorem calling_sessionSend (front : s.pending = frame :: rest) (processing : s.processing = true)
    (some_ : frame ≠ [])
    (within : frame.length ≤ INT_MAX) (who : Sender) : (s.sessionSend who).calling ≠ none := by
  have passes : ¬(INT_MAX < frame.length ∨ s.processing = false ∨ frame = []) := by
    rw [processing]
    exact not_or.mpr ⟨Nat.not_lt.mpr within, not_or.mpr ⟨nofun, some_⟩⟩
  unfold sessionSend callback
  rw [front]
  dsimp only
  rw [if_neg passes]
  exact Option.some_ne_none _

/-- An answer that the socket would block is followed by the next call of it. -/
theorem Accounted.calls_again (accounted : Accounted s) (taken : Step s e t) (blocks : e.Blocks) : t.calling ≠ none := by
  cases calling : s.calling with
  | none =>
    replace taken := step_react taken
    unfold react at taken
    rw [calling] at taken
    cases e with
    | socket outcome inProcess => cases taken
    | _ => exact absurd blocks id
  | some call =>
    obtain ⟨who, send_offset⟩ := call
    obtain ⟨outcome, inProcess, frame, rest, rfl, front, answered⟩ := step_calling calling taken
    obtain ⟨processing, _, _, same, inside, within⟩ := accounted.calls who send_offset calling
    rw [front] at same
    obtain ⟨rfl, rfl⟩ := List.cons_eq_cons.mp same
    obtain ⟨-, -, -, going⟩ := cleared_eq { s with inProcess }
    have left : frame.drop send_offset ≠ [] := List.ne_nil_of_length_pos (by rw [List.length_drop]; omega)
    have short : (frame.drop send_offset).length ≤ INT_MAX := by
      rw [List.length_drop]
      omega
    obtain rfl | rfl := blocks
    · obtain rfl := Option.some.inj answered
      apply calling_sessionSend
      · rfl
      · exact going.trans processing
      · exact left
      · exact short
    · obtain ⟨-, answered⟩ := Option.ite_none_right_eq_some.mp answered
      obtain rfl := Option.some.inj answered
      apply calling_sessionSend
      · rfl
      · exact going.trans processing
      · exact left
      · exact short

/-- Between two calls of the socket nothing is written. -/
structure Keeps (s t : Sending) : Prop where
  written : t.written = s.written
  submitted : t.submitted = s.submitted

private theorem keeps_finish (s : Sending) (r : ℤ) (who : Sender) : Keeps s (s.finish r who) := by
  unfold Sending.finish
  split
  · exact ⟨rfl, rfl⟩
  · split <;> exact ⟨rfl, rfl⟩

private theorem keeps_callback (s : Sending) (frame : Bytes) (who : Sender) : Keeps s (s.callback frame who) := by
  unfold Sending.callback
  split
  · exact ⟨(keeps_finish _ _ who).written, (keeps_finish _ _ who).submitted⟩
  · exact ⟨rfl, rfl⟩

private theorem keeps_sessionSend (s : Sending) (who : Sender) : Keeps s (s.sessionSend who) := by
  unfold Sending.sessionSend Sending.sendLoop
  split
  · exact keeps_callback s _ who
  split
  · exact ⟨rfl, rfl⟩
  split
  · exact keeps_finish s 0 who
  · exact keeps_callback s _ who

private theorem finish_idle (s : Sending) (r : ℤ) (who : Sender) :
    (s.finish r who).calling = none ∧ (s.finish r who).broken = s.broken := by
  unfold Sending.finish
  split
  · exact ⟨rfl, rfl⟩
  · split <;> exact ⟨rfl, rfl⟩

/-- Every other answer hands bytes over, or ends the call of `nghttp2_session_send`. -/
theorem Accounted.progress (accounted : Accounted s) {outcome : Outcome} {inProcess : Bool}
    (taken : Step s (.socket outcome inProcess) t) (unblocked : ¬ (Event.socket outcome inProcess).Blocks) :
    t.unsent.length < s.unsent.length ∨ t.broken = true ∧ t.calling = none := by
  cases calling : s.calling with
  | none =>
    replace taken := step_react taken
    unfold react at taken
    rw [calling] at taken
    cases taken
  | some call =>
    obtain ⟨who, send_offset⟩ := call
    obtain ⟨_, _, frame, rest, same, front, answered⟩ := step_calling calling taken
    cases same
    obtain ⟨-, written, submitted, -⟩ := cleared_eq { s with inProcess }
    cases outcome with
    | sent count =>
      left
      obtain ⟨fits, answered⟩ := Option.ite_none_left_eq_some.mp answered
      obtain ⟨some_, room⟩ := not_or.mp fits
      have taken_length : ((frame.drop send_offset).take count).length = count := by
        rw [List.length_take, List.length_drop, Nat.min_eq_left (Nat.not_lt.mp room)]
      have moved : t.written = s.written ++ (frame.drop send_offset).take count ∧ t.submitted = s.submitted := by
        dsimp only at answered
        split at answered
        · obtain rfl := Option.some.inj answered
          exact ⟨rfl, submitted⟩
        · obtain rfl := Option.some.inj answered
          exact ⟨(keeps_sessionSend _ who).written, (keeps_sessionSend _ who).submitted.trans submitted⟩
      have before := congrArg List.length accounted.conserved
      have after := congrArg List.length (accounted.step taken).conserved
      rw [List.length_append] at before
      rw [moved.1, moved.2, List.length_append, List.length_append, taken_length] at after
      omega
    | wantWrite => exact absurd (.inl rfl) unblocked
    | wantRead => exact absurd (.inr rfl) unblocked
    | failed =>
      right
      obtain rfl := Option.some.inj answered
      exact ⟨(finish_idle _ _ who).2, (finish_idle _ _ who).1⟩

/-- Along every sequence of events the senders wait where the socket would block if and only if it never would block. In
every state of a run the socket has taken the bytes of the frames in order up to those that are left, and every other
answer makes these fewer or ends the call, for a callback fails. -/
theorem sending_waits_iff (isSsl : Bool) (events : List Event) :
    (Along Suspends Step { isSsl } events ↔ Along Unblocked Step { isSsl } events) ∧
      ∀ s, Reaches Step { isSsl } s → s.written ++ s.unsent = s.submitted.flatten ∧
        ∀ outcome inProcess t, Step s (.socket outcome inProcess) t → ¬ (Event.socket outcome inProcess).Blocks →
          t.unsent.length < s.unsent.length ∨ t.broken = true ∧ t.calling = none := by
  constructor
  · have equivalent (s : Sending) (e : Event) (accounted : Accounted s) : Suspends s e ↔ Unblocked s e := by
      constructor
      · exact fun suspends t taken blocks => accounted.calls_again taken blocks (suspends t taken blocks).1
      · exact fun unblocked t taken blocks => absurd blocks (unblocked t taken)
    exact Along.congr (fun _ _ _ accounted taken => accounted.step taken) equivalent (accounted_of_run (.refl _)) events
  · intro s run
    have accounted := accounted_of_run run
    exact ⟨accounted.conserved, fun _ _ _ taken unblocked => accounted.progress taken unblocked⟩

/-- A frame is sent in two parts. -/
theorem sending_waits_parts :
    Along Suspends Step { isSsl := true } [.submit [1, 2], .start, .socket (.sent 1) true, .socket (.sent 1) true] ∧
      ∃ s : Sending, s.written = [1] ∧ s.written ++ s.unsent = [1, 2] := by
  have quiet (s : Sending) : Unblocked s (.socket (.sent 1) true) := fun _ _ blocks => blocks.elim nofun nofun
  have run : Reaches Step { isSsl := true } { isSsl := true } := .refl _
  have run := run.tail (show Step _ (.submit [1, 2]) _ from rfl)
  have run := run.tail (show Step _ .start _ from rfl)
  have run := run.tail (show Step _ (.socket (.sent 1) true) _ from rfl)
  exact ⟨(sending_waits_iff true _).1.mpr
    ⟨fun _ _ => id, fun _ _ => ⟨fun _ _ => id, fun _ _ => ⟨quiet _, fun _ _ => ⟨quiet _, fun _ _ =>
    trivial⟩⟩⟩⟩, _, rfl, ((sending_waits_iff true []).2 _ run).1⟩

/-- A frame is sent to a socket that would block: the same call is made again and again. -/
theorem sending_spins : ∃ s, Reaches Step { isSsl := false } s ∧ s.unsent = [1] ∧ ¬ Suspends s (.socket .wantWrite true) ∧
    Step s (.socket .wantWrite true) s := by
  have run : Reaches Step { isSsl := false } { isSsl := false } := .refl _
  have run := run.tail (show Step _ (.submit [1]) _ from rfl)
  have run := run.tail (show Step _ .start _ from rfl)
  have run := run.tail (show Step _ (.socket .wantWrite true) _ from rfl)
  exact ⟨_, run, rfl, fun suspends => absurd (suspends _ rfl (.inl rfl)).1 (Option.some_ne_none _), rfl⟩

end Coev.Nghttp2.Sending
