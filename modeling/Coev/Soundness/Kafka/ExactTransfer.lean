import Coev.Model.Kafka.Connect

/-! # Transfers of exactly so many bytes

The loops end without an error when the connection is not valid, as they do when nothing is missing. Between two rounds of a
loop there is no suspension, so only a connection that was closed before is taken for a success.
-/

namespace Coev.Kafka.Connect

open Kafka.IoContext

variable {α : Type} {io : Bytes → Bool → List (IoTurn α) → Option (IoResult × Bool × List (IoTurn α))}
  {store : ℕ → Bytes → Bytes → Bytes} {size n : ℕ} {buf chunk buffer : Bytes} {valid : Bool} {s next : Transfer α}
  {outcome : Transferred}

/-! ## The property -/

/-- Success means that the kernel gave exactly so many bytes, and that the buffer holds them in order. -/
def ReadExactly (n : ℕ) (outcome : Transferred) : Prop :=
  outcome.code = ErrNoError → outcome.moved.length = n ∧ outcome.buf = outcome.moved

/-- Success means that the kernel took exactly the bytes of the buffer, in order. -/
def WrittenExactly (buf : Bytes) (outcome : Transferred) : Prop := outcome.code = ErrNoError → outcome.moved = buf

/-! ## `recv` and `send` -/

/-- The kernel is not asked for more than is missing, whatever becomes of the size. -/
private theorem kernelSize_le (size : ℕ) : kernelSize size ≤ size := by
  have wide : (Int32.size : ℤ) = 2 ^ 32 := rfl
  simp only [kernelSize, Int32.toInt_ofNat', Int.bmod_def, wide, maxTransfer]
  split_ifs <;> omega

/-- What `recv` moves was received on a connection that is still valid. -/
private theorem recv_moved {turns rest : List (IoTurn Bytes)}
    (moved : recv size true turns = some (.moved chunk, valid, rest)) :
    valid = true ∧ chunk ≠ [] ∧ chunk.length ≤ size ∧ rest.length < turns.length := by
  induction turns with
  | nil => cases moved
  | cons turn later ih =>
    rw [recv] at moved
    split_ifs at moved with closed invalid_
    · cases moved
    · cases moved
    · cases answer : turn.kernel with
      | again =>
        simp only [answer, eq_true_of_ne_false invalid_] at moved
        obtain ⟨valid_, some_, fits, shorter⟩ := ih moved
        exact ⟨valid_, some_, fits, shorter.trans (Nat.lt_succ_self _)⟩
      | failed => simp [answer] at moved
      | moved stream =>
        simp only [answer] at moved
        split_ifs at moved with none_
        · cases moved
        · cases moved
          refine ⟨rfl, none_, ?_, Nat.lt_succ_self _⟩
          rw [List.length_take]
          exact (Nat.min_le_left _ _).trans (kernelSize_le size)

private theorem send_moved {turns rest : List (IoTurn ℕ)}
    (moved : send buffer true turns = some (.moved chunk, valid, rest)) :
    valid = true ∧ chunk ≠ [] ∧ chunk <+: buffer ∧ rest.length < turns.length := by
  induction turns with
  | nil => cases moved
  | cons turn later ih =>
    rw [send] at moved
    cases answer : turn.kernel with
    | again =>
      simp only [answer] at moved
      split_ifs at moved
      · cases moved
      · cases open_ : turn.valid with
        | true =>
          rw [open_] at moved
          obtain ⟨valid_, some_, front, shorter⟩ := ih moved
          exact ⟨valid_, some_, front, shorter.trans (Nat.lt_succ_self _)⟩
        | false =>
          rw [open_] at moved
          cases later <;> simp [send] at moved
    | failed => simp [answer] at moved
    | moved count =>
      simp only [answer] at moved
      split_ifs at moved with none_
      · cases moved
      · cases moved
        exact ⟨rfl, none_, List.take_prefix _ _, Nat.lt_succ_self _⟩

/-! ## The loop -/

/-- What a loop relies on: what was moved is stored behind what is there, and a turn is taken for it. -/
def Stores (io : Bytes → Bool → List (IoTurn α) → Option (IoResult × Bool × List (IoTurn α)))
    (store : ℕ → Bytes → Bytes → Bytes) :
    Prop :=
  ∀ {buf chunk : Bytes} {offset : ℕ} {valid : Bool} {turns rest : List (IoTurn α)}, offset ≤ buf.length →
    io (buf.drop offset) true turns = some (.moved chunk, valid, rest) →
      valid = true ∧ offset + chunk.length ≤ buf.length ∧ rest.length < turns.length ∧
        (store offset chunk buf).length = buf.length ∧
        (store offset chunk buf).take (offset + chunk.length) = buf.take offset ++ chunk

private theorem stores_recv :
    Stores (fun missing => recv missing.length) fun offset chunk buf => ByteString.overlay buf offset chunk := by
  intro buf chunk offset valid turns rest inside moved
  obtain ⟨valid_, -, fits, shorter⟩ := recv_moved moved
  rw [List.length_drop] at fits
  have whole : offset + chunk.length ≤ buf.length := by omega
  refine ⟨valid_, whole, shorter, ByteString.length_overlay whole, ?_⟩
  have front : (buf.take offset ++ chunk).length = offset + chunk.length := by
    rw [List.length_append, List.length_take, Nat.min_eq_left inside]
  dsimp only [ByteString.overlay]
  rw [← front, List.take_left]

private theorem stores_send : Stores send fun _ _ buf => buf := by
  intro buf chunk offset valid turns rest inside moved
  obtain ⟨valid_, -, front, shorter⟩ := send_moved moved
  have fits := front.length_le
  rw [List.length_drop] at fits
  refine ⟨valid_, by omega, shorter, rfl, ?_⟩
  rw [List.take_add, ← List.prefix_iff_eq_take.mp front]

/-- On a valid connection: what was moved is what the buffer has in front of what is missing. -/
structure Moving (n : ℕ) (s : Transfer α) : Prop where
  size : s.buf.length = n
  missing : s.res ≤ n
  valid : s.valid = true
  moved : s.moved = s.buf.take (n - s.res)

variable (stores : Stores io store)

include stores

private theorem moving_round (moving : Moving n s) (goes : transferRound io store s = .inl next) :
    Moving n next ∧ next.turns.length < s.turns.length ∧ ∃ offset chunk, next.buf = store offset chunk s.buf := by
  unfold transferRound at goes
  split_ifs at goes with goesOn
  dsimp only at goes
  split at goes
  · cases goes
  · next chunk valid turns answer =>
    rw [moving.valid] at answer
    obtain ⟨valid_, fits, shorter, size, stored⟩ := stores (Nat.sub_le _ _) answer
    cases goes
    have bound := moving.missing
    have total := moving.size
    refine ⟨⟨size.trans total, (Nat.sub_le _ _).trans bound, valid_, ?_⟩, shorter, _, _, rfl⟩
    rw [moving.moved, show n - (s.res - chunk.length) = s.buf.length - s.res + chunk.length by omega, ← total]
    exact stored.symm
  · cases goes
  · cases goes

omit stores in
/-- A loop that stops without an error has moved the whole buffer. -/
private theorem exact_of_stops (moving : Moving n s) (stops : transferRound io store s = .inr (some outcome))
    (ok : outcome.code = ErrNoError) : outcome.buf = s.buf ∧ outcome.moved = s.buf := by
  unfold transferRound at stops
  split_ifs at stops with goesOn
  · dsimp only at stops
    split at stops
    · cases stops
    · cases stops
    · cases stops
      cases ok
    · cases stops
      cases ok
  · have done : s.res = 0 := by
      have waits := not_and.mp goesOn moving.valid
      omega
    cases stops
    refine ⟨rfl, ?_⟩
    rw [moving.moved, done, Nat.sub_zero, ← moving.size, List.take_length]

/-- The rounds of a loop on a valid connection, with what every store keeps of the buffer. -/
private theorem exact_of_ends (keeps : Bytes → Prop) (kept : ∀ offset chunk buf, keeps buf → keeps (store offset chunk buf))
    (moving : Moving n s) (start : keeps s.buf) (ends : Loop.Ends (transferRound io store) s (some outcome))
    (ok : outcome.code = ErrNoError) : outcome.buf.length = n ∧ outcome.moved = outcome.buf ∧ keeps outcome.buf := by
  let inv (s : Transfer α) : Prop := Moving n s ∧ keeps s.buf
  let post (result : Option Transferred) : Prop := ∀ outcome, result = some outcome → outcome.code = ErrNoError →
    outcome.buf.length = n ∧ outcome.moved = outcome.buf ∧ keeps outcome.buf
  refine @Loop.Ends.invariant _ _ _ inv post ?_ ?_ s _ ⟨moving, start⟩ ends outcome rfl ok
  · rintro s next ⟨moving, start⟩ goes
    obtain ⟨later, -, offset, chunk, same⟩ := moving_round stores moving goes
    exact ⟨later, same ▸ kept offset chunk s.buf start⟩
  · rintro s result ⟨moving, start⟩ stops outcome rfl ok
    obtain ⟨same, moved⟩ := exact_of_stops moving stops ok
    exact ⟨same ▸ moving.size, moved.trans same.symm, same ▸ start⟩

omit stores

private theorem ends_of_join {fuel : ℕ} (returns : (Loop.run (transferRound io store) fuel s).join = some outcome) :
    Loop.Ends (transferRound io store) s (some outcome) :=
  ⟨fuel, Option.join_eq_some_iff.mp returns⟩

private theorem moving_start (buf : Bytes) (turns : List (IoTurn α)) :
    Moving buf.length { valid := true, res := buf.length, buf, turns } where
  size := rfl
  missing := le_rfl
  valid := rfl
  moved := by rw [Nat.sub_self, List.take_zero]

/-- A loop on a connection that is not valid ends at once, without an error. -/
private theorem run_invalid (fuel : ℕ) (buf : Bytes) (turns : List (IoTurn α)) :
    (Loop.run (transferRound io store) (fuel + 1) { valid := false, res := buf.length, buf, turns }).join =
      some ⟨ErrNoError, buf, []⟩ := rfl

/-! ## The statement -/

private theorem readFull_iff (valid : Bool) (buf : Bytes) (turns : List (IoTurn Bytes))
    (returns : readFull valid buf turns = some outcome) : ReadExactly buf.length outcome ↔ valid = true ∨ buf = [] := by
  cases valid with
  | true =>
    refine iff_of_true (fun ok => ?_) (.inl rfl)
    obtain ⟨size, moved, -⟩ := exact_of_ends stores_recv (fun _ => True) (fun _ _ _ _ => trivial)
      (moving_start buf turns) trivial (ends_of_join returns) ok
    exact ⟨moved ▸ size, moved.symm⟩
  | false =>
    obtain rfl : ⟨ErrNoError, buf, []⟩ = outcome := Option.some.inj ((run_invalid turns.length buf turns).symm.trans returns)
    exact ⟨fun exact_ => .inr (exact_ rfl).2, fun empty => by simp [ReadExactly, empty.resolve_left]⟩

private theorem write_iff (valid : Bool) (buf : Bytes) (turns : List (IoTurn ℕ))
    (returns : write valid buf turns = some outcome) :
    WrittenExactly buf outcome ↔ valid = true ∨ buf = [] := by
  cases valid with
  | true =>
    refine iff_of_true (fun ok => ?_) (.inl rfl)
    obtain ⟨-, moved, same⟩ := exact_of_ends stores_send (fun b => b = buf) (fun _ _ _ same => same)
      (moving_start buf turns) rfl (ends_of_join returns) ok
    exact moved.trans same
  | false =>
    obtain rfl : ⟨ErrNoError, buf, []⟩ = outcome := Option.some.inj ((run_invalid turns.length buf turns).symm.trans returns)
    exact ⟨fun exact_ => .inr (exact_ rfl).symm, fun empty => by simp [WrittenExactly, empty.resolve_left]⟩

/-- A success of `ReadFull` or `Write` is one exactly where the connection was valid at the call, or nothing was asked
for. -/
theorem exact_transfer_iff (valid : Bool) (buf : Bytes) : (∀ turns outcome, readFull valid buf turns = some outcome →
      (ReadExactly buf.length outcome ↔ valid = true ∨ buf = [])) ∧
    ∀ turns outcome, write valid buf turns = some outcome → (WrittenExactly buf outcome ↔ valid = true ∨ buf = []) :=
  ⟨fun turns _ returns => readFull_iff valid buf turns returns, fun turns _ returns => write_iff valid buf turns returns⟩

/-- On a connection that was closed before, four bytes are read and written without an error and without a byte. -/
theorem closed_connection_succeeds :
    readFull false [0, 0, 0, 0] [] = some ⟨ErrNoError, [0, 0, 0, 0], []⟩ ∧ ¬ ReadExactly 4 ⟨ErrNoError, [0, 0, 0, 0], []⟩ ∧
    write false [1, 2, 3, 4] [] = some ⟨ErrNoError, [1, 2, 3, 4], []⟩ ∧
      ¬ WrittenExactly [1, 2, 3, 4] ⟨ErrNoError, [1, 2, 3, 4], []⟩ := by
  refine ⟨rfl, fun exact_ => ?_, rfl, fun exact_ => ?_⟩
  · cases (exact_ rfl).1
  · cases exact_ rfl

end Coev.Kafka.Connect
