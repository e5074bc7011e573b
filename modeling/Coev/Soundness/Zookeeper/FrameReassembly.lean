import Coev.Model.Zookeeper.ZooCli
import Coev.Proofs.Zookeeper.Archive

/-! # Frames that arrive in pieces

The result of the last call of the transport is returned for the length of the frame. It is that only where the whole payload
came with one call.
-/

namespace Coev.Zookeeper

open Chunks

variable {cut : ℕ → Bool} {pos fuel left r n : ℕ} {hlen d : Int32} {payload rest acc response : Bytes}
  {payloads : List Bytes}
  {c : Connection}

/-! ## The property -/

/-- What a reader makes of what `recv` returned. -/
def Received.viewed (reader : ℕ → Bytes → ZooCli.Viewed) : Received → Option ZooCli.Viewed
  | .response r response => some (reader r response)
  | .invalid | .lengthError => none

/-- A stream of frames comes back as their payloads, and both readers view them whole: `prime_response` where the
payloads have its fields and no more. -/
structure Reassembles (cut : ℕ → Bool) (payloads : List Bytes) : Prop where
  returned : ZooCli.recvs cut payloads.length { stream := payloads.flatMap frame } =
    payloads.map fun payload => .response payload.length payload
  processed :
    (ZooCli.recvs cut payloads.length { stream := payloads.flatMap frame }).map (Received.viewed ZooCli.processView) =
    payloads.map fun payload => some (.view payload)
  primed : (∀ payload ∈ payloads, ZooCli.primeLeft payload = []) →
    (ZooCli.recvs cut payloads.length { stream := payloads.flatMap frame }).map (Received.viewed ZooCli.primeView) =
      payloads.map fun payload => some (.view payload)

/-- `recv` returns `INVALID` and resizes nothing. -/
def Rejects (cut : ℕ → Bool) (c : Connection) : Prop :=
  (ZooCli.recv cut c).received = .invalid ∧ (ZooCli.recv cut c).resized = none

/-- A frame with a payload that is cut neither inside its length nor inside its payload. -/
def Uncut (cut : ℕ → Bool) (pos : ℕ) (payload : Bytes) : Prop :=
  ¬ CutInside cut pos 4 ∧ payload ≠ [] ∧ ¬ CutInside cut (pos + 4) payload.length

/-- All the frames, one behind the other. -/
def AllUncut (cut : ℕ → Bool) : ℕ → List Bytes → Prop
  | _, [] => True
  | pos, payload :: rest => Uncut cut pos payload ∧ AllUncut cut (pos + 4 + payload.length) rest

/-! ## The transport -/

private theorem recv_uncut (front rest : Bytes) (some_ : front ≠ []) (uncut : ¬ CutInside cut pos front.length) :
    Connection.recv cut front.length ⟨pos, front ++ rest⟩ = some (front, ⟨pos + front.length, rest⟩) := by
  have whole : next cut pos front.length (front ++ rest) = front := by rw [next_of_uncut uncut, List.take_left]
  simp only [Connection.recv, whole, if_neg some_, List.drop_left]

/-- A cut gives less than was asked for. -/
theorem recv_cut (positive : 0 < n) (cuts : CutInside cut c.pos n) (left_ : c.stream ≠ []) :
    ∃ chunk c', Connection.recv cut n c = some (chunk, c') ∧ 0 < chunk.length ∧ chunk.length < n := by
  have some_ : next cut c.pos n c.stream ≠ [] := next_ne_nil positive left_
  exact ⟨_, _, if_neg some_, List.length_pos_of_ne_nil some_, length_next_lt cuts⟩

private theorem recv_length_le {chunk : Bytes} {c' : Connection} (received : Connection.recv cut n c = some (chunk, c')) :
    chunk.length ≤ n := by
  unfold Connection.recv at received
  dsimp only at received
  split_ifs at received
  cases received
  exact length_next_le cut c.pos n c.stream

/-! ## The payload -/

private theorem recvPayload_uncut (hlen : Int32) (r : ℕ) (rest : Bytes) (some_ : payload ≠ [])
    (uncut : ¬ CutInside cut pos payload.length) :
    ZooCli.recvPayload cut hlen payload.length payload.length r [] ⟨pos, payload ++ rest⟩ =
      ⟨.response payload.length payload, some hlen, ⟨pos + payload.length, rest⟩⟩ := by
  obtain ⟨m, size⟩ := Nat.exists_eq_add_one_of_ne_zero (List.length_pos_of_ne_nil some_).ne'
  have whole := recv_uncut payload rest some_ uncut
  rw [size] at whole ⊢
  simp only [ZooCli.recvPayload, whole, size, Nat.sub_self, List.nil_append]

/-- The result is that of the last call, which asked for no more than what was missing. -/
theorem recvPayload_result_le {r' : ℕ} (missing : 0 < left)
    (returns : (ZooCli.recvPayload cut hlen fuel left r acc c).received = .response r' response) : r' ≤ left := by
  induction fuel generalizing left r acc c with
  | zero =>
    obtain ⟨m, rfl⟩ := Nat.exists_eq_add_one_of_ne_zero missing.ne'
    simp [ZooCli.recvPayload] at returns
  | succ fuel ih =>
    obtain ⟨m, rfl⟩ := Nat.exists_eq_add_one_of_ne_zero missing.ne'
    rw [ZooCli.recvPayload] at returns
    cases received : c.recv cut (m + 1) with
    | none => simp [received] at returns
    | some answer =>
      obtain ⟨chunk, c'⟩ := answer
      have small := recv_length_le received
      simp only [received] at returns
      rcases Nat.eq_zero_or_pos (m + 1 - chunk.length) with done | later
      · rw [done] at returns
        simp only [ZooCli.recvPayload, Received.response.injEq] at returns
        omega
      · exact (ih later returns).trans (Nat.sub_le _ _)

private theorem recvPayload_cut {response : Bytes} (cuts : CutInside cut c.pos left) (left_ : c.stream ≠ []) :
    (ZooCli.recvPayload cut hlen fuel left r acc c).received ≠ .response left response := by
  intro returns
  have missing : 0 < left := by
    obtain ⟨j, positive, small, -⟩ := cuts
    omega
  obtain ⟨chunk, c', received, positive, small⟩ := recv_cut missing cuts left_
  obtain ⟨m, rfl⟩ := Nat.exists_eq_add_one_of_ne_zero missing.ne'
  cases fuel with
  | zero => simp [ZooCli.recvPayload] at returns
  | succ fuel =>
    simp only [ZooCli.recvPayload, received] at returns
    have bound := recvPayload_result_le (by omega) returns
    omega

private theorem resized_recvPayload : (ZooCli.recvPayload cut hlen fuel left r acc c).resized = some hlen := by
  induction fuel generalizing left r acc c with
  | zero => cases left <;> rfl
  | succ fuel ih =>
    cases left with
    | zero => rfl
    | succ left =>
      rw [ZooCli.recvPayload]
      split
      · rfl
      · exact ih

/-! ## A frame -/

private theorem length_serializeInt (d : Int32) : (serializeInt d).length = 4 := ByteString.length_bigEndian 4 _

private theorem serializeInt_append_ne_nil (d : Int32) (rest : Bytes) : serializeInt d ++ rest ≠ [] := by
  intro empty
  have none_ := congrArg List.length (List.append_eq_nil_iff.mp empty).1
  rw [length_serializeInt] at none_
  cases none_

/-- The length that was sent is the one that is received. -/
theorem ntohl_load_serializeInt (d : Int32) : Int32.ofNat (ntohl (load (serializeInt d))) = d := by
  have read := deserializeInt_append d []
  have taken : takeBytes 4 (serializeInt d ++ []) = .ok (serializeInt d, []) := by
    simpa [length_serializeInt] using takeBytes_append (serializeInt d) []
  rw [deserializeInt, bind_eq_of_ok taken] at read
  exact (Prod.mk.inj (Except.ok.inj read)).1

private theorem recv_cut_length (cuts : CutInside cut pos 4) (d : Int32) (rest : Bytes) :
    Rejects cut ⟨pos, serializeInt d ++ rest⟩ := by
  obtain ⟨chunk, c', received, -, small⟩ := recv_cut (c := ⟨pos, serializeInt d ++ rest⟩) (by decide : 0 < 4) cuts
    (serializeInt_append_ne_nil d rest)
  simp only [Rejects, ZooCli.recv, received, if_pos small, and_self]

private theorem recv_length (uncut : ¬ CutInside cut pos 4) (d : Int32) (rest : Bytes) :
    ZooCli.recv cut ⟨pos, serializeInt d ++ rest⟩ = if d < 0 then ⟨.lengthError, some d, ⟨pos + 4, rest⟩⟩
      else ZooCli.recvPayload cut d d.toInt.toNat d.toInt.toNat 4 [] ⟨pos + 4, rest⟩ := by
  have size := length_serializeInt d
  have some_ : serializeInt d ≠ [] := List.ne_nil_of_length_pos (by omega)
  have received := recv_uncut (serializeInt d) rest some_ (by rwa [size])
  rw [size] at received
  simp only [ZooCli.recv, received, size, lt_irrefl, if_false, ntohl_load_serializeInt]

/-- Nothing else than a cut length is rejected, however long the frame is said to be. -/
theorem rejects_iff (d : Int32) (rest : Bytes) : Rejects cut ⟨pos, serializeInt d ++ rest⟩ ↔ CutInside cut pos 4 := by
  refine ⟨fun rejects => ?_, fun cuts => recv_cut_length cuts d rest⟩
  by_contra uncut
  obtain ⟨-, resized⟩ := rejects
  rw [recv_length uncut] at resized
  split_ifs at resized
  simp [resized_recvPayload] at resized

private theorem recv_frame_uncut (small : payload.length < 2 ^ 31) (uncut : Uncut cut pos payload) (rest : Bytes) :
    ZooCli.recv cut ⟨pos, frame payload ++ rest⟩ =
      ⟨.response payload.length payload, some (Int32.ofNat payload.length), ⟨pos + 4 + payload.length, rest⟩⟩ := by
  have size : (Int32.ofNat payload.length).toInt = payload.length := toInt_ofNat_of_lt small
  have positive : ¬ Int32.ofNat payload.length < 0 := by
    rw [Int32.lt_iff_toInt_lt, size]
    exact Int.not_lt.mpr (Int.natCast_nonneg _)
  rw [frame, List.append_assoc, recv_length uncut.1, if_neg positive, size, Int.toNat_natCast]
  have whole := recvPayload_uncut (Int32.ofNat payload.length) 4 rest uncut.2.1 uncut.2.2
  exact whole

/-- A frame comes back whole when it is not cut, and only then. -/
theorem recv_frame_iff (small : payload.length < 2 ^ 31) (rest : Bytes) :
    (ZooCli.recv cut ⟨pos, frame payload ++ rest⟩).received = .response payload.length payload ↔ Uncut cut pos payload := by
  refine ⟨fun returns => ?_, fun uncut => by rw [recv_frame_uncut small uncut]⟩
  have size : (Int32.ofNat payload.length).toInt = payload.length := toInt_ofNat_of_lt small
  rw [frame, List.append_assoc] at returns
  have lengthWhole : ¬ CutInside cut pos 4 := by
    intro cuts
    rw [(recv_cut_length cuts (Int32.ofNat payload.length) (payload ++ rest)).1] at returns
    cases returns
  rw [recv_length lengthWhole] at returns
  split_ifs at returns
  rw [size, Int.toNat_natCast] at returns
  have some_ : payload ≠ [] := by
    rintro rfl
    simp [ZooCli.recvPayload] at returns
  refine ⟨lengthWhole, some_, fun cuts => ?_⟩
  exact recvPayload_cut (c := ⟨pos + 4, payload ++ rest⟩) cuts (List.append_ne_nil_of_left_ne_nil some_ rest) returns

/-! ## A stream -/

private theorem recvs_iff (small : ∀ payload ∈ payloads, payload.length < 2 ^ 31) :
    ZooCli.recvs cut payloads.length ⟨pos, payloads.flatMap frame⟩ =
      (payloads.map fun payload => .response payload.length payload) ↔ AllUncut cut pos payloads := by
  induction payloads generalizing pos with
  | nil => exact iff_of_true rfl trivial
  | cons payload others ih =>
    have here := small payload List.mem_cons_self
    rw [List.length_cons, ZooCli.recvs, List.flatMap_cons, List.map_cons]
    constructor
    · intro returned
      have first : (ZooCli.recv cut ⟨pos, frame payload ++ others.flatMap frame⟩).received =
          .response payload.length payload := by
        cases received : (ZooCli.recv cut ⟨pos, frame payload ++ others.flatMap frame⟩).received with
        | response r response =>
          simp only [received, List.cons.injEq] at returned
          exact returned.1
        | invalid =>
          simp only [received, List.cons.injEq] at returned
          exact returned.1
        | lengthError =>
          simp only [received, List.cons.injEq] at returned
          exact returned.1
      have uncut := (recv_frame_iff here _).mp first
      simp only [recv_frame_uncut here uncut, List.cons.injEq] at returned
      exact ⟨uncut, (ih fun p member => small p (List.mem_cons_of_mem _ member)).mp returned.2⟩
    · rintro ⟨uncut, later⟩
      have rest := (ih fun p member => small p (List.mem_cons_of_mem _ member)).mpr later
      simp only [recv_frame_uncut here uncut, rest]

/-- What comes back whole is viewed whole. -/
theorem reassembles_of_returned (returned : ZooCli.recvs cut payloads.length { stream := payloads.flatMap frame } =
      payloads.map fun payload => .response payload.length payload) : Reassembles cut payloads where
  returned := returned
  processed := by
    rw [returned, List.map_map]
    refine List.map_congr_left fun payload _ => ?_
    simp [Received.viewed, ZooCli.processView]
  primed whole := by
    rw [returned, List.map_map]
    refine List.map_congr_left fun payload member => ?_
    simp [Received.viewed, ZooCli.primeView, whole payload member]

/-! ## The statement -/

/-- Frames are read back exactly when none is empty and each arrives with one cut at most, behind its length; and a
length, of whatever size, is rejected exactly when it is cut. -/
theorem frames_reassembled_iff (cut : ℕ → Bool) (payloads : List Bytes)
    (small : ∀ payload ∈ payloads, payload.length < 2 ^ 31) : (Reassembles cut payloads ↔ AllUncut cut 0 payloads) ∧
      ∀ pos (d : Int32) rest, Rejects cut ⟨pos, serializeInt d ++ rest⟩ ↔ CutInside cut pos 4 :=
  ⟨⟨fun reassembles => (recvs_iff small).mp reassembles.returned,
    fun uncut => reassembles_of_returned ((recvs_iff small).mpr uncut)⟩, fun _ d rest => rejects_iff d rest⟩

/-- Two frames that are cut behind their lengths come back. A length at which such a cut falls inside does not. -/
theorem frames_reassembled_two : Reassembles (fun n => n = 4 ∨ n = 10) [[1, 2], [3, 4, 5]] ∧
    ∀ (d : Int32) rest, Rejects (fun n => n = 4 ∨ n = 10) ⟨9, serializeInt d ++ rest⟩ ∧
      ¬ Rejects (fun n => n = 4 ∨ n = 10) ⟨10, serializeInt d ++ rest⟩ := by
  obtain ⟨whole, lengths⟩ := frames_reassembled_iff (fun n => n = 4 ∨ n = 10) [[1, 2], [3, 4, 5]] (by simp)
  have behind : AllUncut (fun n => n = 4 ∨ n = 10) 0 [[1, 2], [3, 4, 5]] := by
    simp only [AllUncut, Uncut, CutInside]
    grind
  refine ⟨whole.mpr behind, fun d rest => ⟨(lengths 9 d rest).mpr ⟨1, ?_⟩, fun rejects => ?_⟩⟩
  · simp
  · obtain ⟨j, positive, small, cuts⟩ := (lengths 10 d rest).mp rejects
    have at_ : 10 + j = 4 ∨ 10 + j = 10 := of_decide_eq_true cuts
    omega

/-- A payload of two bytes that is cut between them has the result 1, which fails the assertion of `process`; and a
negative length is taken for a size. -/
theorem cut_payload_asserts : ¬ Reassembles (fun n => n = 5) [[1, 2]] ∧
    ZooCli.recvs (fun n => n = 5) 1 { stream := frame [1, 2] } = [.response 1 [1, 2]] ∧
    ZooCli.processView 1 [1, 2] = .assertion ∧ ¬ Rejects (fun _ => false) { stream := serializeInt (-1) } := by
  have returned : ZooCli.recvs (fun n => n = 5) 1 { stream := frame [1, 2] } = [.response 1 [1, 2]] := by decide
  refine ⟨fun reassembles => ?_, returned, by decide, fun rejects => ?_⟩
  · have same := reassembles.returned
    rw [show [[1, 2]].flatMap frame = frame [1, 2] by simp, List.length_singleton, returned] at same
    simp at same
  · rw [← List.append_nil (serializeInt (-1)), rejects_iff] at rejects
    obtain ⟨j, -, -, cuts⟩ := rejects
    cases cuts

end Coev.Zookeeper
