import Coev.Model.Kafka.Compression
import Mathlib.Data.Prod.Lex

/-! # What the compression wrappers return

gzip overwrites its output string chunk by chunk, LZ4 and ZSTD append to what theirs holds. Each loop is
described by what the library reads of the whole input.
-/

namespace Coev.Kafka

open ByteString Loop

/-! ## Strings -/

@[simp] theorem length_resizeString (s : Bytes) (size : ℕ) : (resizeString s size).length = size :=
  List.takeD_length size s 0

theorem take_resizeString {s : Bytes} {n size : ℕ} (inside : n ≤ s.length) (grows : n ≤ size) :
    (resizeString s size).take n = s.take n := by
  induction s generalizing n size with
  | nil =>
    have empty : n = 0 := by simpa using inside
    simp [empty]
  | cons byte s ih =>
    cases n with
    | zero => simp
    | succ n =>
      obtain ⟨size, rfl⟩ : ∃ k, size = k + 1 := ⟨size - 1, by omega⟩
      have tail := @ih n size (by simpa using inside) (by omega)
      simpa [resizeString] using tail

/-- A chunk written into a string that is then cut behind the chunk. -/
theorem resizeString_overlay {dst chunk : Bytes} {start : ℕ} (inside : start ≤ dst.length) :
    resizeString (overlay dst start chunk) (start + chunk.length) = dst.take start ++ chunk := by
  have front : (dst.take start ++ chunk).length = start + chunk.length := by
    rw [List.length_append, List.length_take, Nat.min_eq_left inside]
  rw [resizeString, overlay, List.takeD_left' front]

theorem take_add_overlay {dst chunk : Bytes} {start : ℕ} (inside : start ≤ dst.length) :
    (overlay dst start chunk).take (start + chunk.length) = dst.take start ++ chunk := by
  have front : (dst.take start ++ chunk).length = start + chunk.length := by
    rw [List.length_append, List.length_take, Nat.min_eq_left inside]
  rw [overlay, List.take_left' front]

/-- What a wrapper that appends leaves: it makes room behind the string, writes there and cuts the rest. -/
theorem resizeString_append (s chunk : Bytes) (room : ℕ) :
    resizeString (overlay (resizeString s (s.length + room)) s.length chunk) (s.length + chunk.length) = s ++ chunk := by
  rw [resizeString_overlay (by rw [length_resizeString]; omega), take_resizeString le_rfl (by omega), List.take_length]

/-! ## A call of a streaming function -/

namespace StreamReading

theorem length_chunk (reading : StreamReading) (position room : ℕ) :
    (reading.chunk position room).length = min room (reading.output.length - position) := by
  simp [chunk]

variable {reading : StreamReading} {eager : Bool} {position room : ℕ}

theorem take_chunk : reading.output.take position ++ reading.chunk position room =
      reading.output.take (position + (reading.chunk position room).length) := by
  rw [List.take_add, length_chunk, ← List.length_drop, ← List.take_eq_take_min, chunk]

theorem reached_some {ending : Ending} (inside : position ≤ reading.output.length)
    (ended : reading.reached eager position room = some ending) :
    reading.ending = ending ∧ position + (reading.chunk position room).length = reading.output.length := by
  have length := length_chunk reading position room
  simp only [reached, Option.ite_none_right_eq_some] at ended
  obtain ⟨there, same⟩ := ended
  refine ⟨Option.some.inj same, ?_⟩
  rcases there with short | ⟨_, full⟩
  · omega
  · exact full

theorem reached_none (ended : reading.reached eager position room = none) : (reading.chunk position room).length = room := by
  have length := length_chunk reading position room
  simp only [reached, ite_eq_right_iff, reduceCtorEq, imp_false, not_or] at ended
  omega

end StreamReading

/-! ## gzip -/

namespace Gzip

variable {reading : StreamReading} {eager : Bool}

/-- The string begins with what was written, which is the beginning of the output. -/
structure Written (reading : StreamReading) (s : State) : Prop where
  within : s.totalWritten ≤ s.out.length
  inside : s.totalWritten ≤ reading.output.length
  agree : s.out.take s.totalWritten = reading.output.take s.totalWritten

/-- What a round leaves in the string: the output up to the end of the chunk. -/
theorem Written.chunk {s : State} (written : Written reading s) :
    resizeString (overlay (resizeString s.out (s.totalWritten + maxOutputSize)) s.totalWritten
      (reading.chunk s.totalWritten maxOutputSize))
      (s.totalWritten + (reading.chunk s.totalWritten maxOutputSize).length) =
      reading.output.take (s.totalWritten + (reading.chunk s.totalWritten maxOutputSize).length) := by
  rw [resizeString_overlay (by rw [length_resizeString]; omega), take_resizeString written.within (by omega), written.agree,
    StreamReading.take_chunk]

theorem Written.go {s next : State} (written : Written reading s) (goes : round reading eager s = .inl next) :
    Written reading next ∧ reading.output.length - next.totalWritten < reading.output.length - s.totalWritten := by
  have length := StreamReading.length_chunk reading s.totalWritten maxOutputSize
  have full : (reading.chunk s.totalWritten maxOutputSize).length = maxOutputSize ∧
      next = ⟨reading.output.take (s.totalWritten + (reading.chunk s.totalWritten maxOutputSize).length),
        s.totalWritten + (reading.chunk s.totalWritten maxOutputSize).length⟩ := by
    simp only [round, written.chunk] at goes
    split at goes
    · cases goes
    · cases goes
    · split_ifs at goes with full
      exact ⟨full, (Sum.inl.inj goes).symm⟩
  obtain ⟨full, rfl⟩ := full
  have inside := written.inside
  have positive : 0 < maxOutputSize := by decide
  refine ⟨⟨?_, ?_, ?_⟩, ?_⟩
  · simp only [List.length_take]; omega
  · simp only; omega
  · simp only [List.take_take, Nat.min_self]
  · simp only; omega

/-- The result of either function: the output of a complete stream, else an error. -/
def Result (reading : StreamReading) (result : KError × Bytes) : Prop :=
  if reading.ending = .complete then result = (0, reading.output) else result.1 = INVALID

theorem Written.stop {s : State} {result : KError × Bytes} (written : Written reading s)
    (stops : round reading eager s = .inr result) : Result reading result := by
  have inside := written.inside
  simp only [round, written.chunk] at stops
  unfold Result
  split at stops
  next ended =>
    obtain ⟨same, full⟩ := StreamReading.reached_some inside ended
    rw [if_pos same, ← Sum.inr.inj stops, full, List.take_length]
  next ended =>
    obtain ⟨same, _⟩ := StreamReading.reached_some inside ended
    rw [same, if_neg (by decide), ← Sum.inr.inj stops]
  next others _ =>
    split_ifs at stops with full
    have last : reading.ending ≠ .complete := by
      intro complete
      cases ended : reading.reached eager s.totalWritten maxOutputSize with
      | none => exact full (StreamReading.reached_none ended)
      | some ending =>
        obtain ⟨same, _⟩ := StreamReading.reached_some inside ended
        exact others (ended.trans (congrArg some (same.symm.trans complete)))
    rw [if_neg last, ← Sum.inr.inj stops]

/-- Both loops end, whatever the string holds. -/
theorem ends (reading : StreamReading) (eager : Bool) (out : Bytes) :
    ∃ result, Ends (round reading eager) ⟨out, 0⟩ result ∧ Result reading result := by
  refine ends_with (Written reading) (fun s => reading.output.length - s.totalWritten) ?_ ?_ ?_
  · exact fun s next written goes => written.go goes
  · exact fun s result written stops => written.stop stops
  · exact ⟨Nat.zero_le _, Nat.zero_le _, by simp⟩

end Gzip

/-! ## LZ4 -/

namespace Lz4

theorem compress_eq {lz4 : Lz4Library} {buf : Bytes}
    (fits : lz4.compressFrameBound buf.length ≤ lz4.compressBound buf.length) (compressed : Bytes) :
    compress lz4 compressed buf = (0, compressed ++ lz4.frame buf) := by
  rw [compress, Lz4Library.compressFrame, if_neg (Nat.not_lt.mpr fits)]
  dsimp only
  rw [resizeString_append]

/-- Without the capacity that it asks for, the library compresses nothing. -/
theorem compress_of_small {lz4 : Lz4Library} {buf : Bytes}
    (small : lz4.compressBound buf.length < lz4.compressFrameBound buf.length) (compressed : Bytes) :
    (compress lz4 compressed buf).1 = INVALID := by
  rw [compress, Lz4Library.compressFrame, if_pos small]

variable {reading : StreamReading} {eager : Bool} {before : Bytes}

/-- The string is what it was before, followed by the beginning of the output. -/
structure Written (reading : StreamReading) (before : Bytes) (s : State) : Prop where
  positive : 0 < s.decompressed.length
  within : s.outputOffset ≤ s.decompressed.length
  behind : before.length ≤ s.outputOffset
  inside : s.outputOffset - before.length ≤ reading.output.length
  agree : s.decompressed.take s.outputOffset = before ++ reading.output.take (s.outputOffset - before.length)

/-- The string that a round passes to the library. -/
def State.grown (s : State) : Bytes :=
  if s.decompressed.length - s.outputOffset < 1024 then resizeString s.decompressed (s.decompressed.length * 2)
  else s.decompressed

theorem Written.grown {s : State} (written : Written reading before s) : s.outputOffset < s.grown.length ∧
      s.grown.take s.outputOffset = before ++ reading.output.take (s.outputOffset - before.length) := by
  obtain ⟨positive, within, _, _, agree⟩ := written
  unfold State.grown
  split_ifs with short
  · refine ⟨by rw [length_resizeString]; omega, ?_⟩
    rw [take_resizeString within (by omega), agree]
  · exact ⟨by omega, agree⟩

/-- The bytes a round writes. -/
def State.chunk (reading : StreamReading) (before : Bytes) (s : State) : Bytes :=
  reading.chunk (s.outputOffset - before.length) (s.grown.length - s.outputOffset)

theorem Written.chunk {s : State} (written : Written reading before s) :
    (overlay s.grown s.outputOffset (s.chunk reading before)).take (s.outputOffset + (s.chunk reading before).length) =
      before ++ reading.output.take (s.outputOffset - before.length + (s.chunk reading before).length) := by
  obtain ⟨room, agree⟩ := written.grown
  rw [take_add_overlay room.le, agree, List.append_assoc, State.chunk, StreamReading.take_chunk]

theorem Written.go {s next : State} (written : Written reading before s)
    (goes : round reading eager before.length s = .inl next) : Written reading before next := by
  obtain ⟨room, _⟩ := written.grown
  have length : (s.chunk reading before).length =
      min (s.grown.length - s.outputOffset) (reading.output.length - (s.outputOffset - before.length)) :=
        StreamReading.length_chunk _ _ _
  have same : next = ⟨overlay s.grown s.outputOffset (s.chunk reading before),
      s.outputOffset + (s.chunk reading before).length⟩ := by
    simp only [round] at goes
    split at goes
    · cases goes
    · cases goes
    · exact (Sum.inl.inj goes).symm
  have kept : (overlay s.grown s.outputOffset (s.chunk reading before)).length = s.grown.length :=
    length_overlay (by omega)
  have agree := written.chunk
  obtain ⟨_, _, behind, inside, _⟩ := written
  have offset : s.outputOffset + (s.chunk reading before).length - before.length =
      s.outputOffset - before.length + (s.chunk reading before).length := by omega
  subst same
  refine ⟨?_, ?_, ?_, ?_, ?_⟩
  · simp only [kept]; omega
  · simp only [kept]; omega
  · simp only; omega
  · simp only; omega
  · simpa only [offset] using agree

/-- A round before the end of the stream writes at least one byte. -/
theorem Written.descends {s next : State} (written : Written reading before s) (fed : reading.ending ≠ .starved)
    (goes : round reading eager before.length s = .inl next) :
    reading.output.length - (next.outputOffset - before.length) <
      reading.output.length - (s.outputOffset - before.length) := by
  have inside := (written.go goes).inside
  have behind := written.behind
  obtain ⟨room, _⟩ := written.grown
  have length : reading.reached eager (s.outputOffset - before.length) (s.grown.length - s.outputOffset) = none ∧
      next.outputOffset = s.outputOffset + (s.chunk reading before).length := by
    simp only [round] at goes
    split at goes
    · cases goes
    · cases goes
    next notCorrupt notComplete =>
      refine ⟨?_, by rw [← Sum.inl.inj goes]; rfl⟩
      cases ended : reading.reached eager (s.outputOffset - before.length) (s.grown.length - s.outputOffset) with
      | none => rfl
      | some ending =>
        obtain ⟨same, _⟩ := StreamReading.reached_some written.inside ended
        cases ending with
        | complete => exact absurd ended notComplete
        | starved => exact absurd same fed
        | corrupt => exact absurd ended notCorrupt
  obtain ⟨more, offset⟩ := length
  have full : (s.chunk reading before).length = s.grown.length - s.outputOffset := StreamReading.reached_none more
  omega

/-- The result of a frame that is not cut short: the output behind the string, else an error. -/
def Result (reading : StreamReading) (before : Bytes) (result : KError × Bytes) : Prop :=
  if reading.ending = .complete then result = (0, before ++ reading.output) else result.1 = INVALID

theorem Written.stop {s : State} {result : KError × Bytes} (written : Written reading before s)
    (stops : round reading eager before.length s = .inr result) : Result reading before result := by
  have agree := written.chunk
  obtain ⟨room, _⟩ := written.grown
  unfold Result
  simp only [round] at stops
  split at stops
  next ended =>
    obtain ⟨same, _⟩ := StreamReading.reached_some written.inside ended
    rw [same, if_neg (by decide), ← Sum.inr.inj stops]
  next ended =>
    obtain ⟨same, full⟩ := StreamReading.reached_some written.inside ended
    have cut : resizeString (overlay s.grown s.outputOffset (s.chunk reading before))
        (s.outputOffset + (s.chunk reading before).length) = before ++ reading.output := by
      rw [resizeString_overlay room.le, ← take_add_overlay room.le, agree]
      exact congrArg (before ++ ·) (full ▸ List.take_length)
    rw [if_pos same, ← Sum.inr.inj stops]
    exact congrArg (Prod.mk 0) cut
  next => cases stops

/-- The state in which the loop starts. -/
theorem written_start (reading : StreamReading) (before : Bytes) {room : ℕ} (positive : 0 < room) :
    Written reading before ⟨resizeString before (before.length + room), before.length⟩ := by
  refine ⟨?_, ?_, le_rfl, ?_, ?_⟩
  · simp only [length_resizeString]; omega
  · simp only [length_resizeString]; omega
  · simp
  · rw [take_resizeString le_rfl (by omega), List.take_length]
    simp

theorem ends (eager : Bool) (before : Bytes) {room : ℕ} (positive : 0 < room) (fed : reading.ending ≠ .starved) :
    ∃ result, Ends (round reading eager before.length) ⟨resizeString before (before.length + room), before.length⟩ result ∧
      Result reading before result := by
  refine ends_with (Written reading before) (fun s => reading.output.length - (s.outputOffset - before.length)) ?_ ?_
    (written_start reading before positive)
  · exact fun s next written goes => ⟨written.go goes, written.descends fed goes⟩
  · exact fun s result written stops => written.stop stops

/-- A frame that is cut short keeps the loop going for ever: its calls neither consume nor write. -/
theorem not_ends (before : Bytes) {room : ℕ} (positive : 0 < room) (starved : reading.ending = .starved)
    (result : KError × Bytes) :
    ¬ Ends (round reading eager before.length) ⟨resizeString before (before.length + room), before.length⟩ result := by
  refine Loop.not_ends (Written reading before) ?_ (written_start reading before positive)
  intro s written
  cases taken : round reading eager before.length s with
  | inl next => exact ⟨next, rfl, written.go taken⟩
  | inr last =>
    simp only [round] at taken
    split at taken
    next ended => cases (StreamReading.reached_some written.inside ended).1.symm.trans starved
    next ended => cases (StreamReading.reached_some written.inside ended).1.symm.trans starved
    next => cases taken

end Lz4

/-! ## ZSTD -/

namespace Zstd

/-- A block: the bytes between two sizes, and what they are read as. -/
structure Block where
  frame : Bytes
  output : Bytes
deriving DecidableEq, Repr

/-- A block as `Compress` writes it, behind the size of its content. -/
def Block.bytes (block : Block) : Bytes := bigEndian 4 block.output.length ++ block.frame

variable {zstd : ZstdLibrary}

/-- The block holds one frame and nothing else. -/
def Block.Whole (zstd : ZstdLibrary) (block : Block) : Prop := zstd.content block.frame = some block.output

/-- Calls of the library fill the room of a block from the input; they leave a context and the rest of the input. -/
inductive Fills (zstd : ZstdLibrary) : zstd.Context → Bytes → ℕ → Bytes → zstd.Context → Bytes → Prop
  | full {ctx : zstd.Context} {input : Bytes} : Fills zstd ctx input 0 [] ctx input
  | call {ctx last : zstd.Context} {input rest output : Bytes} {room : ℕ} {call : ZstdCall zstd.Context}
      (unfilled : room ≠ 0) (called : zstd.decompressStream ctx input room = some call)
      (more : ¬ (call.used = input.length ∧ call.output.length < room))
      (fills : Fills zstd call.ctx (input.drop call.used) (room - call.output.length) output last rest) :
      Fills zstd ctx input room (call.output ++ output) last rest

/-- The bytes are sizes, each followed by what the calls consume to fill a block of that size. -/
inductive Splits (zstd : ZstdLibrary) : zstd.Context → Bytes → List Block → Prop
  | nil {ctx : zstd.Context} : Splits zstd ctx [] []
  | cons {ctx last : zstd.Context} {bytes rest output : Bytes} {blocks : List Block} (sized : 4 ≤ bytes.length)
      (fills : Fills zstd ctx (bytes.drop 4) (value (bytes.take 4)) output last rest)
        (splits : Splits zstd last rest blocks) :
      Splits zstd ctx bytes (⟨(bytes.drop 4).take ((bytes.drop 4).length - rest.length), output⟩ :: blocks)

theorem Fills.length {ctx last : zstd.Context} {input rest output : Bytes} {room : ℕ}
    (fills : Fills zstd ctx input room output last rest) : output.length = room := by
  induction fills with
  | full => rfl
  | call _ called _ _ ih =>
    obtain ⟨fits, _⟩ := zstd.within _ _ _ _ called
    rw [List.length_append, ih]
    omega

theorem Fills.suffix {ctx last : zstd.Context} {input rest output : Bytes} {room : ℕ}
    (fills : Fills zstd ctx input room output last rest) : rest <:+ input := by
  induction fills with
  | full => exact List.suffix_rfl
  | call _ _ _ _ ih => exact ih.trans (List.drop_suffix _ _)

theorem Fills.unique {ctx last last' : zstd.Context} {input rest rest' output output' : Bytes} {room : ℕ}
    (fills : Fills zstd ctx input room output last rest) (other : Fills zstd ctx input room output' last' rest') :
    output = output' ∧ last = last' ∧ rest = rest' := by
  induction fills generalizing output' with
  | full =>
    cases other with
    | full => exact ⟨rfl, rfl, rfl⟩
    | call unfilled => exact absurd rfl unfilled
  | call unfilled called _ _ ih =>
    cases other with
    | full => exact absurd rfl unfilled
    | call _ called' _ fills' =>
      cases Option.some.inj (called.symm.trans called')
      obtain ⟨rfl, rfl, rfl⟩ := ih fills'
      exact ⟨rfl, rfl, rfl⟩

theorem Splits.unique {ctx : zstd.Context} {bytes : Bytes} {blocks blocks' : List Block}
    (splits : Splits zstd ctx bytes blocks) (other : Splits zstd ctx bytes blocks') : blocks = blocks' := by
  induction splits generalizing blocks' with
  | nil =>
    cases other with
    | nil => rfl
    | cons sized => simp at sized
  | cons sized fills _ ih =>
    cases other with
    | nil => simp at sized
    | cons _ fills' splits' =>
      obtain ⟨rfl, rfl, rfl⟩ := fills.unique fills'
      rw [ih splits']

/-- What the blocks of a split are written as is the bytes that were split. -/
theorem Splits.bytes_eq {ctx : zstd.Context} {bytes : Bytes} {blocks : List Block} (splits : Splits zstd ctx bytes blocks) :
    blocks.flatMap Block.bytes = bytes := by
  induction splits with
  | nil => rfl
  | @cons ctx last bytes rest output blocks sized fills _ ih =>
    have size : (bytes.take 4).length = 4 := by rw [List.length_take]; omega
    have prefix_ : bigEndian 4 output.length = bytes.take 4 := by
      rw [fills.length]
      simpa [size] using bigEndian_value_append [] (bytes.take 4)
    have frame : (bytes.drop 4).take ((bytes.drop 4).length - rest.length) ++ rest = bytes.drop 4 := by
      obtain ⟨front, split⟩ := fills.suffix
      rw [← split, List.length_append, Nat.add_sub_cancel, List.take_left]
    rw [List.flatMap_cons, ih, Block.bytes, prefix_, List.append_assoc, frame, List.take_append_drop]

/-- A whole block is not empty, since no bytes at all are no frame, and its size fits its field. -/
theorem Splits.sized {ctx : zstd.Context} {bytes : Bytes} {blocks : List Block} (splits : Splits zstd ctx bytes blocks)
    (whole : ∀ block ∈ blocks, block.Whole zstd) :
    ∀ block ∈ blocks, block.output ≠ [] ∧ block.output.length < 2 ^ 32 := by
  induction splits with
  | nil => exact fun block member => absurd member List.not_mem_nil
  | @cons ctx last bytes rest output blocks sized fills _ ih =>
    obtain ⟨first, others⟩ := List.forall_mem_cons.mp whole
    refine List.forall_mem_cons.mpr ⟨⟨?_, ?_⟩, ih others⟩
    · rintro rfl
      have unread : value (bytes.take 4) = 0 := fills.length.symm
      rw [unread] at fills
      obtain ⟨_, _, rfl⟩ := fills.unique .full
      rw [Block.Whole, Nat.sub_self, List.take_zero, zstd.content_nil] at first
      cases first
    · rw [fills.length]
      have bound := value_lt (bytes.take 4)
      rwa [List.length_take, Nat.min_eq_left sized] at bound

/-- Whole blocks of a size that fits its field are split as they were written. -/
theorem splits_of_whole {blocks : List Block} (whole : ∀ block ∈ blocks, block.Whole zstd)
    (sized : ∀ block ∈ blocks, block.output ≠ [] ∧ block.output.length < 2 ^ 32) :
    Splits zstd zstd.createDCtx (blocks.flatMap Block.bytes) blocks := by
  induction blocks with
  | nil => exact .nil
  | cons block blocks ih =>
    obtain ⟨nonempty, small⟩ := sized block List.mem_cons_self
    have rest := ih (fun b member => whole b (List.mem_cons_of_mem _ member)) fun b member =>
      sized b (List.mem_cons_of_mem _ member)
    have cut : (bigEndian 4 block.output.length).length = 4 := length_bigEndian 4 _
    have bytes : (block :: blocks).flatMap Block.bytes =
        bigEndian 4 block.output.length ++ (block.frame ++ blocks.flatMap Block.bytes) := by
      rw [List.flatMap_cons, Block.bytes, List.append_assoc]
    have size : value (((block :: blocks).flatMap Block.bytes).take 4) = block.output.length := by
      rw [bytes, List.take_left' cut, value_bigEndian_of_lt small]
    have body : ((block :: blocks).flatMap Block.bytes).drop 4 = block.frame ++ blocks.flatMap Block.bytes := by
      rw [bytes, List.drop_left' cut]
    have called := zstd.reads_frame block.frame block.output (blocks.flatMap Block.bytes)
      (whole block List.mem_cons_self) nonempty
    have positive : block.output.length ≠ 0 := by simpa using nonempty
    have fills : Fills zstd zstd.createDCtx (((block :: blocks).flatMap Block.bytes).drop 4)
        (value (((block :: blocks).flatMap Block.bytes).take 4)) (block.output ++ []) zstd.createDCtx
        (blocks.flatMap Block.bytes) := by
      rw [size, body]
      refine .call positive called (by simp) ?_
      simp only [List.drop_left, Nat.sub_self]
      exact .full
    have split := Splits.cons (by rw [bytes, List.length_append, cut]; omega) fills rest
    simpa only [body, List.length_append, Nat.add_sub_cancel, List.take_left, List.append_nil] using split

theorem compress_eq (zstd : ZstdLibrary) (compressed : Bytes) {buf : Bytes} (nonempty : buf ≠ []) :
    compress zstd compressed buf = (0, compressed ++ (bigEndian 4 buf.length ++ zstd.frame buf)) := by
  have cut : (bigEndian 4 buf.length).length = 4 := length_bigEndian 4 _
  have adjacent :=
    @overlay_overlay_append _ (resizeString compressed (compressed.length + 4 + zstd.compressBound buf.length))
    (bigEndian 4 buf.length) (zstd.frame buf) compressed.length (by rw [length_resizeString, cut]; omega)
  have size : compressed.length + 4 + (zstd.frame buf).length =
      compressed.length + (bigEndian 4 buf.length ++ zstd.frame buf).length := by
    rw [List.length_append, cut]; omega
  rw [cut] at adjacent
  rw [compress, if_neg nonempty]
  simp only [adjacent, size]
  rw [Nat.add_assoc, resizeString_append]

theorem Fills.ends_iff {ctx last : zstd.Context} {input rest output : Bytes} {room : ℕ}
    (fills : Fills zstd ctx input room output last rest) {decompressed : Bytes} (within : room ≤ decompressed.length)
    (result : KError × Bytes) : Ends (round zstd) ⟨ctx, input, decompressed, room⟩ result ↔
      Ends (round zstd) ⟨last, rest, overlay decompressed (decompressed.length - room) output, 0⟩ result := by
  induction fills generalizing decompressed with
  | full => rw [overlay_nil]
  | @call ctx last input rest output room call unfilled called more _ ih =>
    obtain ⟨fits, _⟩ := zstd.within _ _ _ _ called
    have goes : round zstd ⟨ctx, input, decompressed, room⟩ = .inl ⟨call.ctx, input.drop call.used,
        overlay decompressed (decompressed.length - room) call.output, room - call.output.length⟩ := by
      simp only [round, if_neg unfilled, called, if_neg more]
    have length : (overlay decompressed (decompressed.length - room) call.output).length = decompressed.length :=
      length_overlay (by omega)
    have offset : decompressed.length - (room - call.output.length) = decompressed.length - room + call.output.length := by
      omega
    rw [ends_inl goes, ih (by rw [length]; omega), length, offset, overlay_overlay_append (by omega)]

/-- Bytes that are split are decompressed into what their blocks hold, behind what the string held. -/
theorem Splits.ends {ctx : zstd.Context} {bytes : Bytes} {blocks : List Block} (splits : Splits zstd ctx bytes blocks)
    (decompressed : Bytes) :
    Ends (round zstd) ⟨ctx, bytes, decompressed, 0⟩ (0, decompressed ++ blocks.flatMap Block.output) := by
  induction splits generalizing decompressed with
  | @nil ctx =>
    have stops : round zstd ⟨ctx, [], decompressed, 0⟩ = .inr (0, decompressed) := by simp only [round, if_true]
    exact (ends_inr stops).mpr (by rw [List.flatMap_nil, List.append_nil])
  | @cons ctx last bytes rest output blocks sized fills _ ih =>
    have nonempty : bytes ≠ [] := by rintro rfl; simp at sized
    have goes : round zstd ⟨ctx, bytes, decompressed, 0⟩ = .inl ⟨ctx, bytes.drop 4,
        resizeString decompressed (decompressed.length + value (bytes.take 4)), value (bytes.take 4)⟩ := by
      simp only [round, if_true, if_neg nonempty, if_neg (Nat.not_lt.mpr sized)]
    have filled : overlay (resizeString decompressed (decompressed.length + value (bytes.take 4)))
        (decompressed.length + value (bytes.take 4) - value (bytes.take 4)) output = decompressed ++ output := by
      have start := @take_add_overlay (resizeString decompressed (decompressed.length + value (bytes.take 4))) output
        decompressed.length (by rw [length_resizeString]; omega)
      rw [take_resizeString le_rfl (by omega), List.take_length, fills.length] at start
      have length : (overlay (resizeString decompressed (decompressed.length + value (bytes.take 4))) decompressed.length
          output).length = decompressed.length + value (bytes.take 4) := by
        rw [length_overlay (by rw [length_resizeString, fills.length]), length_resizeString]
      rw [Nat.add_sub_cancel, ← start, List.take_of_length_le length.le]
    rw [ends_inl goes, fills.ends_iff (by rw [length_resizeString]; omega), length_resizeString, filled,
      List.flatMap_cons, ← List.append_assoc]
    exact ih _

/-- Bytes that are decompressed with success are split. -/
theorem splits_of_ends {s : State zstd} {result : KError × Bytes} (ends : Ends (round zstd) s result)
    (success : result.1 = 0) :
    ∃ output last rest blocks, Fills zstd s.ctx s.rest s.unfilled output last rest ∧ Splits zstd last rest blocks := by
  induction ends using Ends.induction with
  | stop s result stops =>
    have between : s.unfilled = 0 ∧ s.rest = [] := by
      simp only [round] at stops
      split at stops
      next between =>
        split_ifs at stops with empty short
        · exact ⟨between, empty⟩
        · rw [← Sum.inr.inj stops] at success
          cases success
      next =>
        split at stops
        · rw [← Sum.inr.inj stops] at success
          cases success
        · split_ifs at stops
          rw [← Sum.inr.inj stops] at success
          cases success
    rw [between.1, between.2]
    exact ⟨[], s.ctx, [], [], .full, .nil⟩
  | go s next result goes _ ih =>
    obtain ⟨output, last, rest, blocks, fills, splits⟩ := ih success
    simp only [round] at goes
    split at goes
    next between =>
      split_ifs at goes with empty short
      cases Sum.inl.inj goes
      rw [between]
      exact ⟨[], s.ctx, s.rest, _, .full, .cons (Nat.not_lt.mp short) fills splits⟩
    next unfilled =>
      split at goes
      · cases goes
      next call called =>
        split_ifs at goes with stuck
        cases Sum.inl.inj goes
        exact ⟨call.output ++ output, last, rest, blocks, .call unfilled called stuck fills, splits⟩

/-- Fewer bytes are left, or as many and less room in the block, or a less patient context. -/
def rank (s : State zstd) : ℕ ×ₗ ℕ ×ₗ ℕ := toLex (s.rest.length, toLex (s.unfilled, zstd.patience s.ctx))

theorem rank_lt {s next : State zstd} (goes : round zstd s = .inl next) : rank next < rank s := by
  simp only [round] at goes
  split at goes
  · split_ifs at goes with empty short
    cases Sum.inl.inj goes
    have fewer : (s.rest.drop 4).length < s.rest.length := by rw [List.length_drop]; omega
    exact Prod.Lex.toLex_lt_toLex.mpr (.inl fewer)
  next unfilled =>
    split at goes
    · cases goes
    next call called =>
      split_ifs at goes with stuck
      cases Sum.inl.inj goes
      obtain ⟨fits, used⟩ := zstd.within _ _ _ _ called
      have left : (s.rest.drop call.used).length = s.rest.length - call.used := List.length_drop
      by_cases consumes : 0 < call.used
      · have fewer : (s.rest.drop call.used).length < s.rest.length := by omega
        exact Prod.Lex.toLex_lt_toLex.mpr (.inl fewer)
      · have same : (s.rest.drop call.used).length = s.rest.length := by omega
        refine Prod.Lex.toLex_lt_toLex.mpr (.inr ⟨same, Prod.Lex.toLex_lt_toLex.mpr ?_⟩)
        by_cases writes : 0 < call.output.length
        · have less : s.unfilled - call.output.length < s.unfilled := by omega
          exact .inl less
        · have silent : call.output = [] := List.eq_nil_of_length_eq_zero (by omega)
          refine .inr ⟨?_, zstd.impatient _ _ _ _ called silent (by omega)⟩
          rw [silent, List.length_nil, Nat.sub_zero]

theorem ends (s : State zstd) : ∃ result, Ends (round zstd) s result :=
  ends_of_wellFounded (fun _ => True) (InvImage.wf rank wellFounded_lt) (fun _ _ _ goes => ⟨trivial, rank_lt goes⟩)
    trivial

end Zstd

end Coev.Kafka
