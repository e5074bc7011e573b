import Coev.Proofs.Kafka.Compressors

/-! # What the compression wrappers give back

gzip, as long as the lengths fit 32 bits, and the codecs without a library give back what they were given whatever the
output strings hold. LZ4 and ZSTD append to theirs, and do so for empty strings only; snappy reports its sizes and truth
values, which are never success; and LZ4 compresses nothing where the capacity that it is given is too small for a frame. A
failure is told from a success unless bytes follow the stream, an LZ4 frame
is cut short, or a ZSTD block is filled elsewhere than at the end of its frame.
-/

namespace Coev.Kafka.Compressed

open Loop

variable {libs : Libraries} {bytes decompressed : Bytes} {data : Bytes} {lz4 : Lz4Library}

/-- A function returns a result after enough rounds of its loops. -/
def Returns (f : ℕ → Option (KError × Bytes)) (result : KError × Bytes) : Prop := ∃ rounds, f rounds = some result

/-- The data is compressed into one string with success and decompressed from there into another. -/
def RoundTrips (libs : Libraries) (codec : CompressionCodec) (data compressed decompressed : Bytes) : Prop :=
  ∃ out, Returns (compress libs codec data compressed) (0, out) ∧ Returns (decompress libs codec out decompressed) (0, data)

/-- The bytes are a compressed form and nothing else. -/
def WellFormed (libs : Libraries) : CompressionCodec → Bytes → Prop
  | .GZIP, bytes => (libs.zlib.inflated bytes).ending = .complete ∧ (libs.zlib.inflated bytes).consumed = bytes.length
  | .Snappy, bytes => libs.snappy.valid bytes = true
  | .LZ4, bytes => (libs.lz4.decompressed bytes).ending = .complete ∧ (libs.lz4.decompressed bytes).consumed = bytes.length
  | .ZSTD, bytes => ∃ blocks : List Zstd.Block, bytes = blocks.flatMap Zstd.Block.bytes ∧
      ∀ block ∈ blocks, block.Whole libs.zstd ∧ block.output ≠ [] ∧ block.output.length < 2 ^ 32
  | _, _ => True

/-- Decompression ends, and with success only for a compressed form. -/
def Robust (libs : Libraries) (codec : CompressionCodec) (bytes decompressed : Bytes) : Prop :=
  (∃ result, Returns (decompress libs codec bytes decompressed) result) ∧
    ∀ out, Returns (decompress libs codec bytes decompressed) (0, out) → WellFormed libs codec bytes

/-- The wrapper discards what its output string holds. -/
def Overwrites (codec : CompressionCodec) : Prop := codec ≠ .LZ4 ∧ codec ≠ .ZSTD

/-- The lengths fit the fields the wrapper stores them in and the capacity that it gives, and its results are codes. -/
def Carried (libs : Libraries) : CompressionCodec → Bytes → Prop
  | .GZIP, data => data.length < 2 ^ 32 ∧ (libs.zlib.deflated data).length < 2 ^ 32
  | .Snappy, _ => False
  | .LZ4, data => libs.lz4.compressFrameBound data.length ≤ libs.lz4.compressBound data.length
  | .ZSTD, data => data ≠ [] ∧ data.length < 2 ^ 32
  | _, _ => True

/-- No bytes follow the stream, an LZ4 frame is not cut short, and every ZSTD block that is filled ends with its frame. -/
def Told (libs : Libraries) : CompressionCodec → Bytes → Prop
  | .GZIP, bytes => (libs.zlib.inflated (Gzip.availIn bytes)).ending = .complete →
      (libs.zlib.inflated (Gzip.availIn bytes)).consumed = bytes.length
  | .Snappy, bytes => bytes = [] ∨ libs.snappy.valid bytes = true
  | .LZ4, bytes => bytes = [] ∨ libs.lz4.frameInfo bytes = none ∨
      ((libs.lz4.decompressed bytes).ending ≠ .starved ∧
        ((libs.lz4.decompressed bytes).ending = .complete → (libs.lz4.decompressed bytes).consumed = bytes.length))
  | .ZSTD, bytes => ∀ blocks, Zstd.Splits libs.zstd libs.zstd.createDCtx bytes blocks →
      ∀ block ∈ blocks, block.Whole libs.zstd
  | _, _ => True

/-! ## gzip -/

private theorem gzip_compress_returns {zlib : Zlib} {data compressed out : Bytes} :
    Returns (Gzip.compress zlib compressed data) (0, out) ↔ out = zlib.deflated (Gzip.availIn data) := by
  obtain ⟨given, ends, carried⟩ := Gzip.ends ⟨zlib.deflated (Gzip.availIn data), (Gzip.availIn data).length, .complete⟩
    (zlib.eager (zlib.deflated (Gzip.availIn data))) compressed
  rw [Gzip.Result, if_pos rfl] at carried
  subst carried
  exact ⟨fun returned => congrArg Prod.snd (Ends.unique returned ends), fun same => same ▸ ends⟩

private theorem gzip_decompress_returns {zlib : Zlib} {bytes decompressed out : Bytes} :
    Returns (Gzip.decompress zlib decompressed bytes) (0, out) ↔
      (zlib.inflated (Gzip.availIn bytes)).ending = .complete ∧ out = (zlib.inflated (Gzip.availIn bytes)).output := by
  obtain ⟨given, ends, carried⟩ :=
    Gzip.ends (zlib.inflated (Gzip.availIn bytes)) (zlib.eager (Gzip.availIn bytes)) decompressed
  rw [Gzip.Result] at carried
  split_ifs at carried with complete
  · subst carried
    constructor
    · exact fun returned => ⟨complete, congrArg Prod.snd (Ends.unique returned ends)⟩
    · rintro ⟨_, rfl⟩
      exact ends
  · constructor
    · intro returned
      rw [← Ends.unique returned ends] at carried
      cases carried
    · exact fun ⟨whole, _⟩ => absurd whole complete

private theorem gzip_decompress_ends (zlib : Zlib) (bytes decompressed : Bytes) :
    ∃ result, Returns (Gzip.decompress zlib decompressed bytes) result := by
  obtain ⟨result, ends, _⟩ := Gzip.ends (zlib.inflated (Gzip.availIn bytes)) (zlib.eager (Gzip.availIn bytes)) decompressed
  exact ⟨result, ends⟩

private theorem availIn_eq {bytes : Bytes} (small : bytes.length < 2 ^ 32) : Gzip.availIn bytes = bytes := by
  rw [Gzip.availIn, Nat.mod_eq_of_lt small, List.take_length]

private theorem availIn_short {bytes : Bytes} (large : ¬ bytes.length < 2 ^ 32) :
    (Gzip.availIn bytes).length < bytes.length := by
  rw [Gzip.availIn, List.length_take]
  omega

/-- A complete stream at the beginning of the bytes is the stream of the bytes. -/
private theorem inflated_availIn {zlib : Zlib} {bytes : Bytes}
    (complete : (zlib.inflated (Gzip.availIn bytes)).ending = .complete) :
    zlib.inflated bytes = zlib.inflated (Gzip.availIn bytes) := by
  have appended := zlib.inflated_append _ (bytes.drop (bytes.length % 2 ^ 32)) complete
  rwa [Gzip.availIn, List.take_append_drop] at appended

private theorem gzip_roundTrips {data compressed decompressed : Bytes} :
    RoundTrips libs .GZIP data compressed decompressed ↔ Carried libs .GZIP data := by
  have deflates (out : Bytes) : Returns (compress libs .GZIP data compressed) (0, out) ↔
      out = libs.zlib.deflated (Gzip.availIn data) := gzip_compress_returns
  have inflates (out : Bytes) : Returns (decompress libs .GZIP out decompressed) (0, data) ↔
      (libs.zlib.inflated (Gzip.availIn out)).ending = .complete ∧ data = (libs.zlib.inflated (Gzip.availIn out)).output :=
    gzip_decompress_returns
  constructor
  · rintro ⟨out, deflated, inflated⟩
    obtain rfl := (deflates out).mp deflated
    obtain ⟨complete, same⟩ := (inflates _).mp inflated
    have whole := inflated_availIn complete
    rw [libs.zlib.inflated_deflated] at whole
    -- the stream is consumed to its end, so that it was not cut
    have uncut : (libs.zlib.deflated (Gzip.availIn data)).length < 2 ^ 32 := by
      by_contra large
      have short := availIn_short large
      have used := libs.zlib.consumed_le _ complete
      rw [← whole] at used
      exact absurd used (Nat.not_le.mpr short)
    have all : data = Gzip.availIn data := same.trans (congrArg StreamReading.output whole.symm)
    have small : data.length < 2 ^ 32 := by
      by_contra large
      exact absurd (congrArg List.length all) (availIn_short large).ne'
    exact ⟨small, all ▸ uncut⟩
  · rintro ⟨small, fits⟩
    refine ⟨libs.zlib.deflated data, (deflates _).mpr (by rw [availIn_eq small]), (inflates _).mpr ?_⟩
    rw [availIn_eq fits, libs.zlib.inflated_deflated]
    exact ⟨rfl, rfl⟩

private theorem gzip_robust : Robust libs .GZIP bytes decompressed ↔ Told libs .GZIP bytes := by
  have inflates (out : Bytes) : Returns (decompress libs .GZIP bytes decompressed) (0, out) ↔
      (libs.zlib.inflated (Gzip.availIn bytes)).ending = .complete ∧
        out = (libs.zlib.inflated (Gzip.availIn bytes)).output := gzip_decompress_returns
  constructor
  · intro ⟨_, wellFormed⟩ complete
    obtain ⟨_, consumed⟩ := wellFormed _ ((inflates _).mpr ⟨complete, rfl⟩)
    rwa [inflated_availIn complete] at consumed
  · refine fun told => ⟨gzip_decompress_ends _ _ _, fun out returned => ?_⟩
    obtain ⟨complete, _⟩ := (inflates out).mp returned
    change (libs.zlib.inflated bytes).ending = .complete ∧ (libs.zlib.inflated bytes).consumed = bytes.length
    rw [inflated_availIn complete]
    exact ⟨complete, told complete⟩

/-! ## snappy -/

private theorem snappy_not_roundTrips {data compressed decompressed : Bytes} :
    ¬ RoundTrips libs .Snappy data compressed decompressed := by
  rintro ⟨out, ⟨_, deflated⟩, ⟨_, inflated⟩⟩
  simp only [compress, Snappy.compress, Option.some.injEq] at deflated
  simp only [decompress, Snappy.decompress, Option.some.injEq] at inflated
  split_ifs at deflated with empty
  · cases deflated
  · have out_eq : libs.snappy.compressed data = out := congrArg Prod.snd deflated
    split_ifs at inflated with blank valid
    · cases inflated
    · cases inflated
    · exact valid (out_eq ▸ libs.snappy.valid_compressed data)

private theorem snappy_robust : Robust libs .Snappy bytes decompressed ↔ Told libs .Snappy bytes := by
  have given : Returns (decompress libs .Snappy bytes decompressed) (Snappy.decompress libs.snappy decompressed bytes) :=
    ⟨0, rfl⟩
  constructor
  · intro ⟨_, wellFormed⟩
    by_cases empty : bytes = []
    · exact .inl empty
    · refine .inr ?_
      by_contra invalid
      rw [Snappy.decompress, if_neg empty, if_neg invalid] at given
      exact invalid (wellFormed _ given)
  · refine fun told => ⟨⟨_, given⟩, fun out ⟨_, returned⟩ => ?_⟩
    simp only [decompress, Snappy.decompress, Option.some.injEq] at returned
    rcases told with rfl | valid
    · cases returned
    · exact valid

/-! ## LZ4 -/

private theorem lz4_room (contentSize : ℕ) : 0 < if contentSize = 0 then 4 * 1024 else contentSize := by
  split_ifs <;> omega

/-- Behind its checks the wrapper runs its loop, with some room behind what the string holds. -/
private theorem lz4_loop {bytes : Bytes} (nonempty : bytes ≠ []) {contentSize : ℕ}
    (info : lz4.frameInfo bytes = some contentSize) (decompressed : Bytes) (result : KError × Bytes) :
    Returns (Lz4.decompress lz4 decompressed bytes) result ↔
      Ends (Lz4.round (lz4.decompressed bytes) (lz4.eager bytes) decompressed.length)
        ⟨resizeString decompressed (decompressed.length + if contentSize = 0 then 4 * 1024 else contentSize),
          decompressed.length⟩ result := by
  simp only [Returns, Ends, Lz4.decompress, if_neg nonempty, info]

private theorem lz4_decompress_returns {bytes decompressed out : Bytes} :
    Returns (Lz4.decompress lz4 decompressed bytes) (0, out) ↔
      bytes ≠ [] ∧ (lz4.frameInfo bytes).isSome ∧ (lz4.decompressed bytes).ending = .complete ∧
        out = decompressed ++ (lz4.decompressed bytes).output := by
  by_cases empty : bytes = []
  · simp [Returns, Lz4.decompress, empty, INVALID]
  cases info : lz4.frameInfo bytes with
  | none => simp [Returns, Lz4.decompress, empty, info, INVALID]
  | some contentSize =>
    rw [lz4_loop empty info]
    by_cases starved : (lz4.decompressed bytes).ending = .starved
    · constructor
      · exact fun ends => absurd ends (Lz4.not_ends decompressed (lz4_room contentSize) starved _)
      · rintro ⟨_, _, complete, _⟩
        cases starved.symm.trans complete
    · obtain ⟨given, ends, carried⟩ := Lz4.ends (lz4.eager bytes) decompressed (lz4_room contentSize) starved
      rw [Lz4.Result] at carried
      split_ifs at carried with complete
      · subst carried
        constructor
        · exact fun returned => ⟨empty, rfl, complete, congrArg Prod.snd (Ends.unique returned ends)⟩
        · rintro ⟨_, _, _, rfl⟩
          exact ends
      · constructor
        · intro returned
          rw [← Ends.unique returned ends] at carried
          cases carried
        · exact fun whole => absurd whole.2.2.1 complete

/-- The wrapper ends unless a frame that begins well is cut short. -/
private theorem lz4_decompress_ends_iff : (∃ result, Returns (Lz4.decompress lz4 decompressed bytes) result) ↔
      bytes = [] ∨ lz4.frameInfo bytes = none ∨ (lz4.decompressed bytes).ending ≠ .starved := by
  by_cases empty : bytes = []
  · simp [Returns, Lz4.decompress, empty]
  cases info : lz4.frameInfo bytes with
  | none => simp [Returns, Lz4.decompress, empty, info]
  | some contentSize =>
    simp only [empty, reduceCtorEq, false_or, lz4_loop empty info]
    constructor
    · exact fun ⟨result, ends⟩ starved => Lz4.not_ends decompressed (lz4_room contentSize) starved result ends
    · intro fed
      obtain ⟨result, ends, _⟩ := Lz4.ends (lz4.eager bytes) decompressed (lz4_room contentSize) fed
      exact ⟨result, ends⟩

private theorem lz4_robust : Robust libs .LZ4 bytes decompressed ↔ Told libs .LZ4 bytes := by
  have returns (out : Bytes) : Returns (decompress libs .LZ4 bytes decompressed) (0, out) ↔ _ := lz4_decompress_returns
  have ends : (∃ result, Returns (decompress libs .LZ4 bytes decompressed) result) ↔ _ := lz4_decompress_ends_iff
  unfold Robust
  rw [ends]
  constructor
  · rintro ⟨empty | unread | fed, wellFormed⟩
    · exact .inl empty
    · exact .inr (.inl unread)
    · by_cases empty : bytes = []
      · exact .inl empty
      cases info : libs.lz4.frameInfo bytes with
      | none => exact .inr (.inl info)
      | some contentSize =>
        exact .inr (.inr ⟨fed, fun complete =>
          (wellFormed _ ((returns _).mpr ⟨empty, by rw [info]; rfl, complete, rfl⟩)).2⟩)
  · intro told
    refine ⟨told.imp_right (Or.imp_right And.left), fun out returned => ?_⟩
    obtain ⟨nonempty, read, complete, _⟩ := (returns out).mp returned
    rcases told with empty | unread | ⟨_, consumed⟩
    · exact absurd empty nonempty
    · rw [unread] at read
      cases read
    · exact ⟨complete, consumed complete⟩

/-- A string that was not empty is still in front of the result. -/
private theorem lz4_not_always : ¬ ∀ compressed decompressed, RoundTrips libs .LZ4 data compressed decompressed := by
  intro always
  obtain ⟨out, ⟨_, deflated⟩, inflated⟩ := always [] []
  obtain ⟨out', ⟨_, deflated'⟩, inflated'⟩ := always [] [0]
  cases deflated.symm.trans deflated'
  have plain := (lz4_decompress_returns.mp inflated).2.2.2
  have behind := (lz4_decompress_returns.mp inflated').2.2.2
  have longer := congrArg List.length (plain.symm.trans behind)
  simp at longer

private theorem lz4_roundTrips_empty : RoundTrips libs .LZ4 data [] [] ↔ Carried libs .LZ4 data := by
  constructor
  · rintro ⟨out, ⟨_, deflated⟩, _⟩
    by_contra small
    have fails := Lz4.compress_of_small (Nat.not_le.mp small) []
    have succeeds : (Lz4.compress libs.lz4 [] data).1 = 0 := congrArg Prod.fst (Option.some.inj deflated)
    exact absurd (succeeds.symm.trans fails) (by decide)
  intro fits
  have read := libs.lz4.frameInfo_frame data
  have whole := libs.lz4.decompressed_frame data
  have nonempty : libs.lz4.frame data ≠ [] := by
    intro empty
    rw [empty, libs.lz4.frameInfo_nil] at read
    cases read
  refine ⟨libs.lz4.frame data, ⟨0, congrArg some (Lz4.compress_eq fits _)⟩, ?_⟩
  exact lz4_decompress_returns.mpr ⟨nonempty, read, by rw [whole], by rw [whole]; rfl⟩

/-! ## ZSTD -/

private theorem zstd_decompress_returns {zstd : ZstdLibrary} {bytes decompressed out : Bytes} :
    Returns (Zstd.decompress zstd decompressed bytes) (0, out) ↔
      bytes ≠ [] ∧ ∃ blocks, Zstd.Splits zstd zstd.createDCtx bytes blocks ∧
        out = decompressed ++ blocks.flatMap Zstd.Block.output := by
  by_cases empty : bytes = []
  · simp [Returns, Zstd.decompress, empty, INVALID]
  have loop : Returns (Zstd.decompress zstd decompressed bytes) (0, out) ↔
      Ends (Zstd.round zstd) ⟨zstd.createDCtx, bytes, decompressed, 0⟩ (0, out) := by
    simp only [Returns, Ends, Zstd.decompress, if_neg empty]
  rw [loop]
  constructor
  · intro ends
    obtain ⟨_, _, _, blocks, fills, splits⟩ := Zstd.splits_of_ends ends rfl
    obtain ⟨_, rfl, rfl⟩ := fills.unique .full
    exact ⟨empty, blocks, splits, congrArg Prod.snd (Ends.unique ends (splits.ends decompressed))⟩
  · rintro ⟨_, blocks, splits, rfl⟩
    exact splits.ends decompressed

private theorem zstd_decompress_ends (zstd : ZstdLibrary) (bytes decompressed : Bytes) :
    ∃ result, Returns (Zstd.decompress zstd decompressed bytes) result := by
  by_cases empty : bytes = []
  · exact ⟨(INVALID, decompressed), 0, by rw [Zstd.decompress, if_pos empty]⟩
  · obtain ⟨result, rounds, ran⟩ := Zstd.ends ⟨zstd.createDCtx, bytes, decompressed, 0⟩
    exact ⟨result, rounds, by rw [Zstd.decompress, if_neg empty, ran]⟩

private theorem zstd_robust : Robust libs .ZSTD bytes decompressed ↔ Told libs .ZSTD bytes := by
  have returns (out : Bytes) : Returns (decompress libs .ZSTD bytes decompressed) (0, out) ↔ _ := zstd_decompress_returns
  constructor
  · intro ⟨_, wellFormed⟩ blocks splits
    by_cases empty : bytes = []
    · subst empty
      cases splits.unique .nil
      exact fun block member => absurd member List.not_mem_nil
    · obtain ⟨written, same, whole⟩ := wellFormed _ ((returns _).mpr ⟨empty, blocks, splits, rfl⟩)
      subst same
      have split :=
        Zstd.splits_of_whole (fun block member => (whole block member).1) fun block member => (whole block member).2
      exact splits.unique split ▸ fun block member => (whole block member).1
  · refine fun told => ⟨zstd_decompress_ends _ _ _, fun out returned => ?_⟩
    obtain ⟨_, blocks, splits, _⟩ := (returns out).mp returned
    refine ⟨blocks, splits.bytes_eq.symm, fun block member => ⟨told blocks splits block member, ?_⟩⟩
    exact splits.sized (told blocks splits) block member

private theorem zstd_not_always : ¬ ∀ compressed decompressed, RoundTrips libs .ZSTD data compressed decompressed := by
  intro always
  obtain ⟨out, ⟨_, deflated⟩, inflated⟩ := always [] []
  obtain ⟨out', ⟨_, deflated'⟩, inflated'⟩ := always [] [0]
  cases deflated.symm.trans deflated'
  obtain ⟨_, blocks, splits, plain⟩ := zstd_decompress_returns.mp inflated
  obtain ⟨_, blocks', splits', behind⟩ := zstd_decompress_returns.mp inflated'
  cases splits.unique splits'
  have longer := congrArg List.length (plain.symm.trans behind)
  simp at longer

private theorem zstd_roundTrips_empty (libs : Libraries) (carried : Carried libs .ZSTD data) :
    RoundTrips libs .ZSTD data [] [] := by
  obtain ⟨nonempty, small⟩ := carried
  let block : Zstd.Block := ⟨libs.zstd.frame data, data⟩
  have whole : ∀ b ∈ [block], b.Whole libs.zstd := List.forall_mem_singleton.mpr (libs.zstd.content_frame data)
  have sized : ∀ b ∈ [block], b.output ≠ [] ∧ b.output.length < 2 ^ 32 := List.forall_mem_singleton.mpr ⟨nonempty, small⟩
  have split := Zstd.splits_of_whole whole sized
  rw [List.flatMap_singleton] at split
  have behind : block.bytes ≠ [] := by simp [Zstd.Block.bytes, ByteString.bigEndian]
  refine ⟨block.bytes, ⟨0, congrArg some (Zstd.compress_eq libs.zstd [] nonempty)⟩, ?_⟩
  exact zstd_decompress_returns.mpr ⟨behind, [block], split, by rw [List.flatMap_singleton, List.nil_append]⟩

/-- Nothing is not compressed. -/
private theorem zstd_nonempty (roundTrips : RoundTrips libs .ZSTD data [] []) : data ≠ [] := by
  rintro rfl
  obtain ⟨out, ⟨_, deflated⟩, _⟩ := roundTrips
  have succeeds : INVALID = 0 := congrArg Prod.fst (Option.some.inj deflated)
  exact absurd succeeds (by decide)

/-! ## All codecs -/

/-- Every byte behind a 1, and a 0 at the end. -/
def marked : Bytes → Bytes
  | [] => [0]
  | byte :: data => 1 :: byte :: marked data

def unmarked : Bytes → StreamReading
  | [] => ⟨[], 0, .starved⟩
  | [mark] => if mark = 0 then ⟨[], 1, .complete⟩ else ⟨[], 0, .starved⟩
  | mark :: byte :: rest =>
    if mark = 0 then ⟨[], 1, .complete⟩
    else ⟨byte :: (unmarked rest).output, (unmarked rest).consumed + 2, (unmarked rest).ending⟩

private theorem unmarked_marked (data more : Bytes) :
    unmarked (marked data ++ more) = ⟨data, (marked data).length, .complete⟩ := by
  induction data with
  | nil => cases more <;> rfl
  | cons byte data ih => simp [marked, unmarked, ih]

private theorem unmarked_consumed_le (bytes : Bytes) : (unmarked bytes).consumed ≤ bytes.length := by
  fun_induction unmarked bytes <;> simp_all

private theorem unmarked_append (bytes more : Bytes) (complete : (unmarked bytes).ending = .complete) :
    unmarked (bytes ++ more) = unmarked bytes := by
  fun_induction unmarked bytes with
  | case1 => cases complete
  | case2 => cases more <;> simp [unmarked]
  | case3 => cases complete
  | case4 => simp [unmarked]
  | case5 mark byte rest nonzero ih => simp [unmarked, nonzero, ih complete]

def markedZlib : Zlib where
  deflated := marked
  inflated := unmarked
  eager _ := false
  inflated_deflated data := by simpa using unmarked_marked data []
  consumed_le bytes _ := unmarked_consumed_le bytes
  inflated_append := unmarked_append

def literalSnappy : SnappyLibrary where
  compressed data := 1 :: 0 :: data
  valid bytes := bytes.take 2 = [1, 0]
  uncompressed bytes _ := bytes.drop 2
  valid_compressed _ := rfl
  uncompressed_compressed _ _ := rfl

/-- The header of a frame that does not give its content size. -/
def lz4Header : Bytes := [0x04, 0x22, 0x4D, 0x18, 0x60, 0x40, 0x82]

def markedLz4 : Lz4Library where
  compressBound n := 7 + (2 * n + 1)
  compressFrameBound n := 7 + (2 * n + 1)
  frame data := lz4Header ++ marked data
  frameInfo bytes := if bytes.take 7 = lz4Header then some 0 else none
  decompressed bytes :=
    ⟨(unmarked (bytes.drop 7)).output, 7 + (unmarked (bytes.drop 7)).consumed, (unmarked (bytes.drop 7)).ending⟩
  eager _ := false
  frameInfo_nil := rfl
  frameInfo_frame _ := rfl
  decompressed_frame data := by
    have read := unmarked_marked data []
    rw [List.append_nil] at read
    have behind : (lz4Header ++ marked data).drop 7 = marked data := rfl
    rw [behind, read, List.length_append]
    rfl

def markedZstd : ZstdLibrary where
  Context := Unit
  createDCtx := ()
  compressBound n := 2 * n + 1
  frame := marked
  content frame :=
    if (unmarked frame).ending = .complete ∧ (unmarked frame).consumed = frame.length then some (unmarked frame).output
    else none
  decompressStream _ input room :=
    if (unmarked input).ending = .complete ∧ (unmarked input).output.length ≤ room ∧ 0 < (unmarked input).consumed
    then some ⟨(), (unmarked input).output, (unmarked input).consumed⟩ else none
  patience _ := 0
  content_frame data := by
    have read := unmarked_marked data []
    rw [List.append_nil] at read
    rw [read, if_pos ⟨rfl, rfl⟩]
  content_nil := rfl
  reads_frame frame data more content _ := by
    obtain ⟨⟨complete, consumed⟩, same⟩ := Option.ite_none_right_eq_some.mp content
    cases same
    have positive : 0 < frame.length := by
      cases frame with
      | nil => cases complete
      | cons => exact Nat.succ_pos _
    simp only [unmarked_append frame more complete, consumed]
    exact if_pos ⟨complete, le_rfl, positive⟩
  within ctx input room call called := by
    obtain ⟨⟨_, fits, _⟩, same⟩ := Option.ite_none_right_eq_some.mp called
    cases same
    exact ⟨fits, unmarked_consumed_le input⟩
  impatient ctx input room call called silent unused := by
    obtain ⟨⟨_, _, positive⟩, same⟩ := Option.ite_none_right_eq_some.mp called
    cases same
    exact absurd unused positive.ne'

def markedLibraries : Libraries := ⟨markedZlib, literalSnappy, markedLz4, markedZstd⟩

end Coev.Kafka.Compressed
