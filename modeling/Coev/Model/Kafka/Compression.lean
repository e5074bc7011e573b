import Coev.Model.Kafka.Basic
import Coev.ToMathlib.ByteString
import Coev.ToMathlib.Loop
import Mathlib.Data.List.TakeDrop

/-! # Compression codecs

The four compressions are libraries outside the repository; a `CompressionLibrary` stands for the
contents of the output string after a call, which is all the callers look at. Any other codec value
copies its input.
-/

namespace Coev.Kafka

/-- `CompressionCodec`, with the values its three-bit mask admits besides the named ones. -/
inductive CompressionCodec where
  | None
  | GZIP
  | Snappy
  | LZ4
  | ZSTD
  | unnamed5
  | unnamed6
  | unnamed7
deriving DecidableEq, Repr

namespace CompressionCodec

/-- `static_cast<int8_t>(codec)`. -/
def toInt8 : CompressionCodec → Int8
  | None => 0
  | GZIP => 1
  | Snappy => 2
  | LZ4 => 3
  | ZSTD => 4
  | unnamed5 => 5
  | unnamed6 => 6
  | unnamed7 => 7

/-- `static_cast<CompressionCodec>(attribute & CompressionCodecMask)`. -/
def ofAttributes (attributes : Int16) : CompressionCodec :=
  match (attributes &&& 0x07).toInt with
  | 0 => None
  | 1 => GZIP
  | 2 => Snappy
  | 3 => LZ4
  | 4 => ZSTD
  | 5 => unnamed5
  | 6 => unnamed6
  | _ => unnamed7

/-- The codecs a library is called for. -/
def isLibrary : CompressionCodec → Bool
  | GZIP | Snappy | LZ4 | ZSTD => true
  | _ => false

end CompressionCodec

/-- What the compression libraries leave in the output string. -/
structure CompressionLibrary where
  compress : CompressionCodec → Bytes → Bytes
  decompress : CompressionCodec → Bytes → Bytes

namespace CompressionLibrary

/-- `compress`; the level is passed but not used. -/
def compressed (library : CompressionLibrary) (codec : CompressionCodec) (data : Bytes) : Bytes :=
  if codec.isLibrary then library.compress codec data else data

/-- `decompress`. -/
def decompressed (library : CompressionLibrary) (codec : CompressionCodec) (data : Bytes) : Bytes :=
  if codec.isLibrary then library.decompress codec data else data

/-- Decompression undoes the compression of a codec. -/
def Inverse (library : CompressionLibrary) (codec : CompressionCodec) : Prop :=
  ∀ data, library.decompressed codec (library.compressed codec data) = data

end CompressionLibrary

end Coev.Kafka

/-! ## The compression wrappers

zlib, snappy, lz4 and zstd are libraries outside the repository. Each is a structure of the calls the wrappers make,
with what the library documents of them as fields; contexts are always obtained and memory does not run out. The
wrappers are translated with their loops, and a loop is run for a number of rounds.
-/

namespace Coev.Kafka

open ByteString (bigEndian value overlay)

/-- `std::string::resize`. -/
def resizeString (s : Bytes) (size : ℕ) : Bytes := s.takeD size 0

/-! ## The libraries -/

/-- How a compressed stream ends for the function that reads it: whole, before its end, or in an error. -/
inductive Ending where
  | complete
  | starved
  | corrupt
deriving DecidableEq, Repr

/-- What a streaming function makes of its whole input: the output, the input it takes for a complete stream, the end. -/
structure StreamReading where
  output : Bytes
  consumed : ℕ
  ending : Ending
deriving DecidableEq, Repr

/-- What a call with room for `room` bytes writes when `position` bytes were written before. -/
def StreamReading.chunk (reading : StreamReading) (position room : ℕ) : Bytes := (reading.output.drop position).take room

/-- The end of the stream, if that call gets there. A call that is out of room gets there only if it is eager. -/
def StreamReading.reached (reading : StreamReading) (eager : Bool) (position room : ℕ) : Option Ending :=
  let written := (reading.chunk position room).length
  if written < room ∨ (eager ∧ position + written = reading.output.length) then some reading.ending else none

/-- `deflate` with `Z_FINISH` and `inflate`, for the gzip format. -/
structure Zlib where
  deflated : Bytes → Bytes
  inflated : Bytes → StreamReading
  /-- Whether a call that has just filled its room reports the end of the stream. -/
  eager : Bytes → Bool
  inflated_deflated : ∀ data, inflated (deflated data) = ⟨data, (deflated data).length, .complete⟩
  consumed_le : ∀ bytes, (inflated bytes).ending = .complete → (inflated bytes).consumed ≤ bytes.length
  inflated_append : ∀ bytes more, (inflated bytes).ending = .complete → inflated (bytes ++ more) = inflated bytes

/-- `snappy::Compress` and `snappy::Uncompress`, which is given the string it overwrites. -/
structure SnappyLibrary where
  compressed : Bytes → Bytes
  valid : Bytes → Bool
  uncompressed : Bytes → Bytes → Bytes
  valid_compressed : ∀ data, valid (compressed data) = true
  uncompressed_compressed : ∀ data old, uncompressed (compressed data) old = data

/-- `LZ4F_compressFrame`, `LZ4F_getFrameInfo`, which is the content size or an error, and `LZ4F_decompress`. At the
end of a frame the latter returns 0, in an error an error code, and out of input a hint while it consumes nothing. -/
structure Lz4Library where
  compressBound : ℕ → ℕ
  /-- The capacity without which `LZ4F_compressFrame` ends with an error. -/
  compressFrameBound : ℕ → ℕ
  frame : Bytes → Bytes
  frameInfo : Bytes → Option ℕ
  decompressed : Bytes → StreamReading
  eager : Bytes → Bool
  frameInfo_nil : frameInfo [] = none
  frameInfo_frame : ∀ data, (frameInfo (frame data)).isSome
  decompressed_frame : ∀ data, decompressed (frame data) = ⟨data, (frame data).length, .complete⟩

/-- `LZ4F_compressFrame`. -/
def Lz4Library.compressFrame (lz4 : Lz4Library) (capacity : ℕ) (data : Bytes) : Option Bytes :=
  if capacity < lz4.compressFrameBound data.length then none else some (lz4.frame data)

/-- What a call of `ZSTD_decompressStream` that is no error leaves: the context, the bytes written and those consumed. -/
structure ZstdCall (Context : Type) where
  ctx : Context
  output : Bytes
  used : ℕ

/-- `ZSTD_compressStream` followed by `ZSTD_endStream`, and `ZSTD_decompressStream` with the input and the room that
are left. A call that neither consumes nor writes is an error once the context's patience is exhausted. -/
structure ZstdLibrary where
  Context : Type
  createDCtx : Context
  compressBound : ℕ → ℕ
  frame : Bytes → Bytes
  /-- The content of bytes that are exactly one frame. -/
  content : Bytes → Option Bytes
  decompressStream : Context → Bytes → ℕ → Option (ZstdCall Context)
  patience : Context → ℕ
  content_frame : ∀ data, content (frame data) = some data
  content_nil : content [] = none
  /-- A frame is read by a call that has room for its content, and the context is then ready for another. -/
  reads_frame : ∀ frame data more, content frame = some data → data ≠ [] →
    decompressStream createDCtx (frame ++ more) data.length = some ⟨createDCtx, data, frame.length⟩
  within : ∀ ctx input room call, decompressStream ctx input room = some call →
    call.output.length ≤ room ∧ call.used ≤ input.length
  impatient : ∀ ctx input room call, decompressStream ctx input room = some call → call.output = [] → call.used = 0 →
    patience call.ctx < patience ctx

structure Libraries where
  zlib : Zlib
  snappy : SnappyLibrary
  lz4 : Lz4Library
  zstd : ZstdLibrary

/-! ## The wrappers -/

namespace Gzip

def maxOutputSize : ℕ := 16 * 1024

/-- `avail_in` is an unsigned 32-bit integer. -/
def availIn (buf : Bytes) : Bytes := buf.take (buf.length % 2 ^ 32)

structure State where
  out : Bytes
  totalWritten : ℕ
deriving DecidableEq, Repr

/-- One round of either loop, around the call of `deflate` or `inflate`. -/
def round (reading : StreamReading) (eager : Bool) (s : State) : State ⊕ (KError × Bytes) :=
  let grown := resizeString s.out (s.totalWritten + maxOutputSize)
  let chunk := reading.chunk s.totalWritten maxOutputSize
  let totalWritten := s.totalWritten + chunk.length
  let out := resizeString (overlay grown s.totalWritten chunk) totalWritten
  match reading.reached eager s.totalWritten maxOutputSize with
  -- `Z_STREAM_END`
  | some .complete => .inr (0, out)
  -- neither `Z_OK` nor `Z_BUF_ERROR`
  | some .corrupt => .inr (INVALID, out)
  | _ => if chunk.length = maxOutputSize then .inl ⟨out, totalWritten⟩ else .inr (INVALID, out)

/-- `gzip::Compress`. -/
def compress (zlib : Zlib) (compressed buf : Bytes) : ℕ → Option (KError × Bytes) := fun rounds =>
  let deflated := zlib.deflated (availIn buf)
  Loop.run (round ⟨deflated, (availIn buf).length, .complete⟩ (zlib.eager deflated)) rounds ⟨compressed, 0⟩

/-- `gzip::Decompress`. -/
def decompress (zlib : Zlib) (decompressed buf : Bytes) : ℕ → Option (KError × Bytes) := fun rounds =>
  Loop.run (round (zlib.inflated (availIn buf)) (zlib.eager (availIn buf))) rounds ⟨decompressed, 0⟩

end Gzip

namespace Snappy

/-- `snappy::Compress`, whose result is the size that the library returns. -/
def compress (snappy : SnappyLibrary) (compressed buf : Bytes) : KError × Bytes :=
  if buf = [] then (INVALID, compressed) else ((Int32.ofNat (snappy.compressed buf).length).toInt, snappy.compressed buf)

/-- `snappy::Decompress`, whose result is the truth value that the library returns. -/
def decompress (snappy : SnappyLibrary) (decompressed buf : Bytes) : KError × Bytes :=
  if buf = [] then (INVALID, decompressed)
  else (if snappy.valid buf then 1 else 0, snappy.uncompressed buf decompressed)

end Snappy

namespace Lz4

/-- `lz4::Compress`. -/
def compress (lz4 : Lz4Library) (compressed buf : Bytes) : KError × Bytes :=
  let outputOffset := compressed.length
  let grown := resizeString compressed (outputOffset + lz4.compressBound buf.length)
  match lz4.compressFrame (lz4.compressBound buf.length) buf with
  | none => (INVALID, grown)
  | some frame => (0, resizeString (overlay grown outputOffset frame) (outputOffset + frame.length))

structure State where
  decompressed : Bytes
  outputOffset : ℕ
deriving DecidableEq, Repr

/-- One round of the loop, which began to write at `start`. -/
def round (reading : StreamReading) (eager : Bool) (start : ℕ) (s : State) : State ⊕ (KError × Bytes) :=
  let grown :=
    if s.decompressed.length - s.outputOffset < 1024 then resizeString s.decompressed (s.decompressed.length * 2)
    else s.decompressed
  let room := grown.length - s.outputOffset
  let chunk := reading.chunk (s.outputOffset - start) room
  let decompressed := overlay grown s.outputOffset chunk
  let outputOffset := s.outputOffset + chunk.length
  match reading.reached eager (s.outputOffset - start) room with
  | some .corrupt => .inr (INVALID, decompressed)
  | some .complete => .inr (0, resizeString decompressed outputOffset)
  | _ => .inl ⟨decompressed, outputOffset⟩

/-- `lz4::Decompress`. -/
def decompress (lz4 : Lz4Library) (decompressed buf : Bytes) : ℕ → Option (KError × Bytes) := fun rounds =>
  if buf = [] then some (INVALID, decompressed)
  else
    match lz4.frameInfo buf with
    | none => some (INVALID, decompressed)
    | some contentSize =>
      let maxDecompressedSize := if contentSize = 0 then 4 * 1024 else contentSize
      Loop.run (round (lz4.decompressed buf) (lz4.eager buf) decompressed.length) rounds
        ⟨resizeString decompressed (decompressed.length + maxDecompressedSize), decompressed.length⟩

end Lz4

namespace Zstd

/-- `zstd::Compress`: a block of the size of the data and its frame, behind what the string holds. -/
def compress (zstd : ZstdLibrary) (compressed buf : Bytes) : KError × Bytes :=
  if buf = [] then (INVALID, compressed)
  else
    let outputOffset := compressed.length
    let grown := resizeString compressed (outputOffset + 4 + zstd.compressBound buf.length)
    let sized := overlay grown outputOffset (bigEndian 4 buf.length)
    (0, resizeString (overlay sized (outputOffset + 4) (zstd.frame buf)) (outputOffset + 4 + (zstd.frame buf).length))

/-- Where `Decompress` stands: the bytes from `begin + input.pos` on, and how far the output buffer of the block is
from full, which is 0 between two blocks. -/
structure State (zstd : ZstdLibrary) where
  ctx : zstd.Context
  rest : Bytes
  decompressed : Bytes
  unfilled : ℕ

/-- One round of the inner loop while a block is not full, else one of the outer loop up to the inner one. -/
def round (zstd : ZstdLibrary) (s : State zstd) : State zstd ⊕ (KError × Bytes) :=
  if s.unfilled = 0 then
    if s.rest = [] then .inr (0, s.decompressed)
    else if s.rest.length < 4 then .inr (INVALID, s.decompressed)
    else
      let outputLen := value (s.rest.take 4)
      .inl ⟨s.ctx, s.rest.drop 4, resizeString s.decompressed (s.decompressed.length + outputLen), outputLen⟩
  else
    match zstd.decompressStream s.ctx s.rest s.unfilled with
    | none => .inr (INVALID, s.decompressed)
    | some call =>
      let decompressed := overlay s.decompressed (s.decompressed.length - s.unfilled) call.output
      -- the input is exhausted and the block is not full
      if call.used = s.rest.length ∧ call.output.length < s.unfilled then .inr (INVALID, decompressed)
      else .inl ⟨call.ctx, s.rest.drop call.used, decompressed, s.unfilled - call.output.length⟩

/-- `zstd::Decompress`. -/
def decompress (zstd : ZstdLibrary) (decompressed buf : Bytes) : ℕ → Option (KError × Bytes) := fun rounds =>
  if buf = [] then some (INVALID, decompressed)
  else Loop.run (round zstd) rounds ⟨zstd.createDCtx, buf, decompressed, 0⟩

end Zstd

/-- `compress`, with what `out` holds before; the level is not used. -/
def compress (libs : Libraries) (codec : CompressionCodec) (data out : Bytes) : ℕ → Option (KError × Bytes) := fun rounds =>
  match codec with
  | .GZIP => Gzip.compress libs.zlib out data rounds
  | .Snappy => some (Snappy.compress libs.snappy out data)
  | .LZ4 => some (Lz4.compress libs.lz4 out data)
  | .ZSTD => some (Zstd.compress libs.zstd out data)
  | _ => some (0, data)

/-- `decompress`, with what `out` holds before. -/
def decompress (libs : Libraries) (codec : CompressionCodec) (data out : Bytes) :
    ℕ → Option (KError × Bytes) := fun rounds =>
  match codec with
  | .GZIP => Gzip.decompress libs.zlib out data rounds
  | .Snappy => some (Snappy.decompress libs.snappy out data)
  | .LZ4 => Lz4.decompress libs.lz4 out data rounds
  | .ZSTD => Zstd.decompress libs.zstd out data rounds
  | _ => some (0, data)

end Coev.Kafka
