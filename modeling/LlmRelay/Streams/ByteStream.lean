import LlmRelay.Ecma.Utf8
import LlmRelay.Streams.SseFrames

/-!
# Byte streams and their frames

A stream of byte chunks that closes or fails, and the loop that decodes it chunk
by chunk and hands every complete frame to a step function.

## Main definitions

* `ByteStream`, `ByteStream.read`: a stream and one read of it;
* `decodedFrames`: the frame buffer of a byte sequence;
* `feedChunks`: the read loop of the stream transforms.

## Main results

* `feedChunks_eq`: the loop sees the frames of the whole byte sequence.
-/

namespace LlmRelay

open Ecma

/-- One piece of a byte stream. -/
abbrev Chunk := List UInt8

/-- How a stream ends. -/
inductive StreamEnding where
  | done
  | failed
  deriving DecidableEq, Repr

/-- What a reader will get from a stream: its chunks, then its end. -/
structure ByteStream where
  chunks : List Chunk
  ending : StreamEnding
  deriving DecidableEq, Repr

/-- The answer to one read. -/
inductive ReadResult where
  | value (chunk : Chunk)
  | ended (ending : StreamEnding)
  deriving DecidableEq, Repr

namespace ByteStream

/-- One read; the end is answered again and again. -/
def read (s : ByteStream) : ReadResult × ByteStream :=
  match s.chunks with
  | [] => (.ended s.ending, s)
  | c :: rest => (.value c, { s with chunks := rest })

/-- The bytes of a stream. -/
def bytes (s : ByteStream) : List UInt8 :=
  s.chunks.flatten

end ByteStream

/-- The buffer of decoded bytes. -/
def decodedFrames (bytes : List UInt8) : BufferedSseFrames :=
  ⟨(Utf8Decoder.new.decode bytes).2⟩

section Feed

variable {σ : Type} (step : σ → SseFrame → σ)

/-- A stream transform between two chunks. -/
structure FeedState (σ : Type) where
  state : σ
  decoder : Utf8Decoder
  frames : BufferedSseFrames

/-- One chunk: it is decoded, and every frame it completes is handled. -/
def feedChunk (s : FeedState σ) (chunk : Chunk) : FeedState σ :=
  let decoded := s.decoder.decode chunk
  let drained := (s.frames.append decoded.2).drain
  ⟨drained.1.foldl step s.state, decoded.1, drained.2⟩

/-- The read loop over the chunks. -/
def feedChunks (init : σ) (chunks : List Chunk) : FeedState σ :=
  chunks.foldl (feedChunk step) ⟨init, .new, .new⟩

/-- **The loop sees the frames of the whole byte sequence**, however it is cut. -/
theorem feedChunks_eq (init : σ) (chunks : List Chunk) :
    feedChunks step init chunks
      = ⟨(decodedFrames chunks.flatten).drain.1.foldl step init,
          (Utf8Decoder.new.decode chunks.flatten).1,
          (decodedFrames chunks.flatten).drain.2⟩ := by
  induction chunks using List.reverseRecOn with
  | nil =>
    rw [List.flatten_nil, BufferedSseFrames.drain_of_none rfl]
    rfl
  | append_singleton chunks chunk ih =>
    have hframes : decodedFrames (chunks ++ [chunk]).flatten
        = (decodedFrames chunks.flatten).append
            ((Utf8Decoder.new.decode chunks.flatten).1.decode chunk).2 := by
      simp [decodedFrames, BufferedSseFrames.append, Utf8Decoder.decode_append]
    unfold feedChunks at ih ⊢
    rw [List.foldl_append, ih, hframes, BufferedSseFrames.drain_append]
    simp [feedChunk, Utf8Decoder.decode_append]

end Feed

end LlmRelay
