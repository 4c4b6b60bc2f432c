import Mtproto.Bytes
import Mtproto.Error
import Mtproto.Wire.Uint

/-!
# Frames

The stream between client and server is cut into frames.  A frame is a whole number of 32-bit
words, and in front of it stands how many: one byte if there are fewer than `0x7f`, else the
byte `0x7f` and three bytes, least significant first.  A frame of a single word is no frame
but the error code of a server that gives up.

* `writeFrame` puts the length in front of a frame;
* `scanFrame` looks at the start of what has arrived, which may end anywhere;
* `readFrame` is the same for a stream that will not grow any more.
-/

namespace Mtproto.Transport

open Wire

/-- The byte in front of a length of three bytes. -/
def longLength : UInt8 := 0x7f

/-! ## 1. Writing -/

/-- What stands in front of a frame of `length` bytes. -/
def frameHeader (length : Nat) : Except Error Bytes := do
  if length % 4 ≠ 0 then throw (.transport (.unaligned length))
  let words := length / 4
  if words < longLength.toNat then return [UInt8.ofNat words]
  if UInt32.size ≤ words then throw (.transport (.tooLarge length))
  return longLength :: (← DecodeError.lift (encodeUint24 (UInt32.ofNat words))).bytes

/-- A frame with its length in front. -/
def writeFrame (frame : Bytes) : Except Error Bytes :=
  return (← frameHeader frame.length) ++ frame

/-! ## 2. Reading -/

/-- What a stream starts with. -/
inductive Scan where
  /-- Nothing: the stream has been read to its end. -/
  | nothing
  /-- A frame that is not complete. -/
  | unfinished
  /-- A frame, and the stream after it. -/
  | frame (frame rest : Bytes)
  /-- Something that is not accepted, and the stream after what has been looked at. -/
  | refused (error : TransportError) (rest : Bytes)
deriving DecidableEq, Repr

/-- The body of a frame of so many words. -/
def scanBody (limit words : Nat) (stream : Bytes) : Scan :=
  let length := words * 4
  if limit < length then .refused (.exceedsLimit length limit) stream
  else
    let frame := stream.take length
    let rest := stream.drop length
    if frame.length < length then .unfinished
    else if length = 4 then
      .refused (.serverCode (UInt32.ofNat (Bytes.ofLE frame)).toInt32) rest
    else .frame frame rest

/-- What a stream starts with, if frames of more than `limit` bytes are not accepted. -/
def scanFrame (limit : Nat) : Bytes → Scan
  | [] => .nothing
  | b :: stream =>
    if b < longLength then scanBody limit b.toNat stream
    else if b = longLength then
      match stream with
      | x :: y :: z :: stream => scanBody limit (Bytes.ofLE [x, y, z]) stream
      | _ => .unfinished
    else .refused (.lengthByte b) stream

/-- The next frame of a stream that will not grow, or `none` at its end, and the stream after
it.  A frame that has begun and is not complete is lost. -/
def readFrame (limit : Nat) (stream : Bytes) : Except Error (Option Bytes) × Bytes :=
  match scanFrame limit stream with
  | .nothing => (.ok none, [])
  | .unfinished => (.error .connectionClosed, [])
  | .frame frame rest => (.ok (some frame), rest)
  | .refused error rest => (.error (.transport error), rest)

/-- How many complete frames a stream starts with, added to `skipped`, and the stream after
them.  No more than `most` frames are looked at. -/
def skipFrames (limit : Nat) : (most skipped : Nat) → Bytes → Nat × Bytes
  | 0, skipped, stream => (skipped, stream)
  | most + 1, skipped, stream =>
    match scanFrame limit stream with
    | .frame _ rest => skipFrames limit most (skipped + 1) rest
    | .nothing | .unfinished | .refused .. => (skipped, stream)

/-! ## 3. Progress -/

theorem length_scanBody {limit words : Nat} {stream frame rest : Bytes}
    (h : scanBody limit words stream = .frame frame rest) : rest.length ≤ stream.length := by
  unfold scanBody at h
  grind

/-- A frame takes at least one byte of the stream. -/
theorem length_scanFrame {limit : Nat} {stream frame rest : Bytes}
    (h : scanFrame limit stream = .frame frame rest) : rest.length < stream.length := by
  unfold scanFrame at h
  split at h
  · cases h
  · split at h
    · exact Nat.lt_succ_of_le (length_scanBody h)
    · split at h
      · split at h
        · have := length_scanBody h
          simp only [List.length_cons]
          omega
        · cases h
      · cases h

end Mtproto.Transport
