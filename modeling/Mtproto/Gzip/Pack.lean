import Mtproto.Gzip.Crc32

/-!
# Packing

A packer of few means.  The data are cut into segments of equal length.  A segment that
repeats what is some way back is written as references of the greatest length there is; any
other segment is stored as it is.  A block of references is followed by an empty stored block,
so that every segment starts at a whole byte.
-/

namespace Mtproto.Gzip

/-- The length of a segment: that of 128 references of the greatest length. -/
def segmentLength : Nat := 258 * 128

/-- A stored block, with a mark if it is the last one. -/
def storedBlock (last : Bool) (block : Bytes) : Bytes :=
  (if last then 1 else 0) ::
    (Bytes.le 2 block.length ++ (Bytes.le 2 (65535 - block.length) ++ block))

/-- A reference of length 258 in the fixed code, as a number of 26 bits: eight for the length,
five for the distance, and thirteen that are added to it. -/
def referenceBits (distance : Nat) : Nat :=
  if distance < 24577 then 163 + (7 <<< 8) + ((distance - 16385) <<< 13)
  else 163 + (23 <<< 8) + ((distance - 24577) <<< 13)

/-- A block of 128 references to the same distance, and an empty stored block. -/
def referenceBlock (distance : Nat) : Bytes :=
  let references := (List.replicate 128 (referenceBits distance)).foldl
    (fun bits reference => (bits <<< 26) + reference) 0
  Bytes.le 418 (2 + (references <<< 3)) ++ Bytes.le 4 0xFFFF0000

/-- The `n` bytes from `start` on repeat those that are `distance` places back. -/
def repeats (data : Array UInt8) (start distance : Nat) : (n : Nat) → Bool
  | 0 => true
  | n + 1 =>
    data.getD (start + n) 0 == data.getD (start + n - distance) 0 &&
      repeats data start distance n

/-- A distance at which the segment at `start` repeats earlier data. -/
def repeatDistance? (data : Array UInt8) (start : Nat) : Option Nat :=
  (List.range' 16385 16384).find? fun distance =>
    distance ≤ start && repeats data start distance segmentLength

/-- The blocks for the data from `start` on. -/
def blocksFrom (data : Array UInt8) (start : Nat) : Bytes :=
  if data.size ≤ start + segmentLength then
    storedBlock true (data.extract start data.size).toList
  else
    let block := match repeatDistance? data start with
      | some distance => referenceBlock distance
      | none => storedBlock false (data.extract start (start + segmentLength)).toList
    block ++ blocksFrom data (start + segmentLength)
termination_by data.size - start
decreasing_by
  have : 0 < segmentLength := by decide
  omega

/-- The header of a member without optional fields. -/
def plainHeader : Bytes := [0x1f, 0x8b, 8, 0, 0, 0, 0, 0, 0, 0xff]

/-- A member that holds the data. -/
def pack (data : Bytes) : Bytes :=
  plainHeader ++ (blocksFrom data.toArray 0 ++
    (Bytes.le 4 (crc32 data).toNat ++ Bytes.le 4 data.length))

end Mtproto.Gzip
