import Mtproto.Wire.Uint

/-!
# Length-prefixed byte strings

A blob is a length, the bytes, and zero bytes up to a multiple of four.  The length takes one
byte if it is below 254; otherwise it is the byte 254 and three more bytes.  The byte 255
starts no blob.
-/

namespace Mtproto.Wire

/-- The byte that announces a length of three bytes. -/
def longMarker : UInt8 := 254

/-- The longest blob that three bytes can announce. -/
def maxBlobLength : Nat := 0xFFFFFF

/-- The length prefix of a blob of `len` bytes. -/
def blobHeader (len : Nat) : Bytes :=
  if len < 254 then [UInt8.ofNat len] else longMarker :: Bytes.le 3 len

/-- The bytes a blob of `len` bytes takes on the wire, padding included. -/
def blobEncodedLength (len : Nat) : Nat :=
  let raw := (if len < 254 then 1 else 4) + len
  raw + paddingFor raw 4

/-- The same for any length: the bytes have to be countable. -/
def checkedBlobLength (len : Nat) : Except Fault Nat :=
  if UInt64.size ≤ blobEncodedLength len then .error .oversized else .ok (blobEncodedLength len)

/-- The wire form of a blob. -/
def encodeBlob (data : Bytes) : Except DecodeError Bytes :=
  let len := data.length
  if maxBlobLength < len then .error (.overflow len 24)
  else
    let header := blobHeader len
    let padding := List.replicate (paddingFor (header.length + len) 4) (0 : UInt8)
    .ok (header ++ (data ++ padding))

/-- A blob of `len` bytes that starts after `header` bytes: its bytes, and how many bytes it
takes with its header and padding. -/
def decodeBlobBody (bs : Bytes) (header len : Nat) : Except DecodeError (Bytes × Nat) :=
  let total := header + len + paddingFor (header + len) 4
  if (bs.take total).length < total then .error (.unexpectedEof total bs.length)
  else .ok ((bs.drop header).take len, total)

/-- The blob at the front of a byte string: its bytes, and how many bytes it takes. -/
def decodeBlob (bs : Bytes) : Except DecodeError (Bytes × Nat) :=
  match bs with
  | [] => .error (.unexpectedEof 1 0)
  | first :: rest =>
    if first = 255 then .error (.invalidLengthPrefix first)
    else if first = longMarker then
      match rest with
      | a :: b :: c :: _ => decodeBlobBody bs 4 (Bytes.ofLE [a, b, c])
      | _ => .error (.unexpectedEof 4 bs.length)
    else decodeBlobBody bs 1 first.toNat

end Mtproto.Wire
