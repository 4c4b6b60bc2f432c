import Mtproto.Error
import Mtproto.Fault
import Mtproto.Gzip.Crc32
import Mtproto.Gzip.Receiver

/-!
# A gzip member

A member is a header, compressed data, and a trailer with the check and the length of what
the data inflate to.  Bytes after the trailer are not looked at.

Inflating is limited: `unpack` gives the data only if there are at most `limit` bytes of it.
Output is handed over in order, so the limit is exceeded as soon as one byte more has been
handed over, whatever follows.  If the data end too early, all that has come out is handed
over; if they turn out to be damaged, some of it is not (`handsOver`).
-/

namespace Mtproto.Gzip

/-! ## 1. The header -/

/-- The most bytes that a name may have. -/
def maxNameLength : Nat := 65535

/-- Drop the bytes up to and including the first zero byte, if it comes after at most `room`
others. -/
def dropNameWithin : (room : Nat) → Bytes → Option Bytes
  | _, [] => none
  | room, b :: bs =>
    if b = 0 then some bs
    else match room with
      | 0 => none
      | room + 1 => dropNameWithin room bs

/-- Drop a name. -/
def dropName : Bytes → Option Bytes := dropNameWithin maxNameLength

/-- Drop a field with a length of two bytes in front. -/
def dropField : Bytes → Option Bytes
  | a :: b :: bs =>
    let length := Bytes.ofLE [a, b]
    if (bs.take length).length < length then none else some (bs.drop length)
  | _ => none

/-- Check and drop the check of the header, the low half of the check of the bytes before
it. -/
def dropHeaderCheck (packed : Bytes) : Bytes → Option Bytes
  | a :: b :: bs =>
    let header := packed.take (packed.length - (bs.length + 2))
    if Bytes.ofLE [a, b] = (crc32 header).toNat % UInt16.size then some bs else none
  | _ => none

/-- The compressed data and what follows, if the header is one.  The flags say which optional
fields it has; the three highest must not be set. -/
def dropHeader (packed : Bytes) : Option Bytes :=
  match packed with
  | 0x1f :: 0x8b :: 8 :: flags :: _ :: _ :: _ :: _ :: _ :: _ :: bs => do
    if flags &&& 0xE0 ≠ 0 then none
    let bs ← if flags &&& 0x04 ≠ 0 then dropField bs else some bs
    let bs ← if flags &&& 0x08 ≠ 0 then dropName bs else some bs
    let bs ← if flags &&& 0x10 ≠ 0 then dropName bs else some bs
    if flags &&& 0x02 ≠ 0 then dropHeaderCheck packed bs else some bs
  | _ => none

/-- How many bytes at the front of a member are not read in pieces.  A field that goes on for
a whole piece after the first one is read at once, and the pieces start after it. -/
def readAtOnce : Bytes → Nat
  | _ :: _ :: _ :: flags :: _ :: _ :: _ :: _ :: _ :: _ :: a :: b :: _ =>
    let fieldEnd := 12 + Bytes.ofLE [a, b]
    if flags &&& 0x04 ≠ 0 ∧ 2 * pieceLength ≤ fieldEnd then fieldEnd else 0
  | _ => 0

/-! ## 2. Unpacking -/

/-- The trailer agrees with the data. -/
def trailerAgrees (data trailer : Bytes) : Bool :=
  (trailer.take 8).length = 8 &&
    Bytes.ofLE (trailer.take 4) = (crc32 data).toNat &&
    Bytes.ofLE ((trailer.drop 4).take 4) = data.length % UInt32.size

/-- The data of a member, if there are at most `limit` bytes of it. -/
def unpack (packed : Bytes) (limit : Nat) : Except DecodeError Bytes :=
  match dropHeader packed with
  | none => .error .compressed
  | some body =>
    let stop := limit + windowLength
    let (out, halt, trailer) := inflate stop body
    let exceeded := match halt with
      | .damaged _ =>
        let ahead := packed.length - body.length - readAtOnce packed
        limit < out.size && handsOver limit (inflatePauses ahead stop body)
      | .complete | .truncated | .stopped => limit < out.size
    if exceeded then .error (.invalidValue (.inflatesPast limit))
    else
      let data := out.toList
      if halt = .complete ∧ trailerAgrees data trailer then .ok data
      else .error .compressed

/-- The same for any limit: one byte more than the limit has to be countable. -/
def checkedUnpack (packed : Bytes) (limit : Nat) : Except Fault (Except DecodeError Bytes) :=
  if UInt64.size ≤ limit + 1 then .error .oversized else .ok (unpack packed limit)

end Mtproto.Gzip
