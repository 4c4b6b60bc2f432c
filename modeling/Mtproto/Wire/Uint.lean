import Mtproto.Bytes
import Mtproto.Error

/-!
# Integers of a fixed width

An integer on the wire takes 24, 32, 64 or 128 bits, least significant byte first.
-/

namespace Mtproto.Wire

/-- The widths, in bits, that an integer can have. -/
def widths : List Nat := [24, 32, 64, 128]

/-- The bytes of a number in a field of `bits` bits. -/
def encodeUint (value bits : Nat) : Except DecodeError Bytes :=
  if bits ∉ widths then .error (.invalidValue (.width bits))
  else if 1 <<< bits ≤ value then .error (.overflow value bits)
  else .ok (Bytes.le (bits / 8) value)

/-- The number written in up to 16 bytes. -/
def decodeUint (bs : Bytes) : Except DecodeError Nat :=
  if 16 < bs.length then .error (.overflow ((1 <<< 128) - 1) 128) else .ok (Bytes.ofLE bs)

/-- The three bytes of a 24-bit number. -/
def encodeUint24 (value : UInt32) : Except DecodeError (Octets 3) :=
  if 0xFFFFFF < value then .error (.overflow value.toNat 24) else .ok (Octets.le 3 value.toNat)

/-- The number written in three bytes. -/
def decodeUint24 (bs : Octets 3) : UInt32 :=
  UInt32.ofNat (Bytes.ofLE bs.bytes)

end Mtproto.Wire
