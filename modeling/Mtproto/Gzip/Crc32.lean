import Mtproto.Bytes

/-!
# The cyclic redundancy check of a gzip member

The remainder, with respect to the reflected polynomial of the format, of the bytes read as
one long polynomial; computed a byte at a time from a table of the remainders of single
bytes.
-/

namespace Mtproto.Gzip

/-- The polynomial of the check, least significant power first. -/
def crcPolynomial : UInt32 := 0xEDB88320

/-- Divide by the polynomial, one power at a time. -/
def crcShift : (steps : Nat) → UInt32 → UInt32
  | 0, r => r
  | n + 1, r => crcShift n (if r &&& 1 = 1 then (r >>> 1) ^^^ crcPolynomial else r >>> 1)

/-- The remainders of the 256 bytes. -/
def crcTable : Array UInt32 :=
  Array.ofFn fun i : Fin 256 => crcShift 8 (UInt32.ofNat i)

/-- Take one more byte into a remainder. -/
def crcStep (r : UInt32) (b : UInt8) : UInt32 :=
  crcTable.getD ((r.toUInt8 ^^^ b).toNat) 0 ^^^ (r >>> 8)

/-- The check of a byte string. -/
def crc32 (bs : Bytes) : UInt32 :=
  bs.foldl crcStep 0xFFFFFFFF ^^^ 0xFFFFFFFF

end Mtproto.Gzip
