import Mtproto.Fault

/-!
# Byte strings

Everything the protocol signs, hashes, encrypts or sends is a list of bytes.

* `Bytes` is such a list; `Octets n` is one whose length is known to be `n`, which is what
  nonces, digests, keys and cipher blocks are;
* `le` and `ofLE` write and read a number least significant byte first, the order of every
  word on the wire;
* `magnitude` and `ofBE` write and read a number most significant byte first, the order of
  every big integer.  `magnitude` has no leading zero, so zero is the empty string.
-/

namespace Mtproto

/-- A string of bytes. -/
abbrev Bytes := List UInt8

/-! ## 1. Numbers as bytes -/

namespace Bytes

/-- The low `k` bytes of a number, least significant first. -/
def le : (k : Nat) → Nat → Bytes
  | 0, _ => []
  | k + 1, n => UInt8.ofNat n :: le k (n / 256)

/-- The number whose bytes these are, least significant first. -/
def ofLE : Bytes → Nat
  | [] => 0
  | b :: bs => b.toNat + 256 * ofLE bs

/-- The number whose bytes these are, most significant first. -/
def ofBE (bs : Bytes) : Nat :=
  bs.foldl (fun n b => n * 256 + b.toNat) 0

/-- Prepend the bytes of a number, most significant first and without a leading zero. -/
def magnitudeAux (n : Nat) (tail : Bytes) : Bytes :=
  if n = 0 then tail else magnitudeAux (n / 256) (UInt8.ofNat n :: tail)
termination_by n
decreasing_by omega

/-- The bytes of a number, most significant first and without a leading zero. -/
def magnitude (n : Nat) : Bytes :=
  magnitudeAux n []

/-- The bytes of a number, most significant first.  Zero is one zero byte. -/
def ofNat (n : Nat) : Bytes :=
  if n = 0 then [0] else magnitude n

/-- The bytes of a number, most significant first, with zero bytes in front up to `width`.
A number that is wider keeps all its bytes. -/
def ofNatPadded (n width : Nat) : Bytes :=
  let bs := ofNat n
  List.replicate (width - bs.length) 0 ++ bs

/-- The most bytes that a buffer can hold. -/
def maxBufferLength : Nat := (1 <<< 63) - 1

/-- The same for any width: the zero bytes have to fit into a buffer. -/
def checkedOfNatPadded (n width : Nat) : Except Fault Bytes :=
  if maxBufferLength < width - (ofNat n).length then .error .oversized
  else .ok (ofNatPadded n width)

/-- Bytes combined one by one with exclusive or, up to the end of the shorter string. -/
def xor (a b : Bytes) : Bytes :=
  List.zipWith (· ^^^ ·) a b

@[simp] theorem length_le (k n : Nat) : (le k n).length = k := by
  induction k generalizing n <;> simp [le, *]

end Bytes

/-! ## 2. Strings of a fixed length -/

/-- A byte string of exactly `n` bytes. -/
structure Octets (n : Nat) where
  bytes : Bytes
  length_bytes : bytes.length = n
deriving DecidableEq

namespace Octets

variable {m n : Nat}

attribute [simp] length_bytes

@[ext] theorem ext {a b : Octets n} (h : a.bytes = b.bytes) : a = b := by
  cases a; cases b; cases h; rfl

/-- The bytes, if there are exactly `n` of them. -/
def ofBytes? (n : Nat) (bs : Bytes) : Option (Octets n) :=
  if h : bs.length = n then some ⟨bs, h⟩ else none

/-- `n` zero bytes. -/
def zero (n : Nat) : Octets n :=
  ⟨List.replicate n 0, by simp⟩

instance : Inhabited (Octets n) := ⟨zero n⟩

/-- One string after the other. -/
def append (a : Octets m) (b : Octets n) : Octets (m + n) :=
  ⟨a.bytes ++ b.bytes, by simp⟩

instance : HAppend (Octets m) (Octets n) (Octets (m + n)) := ⟨append⟩

/-- The `len` bytes that start at position `start`. -/
def slice (a : Octets n) (start len : Nat) (h : start + len ≤ n := by decide) : Octets len :=
  ⟨(a.bytes.drop start).take len, by simp; omega⟩

/-- Two strings combined byte by byte with exclusive or. -/
def xor (a b : Octets n) : Octets n :=
  ⟨Bytes.xor a.bytes b.bytes, by simp [Bytes.xor]⟩

instance : XorOp (Octets n) := ⟨xor⟩

/-- The low `n` bytes of a number, least significant first. -/
def le (n k : Nat) : Octets n :=
  ⟨Bytes.le n k, by simp⟩

end Octets

/-! ## 3. Alignment -/

/-- The bytes missing from `len` to the next multiple of `align`. -/
def paddingFor (len align : Nat) : Nat :=
  (align - len % align) % align

/-- The same for any alignment: there is no multiple of zero to go to. -/
def checkedPadding (len align : Nat) : Except Fault Nat :=
  if align = 0 then .error .zeroAlignment else .ok (paddingFor len align)

end Mtproto
