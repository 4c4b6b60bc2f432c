import Mtproto.Error

/-!
# Block ciphers

A block cipher of width `n` turns a block of `n` bytes into another one and back.  Longer
data are processed block by block, so they have to be a whole number of blocks.
-/

namespace Mtproto

/-- A block cipher under one key. -/
structure BlockCipher (n : Nat) where
  encrypt : Octets n → Octets n
  decrypt : Octets n → Octets n

/-- Each direction undoes the other. -/
structure BlockCipher.Inverse {n : Nat} (c : BlockCipher n) : Prop where
  decrypt_encrypt : ∀ b, c.decrypt (c.encrypt b) = b
  encrypt_decrypt : ∀ b, c.encrypt (c.decrypt b) = b

namespace Octets

/-- Split off up to `count` blocks; `acc` holds those before them, the last one first. -/
def splitBlocks (n : Nat) : (count : Nat) → Bytes → List (Octets n) → List (Octets n)
  | 0, _, acc => acc.reverse
  | count + 1, bs, acc =>
    if h : (bs.take n).length = n then
      splitBlocks n count (bs.drop n) (⟨bs.take n, h⟩ :: acc)
    else acc.reverse

/-- The blocks of a byte string; bytes after the last whole block are left out. -/
def blocks (n : Nat) (bs : Bytes) : List (Octets n) :=
  splitBlocks n (bs.length / n) bs []

/-- The bytes of a list of blocks. -/
def join {n : Nat} (blocks : List (Octets n)) : Bytes :=
  (blocks.map (·.bytes)).flatten

end Octets

end Mtproto
