import Mtproto.Cipher.Aes
import Mtproto.Hash.Sha1
import Mtproto.Entropy

/-!
# Infinite garble extension

A chaining mode in which every block depends on the plain block and on the cipher block
before it:

    c[i] = E (p[i] xor c[i-1]) xor p[i-1]
    p[i] = D (c[i] xor p[i-1]) xor c[i-1]

The initialization vector is two blocks long: `c[-1]` and then `p[-1]`.  The two blocks last
seen are kept from one call to the next, so data may be processed in pieces of whole blocks.
-/

namespace Mtproto

/-! ## 1. Chaining -/

/-- The cipher block and the plain block last seen. -/
structure IgeChain (n : Nat) where
  cipher : Octets n
  plain : Octets n
deriving DecidableEq

namespace IgeChain

variable {n : Nat}

/-- Encrypt the next block. -/
def encryptBlock (c : BlockCipher n) (p : Octets n) : StateM (IgeChain n) (Octets n) :=
  fun s =>
    let out := c.encrypt (p ^^^ s.cipher) ^^^ s.plain
    (out, ⟨out, p⟩)

/-- Decrypt the next block. -/
def decryptBlock (c : BlockCipher n) (b : Octets n) : StateM (IgeChain n) (Octets n) :=
  fun s =>
    let out := c.decrypt (b ^^^ s.plain) ^^^ s.cipher
    (out, ⟨b, out⟩)

end IgeChain

/-- A block cipher chained from an initialization vector. -/
structure Ige (n : Nat) where
  cipher : BlockCipher n
  chain : IgeChain n

namespace Ige

variable {n : Nat}

/-- Start from an initialization vector of two blocks. -/
def start (cipher : BlockCipher n) (iv : Bytes) : Except Error (Ige n) :=
  match Octets.ofBytes? n (iv.take n), Octets.ofBytes? n (iv.drop n) with
  | some c, some p => .ok ⟨cipher, ⟨c, p⟩⟩
  | _, _ => .error (.crypto (.ivLength (2 * n) iv.length))

/-- Process whole blocks, one after the other. -/
def process (g : Ige n) (block : Octets n → StateM (IgeChain n) (Octets n)) (data : Bytes) :
    Except Error (Bytes × Ige n) :=
  if data.length % n ≠ 0 then .error (.crypto (.notWholeBlocks data.length n))
  else
    let (out, chain) := ((Octets.blocks n data).mapM block).run g.chain
    .ok (Octets.join out, { g with chain })

/-- Encrypt whole blocks. -/
def encrypt (g : Ige n) (data : Bytes) : Except Error (Bytes × Ige n) :=
  g.process (IgeChain.encryptBlock g.cipher) data

/-- Decrypt whole blocks. -/
def decrypt (g : Ige n) (data : Bytes) : Except Error (Bytes × Ige n) :=
  g.process (IgeChain.decryptBlock g.cipher) data

/-! ## 2. AES-256 in one call -/

/-- AES-256 under a key, chained from an initialization vector. -/
def aes256 (key iv : Bytes) : Except Error (Ige 16) :=
  match Octets.ofBytes? 32 key with
  | none => .error (.crypto (.keyLength key.length))
  | some key => start (Aes.aes256 key) iv

/-- Encrypt whole blocks with AES-256. -/
def aes256Encrypt (key iv data : Bytes) : Except Error Bytes := do
  return (← (← aes256 key iv).encrypt data).1

/-- Decrypt whole blocks with AES-256. -/
def aes256Decrypt (key iv data : Bytes) : Except Error Bytes := do
  return (← (← aes256 key iv).decrypt data).1

/-! ## 3. A digest in front -/

/-- The length of the digest in front. -/
def hashLength : Nat := 20

/-- How many random bytes fill `len` bytes behind a digest up to a whole block. -/
def hashPadding (len : Nat) : Nat :=
  paddingFor (hashLength + len) 16

/-- Encrypt the digest of a text, the text, and random bytes up to a whole block. -/
def encryptWithHash (key iv plain : Bytes) : Draw (Except Error Bytes) := do
  let padding ← Draw.bytes (hashPadding plain.length)
  return aes256Encrypt key iv ((sha1 plain).bytes ++ (plain ++ padding))

/-- Decrypt into what follows the digest, padding included, and the digest.  Whether the
digest is right is for the caller to say, who knows where the text ends. -/
def decryptWithHash (key iv data : Bytes) : Except Error (Bytes × Bytes) :=
  if data.length < hashLength then .error (.crypto (.answerTooShort data.length))
  else do
    let plain ← aes256Decrypt key iv data
    return (plain.drop hashLength, plain.take hashLength)

end Ige

end Mtproto
