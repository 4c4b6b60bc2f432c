import Mtproto.Bytes

/-!
# The digest

SHA-1: the message is extended to a whole number of blocks of 64 bytes, and the blocks are
taken one after the other into a chaining value of five words, whose bytes are the digest.
-/

namespace Mtproto

namespace Sha1

/-- The chaining value. -/
structure Chain where
  a : UInt32
  b : UInt32
  c : UInt32
  d : UInt32
  e : UInt32

/-- The chaining value before the first block. -/
def Chain.initial : Chain :=
  ⟨0x67452301, 0xEFCDAB89, 0x98BADCFE, 0x10325476, 0xC3D2E1F0⟩

/-- Rotate a word to the left. -/
def rotate (w : UInt32) (n : UInt32) : UInt32 :=
  (w <<< n) ||| (w >>> (32 - n))

/-- The bytes of a word, most significant first. -/
def wordBytes (w : UInt32) : Bytes :=
  [(w >>> 24).toUInt8, (w >>> 16).toUInt8, (w >>> 8).toUInt8, w.toUInt8]

/-- The words of a block, most significant byte first. -/
def words : Bytes → Array UInt32 → Array UInt32
  | a :: b :: c :: d :: bs, ws =>
    words bs (ws.push ((a.toUInt32 <<< 24) ||| (b.toUInt32 <<< 16) ||| (c.toUInt32 <<< 8)
      ||| d.toUInt32))
  | _, ws => ws

/-- Extend the sixteen words of a block by `n` more: each is made from four earlier ones. -/
def schedule : (n : Nat) → Array UInt32 → Array UInt32
  | 0, ws => ws
  | n + 1, ws =>
    let t := ws.size
    let w := ws.getD (t - 3) 0 ^^^ ws.getD (t - 8) 0 ^^^ ws.getD (t - 14) 0
      ^^^ ws.getD (t - 16) 0
    schedule n (ws.push (rotate w 1))

/-- The constant of a round. -/
def roundConstant (t : Nat) : UInt32 :=
  if t < 20 then 0x5A827999 else if t < 40 then 0x6ED9EBA1
  else if t < 60 then 0x8F1BBCDC else 0xCA62C1D6

/-- The function of a round: a choice, a parity or a majority of three words. -/
def roundFunction (t : Nat) (b c d : UInt32) : UInt32 :=
  if t < 20 then (b &&& c) ||| (~~~b &&& d)
  else if t < 40 then b ^^^ c ^^^ d
  else if t < 60 then (b &&& c) ||| (b &&& d) ||| (c &&& d)
  else b ^^^ c ^^^ d

/-- Rounds from `t` on, `n` of them. -/
def rounds (ws : Array UInt32) : (n t : Nat) → (a b c d e : UInt32) → Chain
  | 0, _, a, b, c, d, e => ⟨a, b, c, d, e⟩
  | n + 1, t, a, b, c, d, e =>
    let f := rotate a 5 + roundFunction t b c d + e + roundConstant t + ws.getD t 0
    rounds ws n (t + 1) f a (rotate b 30) c d

/-- Take a block into the chaining value. -/
def compress (h : Chain) (block : Bytes) : Chain :=
  let ws := schedule 64 (words block (Array.mkEmpty 80))
  let r := rounds ws 80 0 h.a h.b h.c h.d h.e
  ⟨h.a + r.a, h.b + r.b, h.c + r.c, h.d + r.d, h.e + r.e⟩

/-- Take `n` blocks into the chaining value. -/
def absorb (h : Chain) : (n : Nat) → Bytes → Chain
  | 0, _ => h
  | n + 1, bs => absorb (compress h (bs.take 64)) n (bs.drop 64)

/-- What follows a message of `len` bytes: the byte 80, zero bytes, and the length in bits,
so that everything together is a whole number of blocks. -/
def padding (len : Nat) : Bytes :=
  0x80 :: (List.replicate ((119 - len % 64) % 64) 0 ++ (Bytes.le 8 (8 * len)).reverse)

/-- The bytes of a chaining value. -/
def Chain.bytes (h : Chain) : Bytes :=
  wordBytes h.a ++ wordBytes h.b ++ wordBytes h.c ++ wordBytes h.d ++ wordBytes h.e

end Sha1

/-- The digest of a message. -/
def sha1 (message : Bytes) : Octets 20 :=
  let len := message.length
  let padding := Sha1.padding len
  let h := Sha1.absorb .initial ((len + padding.length) / 64) (message ++ padding)
  ⟨h.bytes, rfl⟩

/-- The low 64 bits of the digest, which keys are named by. -/
def sha1Word (bs : Bytes) : UInt64 :=
  UInt64.ofNat (Bytes.ofLE ((sha1 bs).bytes.drop 12))

end Mtproto
