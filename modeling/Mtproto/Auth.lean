import Mtproto.Hash.Sha1
import Mtproto.Text.Hex

/-!
# Authorization keys

The secret that both sides hold after the key exchange, and what is derived from it: its
identifier, which every encrypted message carries, the hash that confirms it, and the cipher
keys of single messages.
-/

namespace Mtproto

/-! ## 1. The key -/

/-- An authorization key. -/
structure AuthKey where
  octets : Octets 256
deriving DecidableEq

namespace AuthKey

/-- The low 64 bits of the digest of a key name it. -/
def id (key : AuthKey) : UInt64 :=
  sha1Word key.octets.bytes

/-- The high 64 bits of the digest of a key go into the hash that confirms it. -/
def auxHash (key : AuthKey) : Octets 8 :=
  (sha1 key.octets.bytes).slice 0 8

/-- A key as shown to people: its identifier, nothing else. -/
def shown (key : AuthKey) : String :=
  "AuthKey \x7b id: " ++ Text.hexWord 16 key.id.toNat ++ ", .. \x7d"

end AuthKey

/-- What a key exchange leads to. -/
structure Authorization where
  key : AuthKey
  serverSalt : UInt64
  sessionId : UInt64
  /-- The server's clock less ours, in seconds. -/
  timeOffset : Int64
deriving DecidableEq

/-! ## 2. Cipher keys -/

/-- A cipher key and an initialization vector. -/
structure CipherKey where
  key : Octets 32
  iv : Octets 32
deriving DecidableEq

/-- Which side has produced a message. -/
inductive Direction where
  | clientToServer
  | serverToClient
deriving DecidableEq, Repr

/-- The place in the authorization key from which a direction takes its material. -/
def Direction.offset : Direction → Nat
  | clientToServer => 0
  | serverToClient => 8

theorem Direction.offset_le (d : Direction) : d.offset ≤ 8 := by
  cases d <;> decide

/-- The cipher key that protects the parameters of the key exchange. -/
def exchangeCipherKey (serverNonce : Octets 16) (newNonce : Octets 32) : CipherKey :=
  let ns := sha1 (newNonce.bytes ++ serverNonce.bytes)
  let sn := sha1 (serverNonce.bytes ++ newNonce.bytes)
  let nn := sha1 (newNonce.bytes ++ newNonce.bytes)
  { key := ns ++ sn.slice 0 12
    iv := sn.slice 12 8 ++ nn ++ newNonce.slice 0 4 }

/-- The message key of a text: the last 16 bytes of its digest. -/
def messageKey (plain : Bytes) : Octets 16 :=
  (sha1 plain).slice 4 16

/-- The cipher key of the message with a given message key. -/
def messageCipherKey (key : AuthKey) (msgKey : Octets 16) (d : Direction) : CipherKey :=
  let window (start len : Nat) (h : start + len + 8 ≤ 256 := by decide) : Bytes :=
    (key.octets.slice (d.offset + start) len (by have := d.offset_le; omega)).bytes
  let a := sha1 (msgKey.bytes ++ window 0 32)
  let b := sha1 (window 32 16 ++ msgKey.bytes ++ window 48 16)
  let c := sha1 (window 64 32 ++ msgKey.bytes)
  let e := sha1 (msgKey.bytes ++ window 96 32)
  { key := a.slice 0 8 ++ b.slice 8 12 ++ c.slice 4 12
    iv := a.slice 8 12 ++ b.slice 0 8 ++ c.slice 16 4 ++ e.slice 0 8 }

/-- The hash that confirms a new authorization key; `n` tells acceptance and the two refusals
apart. -/
def newNonceHash (newNonce : Octets 32) (n : UInt8) (auxHash : Octets 8) : Octets 16 :=
  (sha1 (newNonce.bytes ++ n :: auxHash.bytes)).slice 4 16

end Mtproto
