import Mtproto.Auth
import Mtproto.Cipher.Ige
import Mtproto.Wire.Reader

/-!
# Envelopes

A message travels in one of two envelopes.  During the key exchange it is a plain one:

    zero (8) | message id (8) | length (4) | payload

After it, the envelope is encrypted under the authorization key:

    key id (8) | message key (16) | IGE of
      salt (8) | session (8) | message id (8) | sequence number (4) | length (4) | payload
      | padding up to a whole block

The message key is made from the text without the padding, and the cipher key from the
message key, so whoever opens an envelope can tell whether it was sealed with the same
authorization key.
-/

namespace Mtproto

open Wire

/-- The first eight bytes of an envelope, if it has that many. -/
def envelopeKeyId? : Bytes → Option UInt64
  | a :: b :: c :: d :: e :: f :: g :: h :: _ =>
    some (UInt64.ofNat (Bytes.ofLE [a, b, c, d, e, f, g, h]))
  | _ => none

/-- A length as a 32-bit word. -/
def lengthWord (payload : Bytes) : Except DecodeError UInt32 :=
  if payload.length < UInt32.size then .ok (UInt32.ofNat payload.length)
  else .error (.overflow payload.length 32)

/-! ## 1. Encrypted envelopes -/

/-- What an encrypted envelope holds. -/
structure Envelope where
  salt : UInt64
  sessionId : UInt64
  msgId : UInt64
  seqNo : UInt32
  payload : Bytes
deriving DecidableEq, Repr

namespace Envelope

/-- Bytes in front of the encrypted part. -/
def outerHeader : Nat := 24

/-- Bytes of the encrypted part in front of the payload. -/
def innerHeader : Nat := 32

/-- Width of a cipher block. -/
def block : Nat := 16

/-- The text that is encrypted, without its padding. -/
def plainText (env : Envelope) : Except DecodeError Bytes := do
  let length ← lengthWord env.payload
  let w := (((Writer.empty.word64 env.salt).word64 env.sessionId).word64 env.msgId).word32
    env.seqNo
  ((w.word32 length).raw env.payload).finish

/-- How many bytes of padding the text needs. -/
def padding (plain : Bytes) : Nat :=
  paddingFor plain.length block

/-- Encrypt a text with given padding. -/
def sealText (key : AuthKey) (d : Direction) (plain padding : Bytes) : Except Error Bytes := do
  let msgKey := messageKey plain
  let cipherKey := messageCipherKey key msgKey d
  let encrypted ← Ige.aes256Encrypt cipherKey.key.bytes cipherKey.iv.bytes (plain ++ padding)
  return Bytes.le 8 key.id.toNat ++ (msgKey.bytes ++ encrypted)

/-- Seal an envelope under a key; the padding is random. -/
def encrypt (key : AuthKey) (d : Direction) (env : Envelope) : Draw (Except Error Bytes) := do
  match env.plainText with
  | .error e => return .error (.decode e)
  | .ok plain =>
    let padding ← Draw.bytes (padding plain)
    return sealText key d plain padding

/-- The fields of a decrypted text in front of the payload, and the announced length. -/
def readFields : Read (UInt64 × UInt64 × UInt64 × UInt32 × Nat) :=
  return (← Read.word64, ← Read.word64, ← Read.word64, ← Read.word32,
    (← Read.word32).toNat)

/-- What a decrypted text holds, if it is the one that the message key was made from. -/
def ofText (plain : Bytes) (msgKey : Octets 16) : Except Error Envelope := do
  let ((salt, sessionId, msgId, seqNo, length), r) := readFields (.ofBytes plain)
  DecodeError.lift r.check
  if r.remaining < length ∨ block ≤ r.remaining - length then throw .badMsgKey
  if messageKey (plain.take (innerHeader + length)) ≠ msgKey then throw .badMsgKey
  return { salt, sessionId, msgId, seqNo, payload := (Read.raw length r).1 }

/-- Open an envelope that was sealed under a key. -/
def decrypt (key : AuthKey) (d : Direction) (sealed : Bytes) : Except Error Envelope := do
  let length := sealed.length
  if length < outerHeader + innerHeader ∨ (length - outerHeader) % block ≠ 0 then
    throw (.crypto (.malformedEnvelope length))
  match envelopeKeyId? sealed, Octets.ofBytes? 16 ((sealed.drop 8).take 16) with
  | some keyId, some msgKey =>
    if keyId ≠ key.id then throw (.unknownAuthKeyId keyId)
    let cipherKey := messageCipherKey key msgKey d
    let plain ← Ige.aes256Decrypt cipherKey.key.bytes cipherKey.iv.bytes
      (sealed.drop outerHeader)
    ofText plain msgKey
  | _, _ => throw (.crypto (.malformedEnvelope length))

end Envelope

/-! ## 2. Plain envelopes -/

namespace PlainEnvelope

/-- Wrap a payload. -/
def wrap (msgId : UInt64) (payload : Bytes) : Except Error Bytes :=
  DecodeError.lift do
    let length ← lengthWord payload
    ((((Writer.empty.word64 0).word64 msgId).word32 length).raw payload).finish

/-- Unwrap into message id and payload. -/
def unwrap (raw : Bytes) : Except Error (UInt64 × Bytes) := do
  let fields : Read (UInt64 × UInt64 × Bytes) := do
    return (← Read.word64, ← Read.word64, ← Read.raw (← Read.word32).toNat)
  let ((keyId, msgId, payload), r) := fields (.ofBytes raw)
  DecodeError.lift r.finish
  if keyId ≠ 0 then throw (.unknownAuthKeyId keyId)
  return (msgId, payload)

end PlainEnvelope

end Mtproto
