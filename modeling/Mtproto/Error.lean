import Mtproto.Text.Hex
import Mtproto.Text.Utf8

/-!
# Errors

Two kinds of error, each an inductive type of causes; the wording is given once, by
`DecodeError.message` and `Error.message`.

* `DecodeError` is what reading and writing values can report;
* `Error` is what everything above the wire format can report.
-/

namespace Mtproto

/-! ## 1. Errors of the wire format -/

/-- Why a value that has the right shape is refused all the same. -/
inductive Refusal where
  /-- An integer of a width the wire format does not have. -/
  | width (bits : Nat)
  /-- A string that is not UTF-8. -/
  | text (fault : Text.Utf8Fault)
  /-- A container whose entries cannot fit into what is left of the buffer. -/
  | containerCount (count : Nat)
  /-- Compressed data that would grow past a limit. -/
  | inflatesPast (limit : Nat)
  /-- Compressed data inside compressed data. -/
  | nestedGzip
  /-- A container inside a container. -/
  | nestedContainer
  /-- A port number of more than 16 bits. -/
  | port (value : Nat)
  /-- A stored authorization key of the wrong length. -/
  | authKeyLength (length : Nat)
  /-- A factorization challenge that is empty or longer than a word. -/
  | challengeLength (length : Nat)
  /-- A reason given by the caller. -/
  | stated (reason : String)
deriving DecidableEq, Repr

/-- The wording of a refusal. -/
def Refusal.message : Refusal → String
  | width bits => s!"unsupported width {bits}"
  | text fault => fault.message
  | containerCount count => s!"container claims {count} messages"
  | inflatesPast limit => s!"gzip_packed inflates past {limit} bytes"
  | nestedGzip => "nested gzip_packed"
  | nestedContainer => "nested msg_container"
  | port value => s!"port {value}"
  | authKeyLength length => s!"auth key of {length} bytes"
  | challengeLength length => s!"pq of {length} bytes"
  | stated reason => reason

/-- What can go wrong in reading or writing a value. -/
inductive DecodeError where
  /-- Fewer bytes are left than the value needs. -/
  | unexpectedEof (needed remaining : Nat)
  /-- The first byte of a blob is the reserved one. -/
  | invalidLengthPrefix (byte : UInt8)
  /-- Bytes are left after the value. -/
  | trailingBytes (count : Nat)
  /-- No constructor has this tag. -/
  | unknownConstructor (tag : UInt32)
  /-- A number does not fit its field. -/
  | overflow (value bits : Nat)
  /-- Compressed data is damaged. -/
  | compressed
  /-- The value is one the protocol forbids. -/
  | invalidValue (refusal : Refusal)
deriving DecidableEq, Repr

/-- The wording of an error of the wire format. -/
def DecodeError.message : DecodeError → String
  | unexpectedEof needed remaining =>
    s!"unexpected end of buffer: needed {needed} bytes, {remaining} remaining"
  | invalidLengthPrefix byte => s!"invalid length prefix byte {Text.hexWord 2 byte.toNat}"
  | trailingBytes count => s!"{count} trailing bytes after decode"
  | unknownConstructor tag => s!"unknown constructor {Text.hexWord 8 tag.toNat}"
  | overflow value bits => s!"value {value} overflows {bits}-bit field"
  | compressed => "malformed gzip_packed payload"
  | invalidValue refusal => s!"invalid value: {refusal.message}"

/-! ## 2. Errors of the layers above -/

/-- What can go wrong on the connection. -/
inductive TransportError where
  /-- A frame that is not a whole number of words. -/
  | unaligned (length : Nat)
  /-- A frame whose length in words is no 32-bit number. -/
  | tooLarge (length : Nat)
  /-- A first byte that starts no frame. -/
  | lengthByte (byte : UInt8)
  /-- A frame longer than the reader accepts. -/
  | exceedsLimit (length limit : Nat)
  /-- A bare error code in place of a frame. -/
  | serverCode (code : Int32)
  /-- A failure of the medium, in its own words. -/
  | medium (text : String)
  /-- The session has stopped over a fault. -/
  | sessionFailed
deriving DecidableEq, Repr

/-- The wording of a transport error. -/
def TransportError.message : TransportError → String
  | unaligned length => s!"frame length {length} is not a multiple of 4"
  | tooLarge length => s!"frame of {length} bytes is too large"
  | lengthByte byte => s!"unexpected length byte {Text.hexWord 2 byte.toNat}"
  | exceedsLimit length limit => s!"frame of {length} bytes exceeds limit of {limit}"
  | serverCode code => s!"server error code {code}"
  | medium text => text
  | sessionFailed => "session task failed"

/-- Input of the wrong size for a cryptographic operation. -/
inductive CryptoError where
  | ivLength (expected length : Nat)
  | notWholeBlocks (length block : Nat)
  | keyLength (length : Nat)
  | answerTooShort (length : Nat)
  | malformedEnvelope (length : Nat)
deriving DecidableEq, Repr

/-- The wording of a size error. -/
def CryptoError.message : CryptoError → String
  | ivLength expected length => s!"IGE IV must be {expected} bytes, got {length}"
  | notWholeBlocks length block =>
    s!"IGE input of {length} bytes is not a multiple of {block}"
  | keyLength length => s!"AES-256 key must be 32 bytes, got {length}"
  | answerTooShort length =>
    s!"encrypted answer of {length} bytes is shorter than its hash"
  | malformedEnvelope length => s!"encrypted envelope of {length} bytes is malformed"

/-- Why the binary form of a key is refused. -/
inductive DerError where
  | truncated
  | badLength
  | sequenceExpected
  | exponentExpected
  | bitStringExpected
  | unrecognised
deriving DecidableEq, Repr

/-- The wording of a refusal of the binary form of a key. -/
def DerError.message : DerError → String
  | truncated => "truncated"
  | badLength => "bad length"
  | sequenceExpected => "expected SEQUENCE"
  | exponentExpected => "expected exponent INTEGER"
  | bitStringExpected => "expected BIT STRING"
  | unrecognised => "unrecognised key structure"

/-- Why a configuration is refused. -/
inductive ConfigError where
  | addressEmpty
  | noKeys
  | queueCapacity
  | frameSize
  | malformed
  | keyText
  | keyDer (error : DerError)
deriving DecidableEq, Repr

/-- The wording of a refused configuration. -/
def ConfigError.message : ConfigError → String
  | addressEmpty => "server address is empty"
  | noKeys => "no server public key configured"
  | queueCapacity => "queue capacity must be positive"
  | frameSize => "max frame size must be positive"
  | malformed => "invalid client config"
  | keyText => "invalid PEM base64"
  | keyDer error => s!"invalid RSA key DER: {error.message}"

/-- What can go wrong above the wire format. -/
inductive Error where
  /-- Malformed wire data. -/
  | decode (error : DecodeError)
  /-- The connection failed. -/
  | transport (error : TransportError)
  /-- The peer closed the connection. -/
  | connectionClosed
  /-- A cryptographic operation was given input of the wrong size. -/
  | crypto (error : CryptoError)
  /-- The configuration is refused. -/
  | config (error : ConfigError)
  /-- An echoed nonce is not the one that was sent. -/
  | badNonce
  /-- An echoed server nonce is not the one the server chose. -/
  | badServerNonce
  /-- The hash that confirms the new nonce is wrong. -/
  | badNewNonceHash
  /-- The server offers no key that is trusted here. -/
  | fingerprintMismatch
  /-- The challenge could not be split into two factors. -/
  | factorizationFailed (pq : UInt64)
  /-- The Diffie-Hellman modulus is composite. -/
  | dhPrimeNotPrime
  /-- A Diffie-Hellman value is outside its range. -/
  | badDhValue
  /-- The digest in front of an encrypted answer is wrong. -/
  | hashMismatch
  /-- The server rejected the request for parameters. -/
  | dhParamsFail
  /-- The server asks for another Diffie-Hellman value. -/
  | dhGenRetry
  /-- The server gave up on the exchange. -/
  | dhGenFail
  /-- A command arrived in a state that does not expect it. -/
  | unexpectedCommand
  /-- The exchange has not ended yet. -/
  | exchangeNotFinished
  /-- A message names an authorization key other than ours. -/
  | unknownAuthKeyId (id : UInt64)
  /-- The message key does not match the decrypted text. -/
  | badMsgKey
  /-- A decrypted message belongs to another session. -/
  | sessionMismatch
  /-- A stored state has a version that is not read here. -/
  | unsupportedStateVersion (version : UInt32)
  /-- The session has ended and accepts no more work. -/
  | sessionClosed
deriving DecidableEq, Repr

/-- The wording of an error. -/
def Error.message : Error → String
  | decode error => s!"decode error: {error.message}"
  | transport error => s!"transport error: {error.message}"
  | connectionClosed => "connection closed"
  | crypto error => s!"crypto error: {error.message}"
  | config error => s!"configuration error: {error.message}"
  | badNonce => "bad nonce"
  | badServerNonce => "bad server nonce"
  | badNewNonceHash => "bad new nonce hash"
  | fingerprintMismatch => "fingerprint mismatch"
  | factorizationFailed pq => s!"failed to factorize pq {pq}"
  | dhPrimeNotPrime => "DHPrime not prime"
  | badDhValue => "DH value out of range"
  | hashMismatch => "hash mismatch in encrypted answer"
  | dhParamsFail => "server rejected DH params"
  | dhGenRetry => "server requested DH generation retry"
  | dhGenFail => "DH generation failed"
  | unexpectedCommand => "unexpected command"
  | exchangeNotFinished => "exchange not finished"
  | unknownAuthKeyId id => s!"unknown auth key ID {Text.hexWord 16 id.toNat}"
  | badMsgKey => "msg_key mismatch"
  | sessionMismatch => "session ID mismatch"
  | unsupportedStateVersion version =>
    s!"unsupported state version {Text.hexWord 8 version.toNat}"
  | sessionClosed => "session closed"

/-- An error of the wire format is an error of every layer above it. -/
def DecodeError.lift {α : Type} (r : Except DecodeError α) : Except Error α :=
  r.mapError .decode

end Mtproto
