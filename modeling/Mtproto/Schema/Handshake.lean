import Mtproto.Wire.Boxed

/-!
# Messages of the key exchange

The client sends `ReqPq`, `ReqDhParams` and `SetClientDhParams`; the server answers with one
of the `HandshakeResponse`s.  `PqInnerData`, `ServerDhInnerData` and `ClientDhInnerData`
travel encrypted inside them.
-/

namespace Mtproto

open Wire

/-- A 16-byte value: the nonces of both sides and the hashes that confirm a key. -/
abbrev Nonce := Octets 16

/-- The secret nonce that the client tells the server. -/
abbrev NewNonce := Octets 32

/-! ## 1. Requests and their answers -/

/-- The client opens the exchange. -/
structure ReqPq where
  nonce : Nonce
deriving DecidableEq

instance : Tagged ReqPq where
  tag := 0x60469778
  write w v := w.octets v.nonce
  read := return { nonce := ← Read.octets 16 }

/-- The server sets a number to factorize and says which keys it has. -/
structure ResPq where
  nonce : Nonce
  serverNonce : Nonce
  pq : Bytes
  fingerprints : List UInt64
deriving DecidableEq

instance : Tagged ResPq where
  tag := 0x05162463
  write w v :=
    (((w.octets v.nonce).octets v.serverNonce).blob v.pq).vector v.fingerprints Writer.word64
  read := return {
    nonce := ← Read.octets 16
    serverNonce := ← Read.octets 16
    pq := ← Read.blob
    fingerprints := ← Read.vector Read.word64 }

/-- What the client tells the server under the server's public key. -/
structure PqInnerData where
  pq : Bytes
  p : Bytes
  q : Bytes
  nonce : Nonce
  serverNonce : Nonce
  newNonce : NewNonce
deriving DecidableEq

instance : Tagged PqInnerData where
  tag := 0x83c95aec
  write w v :=
    (((((w.blob v.pq).blob v.p).blob v.q).octets v.nonce).octets v.serverNonce).octets
      v.newNonce
  read := return {
    pq := ← Read.blob
    p := ← Read.blob
    q := ← Read.blob
    nonce := ← Read.octets 16
    serverNonce := ← Read.octets 16
    newNonce := ← Read.octets 32 }

/-- The client answers the factorization and asks for Diffie-Hellman parameters. -/
structure ReqDhParams where
  nonce : Nonce
  serverNonce : Nonce
  p : Bytes
  q : Bytes
  publicKeyFingerprint : UInt64
  encryptedData : Bytes
deriving DecidableEq

instance : Tagged ReqDhParams where
  tag := 0xd712e4be
  write w v :=
    (((((w.octets v.nonce).octets v.serverNonce).blob v.p).blob v.q).word64
      v.publicKeyFingerprint).blob v.encryptedData
  read := return {
    nonce := ← Read.octets 16
    serverNonce := ← Read.octets 16
    p := ← Read.blob
    q := ← Read.blob
    publicKeyFingerprint := ← Read.word64
    encryptedData := ← Read.blob }

/-- The server sends its parameters, encrypted. -/
structure ServerDhParamsOk where
  nonce : Nonce
  serverNonce : Nonce
  encryptedAnswer : Bytes
deriving DecidableEq

instance : Tagged ServerDhParamsOk where
  tag := 0xd0e8075c
  write w v := ((w.octets v.nonce).octets v.serverNonce).blob v.encryptedAnswer
  read := return {
    nonce := ← Read.octets 16
    serverNonce := ← Read.octets 16
    encryptedAnswer := ← Read.blob }

/-- The server refuses to send parameters. -/
structure ServerDhParamsFail where
  nonce : Nonce
  serverNonce : Nonce
  newNonceHash : Nonce
deriving DecidableEq

instance : Tagged ServerDhParamsFail where
  tag := 0x79cb045d
  write w v := ((w.octets v.nonce).octets v.serverNonce).octets v.newNonceHash
  read := return {
    nonce := ← Read.octets 16
    serverNonce := ← Read.octets 16
    newNonceHash := ← Read.octets 16 }

/-- The server's Diffie-Hellman parameters. -/
structure ServerDhInnerData where
  nonce : Nonce
  serverNonce : Nonce
  g : Int32
  dhPrime : Bytes
  gA : Bytes
  serverTime : Int32
deriving DecidableEq

instance : Tagged ServerDhInnerData where
  tag := 0xb5890dba
  write w v :=
    (((((w.octets v.nonce).octets v.serverNonce).int32 v.g).blob v.dhPrime).blob v.gA).int32
      v.serverTime
  read := return {
    nonce := ← Read.octets 16
    serverNonce := ← Read.octets 16
    g := ← Read.int32
    dhPrime := ← Read.blob
    gA := ← Read.blob
    serverTime := ← Read.int32 }

/-- The client's half of the Diffie-Hellman exchange. -/
structure ClientDhInnerData where
  nonce : Nonce
  serverNonce : Nonce
  retryId : UInt64
  gB : Bytes
deriving DecidableEq

instance : Tagged ClientDhInnerData where
  tag := 0x6643b654
  write w v :=
    (((w.octets v.nonce).octets v.serverNonce).word64 v.retryId).blob v.gB
  read := return {
    nonce := ← Read.octets 16
    serverNonce := ← Read.octets 16
    retryId := ← Read.word64
    gB := ← Read.blob }

/-- The client sends its half, encrypted. -/
structure SetClientDhParams where
  nonce : Nonce
  serverNonce : Nonce
  encryptedData : Bytes
deriving DecidableEq

instance : Tagged SetClientDhParams where
  tag := 0xf5045f1f
  write w v := ((w.octets v.nonce).octets v.serverNonce).blob v.encryptedData
  read := return {
    nonce := ← Read.octets 16
    serverNonce := ← Read.octets 16
    encryptedData := ← Read.blob }

/-- The body of the server's last answer, whether it accepts, wants another try or gives
up. -/
structure DhGenAnswer where
  nonce : Nonce
  serverNonce : Nonce
  newNonceHash : Nonce
deriving DecidableEq

instance : Bare DhGenAnswer where
  write w v := ((w.octets v.nonce).octets v.serverNonce).octets v.newNonceHash
  read := return {
    nonce := ← Read.octets 16
    serverNonce := ← Read.octets 16
    newNonceHash := ← Read.octets 16 }

/-! ## 2. The two families -/

/-- Tag of a last answer that accepts. -/
def dhGenOkTag : UInt32 := 0x3bcbf734

/-- Tag of a last answer that wants another try. -/
def dhGenRetryTag : UInt32 := 0x46dc1fb9

/-- Tag of a last answer that gives up. -/
def dhGenFailTag : UInt32 := 0xa69dae02

/-- Everything the server may send during the key exchange. -/
inductive HandshakeResponse where
  | resPq (v : ResPq)
  | serverDhParamsOk (v : ServerDhParamsOk)
  | serverDhParamsFail (v : ServerDhParamsFail)
  | dhGenOk (v : DhGenAnswer)
  | dhGenRetry (v : DhGenAnswer)
  | dhGenFail (v : DhGenAnswer)
deriving DecidableEq

namespace HandshakeResponse

/-- The tag of a response. -/
def tag : HandshakeResponse → UInt32
  | resPq _ => Tagged.tag ResPq
  | serverDhParamsOk _ => Tagged.tag ServerDhParamsOk
  | serverDhParamsFail _ => Tagged.tag ServerDhParamsFail
  | dhGenOk _ => dhGenOkTag
  | dhGenRetry _ => dhGenRetryTag
  | dhGenFail _ => dhGenFailTag

/-- Read the fields that belong to a tag. -/
def readFields (tag : UInt32) : Read (Option HandshakeResponse) := do
  if tag = Tagged.tag ResPq then return some (.resPq (← Bare.read))
  if tag = Tagged.tag ServerDhParamsOk then return some (.serverDhParamsOk (← Bare.read))
  if tag = Tagged.tag ServerDhParamsFail then return some (.serverDhParamsFail (← Bare.read))
  if tag = dhGenOkTag then return some (.dhGenOk (← Bare.read))
  if tag = dhGenRetryTag then return some (.dhGenRetry (← Bare.read))
  if tag = dhGenFailTag then return some (.dhGenFail (← Bare.read))
  return none

instance : Family HandshakeResponse := ⟨tag, readFields⟩

/-- Append the fields of a response. -/
def writeFields (w : Writer) : HandshakeResponse → Writer
  | resPq v => Bare.write w v
  | serverDhParamsOk v => Bare.write w v
  | serverDhParamsFail v => Bare.write w v
  | dhGenOk v | dhGenRetry v | dhGenFail v => Bare.write w v

/-- The bytes of a response, tag included. -/
def toBytes (v : HandshakeResponse) : Except DecodeError Bytes :=
  (writeFields (Writer.empty.word32 v.tag) v).finish

end HandshakeResponse

/-- Everything the client may send during the key exchange. -/
inductive HandshakeRequest where
  | reqPq (v : ReqPq)
  | reqDhParams (v : ReqDhParams)
  | setClientDhParams (v : SetClientDhParams)
deriving DecidableEq

namespace HandshakeRequest

/-- The tag of a request. -/
def tag : HandshakeRequest → UInt32
  | reqPq _ => Tagged.tag ReqPq
  | reqDhParams _ => Tagged.tag ReqDhParams
  | setClientDhParams _ => Tagged.tag SetClientDhParams

/-- Read the fields that belong to a tag. -/
def readFields (tag : UInt32) : Read (Option HandshakeRequest) := do
  if tag = Tagged.tag ReqPq then return some (.reqPq (← Bare.read))
  if tag = Tagged.tag ReqDhParams then return some (.reqDhParams (← Bare.read))
  if tag = Tagged.tag SetClientDhParams then return some (.setClientDhParams (← Bare.read))
  return none

instance : Family HandshakeRequest := ⟨tag, readFields⟩

end HandshakeRequest

end Mtproto
