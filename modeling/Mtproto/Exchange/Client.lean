import Mtproto.Act
import Mtproto.Auth
import Mtproto.Cipher.Ige
import Mtproto.Clock
import Mtproto.Exchange.State
import Mtproto.Number.Factor
import Mtproto.Number.Primality
import Mtproto.Rsa.Key
import Mtproto.Schema.Handshake

/-!
# The client's side of the key exchange

Each of the three answers of the server is checked before the next request is formed: nonces
must be echoed, the key must be one that is trusted, digests must agree, the Diffie-Hellman
modulus must be a probable prime, and every Diffie-Hellman value must lie strictly between
one and the modulus less one.  The first check that fails ends the exchange; nothing is tried
again.
-/

namespace Mtproto

open Wire

/-- The client's side of a key exchange. -/
structure KeyExchange where
  state : ExchangeState := .init
  /-- The keys that are trusted. -/
  keys : List RsaKey
  nonce : Nonce := .zero 16
  serverNonce : Nonce := .zero 16
  newNonce : NewNonce := .zero 32
  /-- The result, from the moment it can be computed. -/
  pending : Option Authorization := none
  /-- Why the exchange has been given up. -/
  error : Option Error := none
deriving DecidableEq

namespace KeyExchange

/-! ## 1. State -/

/-- An exchange that trusts the given keys. -/
def new (keys : List RsaKey) : KeyExchange := { keys }

/-- There is a key. -/
def isDone (kx : KeyExchange) : Bool := kx.state = .done

/-- The key if there is one; otherwise why there is none. -/
def result (kx : KeyExchange) : Except Error Authorization :=
  match kx.state with
  | .done => match kx.pending with
    | some auth => .ok auth
    | none => .error .exchangeNotFinished
  | .failed => .error (kx.error.getD .exchangeNotFinished)
  | _ => .error .exchangeNotFinished

/-- The exchange given up. -/
def abandon (kx : KeyExchange) (e : Error) : KeyExchange :=
  { kx with state := .failed, pending := none, error := some e }

/-- Pass on to another state. -/
def transition (target : ExchangeState) : Act KeyExchange Unit := do
  if (← Act.state).state.canTransitionTo target then
    Act.update ({ · with state := target })
  else Act.fail .unexpectedCommand

/-- Both nonces have been echoed. -/
def checkNonces (kx : KeyExchange) (nonce serverNonce : Nonce) : Except Error Unit :=
  if nonce ≠ kx.nonce then .error .badNonce
  else if serverNonce ≠ kx.serverNonce then .error .badServerNonce
  else .ok ()

/-- A value strictly between one and the modulus less one. -/
def checkDhRange (value p : Nat) : Except Error Unit :=
  if value ≤ 1 ∨ p - 1 ≤ value then .error .badDhValue else .ok ()

/-- The first trusted key whose fingerprint is among those offered. -/
def trustedKey (kx : KeyExchange) (offered : List UInt64) : Option RsaKey :=
  kx.keys.find? fun k => offered.contains k.fingerprint

/-! ## 2. The opening -/

/-- Choose a nonce and open the exchange. -/
def start : Act KeyExchange Bytes := do
  if (← Act.state).state ≠ .init then Act.fail .unexpectedCommand
  let nonce ← Act.draw (Draw.octets 16)
  Act.update ({ · with nonce })
  let request ← Act.ofExcept (DecodeError.lift (boxedBytes (ReqPq.mk nonce)))
  transition .reqPq
  return request

/-! ## 3. The factorization -/

/-- The length of the block that is encrypted to the server's key. -/
def rsaDataLength : Nat := 255

/-- A body, the digest of it in front, and filler behind it, together one block. -/
def rsaBlock (body filler : Bytes) : Except DecodeError Bytes :=
  let hashed := (sha1 body).bytes ++ body
  if rsaDataLength < hashed.length then .error (.overflow hashed.length (rsaDataLength * 8))
  else .ok (hashed ++ filler.drop hashed.length)

/-- The challenge as a word: it has one to eight bytes. -/
def challenge (pq : Bytes) : Except DecodeError UInt64 :=
  if pq.isEmpty ∨ 8 < pq.length then .error (.invalidValue (.challengeLength pq.length))
  else .ok (UInt64.ofNat (Bytes.ofBE pq))

/-- Factorize the challenge and ask for the parameters. -/
def onResPq (res : ResPq) : Act KeyExchange Bytes := do
  let kx ← Act.state
  if res.nonce ≠ kx.nonce then Act.fail .badNonce
  let key ← match kx.trustedKey res.fingerprints with
    | some key => pure key
    | none => Act.fail .fingerprintMismatch
  Act.update ({ · with serverNonce := res.serverNonce })
  let pq ← Act.ofExcept (DecodeError.lift (challenge res.pq))
  let (p, q) ← Act.draw (Number.factorize pq)
  if p = 1 then Act.fail (.factorizationFailed pq)
  let newNonce ← Act.draw (Draw.octets 32)
  Act.update ({ · with newNonce })
  let p := Bytes.ofNat p.toNat
  let q := Bytes.ofNat q.toNat
  let inner : PqInnerData :=
    { pq := res.pq, p, q, nonce := kx.nonce, serverNonce := res.serverNonce, newNonce }
  let body ← Act.ofExcept (DecodeError.lift (boxedBytes inner))
  let filler ← Act.draw (Draw.bytes rsaDataLength)
  let block ← Act.ofExcept (DecodeError.lift (rsaBlock body filler))
  let encryptedData ← Act.ofFault (key.encrypt block)
  let request : ReqDhParams :=
    { nonce := kx.nonce, serverNonce := res.serverNonce, p, q,
      publicKeyFingerprint := key.fingerprint, encryptedData }
  let bytes ← Act.ofExcept (DecodeError.lift (boxedBytes request))
  transition .reqDhParams
  return bytes

/-! ## 4. Diffie-Hellman -/

/-- The length of the random exponent. -/
def exponentLength : Nat := 256

/-- What a decrypted answer holds: a boxed value whose digest is `hash`, and less than a
block of padding. -/
def answerOf (answer hash : Bytes) : Except Error ServerDhInnerData := do
  let (inner, r) := Read.exactBoxed ServerDhInnerData (.ofBytes answer)
  DecodeError.lift r.check
  if (sha1 r.consumed).bytes ≠ hash then throw .hashMismatch
  if 16 ≤ r.remaining then throw (.decode (.trailingBytes r.remaining))
  match inner with
  | some inner => return inner
  | none => throw (.decode (.unknownConstructor 0))

/-- The first salt: the start of one nonce, changed by the start of the other. -/
def firstSalt (newNonce : NewNonce) (serverNonce : Nonce) : UInt64 :=
  UInt64.ofNat (Bytes.ofLE (newNonce.slice 0 8 ^^^ serverNonce.slice 0 8).bytes)

/-- The shared secret as a key: 256 bytes. -/
def keyOf (secret : Nat) : Except Error AuthKey :=
  match Octets.ofBytes? 256 (Bytes.ofNatPadded secret 256) with
  | some octets => .ok ⟨octets⟩
  | none => .error .badDhValue

/-- Check the parameters, compute the key and send our half of the exchange. -/
def onDhParamsOk (now : Instant) (ok : ServerDhParamsOk) : Act KeyExchange Bytes := do
  let kx ← Act.state
  Act.ofExcept (kx.checkNonces ok.nonce ok.serverNonce)
  let cipher := exchangeCipherKey kx.serverNonce kx.newNonce
  let (answer, hash) ← Act.ofExcept
    (Ige.decryptWithHash cipher.key.bytes cipher.iv.bytes ok.encryptedAnswer)
  let inner ← Act.ofExcept (answerOf answer hash)
  Act.ofExcept (kx.checkNonces inner.nonce inner.serverNonce)
  let prime := Bytes.ofBE inner.dhPrime
  if !(← Act.draw (Number.isProbablePrime prime 32)) then Act.fail .dhPrimeNotPrime
  if inner.g < 0 then Act.fail .badDhValue
  let g := inner.g.toInt.toNat
  let gA := Bytes.ofBE inner.gA
  Act.ofExcept (checkDhRange g prime)
  Act.ofExcept (checkDhRange gA prime)
  let exponent := Bytes.ofBE (← Act.draw (Draw.bytes exponentLength))
  let gB := Number.powMod g exponent prime
  Act.ofExcept (checkDhRange gB prime)
  let key ← Act.ofExcept (keyOf (Number.powMod gA exponent prime))
  let sessionId ← Act.draw Draw.word64
  let auth : Authorization :=
    { key, serverSalt := firstSalt kx.newNonce kx.serverNonce, sessionId,
      timeOffset := Int64.ofInt (inner.serverTime.toInt - now.seconds) }
  Act.update ({ · with pending := some auth })
  let reply : ClientDhInnerData :=
    { nonce := kx.nonce, serverNonce := kx.serverNonce, retryId := 0, gB := Bytes.ofNat gB }
  let body ← Act.ofExcept (DecodeError.lift (boxedBytes reply))
  let encryptedData ← Act.drawExcept
    (Ige.encryptWithHash cipher.key.bytes cipher.iv.bytes body)
  let request : SetClientDhParams :=
    { nonce := kx.nonce, serverNonce := kx.serverNonce, encryptedData }
  let bytes ← Act.ofExcept (DecodeError.lift (boxedBytes request))
  transition .setClientDhParams
  return bytes

/-- Check that the server has computed the same key. -/
def onDhGenOk (ok : DhGenAnswer) : Act KeyExchange Unit := do
  let kx ← Act.state
  Act.ofExcept (kx.checkNonces ok.nonce ok.serverNonce)
  match kx.pending with
  | none => Act.fail .exchangeNotFinished
  | some auth =>
    if ok.newNonceHash ≠ newNonceHash kx.newNonce 1 auth.key.auxHash then
      Act.fail .badNewNonceHash
    transition .done

/-- A refusal counts if it echoes both nonces. -/
def refuse (nonce serverNonce : Nonce) (e : Error) : Act KeyExchange (Option Bytes) := do
  Act.ofExcept ((← Act.state).checkNonces nonce serverNonce)
  Act.fail e

/-! ## 5. Answers -/

/-- Handle an answer in the state that expects it. -/
def dispatch (now : Instant) (payload : Bytes) : Act KeyExchange (Option Bytes) := do
  let response ← Act.ofExcept (DecodeError.lift (ofBoxedBytes HandshakeResponse payload))
  match (← Act.state).state, response with
  | .reqPq, .resPq res => return some (← onResPq res)
  | .reqDhParams, .serverDhParamsOk ok => return some (← onDhParamsOk now ok)
  | .reqDhParams, .serverDhParamsFail v => refuse v.nonce v.serverNonce .dhParamsFail
  | .setClientDhParams, .dhGenOk ok =>
    onDhGenOk ok
    return none
  | .setClientDhParams, .dhGenRetry v => refuse v.nonce v.serverNonce .dhGenRetry
  | .setClientDhParams, .dhGenFail v => refuse v.nonce v.serverNonce .dhGenFail
  | _, _ => Act.fail .unexpectedCommand

/-- Handle an answer: the next request, if there is one.  An error ends the exchange. -/
def handle (now : Instant) (payload : Bytes) : Act KeyExchange (Option Bytes) := do
  let state := (← Act.state).state
  if state.isTerminal ∨ state = .init then Act.fail .unexpectedCommand
  tryCatch (dispatch now payload) fun halt => do
    if let .error e := halt then Act.update (·.abandon e)
    throw halt

end KeyExchange

end Mtproto
