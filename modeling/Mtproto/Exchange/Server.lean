import Mtproto.Exchange.Client
import Mtproto.Message.Framer

/-!
# A simulated server

The server's side of the key exchange, for trying out a client.  Its public key has exponent
one, so that what is encrypted to it can be read without a private key.  Its group is that of
the prime 2⁵²¹ - 1 with generator three.  It can be told to misbehave in one way.
-/

namespace Mtproto

open Wire

/-- The ways to misbehave. -/
inductive Tamper where
  | none
  /-- Echo another nonce in the first answer. -/
  | resPqNonce
  /-- Offer only a key that nobody trusts. -/
  | fingerprint
  /-- Refuse to send parameters. -/
  | dhParamsFail
  /-- Put another nonce of the server into the parameters. -/
  | innerServerNonce
  /-- Put a wrong digest in front of the parameters. -/
  | answerHash
  /-- Use a modulus that is composite. -/
  | compositePrime
  /-- Confirm the key with a wrong hash. -/
  | newNonceHash
  /-- Ask for another try at the end. -/
  | dhGenRetry
  /-- Give up at the end. -/
  | dhGenFail
deriving DecidableEq, Repr, Inhabited

/-- The ways to misbehave by their names. -/
def Tamper.byName : List (String × Tamper) :=
  [("none", .none), ("res_pq_nonce", .resPqNonce), ("fingerprint", .fingerprint),
    ("dh_params_fail", .dhParamsFail), ("inner_server_nonce", .innerServerNonce),
    ("answer_hash", .answerHash), ("composite_prime", .compositePrime),
    ("new_nonce_hash", .newNonceHash), ("dh_gen_retry", .dhGenRetry),
    ("dh_gen_fail", .dhGenFail)]

/-- The state of a simulated server. -/
structure SimulatedServer where
  tamper : Tamper := .none
  nonce : Nonce := .zero 16
  serverNonce : Nonce := .zero 16
  newNonce : NewNonce := .zero 32
  /-- The secret exponent. -/
  exponent : Nat := 1
  /-- The key, once it has been agreed on. -/
  authKey : Option AuthKey := Option.none
  msgIds : MsgIdGenerator := {}
deriving DecidableEq

namespace SimulatedServer

/-! ## 1. Constants -/

/-- The public key: the exponent is one. -/
def publicKey : RsaKey := ⟨(1 <<< 2047) + 1, 1⟩

/-- The smaller factor of the challenge. -/
def factorP : UInt64 := 0x494C553B

/-- The larger factor of the challenge. -/
def factorQ : UInt64 := 0x53911073

/-- The modulus of the group. -/
def dhPrime : Nat := (1 <<< 521) - 1

/-- The generator of the group. -/
def generator : Nat := 3

/-- A value with some bits of one of its bytes flipped. -/
def flip {n : Nat} (v : Octets n) (i : Nat) (mask : UInt8) : Octets n :=
  ⟨v.bytes.modify i (· ^^^ mask), by simp⟩

/-! ## 2. Answers -/

/-- Both nonces have been echoed. -/
def checkNonces (s : SimulatedServer) (nonce serverNonce : Nonce) : Except Error Unit :=
  if nonce ≠ s.nonce then .error .badNonce
  else if serverNonce ≠ s.serverNonce then .error .badServerNonce
  else .ok ()

/-- The salt that both sides start with. -/
def expectedSalt (s : SimulatedServer) : UInt64 :=
  KeyExchange.firstSalt s.newNonce s.serverNonce

/-- A boxed value whose digest is `hash`. -/
def hashedValue (α : Type) [Tagged α] (body hash : Bytes) : Except Error α := do
  let (inner, r) := Read.exactBoxed α (.ofBytes body)
  DecodeError.lift r.check
  if (sha1 r.consumed).bytes ≠ hash then throw .hashMismatch
  match inner with
  | some inner => return inner
  | Option.none => throw .hashMismatch

/-- Answer the opening with a challenge. -/
def onReqPq (nonce : Nonce) : Act SimulatedServer HandshakeResponse := do
  Act.update ({ · with nonce })
  let serverNonce ← Act.draw (Draw.octets 16)
  Act.update ({ · with serverNonce })
  let tamper := (← Act.state).tamper
  let fingerprint := publicKey.fingerprint
  return .resPq {
    nonce := if tamper = .resPqNonce then flip nonce 0 0xFF else nonce
    serverNonce
    pq := (Bytes.le 8 (factorP * factorQ).toNat).reverse
    fingerprints := [if tamper = .fingerprint then ~~~fingerprint else fingerprint] }

/-- Answer the factorization with parameters. -/
def onReqDhParams (now : Instant) (encrypted : Bytes) :
    Act SimulatedServer HandshakeResponse := do
  if encrypted.isEmpty then Act.fail .hashMismatch
  let block := encrypted.drop 1
  let inner ← Act.ofExcept (hashedValue PqInnerData (block.drop 20) (block.take 20))
  if inner.p ≠ Bytes.ofNat factorP.toNat ∨ inner.q ≠ Bytes.ofNat factorQ.toNat then
    Act.fail (.factorizationFailed (factorP * factorQ))
  Act.update ({ · with newNonce := inner.newNonce })
  let s ← Act.state
  if s.tamper = .dhParamsFail then
    return .serverDhParamsFail
      { nonce := s.nonce, serverNonce := s.serverNonce, newNonceHash := .zero 16 }
  let prime := if s.tamper = .compositePrime then dhPrime * ((1 <<< 127) - 1) else dhPrime
  let exponent := Bytes.ofBE (← Act.draw (Draw.bytes 256))
  Act.update ({ · with exponent })
  let params : ServerDhInnerData :=
    { nonce := s.nonce
      serverNonce := if s.tamper = .innerServerNonce then flip s.serverNonce 15 1
        else s.serverNonce
      g := Int32.ofNat generator
      dhPrime := Bytes.ofNat prime
      gA := Bytes.ofNat (Number.powMod generator exponent prime)
      serverTime := Int32.ofInt now.seconds }
  let body ← Act.ofExcept (DecodeError.lift (boxedBytes params))
  let hash := if s.tamper = .answerHash then flip (sha1 body) 0 1 else sha1 body
  let padding ← Act.draw (Draw.bytes (Ige.hashPadding body.length))
  let cipher := exchangeCipherKey s.serverNonce s.newNonce
  let encryptedAnswer ← Act.ofExcept
    (Ige.aes256Encrypt cipher.key.bytes cipher.iv.bytes (hash.bytes ++ (body ++ padding)))
  return .serverDhParamsOk { nonce := s.nonce, serverNonce := s.serverNonce, encryptedAnswer }

/-- Answer the client's half of the exchange: compute the key and confirm it. -/
def onSetClientDhParams (encrypted : Bytes) : Act SimulatedServer HandshakeResponse := do
  let s ← Act.state
  let cipher := exchangeCipherKey s.serverNonce s.newNonce
  let (plain, hash) ← Act.ofExcept
    (Ige.decryptWithHash cipher.key.bytes cipher.iv.bytes encrypted)
  let inner ← Act.ofExcept (hashedValue ClientDhInnerData plain hash)
  Act.ofExcept (s.checkNonces inner.nonce inner.serverNonce)
  let key ← Act.ofExcept
    (KeyExchange.keyOf (Number.powMod (Bytes.ofBE inner.gB) s.exponent dhPrime))
  Act.update ({ · with authKey := some key })
  let hash := newNonceHash s.newNonce 1 key.auxHash
  let answer : DhGenAnswer :=
    { nonce := s.nonce, serverNonce := s.serverNonce,
      newNonceHash := if s.tamper = .newNonceHash then flip hash 0 1 else hash }
  match s.tamper with
  | .dhGenRetry => return .dhGenRetry answer
  | .dhGenFail => return .dhGenFail answer
  | _ => return .dhGenOk answer

/-- Answer a request. -/
def answer (now : Instant) : HandshakeRequest → Act SimulatedServer HandshakeResponse
  | .reqPq req => onReqPq req.nonce
  | .reqDhParams req => do
    Act.ofExcept ((← Act.state).checkNonces req.nonce req.serverNonce)
    onReqDhParams now req.encryptedData
  | .setClientDhParams req => do
    Act.ofExcept ((← Act.state).checkNonces req.nonce req.serverNonce)
    onSetClientDhParams req.encryptedData

/-- Answer the bytes of a request. -/
def respond (now : Instant) (request : Bytes) : Act SimulatedServer Bytes := do
  let request ← Act.ofExcept (DecodeError.lift (ofBoxedBytes HandshakeRequest request))
  let response ← answer now request
  Act.ofExcept (DecodeError.lift response.toBytes)

/-! ## 3. Envelopes -/

/-- The next message identifier; the server's are odd. -/
def nextMsgId (now : Instant) : Act SimulatedServer UInt64 := do
  let (id, msgIds) ← Act.ofFault ((← Act.state).msgIds.next now)
  Act.update ({ · with msgIds })
  return id ||| 1

/-- Answer a request in a plain envelope with another. -/
def respondPlain (now : Instant) (raw : Bytes) : Act SimulatedServer Bytes := do
  let (_, request) ← Act.ofExcept (PlainEnvelope.unwrap raw)
  let response ← respond now request
  let msgId ← nextMsgId now
  Act.ofExcept (PlainEnvelope.wrap msgId response)

/-- Open what the client has sent after the exchange. -/
def openEnvelope (s : SimulatedServer) (raw : Bytes) : Except Error Envelope :=
  match s.authKey with
  | some key => Envelope.decrypt key .clientToServer raw
  | Option.none => .error (.unknownAuthKeyId ((envelopeKeyId? raw).getD 0))

/-- Seal a message for the client. -/
def sealEnvelope (now : Instant) (sessionId : UInt64) (seqNo : UInt32) (payload : Bytes) :
    Act SimulatedServer Bytes := do
  let msgId ← nextMsgId now
  let s ← Act.state
  let env : Envelope := { salt := s.expectedSalt, sessionId, msgId, seqNo, payload }
  match s.authKey with
  | some key => Act.drawExcept (env.encrypt key .serverToClient)
  | Option.none => Act.fail .exchangeNotFinished

end SimulatedServer

end Mtproto
