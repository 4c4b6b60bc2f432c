import Mtproto.Act
import Mtproto.Message.Envelope
import Mtproto.Message.Id

/-!
# Framing

A framer puts outgoing messages into envelopes and takes incoming ones out.  It numbers them:
every message has an identifier, and a message inside an encrypted envelope has a sequence
number, which is odd for content and counts the content messages sent so far, twice each.
-/

namespace Mtproto

/-- A message that has been taken out of its envelope. -/
structure Msg where
  kind : MsgKind
  msgId : UInt64
  payload : Bytes
deriving DecidableEq, Repr

/-- Whether a sequence number marks a message as content. -/
def MsgKind.ofSeqNo (seqNo : UInt32) : MsgKind :=
  if seqNo % 2 = 1 then .content else .service

/-- The state of framing. -/
structure Framer where
  /-- Twice the number of content messages sent so far. -/
  seqNo : UInt32 := 0
  msgIds : MsgIdGenerator := {}
  auth : Option Authorization := none
deriving DecidableEq, Inhabited

namespace Framer

/-- Install an authorization key. -/
def setAuth (f : Framer) (auth : Authorization) : Framer :=
  { f with msgIds := { f.msgIds with timeOffset := auth.timeOffset }, auth := some auth }

/-- Take up the state of an earlier framer. -/
def restore (f : Framer) (auth : Option Authorization) (seqNo : UInt32) : Framer :=
  match auth with
  | some auth => { f with seqNo }.setAuth auth
  | none => { f with seqNo, auth := none }

/-- A framer with a key and a counter. -/
def withAuth (auth : Authorization) (seqNo : UInt32) : Framer :=
  ({} : Framer).restore (some auth) seqNo

/-- Replace the salt; without a key there is none. -/
def setServerSalt (f : Framer) (salt : UInt64) : Framer :=
  { f with auth := f.auth.map fun a => { a with serverSalt := salt } }

/-! ## 1. Outgoing messages -/

/-- Take the next message identifier. -/
def nextMsgId (now : Instant) : Act Framer UInt64 := do
  let f ← Act.state
  let (id, msgIds) ← Act.ofFault (f.msgIds.next now)
  Act.update ({ · with msgIds })
  return id

/-- Take the next sequence number. -/
def nextSeqNo (kind : MsgKind) : Act Framer UInt32 := do
  let seqNo := (← Act.state).seqNo
  if kind = .content then
    Act.update ({ · with seqNo := seqNo + 2 })
    return seqNo + 1
  return seqNo

/-- Put a message into its envelope: its identifier and the envelope. -/
def format (now : Instant) (kind : MsgKind) (payload : Bytes) :
    Act Framer (UInt64 × Bytes) := do
  let msgId ← nextMsgId now
  if kind = .keyExchange then
    return (msgId, ← Act.ofExcept (PlainEnvelope.wrap msgId payload))
  match (← Act.state).auth with
  | none => throw (.fault (.keyMissing kind))
  | some auth =>
    let seqNo ← nextSeqNo kind
    let env : Envelope :=
      { salt := auth.serverSalt, sessionId := auth.sessionId, msgId, seqNo, payload }
    return (msgId, ← Act.drawExcept (env.encrypt auth.key .clientToServer))

/-! ## 2. Incoming messages -/

/-- Take a message out of its envelope. -/
def parse (f : Framer) (raw : Bytes) : Except Error Msg := do
  match envelopeKeyId? raw with
  | none => throw (.decode (.unexpectedEof 8 raw.length))
  | some keyId =>
    if keyId = 0 then
      let (msgId, payload) ← PlainEnvelope.unwrap raw
      return { kind := .keyExchange, msgId, payload }
    match f.auth with
    | none => throw (.unknownAuthKeyId keyId)
    | some auth =>
      let env ← Envelope.decrypt auth.key .serverToClient raw
      if env.sessionId ≠ auth.sessionId then throw .sessionMismatch
      return { kind := .ofSeqNo env.seqNo, msgId := env.msgId, payload := env.payload }

end Framer

end Mtproto
