import Mtproto.Exchange.Client
import Mtproto.Session.Effect
import Mtproto.Snapshot
import Mtproto.Transport.Frame

/-!
# Sessions

A session is the protocol state of one connection: the framer, the key exchange, and four
queues -- sends that wait for a key, messages to acknowledge, pings to answer, and what has
not been delivered yet.  What it has done for others to see is kept in order: the frames it
has written, the outcome of every send, and the signal that there is a key, which is given
once.

The line to the server may fail at any frame.  A frame counts as written when the line has
taken all of it.

A session that has a stored key takes no part in a key exchange of its own.  Otherwise it
opens one, and when there is a key it writes what has been waiting for it.
-/

namespace Mtproto

open Wire

/-- What a caller gets when there is a key. -/
structure Ready where
  auth : Authorization
  seqNo : UInt32
deriving DecidableEq

/-- What a request to the session is known by. -/
abbrev Ticket := Nat

/-- The state of a session. -/
structure Session where
  framer : Framer := {}
  exchange : KeyExchange
  dcs : List Datacenter := []
  /-- Sends from before there was a key. -/
  queued : List (Ticket × Bytes) := []
  /-- Content that has been received and not been acknowledged. -/
  acks : List UInt64 := []
  /-- Answers to pings that have not been written. -/
  pongs : List Pong := []
  /-- What waits for room in the application's queue. -/
  deliveries : List Incoming := []
  /-- Whether the line fails at the next frame, and with which error, by how many it has taken. -/
  line : Nat → Option Error := fun _ => none
  /-- The frames written so far. -/
  written : List Bytes := []
  /-- The outcomes of sends so far: the identifier of the message, or why there is none. -/
  outcomes : List (Ticket × Except Error UInt64) := []
  /-- The signal that there is a key, once it has been given. -/
  ready : Option Ready := none

namespace Session

/-! ## 1. State -/

/-- A session that will run the key exchange and trusts the given keys. -/
def new (keys : List RsaKey) : Session :=
  { exchange := .new keys }

/-- The same session with other datacenters. -/
def withDcs (s : Session) (dcs : List Datacenter) : Session :=
  { s with dcs }

/-- Take up a stored state. -/
def restore (s : Session) (stored : Snapshot) : Session :=
  { s with framer := s.framer.restore stored.auth stored.seqNo, dcs := stored.dcs }

/-- There is a key. -/
def isReady (s : Session) : Bool :=
  s.framer.auth.isSome

/-- The state to store. -/
def snapshot (s : Session) : Snapshot :=
  { dcs := s.dcs, auth := s.framer.auth, seqNo := s.framer.seqNo }

/-- Record the outcome of a send. -/
def settle (ticket : Ticket) (outcome : Except Error UInt64) (s : Session) : Session :=
  { s with outcomes := s.outcomes ++ [(ticket, outcome)] }

/-- Give the signal that there is a key, unless it has been given. -/
def signalReady (s : Session) : Session :=
  match s.framer.auth, s.ready with
  | some auth, none => { s with ready := some { auth, seqNo := s.framer.seqNo } }
  | _, _ => s

/-- The session at its end: sends that still wait come to nothing. -/
def close (s : Session) : Session :=
  s.queued.foldl (fun s (ticket, _) => s.settle ticket (.error .sessionClosed))
    { s with queued := [] }

/-! ## 2. Outgoing messages -/

/-- A procedure of the framer. -/
def framing {α : Type} (a : Act Framer α) : Act Session α :=
  Act.zoom (·.framer) (fun framer s => { s with framer }) a

/-- A procedure of the key exchange. -/
def exchanging {α : Type} (a : Act KeyExchange α) : Act Session α :=
  Act.zoom (·.exchange) (fun exchange s => { s with exchange }) a

/-- Put a frame on the line. -/
def transmit (raw : Bytes) : Act Session Unit := do
  let s ← Act.state
  match s.line s.written.length with
  | some e => Act.fail e
  | none => Act.update fun s => { s with written := s.written ++ [raw] }

/-- Write a message: its identifier. -/
def write (now : Instant) (kind : MsgKind) (payload : Bytes) : Act Session UInt64 := do
  let (msgId, raw) ← framing (Framer.format now kind payload)
  let _ ← Act.ofExcept (Transport.frameHeader raw.length)
  transmit raw
  return msgId

/-- Write content and record the outcome.  Of a fault the sender learns only that the session
has ended. -/
def writeContent (now : Instant) (ticket : Ticket) (payload : Bytes) : Act Session Unit :=
  tryCatch
    (do
      let msgId ← write now .content payload
      Act.update (settle ticket (.ok msgId)))
    fun halt => do
      match halt with
      | .error e => Act.update (settle ticket (.error e))
      | .fault _ => Act.update (settle ticket (.error .sessionClosed))
      throw halt

/-- Write what has been waiting for a key. -/
def writeQueued (now : Instant) : List (Ticket × Bytes) → Act Session Unit
  | [] => return
  | (ticket, payload) :: queued => do
    Act.update ({ · with queued })
    writeContent now ticket payload
    writeQueued now queued

/-- Send content, as soon as there is a key. -/
def send (now : Instant) (ticket : Ticket) (payload : Bytes) : Act Session Unit := do
  if (← Act.state).isReady then writeContent now ticket payload
  else Act.update fun s => { s with queued := s.queued ++ [(ticket, payload)] }

/-- The service messages that are due: the answers to pings, then one acknowledgement of
everything. -/
def due (s : Session) : Except DecodeError (List Bytes) := do
  let pongs ← s.pongs.mapM boxedBytes
  if s.acks.isEmpty then return pongs
  return pongs ++ [← boxedBytes (MsgsAck.mk s.acks)]

/-- Write the service messages that are due. -/
def flush (now : Instant) : Act Session Unit := do
  let due ← Act.ofExcept (DecodeError.lift (← Act.state).due)
  Act.update ({ · with pongs := [], acks := [] })
  due.forM fun payload => do
    let _ ← write now .service payload

/-! ## 3. The start -/

/-- Open the key exchange, unless there is a key. -/
def begin (now : Instant) : Act Session Unit := do
  if (← Act.state).isReady then Act.update signalReady
  else
    let request ← exchanging KeyExchange.start
    let _ ← write now .keyExchange request

/-! ## 4. Incoming frames -/

/-- Take up an answer of the key exchange. -/
def onKeyExchange (now : Instant) (payload : Bytes) : Act Session Unit := do
  if let some request ← exchanging (KeyExchange.handle now payload) then
    let _ ← write now .keyExchange request
  let exchange := (← Act.state).exchange
  if exchange.isDone then
    let auth ← Act.ofExcept exchange.result
    Act.update fun s => { s with framer := s.framer.setAuth auth }.signalReady
    writeQueued now (← Act.state).queued

/-- The session after one effect of a message. -/
def apply (s : Session) : Effect → Session
  | .acknowledge msgId => { s with acks := s.acks ++ [msgId] }
  | .answer pong => { s with pongs := s.pongs ++ [pong] }
  | .deliver incoming => { s with deliveries := s.deliveries ++ [incoming] }
  | .renewSalt salt => { s with framer := s.framer.setServerSalt salt }

/-- Take up a message that has come in: all its effects, then its error. -/
def receive (msg : Msg) : Act Session Unit := do
  let effects := messageEffects {} msg.msgId msg.kind msg.payload
  Act.update fun s => effects.list.foldl apply s
  match effects.failure with
  | some e => Act.fail e
  | none => return

/-- Handle a frame. -/
def onFrame (now : Instant) (raw : Bytes) : Act Session Unit := do
  let msg ← Act.ofExcept ((← Act.state).framer.parse raw)
  match msg.kind with
  | .keyExchange => onKeyExchange now msg.payload
  | .content | .service =>
    receive msg
    flush now

end Session

end Mtproto
