import Mtproto.Client
import Mtproto.Exchange.Server

/-!
# The far end

The server's end of the line to a client, for trying out a client.  The far end sees the
frames that the client writes, one after the other, and then that the client has closed the
line.  It can send bytes, frames and sealed messages, answer the requests of the key exchange
with a simulated server, and hang up.
-/

namespace Mtproto

/-- The far end of the line to a client. -/
structure Peer where
  client : Client
  /-- The key that both ends have had from the start. -/
  given : Option Authorization := none
  /-- What answers the requests of the key exchange. -/
  server : Option (SimulatedServer × Entropy) := none
  /-- Where the padding of sealed messages comes from. -/
  tape : Entropy
  /-- This end sends nothing more. -/
  hungUp : Bool := false
  /-- How many of the client's frames have been seen. -/
  seen : Nat := 0
  /-- That the client has closed the line has been seen. -/
  seenClosed : Bool := false

namespace Peer

/-- The key that messages are sealed with. -/
def key (p : Peer) : Option AuthKey :=
  match p.given with
  | some auth => some auth.key
  | none => p.server.bind (·.1.authKey)

/-- The client has closed the line. -/
def closed (p : Peer) : Bool :=
  !p.client.connection.isOpen

/-! ## 1. What the client writes -/

/-- What is seen next. -/
inductive Sight where
  | frame (raw : Bytes)
  | closed
  | nothing
deriving DecidableEq, Repr

/-- See what comes next. -/
def look (p : Peer) : Sight × Peer :=
  match p.client.connection.session.written[p.seen]? with
  | some raw => (.frame raw, { p with seen := p.seen + 1 })
  | none =>
    if p.closed && !p.seenClosed then (.closed, { p with seenClosed := true })
    else (.nothing, p)

/-! ## 2. What the client gets -/

/-- What becomes of something that is sent. -/
inductive Sending where
  | sent
  | hungUp
  | failed (halt : Halt)
deriving DecidableEq, Repr

/-- How many bytes there is room for between the two ends. -/
def lineLength : Nat := 1024 * 1024

/-- How many more bytes there is room for. -/
def room (p : Peer) : Nat :=
  lineLength - p.client.connection.unfetched

/-- Send bytes.  If there is no room for all of them, the first ones go ahead and the client
works on them.  If there is no room at all, the bytes wait for the client to make some. -/
def send (now : Instant) (bytes : Bytes) (p : Peer) : Sending × Peer :=
  if p.hungUp then (.hungUp, p)
  else if p.closed && !bytes.isEmpty then
    (.failed (.error (.transport (.medium "broken pipe"))), p)
  else
    let room := p.room
    if _h : room = 0 ∨ bytes.length ≤ room then
      (.sent, { p with client := p.client.drive now (·.arrive bytes) })
    else
      send now (bytes.drop room)
        { p with client := p.client.drive now (·.arrive (bytes.take room)) }
termination_by bytes.length
decreasing_by
  simp only [List.length_drop]
  omega

/-- Send a frame. -/
def sendFrame (now : Instant) (frame : Bytes) (p : Peer) : Sending × Peer :=
  if p.hungUp then (.hungUp, p)
  else match Transport.writeFrame frame with
    | .ok bytes => p.send now bytes
    | .error e => (.failed (.error e), p)

/-- Seal a message and send it. -/
def push (now : Instant) (key : AuthKey) (env : Envelope) (p : Peer) : Sending × Peer :=
  match env.encrypt key .serverToClient p.tape with
  | (.ok (.ok raw), tape) => { p with tape }.sendFrame now raw
  | (.ok (.error e), tape) => (.failed (.error e), { p with tape })
  | (.error f, tape) => (.failed (.fault f), { p with tape })

/-- Send nothing more. -/
def hangUp (now : Instant) (p : Peer) : Peer :=
  { p with hungUp := true, client := p.client.drive now (·.hangUp) }

/-- Let the server answer a request. -/
def respond (now : Instant) (server : SimulatedServer × Entropy) (raw : Bytes) (p : Peer) :
    Sending × Peer :=
  match SimulatedServer.respondPlain now raw server with
  | (.ok frame, server) => { p with server := some server }.sendFrame now frame
  | (.error halt, server) => (.failed halt, { p with server := some server })

end Peer

end Mtproto
