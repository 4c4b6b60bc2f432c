import Mtproto.Config
import Mtproto.Connection

/-!
# Clients

The application's handle on a session.  A call gives the session what it needs, lets it work
as far as it can, and then has an answer or has none yet; `none` is a call that still waits.

How the session has ended is asked for at most once and kept.  The signal that there is a key
can be waited for once; later calls look at the state of the session.
-/

namespace Mtproto

/-- A handle on a session. -/
structure Client where
  config : Config
  connection : Connection
  /-- The signal that there is a key has not been waited for. -/
  signalled : Bool := false
  /-- How the session has ended, once that has been asked for. -/
  outcome : Option (Except Error Unit) := none
  /-- How many requests have been made. -/
  tickets : Ticket := 0

namespace Client

/-! ## 1. The start -/

/-- The most that a queue can hold. -/
def maxQueueCapacity : Nat := (1 <<< 61) - 1

/-- Put a session to work. -/
def ofSession (now : Instant) (config : Config) (session : Session) (tape : Entropy) :
    Except Fault Client :=
  let limits : Limits :=
    { frameSize := config.maxFrameSize.toNat, capacity := config.channelCapacity }
  if maxQueueCapacity < limits.capacity then .error .oversized
  else .ok { config, connection := (Connection.start now limits session tape).run now }

/-- The session that a configuration asks for: one that goes on from a stored state, or a new
one that knows the configured server. -/
def sessionFor (config : Config) (stored : Option Snapshot) : Except Error Session := do
  let session := Session.new (← config.trustedKeys)
  match stored with
  | some stored => return session.restore stored
  | none => return session.withDcs config.datacenter?.toList

/-- A client over a connection that is open already. -/
def start (now : Instant) (config : Config) (stored : Option Snapshot) (tape : Entropy) :
    Except Halt Client :=
  match sessionFor config stored with
  | .error e => .error (.error e)
  | .ok session => (ofSession now config session tape).mapError .fault

/-! ## 2. Calls -/

/-- Let something happen to the connection, and the session work. -/
def drive (now : Instant) (f : Connection → Connection) (c : Client) : Client :=
  { c with connection := (f c.connection).run now }

/-- Give a command that is known by a new ticket. -/
def request (now : Instant) (command : Ticket → Command) (c : Client) : Client :=
  { c with tickets := c.tickets + 1 }.drive now (·.submit (command c.tickets))

/-- Send content: the identifier of the message, once it has been written. -/
def send (now : Instant) (payload : Bytes) (c : Client) :
    Option (Except Error UInt64) × Client :=
  let d := c.request now (.send · payload)
  (d.connection.session.outcomes.lookup c.tickets, d)

/-- The state to store. -/
def snapshot (now : Instant) (c : Client) : Option (Except Error Snapshot) × Client :=
  let d := c.request now .snapshot
  let answer := match d.connection.snapshots.lookup c.tickets with
    | some state => some (.ok state)
    | none => d.connection.ended.map fun _ => .error .sessionClosed
  (answer, d)

/-- What comes next for the application; `some none` if nothing will come any more. -/
def receive (now : Instant) (c : Client) : Option (Option Incoming) × Client :=
  match c.connection.takeEvent with
  | (some incoming, connection) =>
    (some (some incoming), { c with connection }.drive now id)
  | (none, _) => (c.connection.ended.map fun _ => none, c)

/-- How the session has ended. -/
def finish (c : Client) : Option (Except Error Unit) × Client :=
  match c.outcome, c.connection.ended with
  | some outcome, _ => (some outcome, c)
  | none, none => (none, c)
  | none, some how =>
    let outcome := match how with
      | .ok () => .ok ()
      | .error (.error e) => .error e
      | .error (.fault _) => .error (.transport .sessionFailed)
    (some outcome, { c with outcome := some outcome })

/-- What the first call that waits for a key finds: the signal, or else how the session has ended.
While there is neither, the call goes on waiting. -/
def awaitReady (c : Client) : Option (Except Error Ready) × Client :=
  match c.connection.session.ready with
  | some ready => (some (.ok ready), c)
  | none =>
    let (outcome, c) := c.finish
    (outcome.map fun r => do
      r
      throw .sessionClosed, c)

/-- Wait for a key.  The first call waits for the signal; later calls ask the session for its
state. -/
def waitReady (now : Instant) (c : Client) : Option (Except Error Ready) × Client :=
  if c.signalled then
    let (answer, c) := c.snapshot now
    (answer.map fun r => do
      let state ← r
      match state.auth with
      | some auth => return { auth, seqNo := state.seqNo }
      | none => throw .exchangeNotFinished, c)
  else
    { c with signalled := true }.awaitReady

/-! ## 3. The end -/

/-- End the session: how it has ended. -/
def shutdown (now : Instant) (c : Client) : Option (Except Error Unit) × Client :=
  (c.drive now fun k => k.stopListening.submit .close).finish

/-- Go away.  The session ends when it notices. -/
def drop (now : Instant) (c : Client) : Client :=
  c.drive now (·.abandon)

end Client

end Mtproto
