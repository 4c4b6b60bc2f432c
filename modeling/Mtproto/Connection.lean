import Mtproto.Session.Basic

/-!
# Connections

A connection is a session at work between three queues: the bytes that have arrived, the
commands that the client has given, and the events that wait for the application.

The session works in turns.  In a turn it does the first of these that it can do:

1. hand a delivery over to the application, if its queue has room;
2. serve a command;
3. read a frame, unless as many deliveries are waiting as the application's queue can hold.

`Connection.work?` says what the next turn does, `Connection.perform` does it, and
`Connection.run` goes on until nothing can be done without new input.  Every turn ends the
session, serves a command, reads a byte or hands over a delivery, so a run ends.

Frames are fetched ahead of the session: as many as fit into a queue, and one more.  A session
that ends closes the line, unless it ends in a fault.  Then the line lingers, until the one who
fetches the frames has another one to hand over and sees that nobody takes it.
-/

namespace Mtproto

open Transport

/-! ## 1. Connections -/

/-- A request of the client to the session. -/
inductive Command where
  /-- Send content. -/
  | send (ticket : Ticket) (payload : Bytes)
  /-- Give the state to store. -/
  | snapshot (ticket : Ticket)
  /-- End the session. -/
  | close
deriving DecidableEq, Repr

/-- The limits of a connection. -/
structure Limits where
  /-- The longest frame that is accepted. -/
  frameSize : Nat
  /-- How much the application's queue holds. -/
  capacity : Nat
deriving DecidableEq, Repr

/-- A session at work. -/
structure Connection where
  limits : Limits
  session : Session
  /-- Where the session takes its random bytes. -/
  tape : Entropy
  /-- What has arrived and has not been read. -/
  inbound : Bytes := []
  /-- Nothing more will arrive. -/
  hungUp : Bool := false
  /-- What has not been served. -/
  commands : List Command := []
  /-- No more commands will be given. -/
  abandoned : Bool := false
  /-- What the application can receive. -/
  events : List Incoming := []
  /-- The application still receives. -/
  listening : Bool := true
  /-- The states that have been asked for. -/
  snapshots : List (Ticket × Snapshot) := []
  /-- How the session has ended. -/
  ended : Option (Except Halt Unit) := none
  /-- The line has not been closed although the session has ended. -/
  lingering : Bool := false
  /-- How many frames the session has read since it last had nothing to do. -/
  burst : Nat := 0

namespace Connection

/-- The line is open. -/
def isOpen (c : Connection) : Bool :=
  c.ended.isNone || c.lingering

/-- What has arrived starts with a frame or with something that is not accepted. -/
def isReadable (c : Connection) : Bool :=
  match scanFrame c.limits.frameSize c.inbound with
  | .frame .. | .refused .. => true
  | .nothing | .unfinished => false

/-- The line after a fault.  It lingers if all the frames that have arrived have been fetched
and more may come.  The queue is filled again whenever the session has emptied it, so in a
burst there is room for a whole number of queues. -/
def linger (c : Connection) : Connection :=
  let queues := max 1 ((c.burst + c.limits.capacity - 1) / c.limits.capacity)
  let room := c.limits.capacity * queues - c.burst
  let (_, inbound) := skipFrames c.limits.frameSize room 0 c.inbound
  let c := { c with inbound }
  { c with lingering := !c.hungUp && !c.isReadable }

/-- The end of the session.  Sends that have not been written come to nothing, deliveries
that have not been handed over are lost. -/
def finish (how : Except Halt Unit) (c : Connection) : Connection :=
  let refuse (s : Session) : Command → Session
    | .send ticket _ => s.settle ticket (.error .sessionClosed)
    | .snapshot _ | .close => s
  let c := match how with
    | .error (.fault _) => c.linger
    | .error (.error _) | .ok () => c
  { c with session := c.commands.foldl refuse c.session.close, commands := [],
           ended := some how }

/-- Let the session carry out a procedure.  It ends if the procedure halts. -/
def carryOut (a : Act Session Unit) (c : Connection) : Connection :=
  match a (c.session, c.tape) with
  | (.ok (), session, tape) => { c with session, tape }
  | (.error halt, session, tape) => finish (.error halt) { c with session, tape }

/-- A session that begins to work. -/
def start (now : Instant) (limits : Limits) (session : Session) (tape : Entropy) : Connection :=
  carryOut (Session.begin now) { limits, session, tape }

/-! ## 2. What comes from outside -/

/-- Bytes arrive. -/
def arrive (bytes : Bytes) (c : Connection) : Connection :=
  { c with inbound := c.inbound ++ bytes }

/-- How many bytes have arrived and not been fetched.  What is not accepted is fetched, and
nothing after it. -/
def unfetched (c : Connection) : Nat :=
  let (fetched, rest) := skipFrames c.limits.frameSize (c.limits.capacity + 1) 0 c.inbound
  if c.limits.capacity < fetched then rest.length
  else match scanFrame c.limits.frameSize rest with
    | .refused _ rest => rest.length
    | .frame .. | .nothing | .unfinished => 0

/-- The peer sends nothing more. -/
def hangUp (c : Connection) : Connection :=
  { c with hungUp := true }

/-- The client gives a command.  When the session has ended there is nobody to serve it. -/
def submit (command : Command) (c : Connection) : Connection :=
  match c.ended, command with
  | none, _ => { c with commands := c.commands ++ [command] }
  | some _, .send ticket _ =>
    { c with session := c.session.settle ticket (.error .sessionClosed) }
  | some _, .snapshot _ | some _, .close => c

/-- The application receives nothing more. -/
def stopListening (c : Connection) : Connection :=
  { c with listening := false, events := [] }

/-- The client goes away. -/
def abandon (c : Connection) : Connection :=
  { c.stopListening with abandoned := true }

/-- The application takes what comes first, if there is anything. -/
def takeEvent (c : Connection) : Option Incoming × Connection :=
  match c.events with
  | [] => (none, c)
  | incoming :: events => (some incoming, { c with events })

/-! ## 3. Turns -/

/-- What a turn does. -/
inductive Work where
  /-- Hand over the first delivery. -/
  | deliver (incoming : Incoming) (others : List Incoming)
  /-- Give up the deliveries, because nobody listens. -/
  | discard
  /-- Serve a command. -/
  | serve (command : Command) (others : List Command)
  /-- Read a frame. -/
  | read (frame rest : Bytes)
  /-- End the session. -/
  | stop (how : Except Halt Unit)
  /-- Close the line that a session has left behind. -/
  | release

/-- The frame to read, or the end of the stream. -/
def reading? (c : Connection) : Option Work :=
  if c.limits.capacity ≤ c.session.deliveries.length then none
  else match scanFrame c.limits.frameSize c.inbound with
    | .frame frame rest => some (.read frame rest)
    | .refused e _ => some (.stop (.error (.error (.transport e))))
    | .nothing | .unfinished =>
      if c.hungUp then some (.stop (.error (.error .connectionClosed))) else none

/-- The command to serve; if there is none, the frame to read. -/
def serving? (c : Connection) : Option Work :=
  match c.commands with
  | command :: others => some (.serve command others)
  | [] => if c.abandoned then some (.stop (.ok ())) else c.reading?

/-- What the next turn does, if anything can be done. -/
def work? (c : Connection) : Option Work :=
  match c.ended, c.session.deliveries with
  | some _, _ => if c.lingering && (c.hungUp || c.isReadable) then some .release else none
  | none, [] => c.serving?
  | none, incoming :: others =>
    if !c.listening then some .discard
    else if c.events.length < c.limits.capacity then some (.deliver incoming others)
    else c.serving?

/-- The connection after a turn. -/
def perform (now : Instant) (c : Connection) : Work → Connection
  | .deliver incoming deliveries =>
    { c with events := c.events ++ [incoming], session := { c.session with deliveries } }
  | .discard => { c with session := { c.session with deliveries := [] } }
  | .serve command commands =>
    let c := { c with commands }
    match command with
    | .send ticket payload => carryOut (Session.send now ticket payload) c
    | .snapshot ticket => { c with snapshots := c.snapshots ++ [(ticket, c.session.snapshot)] }
    | .close => finish (.ok ()) c
  | .read frame inbound =>
    carryOut (Session.onFrame now frame) { c with inbound, burst := c.burst + 1 }
  | .stop how => finish how c
  | .release => { c with lingering := false }

/-! ## 4. Runs -/

/-- What is left to do: two units while the session goes on and one while the line lingers,
the commands, the bytes, and the deliveries. -/
def load (c : Connection) : Nat × Nat × Nat × Nat :=
  (if c.ended.isNone then 2 else if c.lingering then 1 else 0, c.commands.length,
    c.inbound.length, c.session.deliveries.length)

/-- The order in which the load of a connection becomes less. -/
def Lighter : Nat × Nat × Nat × Nat → Nat × Nat × Nat × Nat → Prop :=
  Prod.Lex (· < ·) (Prod.Lex (· < ·) (Prod.Lex (· < ·) (· < ·)))

theorem lighter_finish {c d : Connection} (how : Except Halt Unit) (h : c.ended = none) :
    Lighter (finish how d).load c.load := by
  apply Prod.Lex.left
  simp only [finish, h, Option.isNone_some, Option.isNone_none]
  grind

theorem lighter_carryOut {c d : Connection} (a : Act Session Unit) (hc : c.ended = none)
    (hd : d.ended = none)
    (h : d.commands.length < c.commands.length ∨
      d.commands = c.commands ∧ d.inbound.length < c.inbound.length) :
    Lighter (carryOut a d).load c.load := by
  unfold carryOut
  split
  · simp only [Lighter, load, hc, hd]
    apply Prod.Lex.right
    rcases h with h | ⟨h, h'⟩
    · exact Prod.Lex.left _ _ h
    · rw [h]
      exact Prod.Lex.right _ (Prod.Lex.left _ _ h')
  · exact lighter_finish _ hc

/-- Reading takes bytes away. -/
theorem length_reading {c : Connection} {frame rest : Bytes}
    (h : c.reading? = some (.read frame rest)) : rest.length < c.inbound.length := by
  unfold reading? at h
  split at h
  · cases h
  · split at h
    · rename_i hs
      cases h
      exact length_scanFrame hs
    · cases h
    · split at h <;> cases h
    · split at h <;> cases h

theorem lighter_serving {c : Connection} (now : Instant) {w : Work} (he : c.ended = none)
    (h : c.serving? = some w) : Lighter (c.perform now w).load c.load := by
  unfold serving? at h
  split at h
  · rename_i command others hc
    cases h
    cases command with
    | send ticket payload =>
      exact lighter_carryOut _ he he (.inl (by simp [hc]))
    | snapshot ticket =>
      simp only [Lighter, load, perform, he, hc]
      exact Prod.Lex.right _ (Prod.Lex.left _ _ (by simp))
    | close => exact lighter_finish _ he
  · split at h
    · cases h
      exact lighter_finish _ he
    · cases w with
      | read frame rest =>
        exact lighter_carryOut _ he he (.inr ⟨rfl, length_reading h⟩)
      | stop how => exact lighter_finish _ he
      | deliver _ _ | discard | serve _ _ | release =>
        unfold reading? at h
        grind

/-- Every turn makes the load less. -/
theorem lighter_perform {c : Connection} (now : Instant) {w : Work} (h : c.work? = some w) :
    Lighter (c.perform now w).load c.load := by
  unfold work? at h
  split at h
  · rename_i he
    split at h
    · rename_i hl
      cases h
      have : c.lingering = true := by grind
      apply Prod.Lex.left
      simp [perform, he, this]
    · cases h
  · rename_i he _
    exact lighter_serving now he h
  · rename_i incoming others he hd
    split at h
    · cases h
      simp only [Lighter, load, perform, hd]
      exact Prod.Lex.right _ (Prod.Lex.right _ (Prod.Lex.right _ (by simp)))
    · split at h
      · cases h
        simp only [Lighter, load, perform, hd]
        exact Prod.Lex.right _ (Prod.Lex.right _ (Prod.Lex.right _ (by simp)))
      · exact lighter_serving now he h

/-- Turn after turn, until nothing can be done without new input. -/
def run (now : Instant) (c : Connection) : Connection :=
  match _h : c.work? with
  | none => { c with burst := 0 }
  | some w => run now (c.perform now w)
termination_by c.load
decreasing_by exact lighter_perform now _h

end Connection

end Mtproto
