import Mathlib.Tactic.Common
import Mtproto.Proofs.Connection

/-!
# Histories of a session

A history is any sequence of turns of a connection and of things from outside (`Event`), with
nothing left out: bytes arrive in pieces, the other side hangs up, the client gives commands, closes
or goes away, the application takes messages or stops to listen.  `Setting.after` is the connection
after a history.  It starts with a session that has been prepared in some `Setting`; keys, stored
states, random bytes, clock readings and failures of the line are arbitrary.

An assertion about sessions holds in every history if each procedure of the session upholds it
(`Session.Upheld`): sending, taking a frame, handing a message over, and the three ways to end.  The
assertion may speak of the sends that the session has been given, and it may be a different one
while the session works, when a procedure has halted, and at the end.

* `Setting.holds_after`: from the procedures to histories.  The modules on sends, salts, bookkeeping
  and frames that do not come from the server all use it.
* `exists_turns`: `Connection.run` is a history of turns.
-/

namespace Mtproto

open Session

/-! ## 1. The session at the start -/

/-- What is done to a session before it begins to work. -/
inductive Session.Preparation where
  | withDcs (dcs : List Datacenter)
  | restore (stored : Snapshot)

/-- The session after a preparation. -/
def Session.prepare (s : Session) : Preparation → Session
  | .withDcs dcs => s.withDcs dcs
  | .restore stored => s.restore stored

/-- All that a connection starts with. -/
structure Setting where
  keys : List RsaKey
  /-- Where the line will fail. -/
  line : Nat → Option Error
  preparations : List Preparation
  limits : Limits
  tape : Entropy
  /-- When the session begins to work. -/
  now : Instant

/-- The session that begins to work. -/
def Setting.session (g : Setting) : Session :=
  g.preparations.foldl prepare { new g.keys with line := g.line }

/-- Nothing has happened to a session, but that it may have a key. -/
structure Session.Fresh (s : Session) : Prop where
  exchange : ∃ keys, s.exchange = .new keys
  queued : s.queued = []
  acks : s.acks = []
  pongs : s.pongs = []
  deliveries : s.deliveries = []
  written : s.written = []
  outcomes : s.outcomes = []
  ready : s.ready = none

theorem Setting.fresh (g : Setting) : g.session.Fresh := by
  have hfold : ∀ (preparations : List Preparation) (s : Session), s.Fresh →
      (preparations.foldl prepare s).Fresh := by
    intro preparations
    induction preparations with
    | nil => exact fun _ h => h
    | cons preparation preparations ih =>
      intro s h
      refine ih _ ?_
      cases preparation <;>
        exact ⟨h.exchange, h.queued, h.acks, h.pongs, h.deliveries, h.written, h.outcomes, h.ready⟩
  exact hfold _ _ ⟨⟨g.keys, rfl⟩, rfl, rfl, rfl, rfl, rfl, rfl, rfl⟩

/-! ## 2. Events -/

namespace Connection

/-- What can happen to a connection. -/
inductive Event where
  /-- The session takes a turn, if there is anything to do. -/
  | turn (now : Instant)
  | arrive (bytes : Bytes)
  | hangUp
  | submit (command : Command)
  /-- The application takes what comes first. -/
  | receive
  | stopListening
  | abandon

/-- The send that an event brings. -/
def Event.send? : Event → Option (Ticket × Bytes)
  | .submit command => command.send?
  | .turn _ | .arrive _ | .hangUp | .receive | .stopListening | .abandon => none

/-- The connection after an event. -/
def happen (c : Connection) : Event → Connection
  | .turn now => match c.work? with
    | some w => c.perform now w
    | none => { c with burst := 0 }
  | .arrive bytes => c.arrive bytes
  | .hangUp => c.hangUp
  | .submit command => c.submit command
  | .receive => c.takeEvent.2
  | .stopListening => c.stopListening
  | .abandon => c.abandon

/-- The events, each with the connection that it finds. -/
def trace (c : Connection) : List Event → List (Connection × Event)
  | [] => []
  | event :: events => (c, event) :: (c.happen event).trace events

theorem trace_append (c : Connection) (events more : List Event) :
    c.trace (events ++ more) = c.trace events ++ (events.foldl happen c).trace more := by
  induction events generalizing c with
  | nil => rfl
  | cons event events ih =>
    rw [List.cons_append, trace, ih, List.foldl_cons, trace, List.cons_append]

/-- The sends that some events bring, in order. -/
def sends (events : List Event) : List (Ticket × Bytes) :=
  events.filterMap Event.send?

/-- A run is a sequence of turns. -/
theorem exists_turns (now : Instant) (c : Connection) :
    ∃ n, c.run now = (List.replicate n (Event.turn now)).foldl happen c := by
  induction c using Connection.run.induct now with
  | case1 c hwork =>
    refine ⟨1, ?_⟩
    rw [Connection.run, hwork]
    simp [happen, hwork]
  | case2 c w hwork ih =>
    obtain ⟨n, hn⟩ := ih
    refine ⟨n + 1, ?_⟩
    rw [Connection.run, hwork, List.replicate_succ, List.foldl_cons]
    simpa [happen, hwork] using hn

end Connection

open Connection

/-- The connection at the start. -/
def Setting.connection (g : Setting) : Connection :=
  start g.now g.limits g.session g.tape

/-- The connection after some events. -/
def Setting.after (g : Setting) (events : List Event) : Connection :=
  events.foldl happen g.connection

theorem Setting.after_append (g : Setting) (events more : List Event) :
    g.after (events ++ more) = more.foldl happen (g.after events) :=
  List.foldl_append

/-! ## 3. What is upheld -/

/-- An assertion about a session and the sends that it has been given. -/
abbrev Session.Assertion := List (Ticket × Bytes) → Session → Prop

/-- Whatever a session does, it upholds assertions: one while it works, one when a procedure has
halted, and one at the end. -/
structure Session.Upheld (working halted done : Assertion) : Prop where
  send : ∀ given now ticket payload, Act.Triple (working given) (send now ticket payload)
    (fun _ => working (given ++ [(ticket, payload)])) fun _ => halted (given ++ [(ticket, payload)])
  onFrame : ∀ given now raw, Act.Triple (working given) (onFrame now raw)
    (fun _ => working given) fun _ => halted given
  deliver : ∀ given s deliveries, working given s → working given { s with deliveries }
  stop : ∀ given s, working given s → halted given s
  finish : ∀ given s others, halted given s → done (given ++ others) { s with
    queued := [], outcomes := s.outcomes ++ (s.queued ++ others).map unsent }
  refuse : ∀ given s ticket payload, done given s →
    done (given ++ [(ticket, payload)]) (s.settle ticket (.error .sessionClosed))

namespace Connection

variable {working halted done : Assertion} {given : List (Ticket × Bytes)} {c : Connection}

/-- The assertions hold of a connection that has been given some sends: those that the session has
taken up, and those that have not been served. -/
structure Holds (working done : Assertion) (given : List (Ticket × Bytes)) (c : Connection) :
    Prop where
  working : c.ended = none → ∃ taken, working taken c.session ∧
    given = taken ++ c.commands.filterMap Command.send?
  ended : ∀ how, c.ended = some how → done given c.session

/-- What holds at work and at the end holds always. -/
theorem Holds.always {p : Session → Prop} (h : Holds (fun _ => p) (fun _ => p) given c) :
    p c.session := by
  cases hended : c.ended with
  | none =>
    obtain ⟨taken, hp, -⟩ := h.working hended
    exact hp
  | some how => exact h.ended how hended

theorem holds_finish (h : Upheld working halted done) (hc : halted given c.session)
    (how : Except Halt Unit) :
    Holds working done (given ++ c.commands.filterMap Command.send?) (finish how c) := by
  obtain ⟨inbound, lingering, hfinish⟩ := exists_finish how c
  rw [hfinish]
  exact ⟨by simp, fun _ _ => h.finish given c.session _ hc⟩

theorem holds_carryOut (h : Upheld working halted done) {a : Act Session Unit}
    (ha : Act.Triple (· = c.session) a (fun _ => working given) fun _ => halted given)
    (hended : c.ended = none) :
    Holds working done (given ++ c.commands.filterMap Command.send?) (carryOut a c) := by
  unfold carryOut
  rcases hrun : a (c.session, c.tape) with ⟨halt | ⟨⟩, session, tape⟩
  · exact holds_finish (c := { c with session, tape }) h (ha.error rfl hrun) _
  · exact ⟨fun _ => ⟨given, ha.ok rfl hrun, rfl⟩, fun how hhow => by simp [hended] at hhow⟩

theorem holds_perform (h : Upheld working halted done) (now : Instant) {w : Work}
    (hwork : c.work? = some w) (hc : Holds working done given c) :
    Holds working done given (c.perform now w) := by
  rcases work?_eq_some_iff.mp hwork with ⟨hended, -, -, rfl⟩ | ⟨hended, -, -, rfl⟩ |
    ⟨incoming, others, hended, -, -, -, rfl⟩ | ⟨hended, -, hserving⟩
  · exact ⟨hc.working, hc.ended⟩
  all_goals
    obtain ⟨taken, hworking, hgiven⟩ := hc.working hended
  · exact ⟨fun _ => ⟨taken, h.deliver _ _ _ hworking, hgiven⟩, fun how hhow => by
      simp [perform, hended] at hhow⟩
  · exact ⟨fun _ => ⟨taken, h.deliver _ _ _ hworking, hgiven⟩, fun how hhow => by
      simp [perform, hended] at hhow⟩
  -- from here on the session does something, and most of it may end it
  have hstop : ∀ how, Holds working done given (finish how c) := fun how =>
    hgiven ▸ holds_finish h (h.stop _ _ hworking) how
  rcases serving?_eq_some_iff.mp hserving with ⟨command, others, hcommands, rfl⟩ | ⟨-, -, rfl⟩ |
    ⟨-, -, hreading⟩
  · rw [hcommands, List.filterMap_cons] at hgiven
    cases command with
    | send ticket payload =>
      have := holds_carryOut (c := { c with commands := others }) h
        ((h.send taken now ticket payload).pre fun _ hs => hs ▸ hworking) hended
      simpa [hgiven, Command.send?, perform] using this
    | snapshot ticket =>
      exact ⟨fun _ => ⟨taken, hworking, hgiven⟩, fun how hhow => by simp [perform, hended] at hhow⟩
    | close =>
      rw [hgiven]
      exact holds_finish (c := { c with commands := others }) h (h.stop _ _ hworking) (.ok ())
  · exact hstop (.ok ())
  obtain ⟨-, ⟨frame, rest, -, rfl⟩ | ⟨e, rest, -, rfl⟩ | ⟨-, rfl⟩⟩ :=
    reading?_eq_some_iff.mp hreading
  · rw [hgiven]
    exact holds_carryOut (c := { c with inbound := rest, burst := c.burst + 1 }) h
      ((h.onFrame taken now frame).pre fun _ hs => hs ▸ hworking) hended
  · exact hstop (.error (.error (.transport e)))
  · exact hstop (.error (.error .connectionClosed))

theorem holds_submit (h : Upheld working halted done) (hc : Holds working done given c)
    (command : Command) :
    Holds working done (given ++ command.send?.toList) (c.submit command) := by
  unfold submit
  cases hended : c.ended with
  | none =>
    obtain ⟨taken, hworking, hgiven⟩ := hc.working hended
    refine ⟨fun _ => ⟨taken, hworking, ?_⟩, fun how hhow => by simp at hhow⟩
    rw [hgiven, List.filterMap_append, List.append_assoc]
    cases command <;> rfl
  | some how =>
    have hdone := hc.ended how hended
    cases command with
    | send ticket payload =>
      exact ⟨fun hnone => by simp at hnone, fun _ _ => h.refuse _ _ _ _ hdone⟩
    | snapshot ticket | close =>
      rw [Command.send?, Option.toList_none, List.append_nil]
      exact hc

/-- **An event upholds the assertions.** -/
theorem holds_happen (h : Upheld working halted done) (hc : Holds working done given c)
    (event : Event) : Holds working done (given ++ event.send?.toList) (c.happen event) := by
  have hsame : ∀ d : Connection, d.ended = c.ended → d.session = c.session →
      d.commands = c.commands → Holds working done (given ++ []) d := by
    intro d hended hsession hcommands
    rw [List.append_nil]
    exact ⟨by rw [hended, hsession, hcommands]; exact hc.working,
      by rw [hended, hsession]; exact hc.ended⟩
  cases event with
  | turn now =>
    unfold happen
    cases hwork : c.work? with
    | none => exact hsame _ rfl rfl rfl
    | some w =>
      rw [Event.send?, Option.toList_none, List.append_nil]
      exact holds_perform h now hwork hc
  | submit command => exact holds_submit h hc command
  | receive =>
    have htake : c.takeEvent.2.ended = c.ended ∧ c.takeEvent.2.session = c.session ∧
        c.takeEvent.2.commands = c.commands := by
      unfold takeEvent
      split <;> exact ⟨rfl, rfl, rfl⟩
    exact hsame _ htake.1 htake.2.1 htake.2.2
  | arrive bytes | hangUp | stopListening | abandon => exact hsame _ rfl rfl rfl

theorem holds_happens (h : Upheld working halted done) (hc : Holds working done given c)
    (events : List Event) : Holds working done (given ++ sends events) (events.foldl happen c) := by
  induction events generalizing given c with
  | nil =>
    rw [sends, List.filterMap_nil, List.append_nil]
    exact hc
  | cons event events ih =>
    have := ih (holds_happen h hc event)
    rw [List.append_assoc] at this
    cases hsend : event.send? with
    | none =>
      rw [hsend] at this
      rwa [sends, List.filterMap_cons_none hsend]
    | some send =>
      rw [hsend] at this
      rwa [sends, List.filterMap_cons_some hsend]

end Connection

/-- **What is upheld holds in every history.** -/
theorem Setting.holds_after {working halted done : Assertion} (g : Setting)
    (hbegin : Act.Triple (· = g.session) (begin g.now) (fun _ => working []) fun _ => halted [])
    (h : Upheld working halted done) (events : List Event) :
    Holds working done (sends events) (g.after events) := by
  have hstart : Holds working done [] g.connection :=
    holds_carryOut (c := { limits := g.limits, session := g.session, tape := g.tape }) h hbegin rfl
  exact holds_happens h hstart events

end Mtproto
