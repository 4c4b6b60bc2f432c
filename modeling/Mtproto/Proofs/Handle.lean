import Mathlib.Tactic.Common
import Mtproto.Client
import Mtproto.Proofs.Salts

/-!
# What a client learns of the end of its session

`Client` is the application's handle on a session.  The session ends once, with an error or without,
and the handle has three ways to ask how: `Client.finish`, behind `join` and `shutdown`, looks at
the session the first time and keeps the answer; `Client.waitReady` waits for a key and answers with
the error if the session ends first.

A session that has ended stays as it is (`Connection.happens_of_ended`), so asking again gives the
same answer (`AtRest.finish`).

Waiting for a key is different.  The first call waits for the signal that there is a key, which can
be waited for only once.  Where none comes its answer is how the session has ended
(`AtRest.waitReady_first`), and if it is still waiting by then, the end brings it the same answer
(`Works.awaited_of_failed`).  All later calls ask the session for its state instead, and a session
that has ended gives none (`AtRest.answer_later`): they are told that the session is closed,
whatever it has ended with.

* `failure_reported`: all of this for every session that ends with an error before there is a key,
  and for every history of its client.
* `second_wait_other`: a second call that is not told the error.
-/

namespace Mtproto

/-! ## 1. Runs of a connection -/

/-- The request for a state that a command is. -/
def Command.snapshot? : Command → Option Ticket
  | .snapshot ticket => some ticket
  | .send _ _ | .close => none

namespace Connection

variable {c : Connection} {how : Except Halt Unit}

/-- Nothing happens to a session that has ended, but that sends are refused. -/
theorem happen_of_ended (h : c.ended = some how) (event : Event) :
    (c.happen event).ended = some how ∧ (c.happen event).snapshots = c.snapshots ∧
      (c.happen event).session.isReady = c.session.isReady := by
  cases event with
  | turn now =>
    unfold happen
    cases hwork : c.work? with
    | none => exact ⟨h, rfl, rfl⟩
    | some w =>
      rcases work?_eq_some_iff.mp hwork with ⟨-, -, -, rfl⟩ | ⟨hnone, -⟩ | ⟨-, -, hnone, -⟩ |
        ⟨hnone, -⟩
      · exact ⟨h, rfl, rfl⟩
      · cases h.symm.trans hnone
      · cases h.symm.trans hnone
      · cases h.symm.trans hnone
  | submit command =>
    change (c.submit command).ended = some how ∧ (c.submit command).snapshots = c.snapshots ∧
      (c.submit command).session.isReady = c.session.isReady
    unfold submit
    split
    · rename_i hnone
      cases h.symm.trans hnone
    all_goals exact ⟨h, rfl, rfl⟩
  | receive =>
    unfold happen takeEvent
    cases c.events <;> exact ⟨h, rfl, rfl⟩
  | arrive | hangUp | stopListening | abandon => exact ⟨h, rfl, rfl⟩

/-- **An end is final.** -/
theorem happens_of_ended (h : c.ended = some how) (events : List Event) :
    (events.foldl happen c).ended = some how ∧ (events.foldl happen c).snapshots = c.snapshots ∧
      (events.foldl happen c).session.isReady = c.session.isReady := by
  induction events generalizing c with
  | nil => exact ⟨h, rfl, rfl⟩
  | cons event events ih =>
    obtain ⟨hended, hsnapshots, hready⟩ := happen_of_ended h event
    obtain ⟨hended', hsnapshots', hready'⟩ := ih hended
    exact ⟨hended', hsnapshots'.trans hsnapshots, hready'.trans hready⟩

/-- A connection with nothing to do rests, and the next burst begins anew. -/
theorem run_of_idle (now : Instant) (h : c.work? = none) : c.run now = { c with burst := 0 } := by
  rw [Connection.run, h]

/-- A run does its first piece of work and then the others. -/
theorem run_of_work (now : Instant) {w : Work} (h : c.work? = some w) :
    c.run now = (c.perform now w).run now := by
  rw [Connection.run, h]

/-- After a run there is nothing to do. -/
theorem work?_run (now : Instant) (c : Connection) : (c.run now).work? = none := by
  induction c using Connection.run.induct now with
  | case1 c hwork =>
    rw [run_of_idle now hwork]
    exact hwork
  | case2 c w hwork ih =>
    rw [run_of_work now hwork]
    exact ih

/-! ### States that are asked for -/

/-- The requests for a state that have been answered or wait. -/
def asked (c : Connection) : List Ticket :=
  c.snapshots.map Prod.fst ++ c.commands.filterMap Command.snapshot?

theorem asked_finish (how : Except Halt Unit) (c : Connection) :
    (finish how c).asked ⊆ c.asked := by
  obtain ⟨inbound, lingering, hfinish⟩ := exists_finish how c
  rw [hfinish]
  simp [asked]

theorem asked_carryOut (a : Act Session Unit) (c : Connection) :
    (carryOut a c).asked ⊆ c.asked := by
  unfold carryOut
  rcases a (c.session, c.tape) with ⟨halt | ⟨⟩, session, tape⟩
  · exact asked_finish (.error halt) { c with session, tape }
  · exact List.Subset.refl _

/-- Work does not ask for a state; it only answers what has been asked. -/
theorem asked_perform (now : Instant) {w : Work} (hwork : c.work? = some w) :
    (c.perform now w).asked ⊆ c.asked := by
  rcases work?_eq_some_iff.mp hwork with ⟨-, -, -, rfl⟩ | ⟨-, -, -, rfl⟩ |
    ⟨incoming, others, -, -, -, -, rfl⟩ | ⟨-, -, hserving⟩
  · exact List.Subset.refl _
  · exact List.Subset.refl _
  · exact List.Subset.refl _
  rcases serving?_eq_some_iff.mp hserving with ⟨command, others, hcommands, rfl⟩ | ⟨-, -, rfl⟩ |
    ⟨-, -, hreading⟩
  · have hothers : { c with commands := others }.asked ⊆ c.asked := by
      simp only [asked, hcommands, List.filterMap_cons]
      cases command.snapshot? <;> simp
    cases command with
    | send ticket payload => exact List.Subset.trans (asked_carryOut _ _) hothers
    | snapshot ticket => simp [perform, asked, hcommands, Command.snapshot?]
    | close => exact List.Subset.trans (asked_finish _ _) hothers
  · exact asked_finish _ _
  obtain ⟨-, ⟨frame, rest, -, rfl⟩ | ⟨e, rest, -, rfl⟩ | ⟨-, rfl⟩⟩ :=
    reading?_eq_some_iff.mp hreading
  · exact asked_carryOut _ _
  · exact asked_finish _ _
  · exact asked_finish _ _

theorem asked_submit (command : Command) {ticket : Ticket} (h : ticket ∈ (c.submit command).asked) :
    ticket ∈ c.asked ∨ command = .snapshot ticket := by
  cases hended : c.ended with
  | none =>
    have hasked : (c.submit command).asked = c.asked ++ command.snapshot?.toList := by
      simp only [submit, hended, asked, List.filterMap_append, List.append_assoc]
      cases command <;> rfl
    rw [hasked, List.mem_append] at h
    refine h.imp_right fun hmem => ?_
    cases command with
    | snapshot ticket' => rw [List.mem_singleton.mp hmem]
    | send | close => cases hmem
  | some how =>
    have hasked : (c.submit command).asked = c.asked := by
      simp only [submit, hended]
      cases command <;> simp [asked]
    exact Or.inl (hasked ▸ h)

/-- Only a command asks for a state. -/
theorem asked_happen (event : Event) {ticket : Ticket} (h : ticket ∈ (c.happen event).asked) :
    ticket ∈ c.asked ∨ event = .submit (.snapshot ticket) := by
  cases event with
  | turn now =>
    unfold happen at h
    cases hwork : c.work? with
    | none =>
      rw [hwork] at h
      exact Or.inl h
    | some w =>
      rw [hwork] at h
      exact Or.inl (asked_perform now hwork h)
  | submit command =>
    exact (asked_submit command h).imp_right fun heq => by rw [heq]
  | receive =>
    have hsame : c.takeEvent.2.asked = c.asked := by
      unfold takeEvent
      split <;> rfl
    exact Or.inl (hsame ▸ h)
  | arrive | hangUp | stopListening | abandon => exact Or.inl h

/-- Over any events, a state that is asked for has been asked for before or by one of them. -/
theorem asked_happens (events : List Event) {ticket : Ticket}
    (h : ticket ∈ (events.foldl happen c).asked) :
    ticket ∈ c.asked ∨ .submit (.snapshot ticket) ∈ events := by
  induction events generalizing c with
  | nil => exact Or.inl h
  | cons event events ih =>
    rcases ih h with hmem | hmem
    · refine (asked_happen event hmem).imp_right fun heq => ?_
      rw [heq]
      exact List.mem_cons_self
    · exact Or.inr (List.mem_cons_of_mem _ hmem)

/-- A session with nothing to do gives its state at once. -/
theorem run_snapshot (now : Instant) (ticket : Ticket) (hended : c.ended = none)
    (hidle : c.work? = none) : (c.submit (.snapshot ticket)).run now =
      { c with snapshots := c.snapshots ++ [(ticket, c.session.snapshot)], burst := 0 } := by
  have hcommands := commands_eq_nil hended hidle
  have hstuck : c.Stuck := by
    unfold work? at hidle
    unfold Stuck
    grind
  have hwork : (c.submit (.snapshot ticket)).work? = some (.serve (.snapshot ticket) []) := by
    simp only [submit, hended, hcommands, List.nil_append]
    exact work?_eq_some_iff.mpr (Or.inr (Or.inr (Or.inr ⟨rfl, hstuck,
      serving?_eq_some_iff.mpr (Or.inl ⟨_, _, rfl, rfl⟩)⟩)))
  have hperform : (c.submit (.snapshot ticket)).perform now (.serve (.snapshot ticket) []) =
      { c with snapshots := c.snapshots ++ [(ticket, c.session.snapshot)] } := by
    simp only [submit, hended, perform, hcommands]
  rw [run_of_work now hwork, hperform]
  exact run_of_idle now hidle

end Connection

/-! ## 2. What happens to a client -/

namespace Client

/-- What can happen to a client: something on the line, or a call of the application. -/
inductive Event where
  | arrive (now : Instant) (bytes : Bytes)
  | hangUp (now : Instant)
  | send (now : Instant) (payload : Bytes)
  | snapshot (now : Instant)
  | receive (now : Instant)
  | waitReady (now : Instant)
  | join
  | shutdown (now : Instant)
  | drop (now : Instant)

/-- The event is a call that waits for a key. -/
def Event.isWait : Event → Bool
  | .waitReady _ => true
  | .arrive .. | .hangUp _ | .send .. | .snapshot _ | .receive _ | .join | .shutdown _ | .drop _ =>
    false

/-- The client after an event. -/
def happen (c : Client) : Event → Client
  | .arrive now bytes => c.drive now (·.arrive bytes)
  | .hangUp now => c.drive now (·.hangUp)
  | .send now payload => (c.send now payload).2
  | .snapshot now => (c.snapshot now).2
  | .receive now => (c.receive now).2
  | .waitReady now => (c.waitReady now).2
  | .join => c.finish.2
  | .shutdown now => (c.shutdown now).2
  | .drop now => c.drop now

/-- The client after some events. -/
def after (c : Client) (events : List Event) : Client :=
  events.foldl happen c

theorem after_append (c : Client) (events more : List Event) :
    c.after (events ++ more) = (c.after events).after more :=
  List.foldl_append

/-- The answer to a first call that waits, while the events go on: it is looked for at once, and
again after each event. -/
def awaited (c : Client) : List Event → Option (Except Error Ready)
  | [] => c.awaitReady.1
  | event :: events => c.awaitReady.1.or ((c.happen event).awaited events)

variable {c : Client}

/-- What a client says of an end. -/
def verdict : Except Halt Unit → Except Error Unit
  | .ok () => .ok ()
  | .error (.error e) => .error e
  | .error (.fault _) => .error (.transport .sessionFailed)

/-- What is true of a client between calls. -/
structure AtRest (c : Client) : Prop where
  /-- The session has nothing to do. -/
  idle : c.connection.work? = none
  /-- Tickets are given out once. -/
  tickets : ∀ ticket ∈ c.connection.asked, ticket < c.tickets
  /-- What is kept is how the session has ended. -/
  outcome : ∀ o, c.outcome = some o → c.connection.ended.map verdict = some o

/-- The session has gone on by some events. -/
def Leads (c d : Client) : Prop :=
  ∃ events : List Connection.Event, d.connection = events.foldl Connection.happen c.connection

theorem Leads.refl (c : Client) : Leads c c := ⟨[], rfl⟩

/-- What goes on by some events and then by others goes on by both. -/
theorem Leads.trans {d k : Client} (h : Leads c d) (h' : Leads d k) : Leads c k := by
  obtain ⟨events, hd⟩ := h
  obtain ⟨more, hk⟩ := h'
  exact ⟨events ++ more, by rw [hk, hd, List.foldl_append]⟩

/-- Whatever is done to the connection, the client is at rest again when the session has worked. -/
theorem AtRest.drive (h : AtRest c) (now : Instant) {f : Connection → Connection}
    (events : List Connection.Event)
    (hf : f c.connection = events.foldl Connection.happen c.connection) {n : Ticket}
    (hn : c.tickets ≤ n) (hnew : ∀ ticket, .submit (.snapshot ticket) ∈ events → ticket < n) :
    AtRest ({ c with tickets := n }.drive now f) ∧
      Leads c ({ c with tickets := n }.drive now f) := by
  obtain ⟨k, hrun⟩ := Connection.exists_turns now (f c.connection)
  have hconnection : ({ c with tickets := n }.drive now f).connection =
      (events ++ List.replicate k (Connection.Event.turn now)).foldl Connection.happen
        c.connection := by
    rw [List.foldl_append, ← hf]
    exact hrun
  refine ⟨⟨Connection.work?_run now _, fun ticket hmem => ?_, fun o ho => ?_⟩, _, hconnection⟩
  · rw [hconnection] at hmem
    rcases Connection.asked_happens _ hmem with hmem | hmem
    · exact lt_of_lt_of_le (h.tickets ticket hmem) hn
    · rcases List.mem_append.mp hmem with hmem | hmem
      · exact hnew ticket hmem
      · cases List.eq_of_mem_replicate hmem
  · have hkept := h.outcome o ho
    obtain ⟨how, hended, rfl⟩ := Option.map_eq_some_iff.mp hkept
    rw [hconnection, (Connection.happens_of_ended hended _).1]
    rfl

/-- **How the session has ended can be asked for again and again.** -/
theorem AtRest.finish (h : AtRest c) :
    c.finish = (c.connection.ended.map verdict,
      { c with outcome := c.connection.ended.map verdict }) := by
  cases houtcome : c.outcome with
  | some o =>
    simp only [Client.finish, houtcome, h.outcome o houtcome]
    rw [← houtcome]
  | none =>
    cases hended : c.connection.ended with
    | none =>
      simp only [Client.finish, houtcome, hended, Option.map_none]
      rw [← houtcome]
    | some how =>
      simp only [Client.finish, houtcome, hended]
      rcases how with (e | fault) | ⟨⟩ <;> rfl

theorem AtRest.keep (h : AtRest c) (signalled : Bool) :
    AtRest { c with signalled, outcome := c.connection.ended.map verdict } :=
  ⟨h.idle, h.tickets, fun _ ho => ho⟩

/-- A call for the state leaves the client at rest, whether there is an answer or not. -/
theorem AtRest.snapshot (h : AtRest c) (now : Instant) :
    AtRest (c.snapshot now).2 ∧ Leads c (c.snapshot now).2 :=
  h.drive now [.submit (.snapshot c.tickets)] rfl (Nat.le_succ _) fun ticket hmem => by
    cases List.mem_singleton.mp hmem
    exact Nat.lt_succ_self _

/-- Taking a message lets the session hand over the next one, and then it rests again. -/
theorem AtRest.receive (h : AtRest c) (now : Instant) :
    AtRest (c.receive now).2 ∧ Leads c (c.receive now).2 := by
  unfold Client.receive
  cases hevents : c.connection.events with
  | nil =>
    simp only [Connection.takeEvent, hevents]
    exact ⟨h, .refl c⟩
  | cons incoming events =>
    have hdrive := h.drive now (f := fun k => k.takeEvent.2) [.receive] rfl le_rfl (by simp)
    simp only [Client.drive, Connection.takeEvent, hevents] at hdrive ⊢
    exact hdrive

/-- The signal is an answer. -/
theorem awaitReady_ready {ready : Ready} (hready : c.connection.session.ready = some ready) :
    c.awaitReady = (some (.ok ready), c) := by
  rw [awaitReady, hready]

/-- Without a signal, a call waits until the session has ended, and gets to know how. -/
theorem AtRest.awaitReady (h : AtRest c) (hready : c.connection.session.ready = none) :
    c.awaitReady =
      (c.connection.ended.map fun how => verdict how >>= fun _ => .error .sessionClosed,
        { c with outcome := c.connection.ended.map verdict }) := by
  simp only [Client.awaitReady, hready, h.finish, Option.map_map]
  rfl

/-- The first call takes the signal. -/
theorem waitReady_await (now : Instant) (hfirst : c.signalled = false) :
    c.waitReady now = { c with signalled := true }.awaitReady := by
  rw [Client.waitReady, hfirst, if_neg Bool.false_ne_true]

/-- The first call that waits takes the signal, if it has been given. -/
theorem waitReady_ready (now : Instant) (hfirst : c.signalled = false) {ready : Ready}
    (hready : c.connection.session.ready = some ready) :
    c.waitReady now = (some (.ok ready), { c with signalled := true }) :=
  (waitReady_await now hfirst).trans (awaitReady_ready hready)

theorem AtRest.signal (h : AtRest c) : AtRest { c with signalled := true } :=
  ⟨h.idle, h.tickets, h.outcome⟩

/-- **The first call that waits** gets to know how the session has ended, if there is no signal. -/
theorem AtRest.waitReady_first (h : AtRest c) (now : Instant) (hfirst : c.signalled = false)
    (hready : c.connection.session.ready = none) :
    c.waitReady now =
      (c.connection.ended.map fun how => verdict how >>= fun _ => .error .sessionClosed,
        { c with signalled := true, outcome := c.connection.ended.map verdict }) := by
  rw [waitReady_await now hfirst]
  exact h.signal.awaitReady hready

/-- The key in a state. -/
def keyIn (state : Snapshot) : Except Error Ready :=
  match state.auth with
  | some auth => .ok { auth, seqNo := state.seqNo }
  | none => .error .exchangeNotFinished

/-- Later calls ask for the state. -/
theorem waitReady_later (now : Instant) (hlater : c.signalled = true) :
    c.waitReady now = ((c.snapshot now).1.map (· >>= keyIn), (c.snapshot now).2) := by
  simp only [Client.waitReady, hlater, if_true]
  rfl

theorem AtRest.waitReady (h : AtRest c) (now : Instant) :
    AtRest (c.waitReady now).2 ∧ Leads c (c.waitReady now).2 := by
  cases hsignalled : c.signalled with
  | true =>
    rw [waitReady_later now hsignalled]
    exact h.snapshot now
  | false =>
    cases hready : c.connection.session.ready with
    | some ready =>
      rw [waitReady_ready now hsignalled hready]
      exact ⟨h.signal, .refl c⟩
    | none =>
      rw [h.waitReady_first now hsignalled hready]
      exact ⟨h.keep true, .refl c⟩

/-- A client that ends its session asks how it has ended. -/
theorem AtRest.exists_shutdown (h : AtRest c) (now : Instant) :
    ∃ d, AtRest d ∧ Leads c d ∧ d.signalled = c.signalled ∧ c.shutdown now = d.finish := by
  obtain ⟨hrest, hleads⟩ := h.drive now (f := fun k => k.stopListening.submit .close)
    [.stopListening, .submit .close] rfl le_rfl (by simp)
  exact ⟨_, hrest, hleads, rfl, rfl⟩

/-- **An event leaves a client at rest.** -/
theorem AtRest.happen (h : AtRest c) (event : Event) :
    AtRest (c.happen event) ∧ Leads c (c.happen event) := by
  cases event with
  | arrive now bytes => exact h.drive now [.arrive bytes] rfl le_rfl (by simp)
  | hangUp now => exact h.drive now [.hangUp] rfl le_rfl (by simp)
  | send now payload =>
    exact h.drive now [.submit (.send c.tickets payload)] rfl (Nat.le_succ _) (by simp)
  | snapshot now => exact h.snapshot now
  | receive now => exact h.receive now
  | waitReady now => exact h.waitReady now
  | join =>
    unfold Client.happen
    rw [h.finish]
    exact ⟨h.keep _, .refl c⟩
  | shutdown now =>
    obtain ⟨d, hrest, hleads, -, hshutdown⟩ := h.exists_shutdown now
    rw [Client.happen, hshutdown, hrest.finish]
    exact ⟨hrest.keep _, hleads⟩
  | drop now => exact h.drive now [.abandon] rfl le_rfl (by simp)

/-- Between any calls and anything that comes on the line, the client is at rest. -/
theorem AtRest.after (h : AtRest c) (events : List Event) :
    AtRest (c.after events) ∧ Leads c (c.after events) := by
  induction events generalizing c with
  | nil => exact ⟨h, .refl c⟩
  | cons event events ih =>
    obtain ⟨hrest, hleads⟩ := h.happen event
    obtain ⟨hrest', hleads'⟩ := ih hrest
    exact ⟨hrest', hleads.trans hleads'⟩

/-! ## 3. Waiting for a key -/

/-- Whether the signal has been taken. -/
theorem AtRest.signalled_happen (h : AtRest c) (event : Event) :
    (c.happen event).signalled = (c.signalled || event.isWait) := by
  cases event with
  | arrive | hangUp | send | snapshot | drop => exact (Bool.or_false _).symm
  | receive now =>
    rw [Client.happen, Client.receive, Event.isWait, Bool.or_false]
    split <;> rfl
  | waitReady now =>
    rw [Client.happen, Event.isWait, Bool.or_true]
    cases hsignalled : c.signalled with
    | true =>
      rw [waitReady_later now hsignalled]
      exact hsignalled
    | false =>
      cases hready : c.connection.session.ready with
      | some ready => rw [waitReady_ready now hsignalled hready]
      | none => rw [h.waitReady_first now hsignalled hready]
  | join =>
    rw [Client.happen, h.finish]
    exact (Bool.or_false _).symm
  | shutdown now =>
    obtain ⟨d, hrest, -, hsignalled, hshutdown⟩ := h.exists_shutdown now
    rw [Client.happen, hshutdown, hrest.finish]
    exact hsignalled.trans (Bool.or_false _).symm

/-- The signal is taken once some call has waited for it, and stays so. -/
theorem AtRest.signalled_after (h : AtRest c) (events : List Event) :
    (c.after events).signalled = (c.signalled || events.any Event.isWait) := by
  induction events generalizing c with
  | nil => exact (Bool.or_false _).symm
  | cons event events ih =>
    rw [List.any_cons, ← Bool.or_assoc, ← h.signalled_happen]
    exact ih (h.happen event).1

/-- The state that a later call asks for. -/
theorem AtRest.snapshot_answer (h : AtRest c) (now : Instant) :
    (c.snapshot now).1 = some (if c.connection.ended.isSome then .error .sessionClosed
      else .ok c.connection.session.snapshot) := by
  have hnew : c.connection.snapshots.lookup c.tickets = none := by
    refine List.lookup_eq_none_iff.mpr fun p hp => bne_iff_ne.mpr fun heq => ?_
    have hlt := h.tickets p.1 (List.mem_append_left _ (List.mem_map_of_mem hp))
    exact absurd hlt (heq ▸ lt_irrefl _)
  cases hended : c.connection.ended with
  | some how =>
    obtain ⟨k, hrun⟩ := Connection.exists_turns now
      (c.connection.submit (.snapshot c.tickets))
    have hconnection : (c.request now .snapshot).connection =
        (.submit (.snapshot c.tickets) :: List.replicate k (.turn now)).foldl Connection.happen
          c.connection := hrun
    obtain ⟨hended', hsnapshots, -⟩ := Connection.happens_of_ended hended
      (.submit (.snapshot c.tickets) :: List.replicate k (.turn now))
    rw [← hconnection] at hended' hsnapshots
    simp only [Client.snapshot, hsnapshots, hnew, hended']
    rfl
  | none =>
    have hconnection : (c.request now .snapshot).connection = _ :=
      Connection.run_snapshot now c.tickets hended h.idle
    simp only [Client.snapshot, hconnection, List.lookup_append, hnew]
    simp

/-- What a later call is told where there is no key. -/
def lateError (c : Client) : Error :=
  if c.connection.ended.isSome then .sessionClosed else .exchangeNotFinished

/-- **A later call that waits** is not told how the session has ended. -/
theorem AtRest.answer_later (h : AtRest c) (now : Instant) (hlater : c.signalled = true)
    (hauth : c.connection.session.framer.auth = none) :
    (c.waitReady now).1 = some (.error c.lateError) := by
  have hnone : c.connection.session.snapshot.auth = none := hauth
  rw [waitReady_later now hlater, h.snapshot_answer, lateError]
  split
  · rfl
  · simp only [Option.map_some, bind, Except.bind, keyIn, hnone]

/-! ## 4. A session that ends without a key -/

/-- A client at rest whose session has been put to work. -/
structure Works (c : Client) : Prop where
  rest : AtRest c
  history : ∃ (g : Setting) (events : List Connection.Event), c.connection = g.after events

/-- A client begins with a session that works, and nobody has waited yet. -/
theorem works_of_ofSession (g : Setting) {config : Config}
    (hstart : ofSession g.now config g.session g.tape = .ok c) : Works c ∧ c.signalled = false := by
  unfold ofSession at hstart
  simp only at hstart
  split at hstart
  · cases hstart
  · cases hstart
    let g' : Setting := { g with limits := ⟨config.maxFrameSize.toNat, config.channelCapacity⟩ }
    obtain ⟨k, hrun⟩ := Connection.exists_turns g.now g'.connection
    refine ⟨⟨⟨Connection.work?_run _ _, fun ticket hmem => ?_, nofun⟩, g', _, hrun⟩, rfl⟩
    -- nothing has been asked for
    have hnone : g'.connection.asked ⊆ [] := Connection.asked_carryOut _ _
    change ticket ∈ (g'.connection.run g.now).asked at hmem
    rw [hrun] at hmem
    rcases Connection.asked_happens _ hmem with hmem | hmem
    · cases hnone hmem
    · cases List.eq_of_mem_replicate hmem

theorem Works.after (h : Works c) (events : List Event) :
    Works (c.after events) ∧ Leads c (c.after events) := by
  obtain ⟨hrest, hleads⟩ := h.rest.after events
  obtain ⟨g, before, hbefore⟩ := h.history
  obtain ⟨more, hmore⟩ := hleads
  exact ⟨⟨hrest, g, before ++ more, by rw [hmore, hbefore, g.after_append]⟩, more, hmore⟩

/-- A session without a key has never had one. -/
theorem Works.keyless (h : Works c) {d : Client} (hleads : Leads c d)
    (hkey : d.connection.session.isReady = false) :
    c.connection.session.ready = none ∧ c.connection.session.framer.auth = none := by
  obtain ⟨g, events, hevents⟩ := h.history
  obtain ⟨more, hmore⟩ := hleads
  have hready : c.connection.session.ready = none := by
    cases hready : c.connection.session.ready with
    | none => rfl
    | some r =>
      -- the signal would be there still, and a key with it
      rw [hevents] at hready
      have hkeyed := (g.begun events).ready
      rw [hready] at hkeyed
      have hbegun := (g.begun (events ++ more)).ready
      rw [g.ready_after ⟨hready, hkeyed, g.locked events⟩, g.after_append, ← hevents, ← hmore,
        hkey] at hbegun
      cases hbegun
  have hbegun := (g.begun events).ready
  rw [← hevents, hready, Session.isReady] at hbegun
  exact ⟨hready, Option.not_isSome_iff_eq_none.mp (by rw [hbegun]; decide)⟩

/-- A session that has ended without a key. -/
structure Failed (c : Client) (how : Except Halt Unit) : Prop where
  ended : c.connection.ended = some how
  keyless : c.connection.session.isReady = false

/-- **A failure is final.** -/
theorem Failed.of_leads {d : Client} {how : Except Halt Unit} (h : Failed c how)
    (hleads : Leads c d) : Failed d how := by
  obtain ⟨events, hevents⟩ := hleads
  obtain ⟨hended, -, hready⟩ := Connection.happens_of_ended h.ended events
  rw [← hevents] at hended hready
  exact ⟨hended, hready.trans h.keyless⟩

theorem Works.signal (h : Works c) : Works { c with signalled := true } :=
  ⟨h.rest.signal, h.history⟩

section Failed

variable {d : Client} {how : Except Halt Unit} {e : Error}

/-- What a first call finds, in a session that fails: nothing before the end, and then the error. -/
theorem Works.awaitReady_of_failed (h : Works c) (hleads : Leads c d) (hfailed : Failed d how)
    (hhow : verdict how = .error e) :
    c.awaitReady.1 = c.connection.ended.map fun _ => .error e := by
  obtain ⟨hready, -⟩ := h.keyless hleads hfailed.keyless
  rw [h.rest.awaitReady hready]
  cases hended : c.connection.ended with
  | none => rfl
  | some how' =>
    -- the session has not ended in another way before
    obtain ⟨events, hevents⟩ := hleads
    have hsame := (Connection.happens_of_ended hended events).1
    rw [← hevents, hfailed.ended] at hsame
    cases hsame
    rw [Option.map_some, hhow]
    rfl

/-- **A first call that waits has the error for an answer in the end.** -/
theorem Works.awaited_of_failed (h : Works c) {events : List Event}
    (hfailed : Failed (c.after events) how) (hhow : verdict how = .error e) :
    c.awaited events = some (.error e) := by
  induction events generalizing c with
  | nil =>
    rw [awaited, h.awaitReady_of_failed (.refl c) hfailed hhow,
      show c.connection.ended = some how from hfailed.ended]
    rfl
  | cons event events ih =>
    obtain ⟨hnext, -⟩ := h.after [event]
    rw [awaited, h.awaitReady_of_failed (h.after (event :: events)).2 hfailed hhow]
    cases c.connection.ended with
    | none => exact ih hnext hfailed
    | some how' => rfl

/-- The answer to a call that waits, in a session that fails. -/
theorem Works.answer_of_failed (h : Works c) (hleads : Leads c d) (hfailed : Failed d how)
    (hhow : verdict how = .error e) (now : Instant) :
    (c.waitReady now).1 = if c.signalled then some (.error c.lateError)
      else c.connection.ended.map fun _ => .error e := by
  cases hsignalled : c.signalled with
  | true => exact h.rest.answer_later now hsignalled (h.keyless hleads hfailed.keyless).2
  | false =>
    rw [waitReady_await now hsignalled]
    exact h.signal.awaitReady_of_failed hleads hfailed hhow

end Failed

/-- **What a client learns of a failure.**  For every session that ends with an error before there
is a key, and for every history of its client:

* a call that waits for a key has the error for an answer if it is the first one.  If it comes
  before the end, it has none then and goes on waiting, and the end brings it the error;
* every later call that waits is told that the session is closed or, before the end, that the
  exchange has not been finished;
* so all that are answered have the error for an answer exactly if it is what later calls are told;
* from the end on, however often and in whatever order the client is used, the session has ended
  with the same error and without a key, and `join` and `shutdown` give this error, as does a first
  call that is still waiting. -/
theorem failure_reported (g : Setting) {config : Config} {events : List Event}
    {how : Except Halt Unit} {e : Error}
    (hstart : ofSession g.now config g.session g.tape = .ok c)
    (hended : (c.after events).connection.ended = some how) (hhow : verdict how = .error e)
    (hkey : (c.after events).connection.session.isReady = false) :
    (∀ before now rest, events = before ++ .waitReady now :: rest →
      ((c.after before).waitReady now).1 =
        if before.any Event.isWait then some (.error (c.after before).lateError)
        else (c.after before).connection.ended.map fun _ => .error e) ∧
    (∀ before now rest, events = before ++ .waitReady now :: rest →
      before.any Event.isWait = false →
        ((c.after before).waitReady now).2.awaited rest = some (.error e)) ∧
    ((∀ before now rest r, events = before ++ .waitReady now :: rest →
        ((c.after before).waitReady now).1 = some r → r = .error e) ↔
      ∀ before now rest, events = before ++ .waitReady now :: rest →
        before.any Event.isWait = true → (c.after before).lateError = e) ∧
    (∀ more, let d := c.after (events ++ more)
      d.connection.ended = some how ∧ d.connection.session.isReady = false ∧
      d.finish.1 = some (.error e) ∧ (∀ now, (d.shutdown now).1 = some (.error e)) ∧
      d.awaitReady.1 = some (.error e) ∧
      ∀ now, (d.waitReady now).1 =
        some (.error (if (events ++ more).any Event.isWait then .sessionClosed else e))) := by
  obtain ⟨hworks, hsilent⟩ := works_of_ofSession g hstart
  have hsignalled : ∀ before, (c.after before).signalled = before.any Event.isWait := by
    intro before
    rw [hworks.rest.signalled_after, hsilent, Bool.false_or]
  have hanswer : ∀ before now rest, events = before ++ .waitReady now :: rest →
      ((c.after before).waitReady now).1 =
        if before.any Event.isWait then some (.error (c.after before).lateError)
        else (c.after before).connection.ended.map fun _ => .error e := by
    rintro before now rest rfl
    obtain ⟨hbefore, -⟩ := hworks.after before
    rw [c.after_append] at hended hkey
    rw [← hsignalled before]
    exact hbefore.answer_of_failed (hbefore.after _).2 ⟨hended, hkey⟩ hhow now
  refine ⟨hanswer, ?_, ⟨fun hall before now rest hevents hlater => ?_, ?_⟩, fun more => ?_⟩
  · rintro before now rest rfl -
    -- the call itself is an event, and what follows leads on to the end
    obtain ⟨hwaiting, -⟩ := hworks.after (before ++ [.waitReady now])
    rw [c.after_append] at hwaiting
    rw [c.after_append] at hended hkey
    exact hwaiting.awaited_of_failed ⟨hended, hkey⟩ hhow
  · have hlate := hanswer before now rest hevents
    rw [if_pos hlater] at hlate
    exact Except.error.inj (hall before now rest _ hevents hlate)
  · intro hlate before now rest r hevents hr
    rw [hanswer before now rest hevents] at hr
    split at hr
    · rename_i hlater
      rw [hlate before now rest hevents hlater] at hr
      exact (Option.some.inj hr).symm
    · obtain ⟨how', -, rfl⟩ := Option.map_eq_some_iff.mp hr
      rfl
  · obtain ⟨hevents, -⟩ := hworks.after events
    obtain ⟨hd, hleads⟩ := hevents.after more
    rw [← c.after_append] at hd hleads
    have hfailed := Failed.of_leads ⟨hended, hkey⟩ hleads
    refine ⟨hfailed.ended, hfailed.keyless, ?_, fun now => ?_, ?_, fun now => ?_⟩
    · rw [hd.rest.finish, hfailed.ended, Option.map_some, hhow]
    · obtain ⟨k, hk, hleads, -, hshutdown⟩ := hd.rest.exists_shutdown now
      rw [hshutdown, hk.finish, (hfailed.of_leads hleads).ended, Option.map_some, hhow]
    · rw [hd.awaitReady_of_failed (.refl _) hfailed hhow, hfailed.ended, Option.map_some]
    · rw [hd.answer_of_failed (.refl _) hfailed hhow now, hsignalled, lateError, hfailed.ended]
      split <;> rfl

/-- A client that trusts nobody. -/
def distrustful : Setting where
  keys := []
  line _ := none
  preparations := []
  limits := ⟨1048576, 64⟩
  tape := .starting []
  now := ⟨0, 0⟩

/-- The peer hangs up at once, or while the application waits for a key. -/
theorem exists_hungUp : ∃ c,
    ofSession distrustful.now {} distrustful.session distrustful.tape = .ok c ∧
      Failed (c.after [.hangUp ⟨0, 0⟩]) (.error (.error .connectionClosed)) ∧
      Failed (c.after [.waitReady ⟨0, 0⟩, .hangUp ⟨0, 0⟩]) (.error (.error .connectionClosed)) := by
  have hidle : distrustful.connection.work? = none := by rfl
  let k : Connection := { distrustful.connection with burst := 0 }
  have hrun : distrustful.connection.run ⟨0, 0⟩ = k := Connection.run_of_idle _ hidle
  have hstop : k.hangUp.work? = some (.stop (.error (.error .connectionClosed))) := by rfl
  have hclosed : (k.hangUp.perform ⟨0, 0⟩ (.stop (.error (.error .connectionClosed)))).work? =
    none := by rfl
  have hend : k.hangUp.run ⟨0, 0⟩ =
      { k.hangUp.perform ⟨0, 0⟩ (.stop (.error (.error .connectionClosed))) with burst := 0 } := by
    rw [Connection.run_of_work _ hstop]
    exact Connection.run_of_idle _ hclosed
  have hstart : ofSession distrustful.now {} distrustful.session distrustful.tape =
    .ok { config := {}, connection := distrustful.connection.run ⟨0, 0⟩ } := by rfl
  have hafter : ({ config := {}, connection := k : Client }.after [.hangUp ⟨0, 0⟩]).connection =
    k.hangUp.run ⟨0, 0⟩ := rfl
  have hlater : ({ config := {}, connection := k : Client }.after
    [.waitReady ⟨0, 0⟩, .hangUp ⟨0, 0⟩]).connection = k.hangUp.run ⟨0, 0⟩ := rfl
  rw [hrun] at hstart
  rw [hend] at hafter hlater
  exact ⟨_, hstart, ⟨by rw [hafter]; rfl, by rw [hafter]; rfl⟩,
    by rw [hlater]; rfl, by rw [hlater]; rfl⟩

/-- Told once, and then only that the session is closed; a call that waits is told by the end. -/
theorem failure_reported_hungUp : ∃ c, ofSession distrustful.now {} distrustful.session
    distrustful.tape = .ok c ∧
      (c.after [.hangUp ⟨0, 0⟩]).connection.ended = some (.error (.error .connectionClosed)) ∧
      verdict (.error (.error .connectionClosed)) = .error .connectionClosed ∧
      (c.after [.hangUp ⟨0, 0⟩]).connection.session.isReady = false ∧
      ((c.after [.hangUp ⟨0, 0⟩]).waitReady ⟨0, 0⟩).1 = some (.error .connectionClosed) ∧
      ((c.after [.hangUp ⟨0, 0⟩, .waitReady ⟨0, 0⟩]).waitReady ⟨0, 0⟩).1 =
        some (.error .sessionClosed) ∧
      (c.after [.hangUp ⟨0, 0⟩, .waitReady ⟨0, 0⟩, .waitReady ⟨0, 0⟩]).finish.1 =
        some (.error .connectionClosed) ∧
      (c.waitReady ⟨0, 0⟩).2.awaited [.hangUp ⟨0, 0⟩] = some (.error .connectionClosed) := by
  obtain ⟨c, hstart, hfailed, hlater⟩ := exists_hungUp
  obtain ⟨-, -, -, hfinal⟩ :=
    failure_reported distrustful hstart hfailed.ended rfl hfailed.keyless
  obtain ⟨-, hawaited, -⟩ := failure_reported distrustful hstart hlater.ended rfl hlater.keyless
  exact ⟨c, hstart, hfailed.ended, rfl, hfailed.keyless, (hfinal []).2.2.2.2.2 _,
    (hfinal [.waitReady _]).2.2.2.2.2 _, (hfinal [.waitReady _, .waitReady _]).2.2.1,
    hawaited [] _ _ rfl rfl⟩

/-- **Not every call that waits is told how the session has ended.**  The peer hangs up before there
is a key; the first call has this error for an answer, and so has `join` in the end, but the second
call has another one. -/
theorem second_wait_other : ¬ ∀ c,
    ofSession distrustful.now {} distrustful.session distrustful.tape = .ok c →
    ∀ e, (c.after [.hangUp ⟨0, 0⟩]).connection.ended = some (.error (.error e)) →
      (c.after [.hangUp ⟨0, 0⟩]).connection.session.isReady = false →
      ((c.after [.hangUp ⟨0, 0⟩]).waitReady ⟨0, 0⟩).1 = some (.error e) ∧
      ((c.after [.hangUp ⟨0, 0⟩, .waitReady ⟨0, 0⟩]).waitReady ⟨0, 0⟩).1 = some (.error e) := by
  intro hall
  obtain ⟨c, hstart, hfailed, -⟩ := exists_hungUp
  obtain ⟨hworks, -⟩ := works_of_ofSession distrustful hstart
  obtain ⟨-, hsecond⟩ := hall c hstart _ hfailed.ended hfailed.keyless
  -- after the first call the client asks the session, which has ended
  obtain ⟨hwaited, -⟩ := hworks.after [.hangUp ⟨0, 0⟩, .waitReady ⟨0, 0⟩]
  have hsame : Failed (c.after [.hangUp ⟨0, 0⟩, .waitReady ⟨0, 0⟩])
      (.error (.error .connectionClosed)) :=
    hfailed.of_leads ((hworks.after [.hangUp ⟨0, 0⟩]).1.after [.waitReady ⟨0, 0⟩]).2
  have hsignalled : (c.after [.hangUp ⟨0, 0⟩, .waitReady ⟨0, 0⟩]).signalled = true := by
    rw [hworks.rest.signalled_after]
    exact Bool.or_true _
  rw [hwaited.answer_of_failed (.refl _) hsame rfl ⟨0, 0⟩, if_pos hsignalled, lateError,
    hsame.ended] at hsecond
  cases hsecond

end Client

end Mtproto
