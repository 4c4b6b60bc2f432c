import Mathlib.Tactic.Common
import Mtproto.Connection
import Mtproto.Proofs.Session

/-!
# Runs of a connection

A connection is a session at work between its queues, and `Connection.run` takes turns until nothing
can be done.  This module is about what can happen while the client does not close the connection
and its application goes on listening: turns of the session in any number (`Step`), and between them
bytes, a hang-up, commands, and an application that takes events when it likes.  `Reachable` is what
all of this leads to; a run of turns is a case of it (`Reachable.run`).

* `work?_eq_some_iff`, `serving?_eq_some_iff`, `reading?_eq_some_iff`: what a turn does, and when.
* `hangsUp_iff`: a hang-up ends the session exactly where there is nothing else to do.
* `Inv`: what is true of every reachable connection (`inv_perform`, `inv_of_reachable`).  The queue
  of the application never holds more than its capacity, and where no frame is long enough for an
  encrypted envelope there is nothing to deliver.
-/

namespace Mtproto

/-- The send that a command asks for. -/
def Command.send? : Command → Option (Ticket × Bytes)
  | .send ticket payload => some (ticket, payload)
  | .snapshot _ | .close => none

namespace Connection

open Transport

variable {limits : Limits} {c c' : Connection}

/-! ## 1. Steps -/

/-- A turn, or something from outside. -/
inductive Step (c : Connection) : Connection → Prop
  | turn (now : Instant) {w : Work} (h : c.work? = some w) : Step c (c.perform now w)
  | rest (h : c.work? = none) : Step c { c with burst := 0 }
  | arrive (bytes : Bytes) (h : c.hungUp = false) : Step c (c.arrive bytes)
  | hangUp : Step c c.hangUp
  | submit {command : Command} (h : command ≠ .close) : Step c (c.submit command)
  | receive : Step c c.takeEvent.2

/-- A connection that a session without deliveries has led to. -/
inductive Reachable (limits : Limits) : Connection → Prop
  | start (now : Instant) {session : Session} (tape : Entropy) (h : session.deliveries = []) :
    Reachable limits (start now limits session tape)
  | step {c c' : Connection} (h : Reachable limits c) (hs : Step c c') : Reachable limits c'

/-- A run is a sequence of turns. -/
theorem Reachable.run (now : Instant) (h : Reachable limits c) :
    Reachable limits (c.run now) := by
  induction c using Connection.run.induct now with
  | case1 c hwork =>
    rw [Connection.run, hwork]
    exact h.step (.rest hwork)
  | case2 c w hwork ih =>
    rw [Connection.run, hwork]
    exact ih (h.step (.turn now hwork))

/-! ## 2. What a turn does -/

/-- The stream has come to its end, as far as it can be read. -/
def Exhausted (c : Connection) : Prop :=
  c.hungUp = true ∧ c.isReadable = false

/-- Nothing can be handed over: there is nothing, or no room for it. -/
def Stuck (c : Connection) : Prop :=
  c.session.deliveries = [] ∨ c.listening = true ∧ c.limits.capacity ≤ c.events.length

theorem reading?_eq_some_iff {w : Work} :
    c.reading? = some w ↔ c.session.deliveries.length < c.limits.capacity ∧
      ((∃ frame rest, scanFrame c.limits.frameSize c.inbound = .frame frame rest ∧
          w = .read frame rest) ∨
        (∃ e rest, scanFrame c.limits.frameSize c.inbound = .refused e rest ∧
          w = .stop (.error (.error (.transport e)))) ∨
        (c.Exhausted ∧ w = .stop (.error (.error .connectionClosed)))) := by
  unfold reading? Exhausted isReadable
  by_cases hfull : c.limits.capacity ≤ c.session.deliveries.length
  · simp [hfull, Nat.not_lt.mpr hfull]
  · cases hscan : scanFrame c.limits.frameSize c.inbound with
    | frame frame rest => simp [hfull, Nat.lt_of_not_le hfull, @eq_comm _ w]
    | refused e rest => simp [hfull, Nat.lt_of_not_le hfull, @eq_comm _ w]
    | nothing => simp [hfull, Nat.lt_of_not_le hfull, @eq_comm _ w]
    | unfinished => simp [hfull, Nat.lt_of_not_le hfull, @eq_comm _ w]

theorem serving?_eq_some_iff {w : Work} :
    c.serving? = some w ↔ (∃ command others, c.commands = command :: others ∧
        w = .serve command others) ∨
      (c.commands = [] ∧ c.abandoned = true ∧ w = .stop (.ok ())) ∨
      (c.commands = [] ∧ c.abandoned = false ∧ c.reading? = some w) := by
  unfold serving?
  cases c.commands with
  | nil => cases c.abandoned <;> simp [@eq_comm _ w]
  | cons command others => simp [@eq_comm _ w]

theorem work?_eq_some_iff {w : Work} :
    c.work? = some w ↔
      (c.ended.isSome ∧ c.lingering = true ∧ (c.hungUp || c.isReadable) = true ∧ w = .release) ∨
      (c.ended = none ∧ c.listening = false ∧ c.session.deliveries ≠ [] ∧ w = .discard) ∨
      (∃ incoming others, c.ended = none ∧ c.listening = true ∧
        c.session.deliveries = incoming :: others ∧ c.events.length < c.limits.capacity ∧
        w = .deliver incoming others) ∨
      (c.ended = none ∧ c.Stuck ∧ c.serving? = some w) := by
  unfold work? Stuck
  cases c.ended with
  | some how => cases c.lingering <;> simp [@eq_comm _ w]
  | none =>
    cases c.session.deliveries with
    | nil => simp
    | cons incoming others =>
      by_cases hlistening : c.listening = true
      · by_cases hroom : c.events.length < c.limits.capacity
        · simp [hlistening, hroom, Nat.not_le.mpr hroom, @eq_comm _ w]
        · simp [hlistening, hroom, Nat.le_of_not_lt hroom]
      · simp [hlistening, @eq_comm _ w]

/-- The next turn ends the session because the peer has closed the connection. -/
def HangsUp (c : Connection) : Prop :=
  c.work? = some (.stop (.error (.error .connectionClosed)))

/-- **When a hang-up ends the session.** -/
theorem hangsUp_iff : c.HangsUp ↔ c.ended = none ∧ c.commands = [] ∧ c.abandoned = false ∧
    c.Exhausted ∧ c.session.deliveries.length < c.limits.capacity ∧ c.Stuck := by
  rw [HangsUp, work?_eq_some_iff, serving?_eq_some_iff, reading?_eq_some_iff]
  simp only [reduceCtorEq, Work.stop.injEq, Except.error.injEq, Halt.error.injEq, and_false,
    exists_false, false_or, and_true]
  constructor
  · rintro ⟨hended, hstuck, hcommands, habandoned, hroom, hexhausted⟩
    exact ⟨hended, hcommands, habandoned, hexhausted, hroom, hstuck⟩
  · rintro ⟨hended, hcommands, habandoned, hexhausted, hroom, hstuck⟩
    exact ⟨hended, hstuck, hcommands, habandoned, hroom, hexhausted⟩

/-! ## 3. The end of a session -/

/-- What comes of a send that the session has not written. -/
def unsent (send : Ticket × Bytes) : Ticket × Except Error UInt64 :=
  (send.1, .error .sessionClosed)

theorem close_eq (s : Session) : s.close =
    { s with queued := [], outcomes := s.outcomes ++ s.queued.map unsent } := by
  unfold Session.close
  generalize s.queued = queued
  induction queued generalizing s with
  | nil => simp
  | cons send queued ih =>
    refine (ih (s.settle send.1 (.error .sessionClosed))).trans ?_
    simp [Session.settle, unsent]

/-- However a session ends, the sends that it has not written come to nothing. -/
theorem exists_finish (how : Except Halt Unit) (c : Connection) :
    ∃ inbound lingering, finish how c = { c with
      inbound, lingering, commands := [], ended := some how
      session := { c.session with
        queued := []
        outcomes := c.session.outcomes ++
          (c.session.queued ++ c.commands.filterMap Command.send?).map unsent } } := by
  have hfold : ∀ {refuse : Session → Command → Session},
      (∀ s command, refuse s command = { s with
        outcomes := s.outcomes ++ (command.send?.toList).map unsent }) →
      c.commands.foldl refuse c.session.close = { c.session with
        queued := []
        outcomes := c.session.outcomes ++
          (c.session.queued ++ c.commands.filterMap Command.send?).map unsent } := by
    intro refuse hrefuse
    rw [close_eq, List.map_append, ← List.append_assoc]
    generalize c.session.outcomes ++ c.session.queued.map unsent = outcomes
    induction c.commands generalizing outcomes with
    | nil => simp
    | cons command commands ih =>
      rw [List.foldl_cons, hrefuse, ih, List.filterMap_cons]
      cases command.send? <;> simp
  have hrefuse : ∀ (s : Session) (command : Command),
      (match command with
        | .send ticket _ => s.settle ticket (.error .sessionClosed)
        | .snapshot _ | .close => s) =
      { s with outcomes := s.outcomes ++ (command.send?.toList).map unsent } := by
    rintro s (⟨ticket, payload⟩ | ticket | -)
    · rfl
    · simp [Command.send?]
    · simp [Command.send?]
  refine ⟨(finish how c).inbound, (finish how c).lingering, ?_⟩
  rw [← hfold hrefuse]
  rcases how with (error | fault) | ⟨⟩ <;> rfl

/-- A session that has ended hands over nothing. -/
theorem run_of_ended (now : Instant) {how : Except Halt Unit} (h : c.ended = some how) :
    (c.run now).ended = some how ∧ (c.run now).events = c.events := by
  induction c using Connection.run.induct now with
  | case1 c hwork =>
    rw [Connection.run, hwork]
    exact ⟨h, rfl⟩
  | case2 c w hwork ih =>
    rw [Connection.run, hwork]
    rcases work?_eq_some_iff.mp hwork with ⟨-, -, -, rfl⟩ | ⟨hnone, -⟩ | ⟨-, -, hnone, -⟩ |
      ⟨hnone, -⟩
    · exact ih h
    · rw [h] at hnone
      cases hnone
    · rw [h] at hnone
      cases hnone
    · rw [h] at hnone
      cases hnone

/-- **What has not been handed over when a hang-up ends the session never is.** -/
theorem run_of_hangsUp (now : Instant) (h : c.HangsUp) :
    (c.run now).ended = some (.error (.error .connectionClosed)) ∧
      (c.run now).events = c.events := by
  rw [Connection.run, h]
  exact run_of_ended now rfl

/-! ## 4. The invariant -/

/-- What is true of a connection at any time.  Deliveries wait for room in the application's queue,
which is never exceeded; and where no frame is long enough for an encrypted envelope there are
none. -/
structure Inv (limits : Limits) (c : Connection) : Prop where
  sameLimits : c.limits = limits
  listening : c.listening = true
  events : c.events.length ≤ limits.capacity
  quiet : limits.frameSize < Session.shortestEnvelope → c.session.deliveries = []

theorem Inv.finish (h : Inv limits c) (how : Except Halt Unit) : Inv limits (finish how c) := by
  obtain ⟨inbound, lingering, hfinish⟩ := exists_finish how c
  rw [hfinish]
  exact ⟨h.sameLimits, h.listening, h.events, h.quiet⟩

/-- A procedure of the session preserves the invariant if it delivers nothing where frames are
short. -/
theorem Inv.carryOut {a : Act Session Unit} (h : Inv limits c)
    (hquiet : limits.frameSize < Session.shortestEnvelope →
      (a (c.session, c.tape)).2.1.deliveries = c.session.deliveries) :
    Inv limits (carryOut a c) := by
  unfold Connection.carryOut
  rcases hrun : a (c.session, c.tape) with ⟨halt | ⟨⟩, session, tape⟩
  · rw [hrun] at hquiet
    exact Inv.finish (c := { c with session, tape }) ⟨h.sameLimits, h.listening, h.events,
      fun hshort => (hquiet hshort).trans (h.quiet hshort)⟩ _
  · rw [hrun] at hquiet
    exact ⟨h.sameLimits, h.listening, h.events, fun hshort =>
      (hquiet hshort).trans (h.quiet hshort)⟩

theorem inv_start (now : Instant) {session : Session} (tape : Entropy)
    (h : session.deliveries = []) : Inv limits (start now limits session tape) :=
  Inv.carryOut ⟨rfl, rfl, Nat.zero_le _, fun _ => h⟩ fun _ =>
    Session.keeps_begin Session.apart_deliveries now _

/-- Reading gives a frame within the limits. -/
theorem length_of_scanFrame {limit : Nat} {stream frame rest : Bytes}
    (h : scanFrame limit stream = .frame frame rest) : frame.length ≤ limit := by
  have hbody : ∀ words stream, scanBody limit words stream = .frame frame rest →
      frame.length ≤ limit := by
    intro words stream hbody
    unfold scanBody at hbody
    simp only at hbody
    split at hbody
    · cases hbody
    · rename_i hlimit
      split at hbody
      · cases hbody
      · split at hbody
        · cases hbody
        · cases hbody
          rw [List.length_take]
          omega
  unfold scanFrame at h
  split at h
  · cases h
  · split at h
    · exact hbody _ _ h
    · split at h
      · split at h
        · exact hbody _ _ h
        · cases h
      · cases h

/-- **A turn of the session loop preserves the invariant.** -/
theorem inv_perform (now : Instant) {w : Work} (h : Inv limits c) (hwork : c.work? = some w) :
    Inv limits (c.perform now w) := by
  rcases work?_eq_some_iff.mp hwork with ⟨-, -, -, rfl⟩ | ⟨-, -, -, rfl⟩ |
    ⟨incoming, others, -, -, hdeliveries, hroom, rfl⟩ | ⟨-, -, hserving⟩
  · exact ⟨h.sameLimits, h.listening, h.events, h.quiet⟩
  · exact ⟨h.sameLimits, h.listening, h.events, fun _ => rfl⟩
  · refine ⟨h.sameLimits, h.listening, ?_, fun hshort => ?_⟩
    · rw [h.sameLimits] at hroom
      rw [perform, List.length_append]
      exact hroom
    · have := h.quiet hshort
      rw [hdeliveries] at this
      cases this
  rcases serving?_eq_some_iff.mp hserving with ⟨command, others, -, rfl⟩ | ⟨-, -, rfl⟩ |
    ⟨-, -, hreading⟩
  · cases command with
    | send ticket payload =>
      exact Inv.carryOut (c := { c with commands := others })
        ⟨h.sameLimits, h.listening, h.events, h.quiet⟩ fun _ =>
          Session.keeps_send Session.apart_deliveries.aside.calm _ _ _ _
    | snapshot ticket => exact ⟨h.sameLimits, h.listening, h.events, h.quiet⟩
    | close =>
      exact Inv.finish (c := { c with commands := others })
        ⟨h.sameLimits, h.listening, h.events, h.quiet⟩ (.ok ())
  · exact h.finish (.ok ())
  obtain ⟨-, ⟨frame, rest, hscan, rfl⟩ | ⟨e, rest, -, rfl⟩ | ⟨-, rfl⟩⟩ :=
    reading?_eq_some_iff.mp hreading
  · refine Inv.carryOut (c := { c with inbound := rest, burst := c.burst + 1 })
      ⟨h.sameLimits, h.listening, h.events, h.quiet⟩ fun hshort => ?_
    have hlength := length_of_scanFrame hscan
    rw [h.sameLimits] at hlength
    exact Session.deliveries_onFrame (lt_of_le_of_lt hlength hshort) now _
  · exact h.finish (.error (.error (.transport e)))
  · exact h.finish (.error (.error .connectionClosed))

theorem inv_step (h : Inv limits c) (hs : Step c c') : Inv limits c' := by
  cases hs with
  | turn now hwork => exact inv_perform now h hwork
  | rest | arrive | hangUp => exact ⟨h.sameLimits, h.listening, h.events, h.quiet⟩
  | submit =>
    unfold submit
    split <;> exact ⟨h.sameLimits, h.listening, h.events, h.quiet⟩
  | receive =>
    unfold takeEvent
    cases hevents : c.events with
    | nil => exact h
    | cons incoming events =>
      have := h.events
      rw [hevents, List.length_cons] at this
      exact ⟨h.sameLimits, h.listening, Nat.le_of_succ_le this, h.quiet⟩

/-- **The invariant holds at any time.** -/
theorem inv_of_reachable (h : Reachable limits c) : Inv limits c := by
  induction h with
  | start now tape h => exact inv_start now tape h
  | step _ hs ih => exact inv_step ih hs

end Connection

end Mtproto
