import Mathlib.Tactic.Common
import Mtproto.Proofs.Contents
import Mtproto.Proofs.Unauthenticated

/-!
# What becomes of what a frame contains

`Session.onFrame` takes one frame.  What the message in it contains goes four ways: content is
acknowledged, pings are answered, messages and answers are delivered to the application, and a new
salt is taken up.  Acknowledgements and pongs leave the session before the next frame is read;
deliveries wait until the application's queue has room for them.

`Msg.Handled` says what has become of one frame (`handled_message`): the lists of what is to be
acknowledged and answered are empty again, the replies have been written as service messages and do
not count as content, and the deliveries of the frame stand behind those that were waiting.

In a history (`Setting.after`) the deliveries neither get lost nor change their order, while the
application listens and no frame fails (`Setting.deliveries_after`).  `Setting.bookkeeping` is both
together.
-/

namespace Mtproto

open Wire Session

/-! ## 1. One frame -/

/-- The service messages that a message calls for: a pong for each ping, and after them one
acknowledgement of all content, if there is any. -/
def Msg.Replies (msg : Msg) (payloads : List Bytes) : Prop :=
  ∃ pongs, List.Forall₂ (fun pong payload => boxedBytes pong = .ok payload) msg.pongs pongs ∧
    (msg.acks = [] ∧ payloads = pongs ∨
      msg.acks ≠ [] ∧ ∃ ack, boxedBytes (MsgsAck.mk msg.acks) = .ok ack ∧ payloads = pongs ++ [ack])

/-- What has become of a message. -/
structure Msg.Handled (msg : Msg) (s s' : Session) : Prop where
  acks : s'.acks = []
  pongs : s'.pongs = []
  deliveries : s'.deliveries = s.deliveries ++ msg.incoming
  /-- The replies have been written as service messages, and nothing else has. -/
  written : ∃ payloads raws, msg.Replies payloads ∧ s'.written = s.written ++ raws ∧
    List.Forall₂ (fun payload raw => ∃ auth, s'.framer.auth = some auth ∧
      Serves auth s.framer.seqNo payload raw) payloads raws
  seqNo : s'.framer.seqNo = s.framer.seqNo

namespace Session

/-- What a part leads to, done. -/
theorem exists_foldl_effects (p : Part) (s : Session) :
    ∃ framer, framer.seqNo = s.framer.seqNo ∧ p.effects.foldl apply s = { s with
      framer, acks := s.acks ++ p.ack?.toList, pongs := s.pongs ++ p.pong?.toList
      deliveries := s.deliveries ++ p.incoming?.toList } := by
  refine ⟨(p.effects.foldl apply s).framer, ?_⟩
  unfold Part.effects Part.response
  cases p.ack? <;> cases p.pong? <;> cases p.incoming? <;> cases p.salt? <;>
    simp [apply, Framer.setServerSalt]

/-- What the parts lead to, done. -/
theorem exists_foldl_parts (parts : List Part) (s : Session) :
    ∃ framer, framer.seqNo = s.framer.seqNo ∧ (parts.flatMap Part.effects).foldl apply s = { s with
      framer, acks := s.acks ++ parts.filterMap Part.ack?
      pongs := s.pongs ++ parts.filterMap Part.pong?
      deliveries := s.deliveries ++ parts.filterMap Part.incoming? } := by
  induction parts generalizing s with
  | nil => exact ⟨s.framer, rfl, by simp⟩
  | cons p parts ih =>
    obtain ⟨framer, hseq, hp⟩ := exists_foldl_effects p s
    obtain ⟨framer', hseq', hparts⟩ := ih { s with
      framer, acks := s.acks ++ p.ack?.toList, pongs := s.pongs ++ p.pong?.toList
      deliveries := s.deliveries ++ p.incoming?.toList }
    refine ⟨framer', hseq'.trans hseq, ?_⟩
    rw [List.flatMap_cons, List.foldl_append, hp, hparts]
    cases hack : p.ack? <;> cases hpong : p.pong? <;> cases hincoming : p.incoming? <;>
      simp [hack, hpong, hincoming]

/-- A message that can be handled has the effects of its parts. -/
theorem receive_applied (msg : Msg) (s : Session) :
    Act.Triple (· = s) (receive msg)
      (fun _ s' => s' = (msg.parts.flatMap Part.effects).foldl apply s) fun _ _ => True := by
  refine .update_bind
    (I := (· = (messageEffects {} msg.msgId msg.kind msg.payload).list.foldl apply s)) ?_ ?_
  · rintro s rfl
    rfl
  · cases hfailure : (messageEffects {} msg.msgId msg.kind msg.payload).failure with
    | some e => exact .fail fun _ _ => trivial
    | none =>
      refine .pure ?_
      rintro - rfl
      rw [messageEffects_list hfailure]

/-- What a message that can be handled leads to. -/
theorem receive_spec (msg : Msg) (s : Session) :
    Act.Triple (· = s) (receive msg)
      (fun _ s' => ∃ framer, framer.seqNo = s.framer.seqNo ∧ s' = { s with
        framer, acks := s.acks ++ msg.acks, pongs := s.pongs ++ msg.pongs
        deliveries := s.deliveries ++ msg.incoming })
      fun _ _ => True := by
  refine (receive_applied msg s).post ?_ fun _ _ h => h
  rintro - - rfl
  exact exists_foldl_parts msg.parts s

/-- **What `receive` makes of a message.** -/
theorem handled_message (now : Instant) (msg : Msg) {s : Session} (hacks : s.acks = [])
    (hpongs : s.pongs = []) :
    Act.Triple (· = s) (do receive msg; flush now) (fun _ => msg.Handled s) fun _ _ => True := by
  refine (receive_spec msg s).bind fun _ => .of_eq ?_
  rintro - ⟨framer, hseq, rfl⟩
  refine (flush_triple now _).post ?_ fun _ _ _ => trivial
  rintro - s' ⟨payloads, hdue, framer', raws, rfl, hauth, hseq', hraws⟩
  obtain ⟨pongs, hpongs', hpayloads⟩ := due_eq_ok_iff.mp hdue
  simp only [hacks, hpongs, List.nil_append] at hpongs' hpayloads
  refine ⟨rfl, rfl, rfl, ⟨payloads, raws, ⟨pongs, hpongs', hpayloads⟩, rfl, ?_⟩, hseq'.trans hseq⟩
  simp only [hseq] at hraws
  rw [hauth]
  exact hraws

/-- A message is delivered behind what waits. -/
theorem deliveries_message (now : Instant) (msg : Msg) (s : Session) :
    Act.Triple (· = s) (do receive msg; flush now)
      (fun _ s' => s'.deliveries = s.deliveries ++ msg.incoming) fun _ _ => True := by
  refine (receive_spec msg s).bind fun _ => .of_eq ?_
  rintro - ⟨framer, -, rfl⟩
  exact ((keeps_flush apart_deliveries.aside.calm (fun _ _ _ => rfl) now).triple_eq _).halts
    fun _ _ _ => trivial

/-! ## 2. Between frames -/

/-- What waits to be acknowledged and answered. -/
def pending (s : Session) : List UInt64 × List Pong :=
  (s.acks, s.pongs)

/-- Nothing waits to be acknowledged or answered. -/
def Clear (s : Session) : Prop :=
  s.pending = ([], [])

theorem apart_pending : Apart pending := fun _ _ _ _ _ _ _ => rfl

theorem clear_of_keeps {α : Type} {m : Act Session α} (hm : Act.Keeps pending m) :
    Act.Triple Clear m (fun _ => Clear) fun _ _ => True :=
  (hm.triple fun _ _ hsame h => hsame.trans h).halts fun _ _ _ => trivial

/-- A frame leaves nothing behind. -/
theorem clear_onFrame (now : Instant) (raw : Bytes) :
    Act.Triple Clear (onFrame now raw) (fun _ => Clear) fun _ _ => True := by
  refine onFrame_triple (fun _ _ _ => trivial)
    (fun payload => clear_of_keeps (keeps_onKeyExchange apart_pending now payload))
    fun msg => .of_eq fun s hs => ?_
  obtain ⟨hacks, hpongs⟩ := Prod.mk.inj hs
  exact (handled_message now msg hacks hpongs).post
    (fun _ _ h => Prod.ext h.acks h.pongs) fun _ _ h => h

theorem upheld_clear : Upheld (fun _ => Clear) (fun _ _ => True) fun _ _ => True where
  send _ now ticket payload := clear_of_keeps (keeps_send apart_pending.aside.calm now ticket payload)
  onFrame _ now raw := clear_onFrame now raw
  deliver _ _ _ h := h
  stop _ _ _ := trivial
  finish _ _ _ _ := trivial
  refuse _ _ _ _ _ := trivial

end Session

open Connection

theorem Setting.clear (g : Setting) {events : List Event} (hended : (g.after events).ended = none) :
    (g.after events).session.Clear := by
  have hfresh : g.session.Clear := Prod.ext g.fresh.acks g.fresh.pongs
  have hbegin : Act.Triple (· = g.session) (begin g.now) (fun _ => Clear) fun _ _ => True :=
    (clear_of_keeps (keeps_begin apart_pending g.now)).pre fun _ heq => heq ▸ hfresh
  obtain ⟨taken, hclear, -⟩ := (g.holds_after hbegin upheld_clear events).working hended
  exact hclear

/-! ## 3. Deliveries -/

namespace Connection

/-- What a turn hands over to the application. -/
def handedOver? : Connection × Event → Option Incoming
  | (c, .turn _) => match c.work? with
    | some (.deliver incoming _) => some incoming
    | _ => none
  | _ => none

/-- The message in an encrypted envelope that a turn takes up. -/
def takenUp? : Connection × Event → Option Msg
  | (c, .turn _) => match c.work? with
    | some (.read frame _) => match c.session.framer.parse frame with
      | .ok msg => if msg.kind = .keyExchange then none else some msg
      | .error _ => none
    | _ => none
  | _ => none

/-- What the application receives. -/
def received? : Connection × Event → Option Incoming
  | (c, .receive) => c.takeEvent.1
  | _ => none

/-- A turn reads a frame that the session cannot handle. -/
def Trouble (step : Connection × Event) : Prop :=
  ∃ now frame rest, step.2 = .turn now ∧ step.1.work? = some (.read frame rest) ∧
    (step.1.happen step.2).ended ≠ none

theorem finish_session (how : Except Halt Unit) (c : Connection) :
    (finish how c).session.deliveries = c.session.deliveries ∧
      (finish how c).listening = c.listening ∧ (finish how c).events = c.events := by
  obtain ⟨inbound, lingering, hfinish⟩ := exists_finish how c
  rw [hfinish]
  exact ⟨rfl, rfl, rfl⟩

theorem carryOut_session (a : Act Session Unit) (c : Connection) :
    (carryOut a c).session.deliveries = (a (c.session, c.tape)).2.1.deliveries ∧
      (carryOut a c).listening = c.listening ∧ (carryOut a c).events = c.events := by
  unfold carryOut
  rcases a (c.session, c.tape) with ⟨halt | ⟨⟩, session, tape⟩
  · exact finish_session _ _
  · exact ⟨rfl, rfl, rfl⟩

theorem carryOut_ended {a : Act Session Unit} {c : Connection}
    (hended : (carryOut a c).ended = none) : (a (c.session, c.tape)).1 = .ok () := by
  unfold carryOut at hended
  rcases hrun : a (c.session, c.tape) with ⟨halt | ⟨⟩, session, tape⟩
  · rw [hrun] at hended
    obtain ⟨inbound, lingering, hfinish⟩ :=
      exists_finish (.error halt) { c with session, tape }
    simp only [hfinish] at hended
    cases hended
  · rfl

/-- What a frame brings comes behind the deliveries that wait. -/
theorem deliveries_read {c : Connection} {now : Instant} {frame rest : Bytes}
    (hwork : c.work? = some (.read frame rest)) (huntroubled : ¬ Trouble (c, .turn now)) :
    (c.perform now (.read frame rest)).session.deliveries =
      c.session.deliveries ++ (takenUp? (c, .turn now)).toList.flatMap Msg.incoming := by
  obtain ⟨hsame, -⟩ :=
    carryOut_session (onFrame now frame) { c with inbound := rest, burst := c.burst + 1 }
  refine hsame.trans ?_
  simp only [takenUp?, hwork]
  cases hparse : c.session.framer.parse frame with
  | error e => simp [run_onFrame_refused hparse]
  | ok msg =>
    by_cases hkind : msg.kind = .keyExchange
    · simpa [hkind, run_onFrame_exchange hparse hkind] using
        keeps_onKeyExchange apart_deliveries now msg.payload (c.session, c.tape)
    · -- a message that is not gone through to its end ends the session
      have hended : (c.happen (.turn now)).ended = none := by
        by_contra hended
        exact huntroubled ⟨now, frame, rest, rfl, hwork, hended⟩
      simp only [happen, hwork] at hended
      have hok := carryOut_ended hended
      rw [run_onFrame_message hparse hkind] at hok ⊢
      rcases hrun : (do receive msg; flush now : Act Session Unit) (c.session, c.tape)
        with ⟨r, s', tape⟩
      rw [hrun] at hok
      obtain rfl : r = .ok () := hok
      simpa [hkind] using (deliveries_message now msg c.session).ok rfl hrun

/-- What a turn hands over was in front of the deliveries, and what it takes up comes behind
them. -/
theorem deliveries_turn {c : Connection} (now : Instant) (hlistening : c.listening = true)
    (huntroubled : ¬ Trouble (c, .turn now)) :
    (handedOver? (c, .turn now)).toList ++ (c.happen (.turn now)).session.deliveries =
      c.session.deliveries ++ (takenUp? (c, .turn now)).toList.flatMap Msg.incoming := by
  cases hwork : c.work? with
  | none => simp [handedOver?, takenUp?, happen, hwork]
  | some w =>
    have hhappen : c.happen (.turn now) = c.perform now w := by simp only [happen, hwork]
    rw [hhappen]
    rcases work?_eq_some_iff.mp hwork with ⟨-, -, -, rfl⟩ | ⟨-, hdeaf, -⟩ |
      ⟨incoming, others, -, -, hdeliveries, -, rfl⟩ | ⟨-, -, hserving⟩
    · simp [handedOver?, takenUp?, hwork, perform]
    · rw [hlistening] at hdeaf
      cases hdeaf
    · simp [handedOver?, takenUp?, hwork, perform, hdeliveries]
    rcases serving?_eq_some_iff.mp hserving with ⟨command, others, -, rfl⟩ | ⟨-, -, rfl⟩ |
      ⟨-, -, hreading⟩
    · simp only [handedOver?, takenUp?, hwork, Option.toList_none, List.nil_append,
        List.flatMap_nil, List.append_nil]
      cases command with
      | send ticket payload =>
        exact (carryOut_session _ _).1.trans
          (keeps_send apart_deliveries.aside.calm now ticket payload _)
      | snapshot ticket => rfl
      | close => exact (finish_session _ _).1
    · simpa [handedOver?, takenUp?, hwork, perform] using (finish_session (.ok ()) c).1
    obtain ⟨-, ⟨frame, rest, -, rfl⟩ | ⟨e, rest, -, rfl⟩ | ⟨-, rfl⟩⟩ :=
      reading?_eq_some_iff.mp hreading
    · simpa [handedOver?, hwork] using deliveries_read hwork huntroubled
    · simpa [handedOver?, takenUp?, hwork, perform] using (finish_session _ c).1
    · simpa [handedOver?, takenUp?, hwork, perform] using (finish_session _ c).1

theorem deliveries_happen {c : Connection} (event : Event) (hlistening : c.listening = true)
    (huntroubled : ¬ Trouble (c, event)) :
    (handedOver? (c, event)).toList ++ (c.happen event).session.deliveries =
      c.session.deliveries ++ (takenUp? (c, event)).toList.flatMap Msg.incoming := by
  cases event with
  | turn now => exact deliveries_turn now hlistening huntroubled
  | submit command =>
    have hsame : (c.submit command).session.deliveries = c.session.deliveries := by
      unfold submit
      split <;> rfl
    simpa [handedOver?, takenUp?, happen] using hsame
  | receive =>
    have hsame : c.takeEvent.2.session.deliveries = c.session.deliveries := by
      unfold takeEvent
      split <;> rfl
    simpa [handedOver?, takenUp?, happen] using hsame
  | arrive | hangUp | stopListening | abandon =>
    simp [handedOver?, takenUp?, happen, arrive, hangUp, stopListening, abandon]

/-- A turn adds to the application's queue what it hands over. -/
theorem events_perform {c : Connection} (now : Instant) {w : Work} (hwork : c.work? = some w) :
    (c.perform now w).events = c.events ++ (handedOver? (c, .turn now)).toList ∧
      (c.perform now w).listening = c.listening := by
  cases w with
  | deliver incoming others => simp [handedOver?, hwork, perform]
  | discard | release => simp [handedOver?, hwork, perform]
  | serve command others =>
    cases command with
    | send ticket payload =>
      obtain ⟨-, hlistening, hevents⟩ :=
        carryOut_session (send now ticket payload) { c with commands := others }
      simpa [handedOver?, hwork, perform] using ⟨hevents, hlistening⟩
    | snapshot ticket => simp [handedOver?, hwork, perform]
    | close =>
      obtain ⟨-, hlistening, hevents⟩ := finish_session (.ok ()) { c with commands := others }
      simpa [handedOver?, hwork, perform] using ⟨hevents, hlistening⟩
  | read frame rest =>
    obtain ⟨-, hlistening, hevents⟩ :=
      carryOut_session (onFrame now frame) { c with inbound := rest, burst := c.burst + 1 }
    simpa [handedOver?, hwork, perform] using ⟨hevents, hlistening⟩
  | stop how =>
    obtain ⟨-, hlistening, hevents⟩ := finish_session how c
    simpa [handedOver?, hwork, perform] using ⟨hevents, hlistening⟩

/-- What the application receives was in front of its queue, and what is handed over comes behind
it. -/
theorem events_happen {c : Connection} (event : Event)
    (hlistening : (c.happen event).listening = true) :
    c.listening = true ∧ (received? (c, event)).toList ++ (c.happen event).events =
      c.events ++ (handedOver? (c, event)).toList := by
  cases event with
  | turn now =>
    cases hwork : c.work? with
    | none =>
      simp only [happen, hwork] at hlistening
      exact ⟨hlistening, by simp [received?, handedOver?, happen, hwork]⟩
    | some w =>
      have hhappen : c.happen (.turn now) = c.perform now w := by simp only [happen, hwork]
      obtain ⟨hevents, hsame⟩ := events_perform now hwork
      rw [hhappen] at hlistening ⊢
      exact ⟨hsame ▸ hlistening, by simpa [received?] using hevents⟩
  | submit command =>
    have hsame : (c.submit command).listening = c.listening ∧
        (c.submit command).events = c.events := by
      unfold submit
      split <;> exact ⟨rfl, rfl⟩
    exact ⟨hsame.1 ▸ hlistening, by simp [received?, handedOver?, happen, hsame.2]⟩
  | receive =>
    unfold happen takeEvent at hlistening
    cases hevents : c.events with
    | nil =>
      rw [hevents] at hlistening
      exact ⟨hlistening, by simp [received?, handedOver?, happen, takeEvent, hevents]⟩
    | cons incoming others =>
      rw [hevents] at hlistening
      exact ⟨hlistening, by simp [received?, handedOver?, happen, takeEvent, hevents]⟩
  | arrive | hangUp => exact ⟨hlistening, by simp [received?, handedOver?, happen, arrive, hangUp]⟩
  | stopListening | abandon => cases hlistening

end Connection

/-- What has been handed over to the application in a history. -/
def Setting.handedOver (g : Setting) (events : List Event) : List Incoming :=
  (g.connection.trace events).filterMap handedOver?

/-- The messages in encrypted envelopes that have been taken up. -/
def Setting.takenUp (g : Setting) (events : List Event) : List Msg :=
  (g.connection.trace events).filterMap takenUp?

/-- What the application has received. -/
def Setting.received (g : Setting) (events : List Event) : List Incoming :=
  (g.connection.trace events).filterMap received?

theorem Setting.deliveries_connection (g : Setting) :
    g.connection.session.deliveries = [] ∧ g.connection.events = [] := by
  obtain ⟨hdeliveries, -, hevents⟩ := carryOut_session (begin g.now)
    { limits := g.limits, session := g.session, tape := g.tape }
  refine ⟨hdeliveries.trans ?_, hevents⟩
  exact (keeps_begin apart_deliveries g.now (g.session, g.tape)).trans g.fresh.deliveries

/-- One event more in a history. -/
theorem Setting.filterMap_trace {β : Type} (g : Setting) (f : Connection × Event → Option β)
    (events : List Event) (event : Event) :
    (g.connection.trace (events ++ [event])).filterMap f =
      (g.connection.trace events).filterMap f ++ (f (g.after events, event)).toList := by
  have htrace : g.connection.trace (events ++ [event]) =
      g.connection.trace events ++ [(g.after events, event)] := trace_append _ _ _
  rw [htrace, List.filterMap_append]
  cases h : f (g.after events, event) <;> simp [h]

/-- While the application listens and all frames can be handled, nothing gets lost and nothing
changes its order. -/
theorem Setting.deliveries_after (g : Setting) (events : List Event)
    (hlistening : (g.after events).listening = true)
    (huntroubled : ∀ step ∈ g.connection.trace events, ¬ Trouble step) :
    g.received events ++ (g.after events).events = g.handedOver events ∧
      g.handedOver events ++ (g.after events).session.deliveries =
        (g.takenUp events).flatMap Msg.incoming := by
  -- the application listens now, so it has listened all the time: the induction goes backwards
  induction events using List.reverseRecOn with
  | nil =>
    obtain ⟨hdeliveries, hevents⟩ := g.deliveries_connection
    exact ⟨hevents, hdeliveries⟩
  | append_singleton events event ih =>
    have hafter : g.after (events ++ [event]) = (g.after events).happen event :=
      g.after_append events [event]
    have htrace : g.connection.trace (events ++ [event]) =
        g.connection.trace events ++ [(g.after events, event)] := trace_append _ _ _
    rw [htrace] at huntroubled
    rw [hafter] at hlistening ⊢
    obtain ⟨hbefore, hevents⟩ := events_happen event hlistening
    have hdeliveries := deliveries_happen event hbefore (huntroubled _ (by simp))
    obtain ⟨hreceived, htaken⟩ := ih hbefore fun step h => huntroubled step (by simp [h])
    simp only [received, handedOver, takenUp, filterMap_trace, List.flatMap_append] at hreceived htaken ⊢
    constructor
    · rw [List.append_assoc, hevents, ← List.append_assoc, hreceived]
    · rw [List.append_assoc, hdeliveries, ← List.append_assoc, htaken]

/-- **Acknowledgements, pongs and deliveries are all that frames lead to.**  In every history:

* while the session is at work, nothing waits to be acknowledged or answered;
* a frame that it can handle is answered with a pong for each ping and then with one acknowledgement
  of all its content, and its messages and answers are delivered, in order;
* while the application listens and all frames can be handled, what has been handed over and what
  waits is what the frames have brought, in order, and the application receives it in this
  order. -/
theorem Setting.bookkeeping (g : Setting) (events : List Event) :
    let c := g.after events
    (c.ended = none → c.session.acks = [] ∧ c.session.pongs = []) ∧
    (c.ended = none → ∀ now raw msg tape s' tape', c.session.framer.parse raw = .ok msg →
      msg.kind ≠ .keyExchange → onFrame now raw (c.session, tape) = (.ok (), s', tape') →
        msg.Handled c.session s') ∧
    (c.listening = true → (∀ step ∈ g.connection.trace events, ¬ Trouble step) →
      g.received events ++ c.events = g.handedOver events ∧
        g.handedOver events ++ c.session.deliveries = (g.takenUp events).flatMap Msg.incoming) := by
  refine ⟨fun hended => Prod.mk.inj (g.clear hended), ?_, g.deliveries_after events⟩
  intro hended now raw msg tape s' tape' hparse hkind hrun
  obtain ⟨hacks, hpongs⟩ := Prod.mk.inj (g.clear hended)
  rw [run_onFrame_message hparse hkind] at hrun
  exact (handled_message now msg hacks hpongs).ok rfl hrun

end Mtproto
