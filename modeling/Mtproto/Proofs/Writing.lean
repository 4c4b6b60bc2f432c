import Mathlib.Tactic.Common
import Mtproto.Proofs.Framer
import Mtproto.Session.Basic

/-!
# What a session writes

`Session.write` formats a message and puts the frame on the line.  It touches four things of a
session: the framer, which counts, the frames that have been written, the outcomes of sends, and the
sends that wait.  Everything else is as before (`Aside`), whether a frame gets written or not.

* `write_triple`: what is left behind where the frame has been written (`Wrote`), and where the
  session has halted instead (`Missed`).
* `writeContent_triple`: the same for a send, with its outcome.
* `flush_triple`: acknowledgements and pongs are written after each message.  A session that halts
  in the middle of them has written the first ones and none of the others.
-/

namespace Mtproto.Session

open Wire

/-! ## 1. One frame -/

/-- A message has been written. -/
def Wrote (kind : MsgKind) (payload : Bytes) (s : Session) (msgId : UInt64) (s' : Session) : Prop :=
  ∃ framer raw, s' = { s with framer, written := s.written ++ [raw] } ∧
    Framer.Formats kind payload s.framer msgId raw framer

/-- A message has not been written. -/
def Missed (kind : MsgKind) (s s' : Session) : Prop :=
  ∃ framer, s' = { s with framer } ∧ Framer.Fails kind s.framer framer

/-- **A message is written, or the frames are as before.** -/
theorem write_triple (now : Instant) (kind : MsgKind) (payload : Bytes) (s : Session) :
    Act.Triple (· = s) (write now kind payload) (Wrote kind payload s) fun _ => Missed kind s := by
  have hframing : Act.Triple (· = s) (framing (Framer.format now kind payload))
      (fun r s' => ∃ framer, s' = { s with framer } ∧
        Framer.Formats kind payload s.framer r.1 r.2 framer) fun _ => Missed kind s := by
    refine .zoom ?_
    rintro s rfl
    exact (Framer.format_triple now kind payload s.framer).post
      (fun _ framer h => ⟨framer, rfl, h⟩) fun _ framer h => ⟨framer, rfl, h⟩
  refine hframing.bind fun ⟨msgId, raw⟩ => ?_
  -- a frame that the line does not take has been counted all the same
  have hmissed : ∀ (_ : Halt) s', (∃ framer, s' = { s with framer } ∧
      Framer.Formats kind payload s.framer msgId raw framer) → Missed kind s s' := by
    rintro - s' ⟨framer, rfl, h⟩
    exact ⟨framer, rfl, h.auth, fun hkind => by rw [h.seqNo, if_neg hkind]⟩
  refine .look (Act.keeps_ofExcept _) hmissed fun _ =>
    .bind (Q := fun _ => Wrote kind payload s msgId) (.state_bind ?_) fun _ => .pure fun _ h => h
  rintro - ⟨framer, rfl, h⟩
  cases s.line s.written.length with
  | some e =>
    refine .fail ?_
    rintro - rfl
    exact hmissed (.error e) _ ⟨framer, rfl, h⟩
  | none =>
    refine .update ?_
    rintro - rfl
    exact ⟨framer, raw, rfl, h⟩

/-! ## 2. What writing leaves as it is -/

section Aside

variable {τ : Type} {f : Session → τ}

/-- What `f` sees of a session has nothing to do with writing. -/
def Aside (f : Session → τ) : Prop :=
  ∀ s framer queued written outcomes, framer.auth = s.framer.auth →
    f { s with framer, queued, written, outcomes } = f s

theorem keeps_write (hf : Aside f) (now : Instant) (kind : MsgKind) (payload : Bytes) :
    Act.Keeps f (write now kind payload) := by
  refine .of_triple fun s => (write_triple now kind payload s).post ?_ ?_
  · rintro msgId - ⟨framer, raw, rfl, h⟩
    exact hf s framer s.queued _ s.outcomes h.auth
  · rintro halt - ⟨framer, rfl, h⟩
    exact hf s framer s.queued s.written s.outcomes h.auth

/-- Writing messages, and keeping account of sends, leaves alone what `f` sees of a session. -/
structure Calm (f : Session → τ) : Prop where
  write : ∀ now kind payload, Act.Keeps f (write now kind payload)
  sends : ∀ s queued outcomes, f { s with queued, outcomes } = f s

theorem Aside.calm (hf : Aside f) : Calm f :=
  ⟨keeps_write hf, fun s queued outcomes => hf s s.framer queued s.written outcomes rfl⟩

theorem keeps_settle (hf : Calm f) (ticket : Ticket) (outcome : Except Error UInt64) :
    Act.Keeps f (Act.update (settle ticket outcome)) :=
  Act.keeps_update fun s => hf.sends s s.queued _

theorem keeps_writeContent (hf : Calm f) (now : Instant) (ticket : Ticket) (payload : Bytes) :
    Act.Keeps f (writeContent now ticket payload) := by
  refine .tryCatch (.bind (hf.write _ _ _) fun _ => keeps_settle hf _ _) ?_
  rintro (e | fault)
  · exact .bind (keeps_settle hf _ _) fun _ => Act.keeps_throw _
  · exact .bind (keeps_settle hf _ _) fun _ => Act.keeps_throw _

theorem keeps_writeQueued (hf : Calm f) (now : Instant) (queued : List (Ticket × Bytes)) :
    Act.Keeps f (writeQueued now queued) := by
  induction queued with
  | nil => exact Act.keeps_pure _
  | cons entry queued ih =>
    exact .bind (Act.keeps_update fun s => hf.sends s queued s.outcomes) fun _ =>
      .bind (keeps_writeContent hf _ _ _) fun _ => ih

theorem keeps_send (hf : Calm f) (now : Instant) (ticket : Ticket) (payload : Bytes) :
    Act.Keeps f (send now ticket payload) :=
  .bind Act.keeps_state fun _ => .ite (keeps_writeContent hf _ _ _)
    (Act.keeps_update fun s => hf.sends s _ s.outcomes)

theorem keeps_flush (hf : Calm f) (hdue : ∀ s pongs acks, f { s with pongs, acks } = f s)
    (now : Instant) : Act.Keeps f (flush now) :=
  .bind Act.keeps_state fun _ => .bind (Act.keeps_ofExcept _) fun _ =>
    .bind (Act.keeps_update fun s => hdue s [] []) fun _ => .forM fun _ =>
      .bind (hf.write _ _ _) fun _ => Act.keeps_pure _

end Aside

/-! ## 3. Content -/

/-- Content has been written, and the sender knows its identifier. -/
def Posted (ticket : Ticket) (payload : Bytes) (s s' : Session) : Prop :=
  ∃ framer msgId raw, s' = { s with
      framer, written := s.written ++ [raw], outcomes := s.outcomes ++ [(ticket, .ok msgId)] } ∧
    Framer.Formats .content payload s.framer msgId raw framer

/-- Content has not been written, and the sender knows that. -/
def Refused (ticket : Ticket) (s s' : Session) : Prop :=
  ∃ framer e, s' = { s with framer, outcomes := s.outcomes ++ [(ticket, .error e)] } ∧
    framer.auth = s.framer.auth

theorem writeContent_triple (now : Instant) (ticket : Ticket) (payload : Bytes) (s : Session) :
    Act.Triple (· = s) (writeContent now ticket payload) (fun _ => Posted ticket payload s)
      fun _ => Refused ticket s := by
  refine .tryCatch (F := fun _ => Missed .content s) ?_ ?_
  · refine .bind (write_triple now .content payload s) fun msgId => .update ?_
    rintro - ⟨framer, raw, rfl, h⟩
    exact ⟨framer, msgId, raw, rfl, h⟩
  · rintro (e | fault)
    all_goals
      refine .update_bind (I := Refused ticket s) ?_ (.throw fun _ h => h)
      rintro - ⟨framer, rfl, h⟩
      exact ⟨framer, _, rfl, h.auth⟩

/-! ## 4. Service messages -/

/-- The other side opens a frame as a service message, with the salt and the session of a key and
with the number that a counter gives it. -/
def Serves (auth : Authorization) (seqNo : UInt32) (payload raw : Bytes) : Prop :=
  ∃ msgId, Envelope.decrypt auth.key .clientToServer raw = .ok
    { salt := auth.serverSalt, sessionId := auth.sessionId, msgId, seqNo, payload }

/-- Some service messages have been written, one after the other. -/
def Served (payloads : List Bytes) (s s' : Session) : Prop :=
  ∃ framer raws, s' = { s with framer, written := s.written ++ raws } ∧
    framer.auth = s.framer.auth ∧ framer.seqNo = s.framer.seqNo ∧
    List.Forall₂ (fun payload raw => ∃ auth, s.framer.auth = some auth ∧
      Serves auth s.framer.seqNo payload raw) payloads raws

theorem Served.nil (s : Session) : Served [] s s :=
  ⟨s.framer, [], by rw [List.append_nil], rfl, rfl, .nil⟩

/-- One service message after others. -/
theorem Served.snoc {payloads : List Bytes} {payload : Bytes} {s s' s'' : Session} {msgId : UInt64}
    (h : Served payloads s s') (hw : Wrote .service payload s' msgId s'') :
    Served (payloads ++ [payload]) s s'' := by
  obtain ⟨framer, raws, rfl, hauth, hseq, hraws⟩ := h
  obtain ⟨framer', raw, rfl, hformats⟩ := hw
  obtain ⟨auth, hauth', hopen⟩ := hformats.encrypted (by decide)
  refine ⟨framer', raws ++ [raw], by simp, hformats.auth.trans hauth, hformats.seqNo.trans hseq,
    List.rel_append hraws (.cons ⟨auth, hauth.symm.trans hauth', msgId, ?_⟩ .nil)⟩
  rw [← hseq]
  exact hopen

/-- A service message that has not been written after others. -/
theorem Served.missed {payloads : List Bytes} {s s' s'' : Session} (h : Served payloads s s')
    (hm : Missed .service s' s'') : Served payloads s s'' := by
  obtain ⟨framer, raws, rfl, hauth, hseq, hraws⟩ := h
  obtain ⟨framer', rfl, hfails⟩ := hm
  exact ⟨framer', raws, rfl, hfails.auth.trans hauth, (hfails.seqNo (by decide)).trans hseq, hraws⟩

/-- All that is due is written, or, where the writing halts, some first part of it. -/
theorem forM_service_triple (now : Instant) (s : Session) (due done : List Bytes) :
    Act.Triple (Served done s) (due.forM fun payload => do let _ ← write now .service payload)
      (fun _ => Served (done ++ due) s)
      fun _ s' => ∃ first, first <+: done ++ due ∧ Served first s s' := by
  induction due generalizing done with
  | nil =>
    refine .pure fun s' h => ?_
    rwa [List.append_nil]
  | cons payload due ih =>
    have hone : Act.Triple (Served done s) (do let _ ← write now .service payload)
        (fun _ => Served (done ++ [payload]) s)
        fun _ s' => ∃ first, first <+: done ++ payload :: due ∧ Served first s s' := by
      refine .of_eq fun s' hs' => ((write_triple now .service payload s').post
        (fun _ _ h => hs'.snoc h) ?_).bind fun _ => .pure fun _ h => h
      exact fun _ _ h => ⟨done, List.prefix_append _ _, hs'.missed h⟩
    have hrest := ih (done ++ [payload])
    rw [List.append_assoc, List.singleton_append] at hrest
    exact hone.bind fun _ => hrest

/-- What is due: the answers to pings, in order, and an acknowledgement if there is anything to
acknowledge. -/
theorem due_eq_ok_iff {s : Session} {payloads : List Bytes} :
    s.due = .ok payloads ↔ ∃ answers,
      List.Forall₂ (fun pong answer => boxedBytes pong = .ok answer) s.pongs answers ∧
      (s.acks = [] ∧ payloads = answers ∨
        s.acks ≠ [] ∧ ∃ ack, boxedBytes (MsgsAck.mk s.acks) = .ok ack ∧
          payloads = answers ++ [ack]) := by
  unfold due
  simp only [except_bind_eq_ok_iff, mapM_eq_ok_iff]
  refine exists_congr fun answers => and_congr_right fun _ => ?_
  by_cases hacks : s.acks = []
  · simp [hacks, pure, Except.pure, @eq_comm _ payloads]
  · simp [hacks, except_bind_eq_ok_iff, pure, Except.pure, @eq_comm _ payloads]

/-- **All that is due is written.**  Where the writing halts, some first part of it has been. -/
theorem flush_triple (now : Instant) (s : Session) :
    Act.Triple (· = s) (flush now)
      (fun _ s' => ∃ payloads, s.due = .ok payloads ∧
        Served payloads { s with pongs := [], acks := [] } s')
      fun _ s' => s' = s ∨ ∃ payloads first, s.due = .ok payloads ∧ first <+: payloads ∧
        Served first { s with pongs := [], acks := [] } s' := by
  refine .state_bind ?_
  rintro s rfl
  refine .ofExcept_bind (fun _ _ h => Or.inl h) fun payloads hdue => ?_
  rw [DecodeError.lift_eq_ok_iff] at hdue
  refine .update_bind (I := Served [] { s with pongs := [], acks := [] }) ?_ ?_
  · rintro s rfl
    exact .nil _
  · refine (forM_service_triple now { s with pongs := [], acks := [] } payloads []).post
      (fun _ s' h => ⟨payloads, hdue, h⟩) ?_
    rintro - s' ⟨first, hfront, h⟩
    exact Or.inr ⟨payloads, first, hdue, hfront, h⟩

end Mtproto.Session
