import Mathlib.Tactic.Common
import Mtproto.Proofs.Restoration
import Mtproto.Proofs.Snapshot
import Mtproto.Proofs.Unauthenticated

/-!
# Going on from a stored state

A program stores the state of a session (`Session.snapshot`, `Snapshot.encode`) and takes it up
later in a new session (`Snapshot.decode`, `Session.restore`).  What is stored is read back
unchanged, so the new session has the same state.  This module is about what the two framers do
from then on.

A stored state has the key and the counter, and these decide what comes of a step, up to the message
identifier and the padding.  There is one exception.  `Framer.format` looks at the clock first,
shifted by the offset of the server, and halts where that leaves the calendar.  So two framers with
one key and one counter answer alike exactly if, whenever a message is formatted, this happens to
both or to neither (`alike_iff_matched`).

The offset is not stored as such, but only as a part of the key.  A session that has a key goes by
its offset, whatever has been done with it (`Session.Arises.tuned`), and so does the one that takes
up its state.  A session whose key has been taken away keeps the offset of that key, because
`Framer.restore` replaces the offset only if there is a new key, and this offset is lost in a
restart.  Hence the condition in `Session.alike_resumed_iff`: there is a key, or the offset is zero.
-/

namespace Mtproto

namespace Framer

/-! ## 1. Framers that cannot be told apart -/

/-- Two envelopes of one message, each with an identifier of its own.  Under a key they have the
salt and the session of the key, and one sequence number. -/
def SameContents (auth : Option Authorization) (kind : MsgKind) (payload : Bytes)
    (msgId msgId' : UInt64) (raw raw' : Bytes) : Prop :=
  if kind = .keyExchange then
    PlainEnvelope.unwrap raw = .ok (msgId, payload) ∧
      PlainEnvelope.unwrap raw' = .ok (msgId', payload)
  else
    ∃ a seqNo, auth = some a ∧
      Envelope.decrypt a.key .clientToServer raw =
        .ok ⟨a.serverSalt, a.sessionId, msgId, seqNo, payload⟩ ∧
      Envelope.decrypt a.key .clientToServer raw' =
        .ok ⟨a.serverSalt, a.sessionId, msgId', seqNo, payload⟩

/-- Two outcomes of a step that are the same: two envelopes with the same contents, or else two
equal outcomes.  A message that halts has to halt for both, and with the same error or fault. -/
def Agree (auth : Option Authorization) :
    Step → Except Halt Answer → Except Halt Answer → Prop
  | .call (.format kind payload), .ok (.formatted msgId raw), .ok (.formatted msgId' raw') =>
    SameContents auth kind payload msgId msgId' raw raw'
  | _, outcome, outcome' => outcome = outcome'

/-- Two framers, each with its own clock and tape, to which some steps are the same: in the end they
have one key and one counter, and at each place the same has come of the step. -/
structure Alike (steps : List Step) (clock clock' : Nat → Instant) (s s' : Framer × Entropy) :
    Prop where
  standing : (run clock steps s).2.1.standing = (run clock' steps s').2.1.standing
  outcomes : ∀ before step rest, steps = before ++ step :: rest →
    ∃ outcome outcome', (run clock steps s).1[before.length]? = some outcome ∧
      (run clock' steps s').1[before.length]? = some outcome' ∧
      Agree (s.1.standing.after before).auth step outcome outcome'

/-- The key and the counter leave open nothing but the identifier and the padding. -/
theorem agree_of_comes {s : Standing} {step : Step} {outcome outcome' : Except Halt Answer}
    (h : Comes s step outcome) (h' : Comes s step outcome') :
    Agree s.auth step outcome outcome' := by
  cases h with
  | keyMissing hkind hauth =>
    cases h' with
    | keyMissing => rfl
    | overlong hkey _ => exact absurd hauth (hkey hkind)
    | plain => exact absurd rfl hkind
    | encrypted _ hauth' => simp [hauth] at hauth'
  | overlong hkey hlong =>
    cases h' with
    | keyMissing hkind hauth => exact absurd hauth (hkey hkind)
    | overlong => rfl
    | plain hlt => omega
    | encrypted _ _ hlt => omega
  | plain hlt hraw =>
    cases h' with
    | keyMissing hkind => exact absurd rfl hkind
    | overlong _ hlong => omega
    | plain _ hraw' =>
      rw [Agree, SameContents, if_pos rfl]
      exact ⟨hraw, hraw'⟩
    | encrypted hkind => exact absurd rfl hkind
  | encrypted hkind hauth hlt hraw =>
    cases h' with
    | keyMissing _ hauth' => simp [hauth] at hauth'
    | overlong _ hlong => omega
    | plain => exact absurd rfl hkind
    | encrypted _ hauth' _ hraw' =>
      rw [hauth, Option.some.injEq] at hauth'
      subst hauth'
      rw [Agree, SameContents, if_neg hkind]
      exact ⟨_, _, hauth, hraw, hraw'⟩
  | parsed | setServerSalt | setAuth | restore =>
    cases h'
    rfl

/-! ## 2. Steps of two framers -/

/-- The key and the counter never lead to a fault of the calendar. -/
theorem Comes.ne_outOfRange {s : Standing} {step : Step} {outcome : Except Halt Answer}
    (h : Comes s step outcome) : outcome ≠ .error (.fault .instantOutOfRange) := by
  cases h <;> exact nofun

/-- An outcome that is no envelope agrees with itself only. -/
theorem agree_error_left {auth : Option Authorization} {step : Step} {halt : Halt}
    {outcome : Except Halt Answer} :
    Agree auth step (.error halt) outcome ↔ outcome = .error halt := by
  unfold Agree
  split
  · simp_all
  · exact eq_comm

theorem agree_error_right {auth : Option Authorization} {step : Step} {halt : Halt}
    {outcome : Except Halt Answer} :
    Agree auth step outcome (.error halt) ↔ outcome = .error halt := by
  unfold Agree
  split
  · simp_all
  · exact Iff.rfl

section Step

variable {now now' : Instant} {step : Step} {f f' : Framer} {e e' : Entropy}

/-- A message for which the clock leaves the calendar changes nothing. -/
theorem perform_unreached (hformat : step.isFormat = true)
    (hclock : ¬ now.Reaches f.msgIds.timeOffset.toInt) :
    perform now step (f, e) = (.error (.fault .instantOutOfRange), f, e) := by
  cases step with
  | call c =>
    cases c with
    | format kind payload => rw [perform, run_bind, run_format_unreached hclock]
    | parse | setServerSalt => cases hformat
  | setAuth | restore => cases hformat

/-- Every other step comes to what the key and the counter say. -/
theorem comes_of_reaches
    (hclock : step.isFormat = true → now.Reaches f.msgIds.timeOffset.toInt) :
    Comes f.standing step (perform now step (f, e)).1 ∧
      (perform now step (f, e)).2.1.standing = f.standing.next step := by
  obtain ⟨outcome, g, e', hperform, hcomes, hleaves⟩ :=
    comes_perform (f := f) (e := e) fun hformat => by
      rw [Instant.shift?_of_reaches (hclock hformat)]
      rfl
  rw [hperform]
  exact ⟨hcomes, hleaves.standing⟩

/-- **One step of two framers.**  Where they have one key and one counter, the same comes of a step
exactly if it is no message, or the clock leaves the calendar for both or for neither. -/
theorem agree_perform_iff (hsame : f.standing = f'.standing) :
    Agree f.standing.auth step (perform now step (f, e)).1 (perform now' step (f', e')).1 ↔
      (step.isFormat = true → (now.Reaches f.msgIds.timeOffset.toInt ↔
        now'.Reaches f'.msgIds.timeOffset.toInt)) := by
  constructor
  · intro hagree hformat
    by_cases hf : now.Reaches f.msgIds.timeOffset.toInt
    · refine iff_of_true hf ?_
      by_contra hf'
      rw [perform_unreached hformat hf', agree_error_right] at hagree
      exact (comes_of_reaches fun _ => hf).1.ne_outOfRange hagree
    · refine iff_of_false hf fun hf' => ?_
      rw [perform_unreached hformat hf, agree_error_left] at hagree
      exact (comes_of_reaches fun _ => hf').1.ne_outOfRange hagree
  · intro hclock
    by_cases hboth : step.isFormat = true → now.Reaches f.msgIds.timeOffset.toInt
    · have hcomes' := (comes_of_reaches (e := e') fun h => (hclock h).mp (hboth h)).1
      rw [← hsame] at hcomes'
      exact agree_of_comes (comes_of_reaches hboth).1 hcomes'
    · obtain ⟨hformat, hf⟩ := Classical.not_imp.mp hboth
      rw [perform_unreached hformat hf,
        perform_unreached hformat fun hf' => hf ((hclock hformat).mpr hf')]
      exact agree_error_left.mpr rfl

/-- Such a step leaves them with one key and one counter again. -/
theorem standing_perform_eq (hsame : f.standing = f'.standing)
    (hclock : step.isFormat = true → (now.Reaches f.msgIds.timeOffset.toInt ↔
      now'.Reaches f'.msgIds.timeOffset.toInt)) :
    (perform now step (f, e)).2.1.standing = (perform now' step (f', e')).2.1.standing := by
  by_cases hboth : step.isFormat = true → now.Reaches f.msgIds.timeOffset.toInt
  · rw [(comes_of_reaches hboth).2, (comes_of_reaches fun h => (hclock h).mp (hboth h)).2, hsame]
  · obtain ⟨hformat, hf⟩ := Classical.not_imp.mp hboth
    rw [perform_unreached hformat hf,
      perform_unreached hformat fun hf' => hf ((hclock hformat).mpr hf')]
    exact hsame

/-- The key after a step, also after one that halts. -/
theorem auth_perform : (perform now step (f, e)).2.1.auth = (f.standing.next step).auth := by
  cases step with
  | call c =>
    cases c with
    | format kind payload =>
      refine (congrArg Prod.fst (tuning_perform_format now f e kind payload)).trans ?_
      rw [Standing.next]
      split <;> rfl
    | parse | setServerSalt => rfl
  | setAuth => rfl
  | restore auth seqNo => cases auth <;> rfl

end Step

/-! ## 3. Runs of two framers -/

/-- The key after some steps has nothing to do with the counter. -/
theorem Standing.auth_after {s s' : Standing} (h : s.auth = s'.auth) (steps : List Step) :
    (s.after steps).auth = (s'.after steps).auth := by
  induction steps generalizing s s' with
  | nil => exact h
  | cons step steps ih =>
    refine ih ?_
    cases step with
    | call c =>
      cases c with
      | format kind payload =>
        rw [next, next]
        split <;> split <;> exact h
      | parse => exact h
      | setServerSalt salt => exact congrArg (Option.map _) h
    | setAuth | restore => rfl

/-- A step is the same to two framers, and so are the others from what it leaves. -/
theorem alike_cons_iff {step : Step} {steps : List Step} {clock clock' : Nat → Instant}
    {s s' : Framer × Entropy} :
    Alike (step :: steps) clock clock' s s' ↔
      Agree s.1.standing.auth step (perform (clock 0) step s).1 (perform (clock' 0) step s').1 ∧
      Alike steps (fun i => clock (i + 1)) (fun i => clock' (i + 1))
        (perform (clock 0) step s).2 (perform (clock' 0) step s').2 := by
  have hauth : ∀ before, (s.1.standing.after (step :: before)).auth =
      ((perform (clock 0) step s).2.1.standing.after before).auth := fun before =>
    Standing.auth_after auth_perform.symm before
  constructor
  · rintro ⟨hend, houtcomes⟩
    refine ⟨?_, hend, fun before other rest hsteps => ?_⟩
    · obtain ⟨outcome, outcome', h, h', hagree⟩ := houtcomes [] step steps rfl
      cases h
      cases h'
      exact hagree
    · rw [← hauth]
      exact houtcomes (step :: before) other rest (congrArg _ hsteps)
  · rintro ⟨hagree, hend, houtcomes⟩
    refine ⟨hend, ?_⟩
    rintro (_ | ⟨head, before⟩) other rest hsteps
    · cases hsteps
      exact ⟨_, _, rfl, rfl, hagree⟩
    · cases hsteps
      rw [hauth]
      exact houtcomes before other rest rfl

/-- The offset that is in force is the last one that a step has installed. -/
theorem offsetAfter_cons (initial : Int64) (step : Step) (steps : List Step) :
    offsetAfter initial (step :: steps) = offsetAfter (step.offset?.getD initial) steps :=
  getLastD_filterMap_cons _ _ _ _

/-- Whenever a message is formatted, either both clocks can be shifted to the server's or neither
can.  A clock is shifted by the offset that was installed last. -/
def Matched (clock clock' : Nat → Instant) (offset offset' : Int64) (steps : List Step) : Prop :=
  ∀ before step rest, steps = before ++ step :: rest → step.isFormat = true →
    ((clock before.length).Reaches (offsetAfter offset before).toInt ↔
      (clock' before.length).Reaches (offsetAfter offset' before).toInt)

theorem matched_cons_iff {clock clock' : Nat → Instant} {offset offset' : Int64} {step : Step}
    {steps : List Step} :
    Matched clock clock' offset offset' (step :: steps) ↔
      (step.isFormat = true →
        ((clock 0).Reaches offset.toInt ↔ (clock' 0).Reaches offset'.toInt)) ∧
      Matched (fun i => clock (i + 1)) (fun i => clock' (i + 1)) (step.offset?.getD offset)
        (step.offset?.getD offset') steps := by
  constructor
  · intro h
    refine ⟨h [] step steps rfl, fun before other rest hsteps hformat => ?_⟩
    rw [← offsetAfter_cons, ← offsetAfter_cons]
    exact h (step :: before) other rest (congrArg _ hsteps) hformat
  · rintro ⟨hnow, hlater⟩ (_ | ⟨head, before⟩) other rest hsteps hformat
    · cases hsteps
      exact hnow hformat
    · cases hsteps
      rw [offsetAfter_cons, offsetAfter_cons]
      exact hlater before other rest rfl hformat

/-- One clock and one offset always match. -/
theorem matched_refl (clock : Nat → Instant) (offset : Int64) (steps : List Step) :
    Matched clock clock offset offset steps :=
  fun _ _ _ _ _ => Iff.rfl

/-- **When two framers cannot be told apart.**  From one key and one counter, some steps are the
same to both exactly if their clocks match, whatever their tapes are and whatever their last
identifiers. -/
theorem alike_iff_matched {f f' : Framer} (hsame : f.standing = f'.standing) {steps : List Step}
    {clock clock' : Nat → Instant} {e e' : Entropy} :
    Alike steps clock clock' (f, e) (f', e') ↔
      Matched clock clock' f.msgIds.timeOffset f'.msgIds.timeOffset steps := by
  induction steps generalizing clock clock' f f' e e' with
  | nil =>
    exact iff_of_true ⟨hsame, fun before step rest h => by simp at h⟩ fun before step rest h => by
      simp at h
  | cons step steps ih =>
    rw [alike_cons_iff, matched_cons_iff, agree_perform_iff hsame]
    -- where the first step is the same to both, the others start from one key and one counter
    refine and_congr_right fun hnow => ?_
    rw [← offset_perform (clock 0) step f e, ← offset_perform (clock' 0) step f' e']
    exact ih (standing_perform_eq hsame hnow)

/-! ## 4. The offset of the clock -/

/-- A framer that has a key goes by the offset that belongs to it. -/
def Tuned (f : Framer) : Prop :=
  ∀ auth, f.auth = some auth → f.msgIds.timeOffset = auth.timeOffset

theorem Tuned.of_tuning {f f' : Framer} (hsame : tuning f' = tuning f) (h : Tuned f) :
    Tuned f' := by
  obtain ⟨hauth, hoffset⟩ := Prod.mk.inj hsame
  unfold Tuned
  rw [hauth, hoffset]
  exact h

theorem Tuned.setServerSalt {f : Framer} (h : Tuned f) (salt : UInt64) :
    Tuned (f.setServerSalt salt) := by
  intro auth hauth
  obtain ⟨a, ha, rfl⟩ := Option.map_eq_some_iff.mp hauth
  exact h a ha

/-- A key is installed together with its offset. -/
theorem tuned_setAuth (f : Framer) (auth : Authorization) : Tuned (f.setAuth auth) := by
  rintro a ⟨⟩
  rfl

/-- A state with a key comes with an offset; one without a key leaves nothing to go by. -/
theorem tuned_restore (f : Framer) (auth : Option Authorization) (seqNo : UInt32) :
    Tuned (f.restore auth seqNo) := by
  cases auth with
  | none => exact fun auth h => nomatch h
  | some auth => exact tuned_setAuth f auth

/-- A step of a framer installs a key with its offset, or changes neither. -/
theorem Tuned.perform {f : Framer} (h : Tuned f) (now : Instant) (step : Step) (e : Entropy) :
    Tuned (perform now step (f, e)).2.1 := by
  cases step with
  | call c =>
    cases c with
    | format kind payload => exact h.of_tuning (tuning_perform_format now f e kind payload)
    | parse raw => exact h
    | setServerSalt salt => exact h.setServerSalt salt
  | setAuth auth => exact tuned_setAuth f auth
  | restore auth seqNo => exact tuned_restore f auth seqNo

/-- Whatever is done with a framer, it goes by the offset of its key. -/
theorem Tuned.run {f : Framer} (h : Tuned f) (clock : Nat → Instant) (steps : List Step)
    (e : Entropy) : Tuned (run clock steps (f, e)).2.1 := by
  induction steps generalizing clock f e with
  | nil => exact h
  | cons step steps ih => exact ih (h.perform (clock 0) step e) _ _

end Framer

namespace Session

/-- The key of a session, and the offset of its clock. -/
def tuning (s : Session) : Option Authorization × Int64 :=
  s.framer.tuning

/-- A session that has a key goes by the offset that belongs to it. -/
def Tuned (s : Session) : Prop :=
  s.framer.Tuned

theorem Tuned.of_tuning {s s' : Session} (hsame : tuning s' = tuning s) (h : Tuned s) :
    Tuned s' :=
  Framer.Tuned.of_tuning hsame h

theorem calm_tuning : Calm tuning where
  write now kind payload := by
    have hframing : Act.Keeps tuning (framing (Framer.format now kind payload)) :=
      fun s => Framer.keeps_format now kind payload (s.1.framer, s.2)
    refine .bind hframing fun _ => .bind (Act.keeps_ofExcept _) fun _ =>
      .bind (.bind Act.keeps_state fun s => ?_) fun _ => Act.keeps_pure _
    cases s.line s.written.length with
    | some e => exact Act.keeps_fail e
    | none => exact Act.keeps_update fun _ => rfl
  sends _ _ _ := rfl

theorem tuning_signalReady (s : Session) : tuning s.signalReady = tuning s := by
  unfold signalReady
  split <;> rfl

theorem tuned_apply (s : Session) (effect : Effect) (h : Tuned s) : Tuned (s.apply effect) := by
  cases effect with
  | renewSalt salt => exact h.setServerSalt salt
  | acknowledge | answer | deliver => exact h

theorem tuned_of_keeps {α : Type} {m : Act Session α} (hm : Act.Keeps tuning m) :
    Act.Triple Tuned m (fun _ => Tuned) fun _ => Tuned :=
  hm.triple fun _ _ => Tuned.of_tuning

theorem keeps_exchanging_tuning {α : Type} (a : Act KeyExchange α) :
    Act.Keeps tuning (exchanging a) :=
  Act.keeps_zoom a fun _ _ => rfl

theorem tuned_begin (now : Instant) :
    Act.Triple Tuned (begin now) (fun _ => Tuned) fun _ => Tuned :=
  tuned_of_keeps (.bind Act.keeps_state fun _ => .ite (Act.keeps_update tuning_signalReady)
    (.bind (keeps_exchanging_tuning _) fun _ => .bind (calm_tuning.write _ _ _) fun _ =>
      Act.keeps_pure _))

/-- A new key comes with its offset. -/
theorem tuned_conclude (now : Instant) :
    Act.Triple Tuned (conclude now) (fun _ => Tuned) fun _ => Tuned := by
  refine .state_bind fun s hs => .ite (fun _ => ?_) fun _ => .pure ?_
  · refine .ofExcept_bind ?_ fun auth _ => .update_bind (I := Tuned) ?_ ?_
    · rintro e s rfl
      exact hs
    · rintro s rfl
      refine .of_tuning (tuning_signalReady _) ?_
      rintro a ⟨⟩
      rfl
    · exact tuned_of_keeps (.bind Act.keeps_state fun _ => keeps_writeQueued calm_tuning _ _)
  · rintro s rfl
    exact hs

/-- A frame may bring a key, or a salt for the key; the offset goes with the key. -/
theorem tuned_onFrame (now : Instant) (raw : Bytes) :
    Act.Triple Tuned (onFrame now raw) (fun _ => Tuned) fun _ => Tuned :=
  onFrame_triple (fun _ _ h => h)
    (fun _ => onKeyExchange_triple (R := fun _ => Tuned)
      (tuned_of_keeps (keeps_exchanging_tuning _))
      (fun _ => tuned_of_keeps (calm_tuning.write _ _ _)) (tuned_conclude now))
    fun msg => (receive_triple tuned_apply msg).bind fun _ =>
      tuned_of_keeps (keeps_flush calm_tuning (fun _ _ _ => rfl) now)

/-- In every history of a connection the session goes by the offset of its key. -/
theorem upheld_tuned : Upheld (fun _ => Tuned) (fun _ => Tuned) fun _ => Tuned where
  send _ now ticket payload := tuned_of_keeps (keeps_send calm_tuning now ticket payload)
  onFrame _ now raw := tuned_onFrame now raw
  deliver _ _ _ h := h
  stop _ _ h := h
  finish _ _ _ h := h
  refuse _ _ _ _ h := h

end Session

open Session Connection

/-- A session that has been prepared goes by the offset of the key that it has taken up. -/
theorem Setting.tuned_session (g : Setting) : g.session.Tuned := by
  refine List.foldlRecOn _ _ (fun auth h => nomatch h) fun s hs preparation _ => ?_
  cases preparation with
  | withDcs dcs => exact hs
  | restore stored => exact Framer.tuned_restore s.framer stored.auth stored.seqNo

/-- In every history, a session that has a key goes by its offset. -/
theorem Setting.tuned (g : Setting) (events : List Event) : (g.after events).session.Tuned :=
  have hbegin : Act.Triple (· = g.session) (begin g.now) (fun _ => Tuned) fun _ => Tuned :=
    (tuned_begin g.now).pre fun _ heq => heq ▸ g.tuned_session
  (g.holds_after hbegin upheld_tuned events).always

/-! ## 5. Restarts -/

namespace Session

/-- A session that a program can come to: one that has been prepared (`new`, then any sequence of
`withDcs` and `restore`), one at work in any history, or one of these with anything done to its
framer. -/
inductive Arises : Session → Prop where
  | prepared (g : Setting) : Arises g.session
  | atWork (g : Setting) (events : List Event) : Arises (g.after events).session
  | used {s : Session} (h : Arises s) (clock : Nat → Instant) (steps : List Framer.Step)
      (e : Entropy) : Arises { s with framer := (Framer.run clock steps (s.framer, e)).2.1 }

/-- **A session that has a key goes by its offset.** -/
theorem Arises.tuned {s : Session} (h : s.Arises) : s.Tuned := by
  induction h with
  | prepared g => exact g.tuned_session
  | atWork g events => exact g.tuned events
  | used _ clock steps e ih => exact Framer.Tuned.run ih clock steps e

/-- A session that takes up a state has it. -/
theorem snapshot_restore (s : Session) (stored : Snapshot) :
    (s.restore stored).snapshot = stored := by
  obtain ⟨dcs, auth, seqNo⟩ := stored
  cases auth <;> rfl

/-- A new session that takes up a state without a key has the offset zero, whatever the session has
that stored it. -/
theorem offset_resumed {s : Session} (h : s.Tuned) (keys : List RsaKey) :
    ((new keys).restore s.snapshot).framer.msgIds.timeOffset =
      if s.isReady then s.framer.msgIds.timeOffset else 0 := by
  change ((new keys).framer.restore s.framer.auth s.framer.seqNo).msgIds.timeOffset = _
  rw [isReady]
  cases hauth : s.framer.auth with
  | none => rfl
  | some auth => exact (h auth hauth).symm

/-- A state with addresses that can be stored is read back unchanged. -/
theorem exists_stored {s : Session} (hcount : s.dcs.length < 2 ^ 32)
    (hfits : ∀ dc ∈ s.dcs, (Text.Utf8.encode dc.ip).length ≤ 2 ^ 24 - 1) :
    ∃ stored, s.snapshot.encode = .ok stored ∧ Snapshot.decode stored = .ok s.snapshot :=
  ⟨s.snapshot.bytes, Snapshot.encode_eq_ok_iff.mpr ⟨hfits, rfl⟩,
    Snapshot.decode_eq_ok_iff.mpr (Snapshot.isStored_bytes hcount hfits)⟩

/-- **When a session goes on after a restart.**  Take any session a program can come to, with
addresses that can be stored.

* Its state is stored and read back, and a new session that takes it up has the same state.  It has
  the same offset of the clock if there is a key, and none if there is not.
* From then on some steps are the same to the two framers exactly if their clocks match.  Then
  parsing gives the same messages and errors, and a message that is formatted holds the same salt,
  session, sequence number and payload, or halts for both.  The tapes do not matter.
* So they are the same for every sequence of steps, both framers looking at one clock, exactly if
  there is a key or the offset that was installed last is zero. -/
theorem alike_resumed_iff {s : Session} (hs : s.Arises) (keys : List RsaKey)
    (hcount : s.dcs.length < 2 ^ 32)
    (hfits : ∀ dc ∈ s.dcs, (Text.Utf8.encode dc.ip).length ≤ 2 ^ 24 - 1) :
    ∃ stored back, s.snapshot.encode = .ok stored ∧ Snapshot.decode stored = .ok back ∧
      let resumed := (new keys).restore back
      resumed.snapshot = s.snapshot ∧
      resumed.framer.msgIds.timeOffset = (if s.isReady then s.framer.msgIds.timeOffset else 0) ∧
      (∀ steps clock clock' e e',
        Framer.Alike steps clock clock' (s.framer, e) (resumed.framer, e') ↔
          Framer.Matched clock clock' s.framer.msgIds.timeOffset resumed.framer.msgIds.timeOffset
            steps) ∧
      ((∀ steps clock e e', (∀ i, (clock i).InCalendar) →
          Framer.Alike steps clock clock (s.framer, e) (resumed.framer, e')) ↔
        s.isReady = true ∨ s.framer.msgIds.timeOffset = 0) := by
  obtain ⟨stored, hencode, hdecode⟩ := exists_stored hcount hfits
  have hsame := snapshot_restore (new keys) s.snapshot
  have hoffset := offset_resumed hs.tuned keys
  have hstanding : s.framer.standing = ((new keys).restore s.snapshot).framer.standing :=
    congrArg (fun t => (⟨t.auth, t.seqNo⟩ : Framer.Standing)) hsame.symm
  refine ⟨stored, s.snapshot, hencode, hdecode, hsame, hoffset,
    fun _ _ _ _ _ => Framer.alike_iff_matched hstanding, fun hall => ?_, fun hkept => ?_⟩
  · by_contra hlost
    obtain ⟨hkeyless, hne⟩ := not_or.mp hlost
    rw [if_neg hkeyless] at hoffset
    -- one of the offsets leaves the calendar sooner, and a message at that time is enough
    have hnear : ¬ Instant.Beyond (0 : Int64).toInt := by decide
    obtain ⟨now, hnow, hdiffer⟩ :=
      Instant.exists_separating (fun h => hne (Int64.toInt_inj.mp h)) fun h => hnear h.2
    have halike := hall [.call (.format .keyExchange [])] (fun _ => now) (.starting [])
      (.starting []) fun _ => hnow
    rw [Framer.alike_iff_matched hstanding, hoffset] at halike
    exact hdiffer (halike [] _ [] rfl rfl)
  · intro steps clock e e' _
    have hequal : ((new keys).restore s.snapshot).framer.msgIds.timeOffset =
        s.framer.msgIds.timeOffset := by
      rw [hoffset]
      split
      · rfl
      · rename_i hkeyless
        exact (hkept.resolve_left hkeyless).symm
    rw [Framer.alike_iff_matched hstanding, hequal]
    exact Framer.matched_refl _ _ _

/-- A session that knows an address, and has a key, a counter and a clock that is behind. -/
def resting : Setting where
  keys := []
  line _ := none
  preparations := [.restore
    { dcs := [⟨2, "127.0.0.1", 443⟩], auth := some ⟨⟨.zero 256⟩, 1, 2, 5⟩, seqNo := 4294967295 }]
  limits := ⟨1048576, 2⟩
  tape := .starting []
  now := ⟨0, 0⟩

/-- A restart between two messages, with any other tape. -/
theorem alike_resumed_resting : ∃ stored back,
    (resting.after [.turn ⟨0, 0⟩]).session.snapshot.encode = .ok stored ∧
      Snapshot.decode stored = .ok back ∧
      ((new []).restore back).snapshot = (resting.after [.turn ⟨0, 0⟩]).session.snapshot ∧
      ∀ steps e e', Framer.Alike steps (fun _ => ⟨1590000000, 0⟩) (fun _ => ⟨1590000000, 0⟩)
        ((resting.after [.turn ⟨0, 0⟩]).session.framer, e) (((new []).restore back).framer, e') := by
  have hfits : ∀ dc ∈ (resting.after [.turn ⟨0, 0⟩]).session.dcs,
      (Text.Utf8.encode dc.ip).length ≤ 2 ^ 24 - 1 := by
    decide +kernel
  obtain ⟨stored, back, hencode, hdecode, hsame, -, -, halike⟩ :=
    alike_resumed_iff (.atWork resting [.turn ⟨0, 0⟩]) [] (by decide) hfits
  exact ⟨stored, back, hencode, hdecode, hsame, fun steps e e' =>
    halike.mpr (Or.inl rfl) steps _ e e' fun _ => by decide⟩

/-- A session that has taken up a state with a key, and then one without. -/
def bereft : Setting where
  keys := []
  line _ := none
  preparations := [.restore { dcs := [], auth := some Framer.remoteKey, seqNo := 0 },
    .restore { dcs := [], auth := none, seqNo := 0 }]
  limits := ⟨1048576, 2⟩
  tape := .starting []
  now := ⟨0, 0⟩

/-- **Not every session goes on after a restart.**  A session still has the offset of a key that it
has no more.  Its state is stored and taken up, and the same message of the key exchange ends in a
fault for the one and is written by the other. -/
theorem resumed_apart :
    let now : Instant := ⟨1590000000, 0⟩
    let message : Framer.Step := .call (.format .keyExchange [1, 2, 3, 4])
    let resumed := (new []).restore bereft.session.snapshot
    bereft.session.Arises ∧
      (∃ stored, bereft.session.snapshot.encode = .ok stored ∧
        Snapshot.decode stored = .ok bereft.session.snapshot) ∧
      resumed.snapshot = bereft.session.snapshot ∧
      (Framer.perform now message (bereft.session.framer, .starting [])).1 =
        .error (.fault .instantOutOfRange) ∧
      (∃ msgId raw, (Framer.perform now message (resumed.framer, .starting [])).1 =
        .ok (.formatted msgId raw)) ∧
      ¬ Framer.Alike [message] (fun _ => now) (fun _ => now) (bereft.session.framer, .starting [])
        (resumed.framer, .starting []) := by
  intro now message resumed
  have hsame := snapshot_restore (new []) bereft.session.snapshot
  have hfault : ¬ now.Reaches bereft.session.framer.msgIds.timeOffset.toInt := by decide
  have hwritten : now.Reaches resumed.framer.msgIds.timeOffset.toInt := by decide
  refine ⟨.prepared bereft, exists_stored (by decide) (by decide), hsame, ?_, ?_, fun halike => ?_⟩
  · rw [Framer.perform_unreached rfl hfault]
  · obtain ⟨msgId, raw, s, hrun⟩ : ∃ msgId raw s, Framer.format now .keyExchange [1, 2, 3, 4]
        (resumed.framer, .starting []) = (.ok (msgId, raw), s) :=
      Framer.exists_format hwritten (Or.inl rfl) (by decide)
    exact ⟨msgId, raw, by rw [Framer.perform, run_bind_ok hrun]; rfl⟩
  · have hstanding : bereft.session.framer.standing = resumed.framer.standing :=
      congrArg (fun t => (⟨t.auth, t.seqNo⟩ : Framer.Standing)) hsame.symm
    rw [Framer.alike_iff_matched hstanding] at halike
    exact hfault ((halike [] message [] rfl rfl).mpr hwritten)

end Session

end Mtproto
