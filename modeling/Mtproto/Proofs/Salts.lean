import Mathlib.Tactic.Common
import Mtproto.Proofs.Bookkeeping
import Mtproto.Proofs.Lifecycle
import Mtproto.Proofs.Sends

/-!
# The salt of an envelope is the last one announced

The server announces a new salt inside a message, anywhere in it, and every encrypted envelope that
the session writes carries the salt of its time.

The signal that there is a key names the salt that a session starts with (`Begun`).  From then on
the salt is the one that has been announced last (`Tracks`).  A session writes while it goes through
a frame, and an announcement may stand in this very frame; the announcements come first, because the
whole message is gone through before anything is written.  So what a procedure writes has the salt
after all announcements, its own included (`Writes`).

* `keeping_write`, `keeping_message`: what the procedures of the session do to this.
* `follows_turn`, `follows_happen`: what a turn does, and what anything from outside does.
* `Setting.salt_current`: in every history, for every frame that has been written, and for the state
  that is stored.
-/

namespace Mtproto

open Wire Session

/-! ## 1. Announcements -/

/-- The salts that a message announces, in order. -/
def Msg.salts (msg : Msg) : List UInt64 := msg.parts.filterMap Part.salt?

namespace Authorization

/-- The authorization after some announcements: the last one counts. -/
def renew (auth : Authorization) (salts : List UInt64) : Authorization :=
  { auth with serverSalt := salts.getLastD auth.serverSalt }

@[simp] theorem renew_nil (auth : Authorization) : auth.renew [] = auth := rfl

/-- Only the last announcement counts, also if they come in two parts. -/
theorem renew_append (auth : Authorization) (salts more : List UInt64) :
    auth.renew (salts ++ more) = (auth.renew salts).renew more := by
  simp [renew, List.getLastD_eq_getLast?, List.getLast?_append, Option.getD_or]

/-- The other side opens a frame and finds the salt in it. -/
def Stamps (auth : Authorization) (raw : Bytes) : Prop :=
  ∃ env, Envelope.decrypt auth.key .clientToServer raw = .ok env ∧ env.salt = auth.serverSalt

end Authorization

namespace Session

/-- The salt that an effect brings. -/
def announced? : Effect → Option UInt64
  | .renewSalt salt => some salt
  | .acknowledge _ | .answer _ | .deliver _ => none

/-- The key and its session are not changed by what a message leads to, the salt is. -/
theorem auth_effects (effects : List Effect) (s : Session) :
    (effects.foldl apply s).framer.auth =
      s.framer.auth.map fun auth => auth.renew (effects.filterMap announced?) := by
  induction effects generalizing s with
  | nil => simp
  | cons effect effects ih =>
    rw [List.foldl_cons, ih]
    cases effect with
    | renewSalt salt =>
      simp only [apply, Framer.setServerSalt, announced?, List.filterMap_cons, Option.map_map]
      congr 1
      funext auth
      exact (auth.renew_append [salt] _).symm
    | acknowledge | answer | deliver => rfl

/-- The announcements among the effects of a part. -/
theorem announced_effects (p : Part) : p.effects.filterMap announced? = p.salt?.toList := by
  unfold Part.effects Part.response
  cases p.ack? <;> cases p.pong? <;> cases p.incoming? <;> cases p.salt? <;> rfl

/-- The announcements of a message are those of its parts, in order. -/
theorem announced_parts (parts : List Part) :
    (parts.flatMap Part.effects).filterMap announced? = parts.filterMap Part.salt? := by
  induction parts with
  | nil => rfl
  | cons p parts ih =>
    rw [List.flatMap_cons, List.filterMap_append, ih, announced_effects]
    cases hsalt : p.salt? <;> simp [hsalt]

/-! ## 2. Keeping track -/

section Tracks

variable {salts : List UInt64} {s s' : Session}

/-- The key, the signal and the frames of a session. -/
def record (s : Session) : Option Authorization × Option Ready × List Bytes :=
  (s.framer.auth, s.ready, s.written)

/-- A session that has gone through some announcements has the key of the signal and the last salt.
Before there is a key, there is nobody to announce one. -/
structure Tracks (salts : List UInt64) (s : Session) : Prop where
  auth : s.framer.auth = s.ready.map fun r => r.auth.renew salts
  silent : s.ready = none → salts = []

/-- Frames have been written; if there is a key, each of them has the last salt. -/
def Writes (salts : List UInt64) (s s' : Session) : Prop :=
  ∃ raws, s'.written = s.written ++ raws ∧
    ∀ r, s'.ready = some r → ∀ raw ∈ raws, (r.auth.renew salts).Stamps raw

theorem Tracks.of_record (h : Tracks salts s) (hsame : record s' = record s) : Tracks salts s' := by
  simp only [record, Prod.mk.injEq] at hsame
  obtain ⟨hauth, hready, -⟩ := hsame
  constructor
  · rw [hauth, hready]
    exact h.auth
  · rw [hready]
    exact h.silent

/-- A session that keeps track has given its signal, and its key is the one of the signal with the
last salt. -/
theorem Tracks.ready_of_auth {auth : Authorization} (h : Tracks salts s)
    (hauth : s.framer.auth = some auth) : ∃ r, s.ready = some r ∧ auth = r.auth.renew salts := by
  obtain ⟨r, hr, heq⟩ := Option.map_eq_some_iff.mp (h.auth.symm.trans hauth)
  exact ⟨r, hr, heq.symm⟩

/-- A session that is not ready has no key and has given no signal. -/
theorem Tracks.unkeyed (h : Tracks salts s) (hready : s.isReady ≠ true) :
    s.framer.auth = none ∧ s.ready = none := by
  have hauth : s.framer.auth = none := by
    rw [isReady] at hready
    exact Option.not_isSome_iff_eq_none.mp hready
  exact ⟨hauth, Option.map_eq_none_iff.mp (h.auth.symm.trans hauth)⟩

theorem Writes.nothing (hsame : record s' = record s) : Writes salts s s' := by
  simp only [record, Prod.mk.injEq] at hsame
  exact ⟨[], by rw [hsame.2.2, List.append_nil], fun _ _ _ h => absurd h List.not_mem_nil⟩

theorem Writes.of_record {s'' : Session} (h : Writes salts s s') (hsame : record s'' = record s') :
    Writes salts s s'' := by
  simp only [record, Prod.mk.injEq] at hsame
  obtain ⟨-, hready, hwritten⟩ := hsame
  obtain ⟨raws, hraws, hstamps⟩ := h
  exact ⟨raws, by rw [hwritten, hraws], by rwa [hready]⟩

/-- A session keeps track, and has been writing from `s` on. -/
def Keeping (salts : List UInt64) (s s' : Session) : Prop :=
  Tracks salts s' ∧ Writes salts s s'

theorem Keeping.start (h : Tracks salts s) : Keeping salts s s :=
  ⟨h, .nothing rfl⟩

theorem Keeping.of_record {s'' : Session} (h : Keeping salts s s')
    (hsame : record s'' = record s') : Keeping salts s s'' :=
  ⟨h.1.of_record hsame, h.2.of_record hsame⟩

/-! ## 3. What a session writes -/

/-- **An encrypted message gets the last salt.** -/
theorem keeping_write (now : Instant) {kind : MsgKind} (hkind : kind ≠ .keyExchange)
    (payload : Bytes) : Act.Triple (Keeping salts s) (write now kind payload)
      (fun _ => Keeping salts s) fun _ => Keeping salts s := by
  refine .of_eq fun s' ⟨htracks, raws, hraws, hstamps⟩ => (write_triple now kind payload s').post
    ?_ ?_
  · rintro msgId - ⟨framer, raw, rfl, hformats⟩
    refine ⟨⟨hformats.auth.trans htracks.auth, htracks.silent⟩, raws ++ [raw],
      by rw [hraws, List.append_assoc], fun r hr raw' hmem => ?_⟩
    rcases List.mem_append.mp hmem with hmem | hmem
    · exact hstamps r hr raw' hmem
    · obtain rfl := List.mem_singleton.mp hmem
      -- the key that the message is under is the one of the signal
      obtain ⟨auth, hauth, hopen⟩ := hformats.encrypted hkind
      obtain ⟨r', hr', rfl⟩ := htracks.ready_of_auth hauth
      obtain rfl : r' = r := Option.some.inj (hr'.symm.trans hr)
      exact ⟨_, hopen, rfl⟩
  · rintro halt - ⟨framer, rfl, hfails⟩
    exact ⟨⟨hfails.auth.trans htracks.auth, htracks.silent⟩, raws, hraws, hstamps⟩

theorem keeping_writeContent (now : Instant) (ticket : Ticket) (payload : Bytes) :
    Act.Triple (Keeping salts s) (writeContent now ticket payload)
      (fun _ => Keeping salts s) fun _ => Keeping salts s := by
  refine .tryCatch (F := fun _ => Keeping salts s) ?_ ?_
  · exact .bind (keeping_write now MsgKind.noConfusion payload) fun _ =>
      .update fun _ h => h.of_record rfl
  · rintro (e | fault)
    · exact .update_bind (I := Keeping salts s) (fun _ h => h.of_record rfl) (.throw fun _ h => h)
    · exact .update_bind (I := Keeping salts s) (fun _ h => h.of_record rfl) (.throw fun _ h => h)

/-- Requests that have been waiting are written one by one, with one and the same salt. -/
theorem keeping_writeQueued (now : Instant) (queued : List (Ticket × Bytes)) :
    Act.Triple (Keeping salts s) (writeQueued now queued)
      (fun _ => Keeping salts s) fun _ => Keeping salts s := by
  induction queued with
  | nil => exact .pure fun _ h => h
  | cons entry queued ih =>
    exact .update_bind (I := Keeping salts s) (fun _ h => h.of_record rfl)
      ((keeping_writeContent now _ _).bind fun _ => ih)

theorem keeping_send (now : Instant) (ticket : Ticket) (payload : Bytes) :
    Act.Triple (Keeping salts s) (send now ticket payload)
      (fun _ => Keeping salts s) fun _ => Keeping salts s := by
  refine .state_bind fun s' hs' => .ite (fun _ => ?_) fun _ => .update ?_
  · exact (keeping_writeContent now ticket payload).pre fun _ heq => heq ▸ hs'
  · rintro s' rfl
    exact hs'.of_record rfl

/-- Acknowledgements and pongs are written after the message has been gone through, so they have the
salt that it has announced. -/
theorem keeping_flush (now : Instant) :
    Act.Triple (Keeping salts s) (flush now) (fun _ => Keeping salts s)
      fun _ => Keeping salts s := by
  refine .state_bind fun s' hs' => .ofExcept_bind ?_ fun due _ =>
    .update_bind (I := Keeping salts s) ?_ (.forM (fun payload => ?_) due)
  · rintro e s' rfl
    exact hs'
  · rintro s' rfl
    exact hs'.of_record rfl
  · exact (keeping_write now MsgKind.noConfusion payload).bind fun _ => .pure fun _ h => h

/-! ## 4. A frame -/

/-- What a message leads to is neither a signal nor a frame. -/
theorem record_apply (s : Session) (effect : Effect) :
    (s.apply effect).ready = s.ready ∧ (s.apply effect).written = s.written := by
  cases effect <;> exact ⟨rfl, rfl⟩

/-- A message that can be handled renews the salt as it announces; one that cannot is not answered
in any case. -/
theorem salts_receive (msg : Msg) (s : Session) :
    Act.Triple (· = s) (receive msg)
      (fun _ s' => s'.framer.auth = s.framer.auth.map (·.renew msg.salts) ∧
        s'.ready = s.ready ∧ s'.written = s.written)
      fun _ s' => s'.ready = s.ready ∧ s'.written = s.written := by
  have hrecord : Act.Triple (fun s' => s'.ready = s.ready ∧ s'.written = s.written) (receive msg)
      (fun _ s' => s'.ready = s.ready ∧ s'.written = s.written)
      fun _ s' => s'.ready = s.ready ∧ s'.written = s.written :=
    receive_triple (fun s' effect h => ⟨(record_apply s' effect).1.trans h.1,
      (record_apply s' effect).2.trans h.2⟩) msg
  have hauth : Act.Triple (· = s) (receive msg)
      (fun _ s' => s'.framer.auth = s.framer.auth.map (·.renew msg.salts)) fun _ _ => True := by
    refine (receive_applied msg s).post ?_ fun _ _ h => h
    rintro - - rfl
    rw [auth_effects, announced_parts]
    rfl
  refine ((hauth.and hrecord).pre ?_).halts fun _ _ h => h.2
  rintro s rfl
  exact ⟨rfl, rfl, rfl⟩

/-- **A message is answered with the salt that it has announced.** -/
theorem keeping_message (now : Instant) (msg : Msg) {auth : Authorization} (h : Tracks salts s)
    (hauth : s.framer.auth = some auth) :
    Act.Triple (· = s) (do receive msg; flush now) (fun _ => Keeping (salts ++ msg.salts) s)
      fun _ => Writes (salts ++ msg.salts) s := by
  obtain ⟨r, hr, rfl⟩ := h.ready_of_auth hauth
  have hreceive : Act.Triple (· = s) (receive msg) (fun _ => Keeping (salts ++ msg.salts) s)
      fun _ => Writes (salts ++ msg.salts) s := by
    have hnothing : ∀ s' : Session, s'.written = s.written → Writes (salts ++ msg.salts) s s' :=
      fun s' hwritten => ⟨[], by rw [hwritten, List.append_nil],
        fun _ _ _ hmem => absurd hmem List.not_mem_nil⟩
    refine (salts_receive msg s).post ?_ fun _ s' h => hnothing s' h.2
    rintro - s' ⟨hrenewed, hready, hwritten⟩
    refine ⟨⟨?_, fun hnone => ?_⟩, hnothing s' hwritten⟩
    · rw [hrenewed, hauth, hready, hr, Option.map_some, Option.map_some,
        Authorization.renew_append]
    · rw [hready, hr] at hnone
      cases hnone
  exact hreceive.bind fun _ => (keeping_flush now).halts fun _ _ h => h.2

/-- Where an exchange is done, there is nothing to answer. -/
theorem request_of_isDone (now : Instant) (payload : Bytes) (kx : KeyExchange) :
    Act.Triple (· = kx) (KeyExchange.handle now payload)
      (fun next kx' => kx'.isDone = true → next = none) fun _ _ => True := by
  rintro kx tape rfl
  rcases hrun : KeyExchange.handle now payload (kx, tape) with ⟨halt | next, kx', tape'⟩
  · trivial
  intro hdone
  have hstate : kx'.state = .done := of_decide_eq_true hdone
  rcases KeyExchange.handle_cases now payload kx tape with ⟨-, hrun'⟩ | ⟨r, t, hrun', haccept⟩ |
    ⟨-, -, e, kx'', e', hrun'⟩ | ⟨fault, kx'', e', hrun', -⟩
  all_goals
    rw [hrun] at hrun'
    cases hrun'
  rcases (KeyExchange.forward_of_dispatch haccept).2 with ⟨-, hstate', -⟩ | ⟨-, hstate', -⟩ |
    ⟨hbefore, -, -⟩
  · cases hstate.symm.trans hstate'
  · cases hstate.symm.trans hstate'
  · rcases KeyExchange.dispatch_eq_ok_iff.mp haccept with ⟨hstate', -⟩ | ⟨hstate', -⟩ |
      ⟨-, ok, -, hnone, -⟩
    · cases hbefore.symm.trans hstate'
    · cases hbefore.symm.trans hstate'
    · exact hnone

/-- A session without a key, which has been writing from `s` on. -/
structure Exchanging (s s' : Session) : Prop where
  auth : s'.framer.auth = none
  ready : s'.ready = none
  written : ∃ raws, s'.written = s.written ++ raws

theorem Exchanging.writes (h : Exchanging s s') : Writes salts s s' := by
  obtain ⟨raws, hraws⟩ := h.written
  refine ⟨raws, hraws, fun r hr => ?_⟩
  rw [h.ready] at hr
  cases hr

theorem Exchanging.keeping (h : Exchanging s s') : Keeping [] s s' :=
  ⟨⟨by rw [h.auth, h.ready]; rfl, fun _ => rfl⟩, h.writes⟩

theorem exchanging_exchanging {α : Type} {a : Act KeyExchange α} {Q : α → KeyExchange → Prop}
    (ha : Act.Triple (· = s.exchange) a Q fun _ _ => True) (hauth : s.framer.auth = none)
    (hready : s.ready = none) :
    Act.Triple (· = s) (exchanging a)
      (fun r s' => (Exchanging s s' ∧ s'.written = s.written) ∧ Q r s'.exchange)
      fun _ => Exchanging s := by
  refine .zoom ?_
  rintro s rfl
  have hexchanging : ∀ exchange, Exchanging s { s with exchange } := fun exchange =>
    ⟨hauth, hready, [], (List.append_nil _).symm⟩
  exact ha.post (fun _ exchange h => ⟨⟨hexchanging exchange, rfl⟩, h⟩)
    fun _ exchange _ => hexchanging exchange

/-- A request of the key exchange is not encrypted and has no salt. -/
theorem exchanging_write (now : Instant) (request : Bytes) (h : Exchanging s s') :
    Act.Triple (· = s') (write now .keyExchange request)
      (fun _ s'' => Exchanging s s'' ∧ s''.exchange = s'.exchange) fun _ => Exchanging s := by
  obtain ⟨raws, hraws⟩ := h.written
  refine (write_triple now .keyExchange request s').post ?_ ?_
  · rintro msgId - ⟨framer, raw, rfl, hformats⟩
    exact ⟨⟨hformats.auth.trans h.auth, h.ready, raws ++ [raw],
      by rw [hraws, List.append_assoc]⟩, rfl⟩
  · rintro halt - ⟨framer, rfl, hfails⟩
    exact ⟨hfails.auth.trans h.auth, h.ready, h.written⟩

/-- The key comes with the first salt, and with it what has been waiting is written. -/
theorem keeping_conclude (now : Instant) :
    Act.Triple (fun s' => Exchanging s s' ∧ (s'.exchange.isDone = true → s'.written = s.written))
      (conclude now) (fun _ => Keeping [] s) fun _ => Writes [] s := by
  refine .state_bind fun s' ⟨hs', hwritten⟩ => .ite (fun hdone => ?_) fun _ =>
    .pure fun _ heq => heq ▸ hs'.keeping
  refine .ofExcept_bind (fun _ _ heq => heq ▸ hs'.writes) fun auth _ =>
    .update_bind (I := Keeping [] s) ?_ (.state_bind fun s'' hs'' => ?_)
  · rintro s' rfl
    rw [signalReady_eq (s := { s' with framer := s'.framer.setAuth auth }) rfl hs'.ready]
    refine ⟨⟨rfl, nofun⟩, [], ?_, fun _ _ _ hmem => absurd hmem List.not_mem_nil⟩
    rw [List.append_nil]
    exact hwritten hdone
  · exact ((keeping_writeQueued now s''.queued).pre fun _ heq => heq ▸ hs'').halts fun _ _ h => h.2

theorem keeping_onKeyExchange (now : Instant) (payload : Bytes) (h : Tracks salts s)
    (hlocked : s.Locked) :
    Act.Triple (· = s) (onKeyExchange now payload) (fun _ => Keeping salts s)
      fun _ => Writes salts s := by
  by_cases hready : s.isReady = true
  · rintro s tape rfl
    rw [run_onKeyExchange_closed hlocked hready]
    exact .nothing rfl
  obtain ⟨hauth, hsignal⟩ := h.unkeyed hready
  obtain rfl := h.silent hsignal
  -- a request is written only while the exchange is not done
  refine onKeyExchange_triple (R := fun next s' => Exchanging s s' ∧
    (s'.exchange.isDone = true → next = none ∧ s'.written = s.written)) ?_ (fun request => ?_) ?_
  · exact (exchanging_exchanging (request_of_isDone now payload s.exchange) hauth hsignal).post
      (fun _ _ h => ⟨h.1.1, fun hdone => ⟨h.2 hdone, h.1.2⟩⟩)
      fun _ _ h => h.writes
  · refine .of_eq fun s' ⟨hs', hdone'⟩ => (exchanging_write now request hs').post
      (fun _ s'' h => ⟨h.1, fun hdone => ?_⟩) fun _ _ h => h.writes
    cases (hdone' (h.2 ▸ hdone)).1
  · exact (keeping_conclude now).pre fun _ h => ⟨h.1, fun hdone => (h.2 hdone).2⟩

/-- A session begins with the signal, if there is a key, or with the first request of the exchange;
no salt has been announced yet. -/
theorem keeping_begin (hfresh : s.Fresh) (now : Instant) :
    Act.Triple (· = s) (begin now) (fun _ => Keeping [] s) fun _ => Writes [] s := by
  refine begin_triple (R := fun _ s' => (Exchanging s s' ∧ s'.written = s.written) ∧ True)
    hfresh.ready (fun auth hauth => ?_) (fun hauth => ?_) fun request => ?_
  · exact ⟨⟨hauth, nofun⟩, [], (List.append_nil _).symm, fun _ _ _ hmem =>
      absurd hmem List.not_mem_nil⟩
  · have hstart : Act.Triple (· = s.exchange) KeyExchange.start (fun _ _ => True)
        fun _ _ => True := fun _ _ _ => by split <;> trivial
    exact (exchanging_exchanging hstart hauth hfresh.ready).halts fun _ _ h => h.writes
  · refine .of_eq fun s' hs' => (exchanging_write now request hs'.1.1).post ?_ ?_
    · exact fun _ _ h => h.1.keeping
    · exact fun _ _ h => h.writes

end Tracks

/-! ## 5. The first salt -/

section Begun

variable {stored : Option Authorization} {s s' : Session}

/-- The signal names the key that has been stored or, where none has been, the one that the
exchange has led to. -/
structure Begun (stored : Option Authorization) (s : Session) : Prop where
  ready : s.isReady = s.ready.isSome
  unstored : s.ready = none → stored = none
  named : ∀ r, s.ready = some r →
    stored = some r.auth ∨ stored = none ∧ s.exchange.result = .ok r.auth

theorem Begun.of_signal (hsame : signal s' = signal s) (h : Begun stored s) : Begun stored s' := by
  simp only [signal, keyed, Prod.mk.injEq] at hsame
  obtain ⟨hsignal, hready, hexchange⟩ := hsame
  constructor
  · rw [hready, hsignal]
    exact h.ready
  · rw [hsignal]
    exact h.unstored
  · rw [hsignal, hexchange]
    exact h.named

theorem begun_of_keeps {α : Type} {m : Act Session α} (hm : Act.Keeps signal m) :
    Act.Triple (Begun stored) m (fun _ => Begun stored) fun _ => Begun stored :=
  hm.triple fun _ _ => .of_signal

/-- No key has been stored, and there is none so far. -/
structure Keyless (stored : Option Authorization) (s : Session) : Prop where
  unstored : stored = none
  ready : s.isReady ≠ true
  silent : s.ready = none

theorem Keyless.begun (h : Keyless stored s) : Begun stored s where
  ready := by
    rw [h.silent, Option.isSome_none]
    exact Bool.not_eq_true _ ▸ h.ready
  unstored _ := h.unstored
  named r hr := by
    rw [h.silent] at hr
    cases hr

/-- The key exchange gives no signal before it is done. -/
theorem keyless_exchanging {α : Type} (a : Act KeyExchange α) (h : Keyless stored s) :
    Act.Triple (· = s) (exchanging a) (fun _ => Keyless stored) fun _ => Begun stored := by
  refine .zoom ?_
  rintro s rfl kx tape -
  have hkeyless : ∀ exchange, Keyless stored { s with exchange } := fun _ =>
    ⟨h.unstored, h.ready, h.silent⟩
  rcases a (kx, tape) with ⟨halt | r, kx', tape'⟩
  · exact (hkeyless kx').begun
  · exact hkeyless kx'

theorem keyless_write (now : Instant) (request : Bytes) :
    Act.Triple (Keyless stored) (write now .keyExchange request) (fun _ => Keyless stored)
      fun _ => Begun stored :=
  ((keeps_write aside_signal now .keyExchange request).triple fun s s' hsame h => by
    simp only [signal, keyed, Prod.mk.injEq] at hsame
    exact ⟨h.unstored, hsame.2.1 ▸ h.ready, hsame.1.trans h.silent⟩).halts fun _ _ => Keyless.begun

theorem begun_begin (hfresh : s.Fresh) (now : Instant) :
    Act.Triple (· = s) (begin now) (fun _ => Begun s.framer.auth) fun _ => Begun s.framer.auth := by
  refine begin_triple (R := fun _ => Keyless s.framer.auth) hfresh.ready (fun auth hauth => ?_)
    (fun hauth => ?_) fun request => ?_
  · have hready : s.isReady = true := by
      rw [isReady, hauth]
      rfl
    refine ⟨hready, ?_, ?_⟩
    · intro hnone
      cases hnone
    · rintro r ⟨⟩
      exact .inl hauth
  · have hready : ¬ s.isReady = true := by
      rw [isReady, hauth]
      exact Bool.false_ne_true
    exact keyless_exchanging _ ⟨hauth, hready, hfresh.ready⟩
  · exact (keyless_write now request).post (fun _ _ => Keyless.begun) fun _ _ h => h

/-- A key exchange that is done gives the signal, with the key that it ends with. -/
theorem begun_conclude (now : Instant) :
    Act.Triple (Keyless stored) (conclude now) (fun _ => Begun stored) fun _ => Begun stored := by
  refine .state_bind fun s' hs' => .ite (fun _ => ?_) fun _ => .pure fun s heq => heq ▸ hs'.begun
  refine .ofExcept_bind (fun _ s heq => heq ▸ hs'.begun) fun auth hresult =>
    .update_bind (I := Begun stored) ?_ ?_
  · rintro s' rfl
    rw [signalReady_eq (s := { s' with framer := s'.framer.setAuth auth }) rfl hs'.silent]
    exact ⟨rfl, nofun, fun r hr => Or.inr ⟨hs'.unstored, by cases hr; exact hresult⟩⟩
  · exact begun_of_keeps (.bind Act.keeps_state fun _ =>
      keeps_writeQueued aside_signal.calm _ _)

/-- A frame may end the key exchange; the signal is given then and not changed afterwards. -/
theorem begun_onFrame (now : Instant) (raw : Bytes) :
    Act.Triple (fun s => s.Locked ∧ Begun stored s) (onFrame now raw) (fun _ => Begun stored)
      fun _ => Begun stored := by
  refine onFrame_triple (fun _ _ h => h.2) (fun payload => .of_eq fun s ⟨hlocked, hs⟩ => ?_)
    fun msg => ?_
  · by_cases hready : s.isReady = true
    · rintro s tape rfl
      rw [run_onKeyExchange_closed hlocked hready]
      exact hs
    · have hsilent : s.ready = none := by
        rw [hs.ready] at hready
        exact Option.not_isSome_iff_eq_none.mp hready
      exact onKeyExchange_triple (R := fun _ => Keyless stored)
        (keyless_exchanging _ ⟨hs.unstored hsilent, hready, hsilent⟩) (keyless_write now)
        (begun_conclude now)
  · refine Act.Triple.pre (P := Begun stored) ?_ fun _ h => h.2
    refine (receive_triple (fun s effect => .of_signal ?_) msg).bind fun _ =>
      begun_of_keeps (keeps_flush aside_signal.calm (fun _ _ _ => rfl) now)
    exact Prod.ext (by cases effect <;> rfl) (keyed_apply s effect)

/-- At all points of all histories the signal names the key that the session has got. -/
theorem upheld_begun : Upheld (fun _ s => s.Locked ∧ Begun stored s)
    (fun _ s => s.Locked ∧ Begun stored s) fun _ s => s.Locked ∧ Begun stored s where
  send _ now ticket payload :=
    (locked_of_keeps (keeps_send aside_keyed.calm now ticket payload)).and
      (begun_of_keeps (keeps_send aside_signal.calm now ticket payload))
  onFrame _ now raw :=
    ((locked_onFrame now raw).and (begun_onFrame now raw)).pre fun _ h => ⟨h.1, h⟩
  deliver _ _ _ h := ⟨h.1, h.2.ready, h.2.unstored, h.2.named⟩
  stop _ _ h := h
  finish _ _ _ h := ⟨h.1, h.2.ready, h.2.unstored, h.2.named⟩
  refuse _ _ _ _ h := ⟨h.1, h.2.ready, h.2.unstored, h.2.named⟩

end Begun

end Session

/-! ## 6. Turns -/

namespace Connection

/-- The salts that a turn takes up. -/
def announced (step : Connection × Event) : List UInt64 :=
  (takenUp? step).toList.flatMap Msg.salts

variable {salts : List UInt64} {c d : Connection}

/-- A session keeps track as long as it works, and has been writing from that of `c` on. -/
def Follows (salts : List UInt64) (c d : Connection) : Prop :=
  (d.ended = none → Tracks salts d.session) ∧ Writes salts c.session d.session

/-- Nothing has been written, and there is nothing new. -/
theorem Follows.nothing (h : c.ended = none → Tracks salts c.session)
    (hended : d.ended = none → c.ended = none) (hsame : record d.session = record c.session) :
    Follows salts c d :=
  ⟨fun hnone => (h (hended hnone)).of_record hsame, .nothing hsame⟩

/-- The end of a session writes no frame and takes nothing back. -/
theorem record_finish (how : Except Halt Unit) (c : Connection) :
    (finish how c).ended ≠ none ∧ record (finish how c).session = record c.session := by
  obtain ⟨inbound, lingering, hfinish⟩ := exists_finish how c
  rw [hfinish]
  exact ⟨Option.some_ne_none _, rfl⟩

theorem follows_finish (how : Except Halt Unit) (hsession : d.session = c.session) :
    Follows salts c (finish how d) := by
  obtain ⟨hended, hsame⟩ := record_finish how d
  exact ⟨fun hnone => absurd hnone hended, .nothing (by rw [hsame, hsession])⟩

/-- A turn follows the announcements if the procedure it carries out does. -/
theorem follows_carryOut {a : Act Session Unit} (hsession : d.session = c.session)
    (ha : Act.Triple (· = c.session) a (fun _ => Keeping salts c.session)
      fun _ => Writes salts c.session) : Follows salts c (carryOut a d) := by
  unfold carryOut
  rcases hrun : a (d.session, d.tape) with ⟨halt | ⟨⟩, session, tape⟩
  · obtain ⟨hended, hsame⟩ := record_finish (.error halt) { d with session, tape }
    exact ⟨fun hnone => absurd hnone hended, (ha.error hsession hrun).of_record hsame⟩
  · obtain ⟨htracks, hwrites⟩ := ha.ok hsession hrun
    exact ⟨fun _ => htracks, hwrites⟩

/-- A frame brings its announcements, and all that is written on account of it has the salt after
them. -/
theorem follows_read (now : Instant) {frame rest : Bytes} (h : Tracks salts c.session)
    (hlocked : c.session.Locked) (hwork : c.work? = some (.read frame rest)) :
    Follows (salts ++ announced (c, .turn now)) c (c.perform now (.read frame rest)) := by
  refine follows_carryOut rfl ?_
  rintro s tape rfl
  simp only [announced, takenUp?, hwork]
  cases hparse : c.session.framer.parse frame with
  | error e =>
    rw [run_onFrame_refused hparse]
    exact .nothing rfl
  | ok msg =>
    by_cases hkind : msg.kind = .keyExchange
    · rw [run_onFrame_exchange hparse hkind]
      simpa [hkind] using keeping_onKeyExchange now msg.payload h hlocked _ tape rfl
    · -- only a session with a key opens an encrypted envelope
      obtain ⟨auth, hauth⟩ : ∃ auth, c.session.framer.auth = some auth := by
        obtain ⟨keyId, -, ⟨-, msgId, payload, -, rfl⟩ | ⟨-, auth, env, hauth, -⟩⟩ :=
          parse_eq_ok_iff.mp hparse
        · exact absurd rfl hkind
        · exact ⟨auth, hauth⟩
      rw [run_onFrame_message hparse hkind]
      simpa [hkind] using keeping_message now msg h hauth _ tape rfl

/-- **A turn follows the announcements.** -/
theorem follows_turn (now : Instant) (h : c.ended = none → Tracks salts c.session)
    (hlocked : c.session.Locked) :
    Follows (salts ++ announced (c, .turn now)) c (c.happen (.turn now)) := by
  cases hwork : c.work? with
  | none =>
    simp only [announced, takenUp?, happen, hwork, Option.toList_none, List.flatMap_nil,
      List.append_nil]
    exact .nothing h id rfl
  | some w =>
    have hhappen : c.happen (.turn now) = c.perform now w := by simp only [happen, hwork]
    rw [hhappen]
    -- nothing but a frame brings a message
    have hunread : (∀ frame rest, w ≠ .read frame rest) → Follows salts c (c.perform now w) →
        Follows (salts ++ announced (c, .turn now)) c (c.perform now w) := by
      intro hw hfollows
      have hnothing : announced (c, .turn now) = [] := by
        cases w with
        | read frame rest => exact absurd rfl (hw frame rest)
        | _ => simp [announced, takenUp?, hwork]
      rwa [hnothing, List.append_nil]
    rcases work?_eq_some_iff.mp hwork with ⟨-, -, -, rfl⟩ | ⟨-, -, -, rfl⟩ |
      ⟨incoming, others, -, -, -, -, rfl⟩ | ⟨hended, -, hserving⟩
    · exact hunread (by simp) (.nothing h id rfl)
    · exact hunread (by simp) (.nothing h id rfl)
    · exact hunread (by simp) (.nothing h id rfl)
    rcases serving?_eq_some_iff.mp hserving with ⟨command, others, -, rfl⟩ | ⟨-, -, rfl⟩ |
      ⟨-, -, hreading⟩
    · refine hunread (by simp) ?_
      cases command with
      | send ticket payload =>
        refine follows_carryOut rfl (((keeping_send now ticket payload).pre ?_).halts
          fun _ _ h => h.2)
        rintro s rfl
        exact .start (h hended)
      | snapshot ticket => exact .nothing h id rfl
      | close => exact follows_finish (.ok ()) rfl
    · exact hunread (by simp) (follows_finish _ rfl)
    obtain ⟨-, ⟨frame, rest, -, rfl⟩ | ⟨e, rest, -, rfl⟩ | ⟨-, rfl⟩⟩ :=
      reading?_eq_some_iff.mp hreading
    · exact follows_read now (h hended) hlocked hwork
    · exact hunread (by simp) (follows_finish _ rfl)
    · exact hunread (by simp) (follows_finish _ rfl)

/-- **Whatever happens, a session follows the announcements.** -/
theorem follows_happen (event : Event) (h : c.ended = none → Tracks salts c.session)
    (hlocked : c.session.Locked) : Follows (salts ++ announced (c, event)) c (c.happen event) := by
  have hnothing : ∀ d : Connection, d.ended = c.ended → record d.session = record c.session →
      Follows (salts ++ []) c d := by
    intro d hended hsame
    rw [List.append_nil]
    exact .nothing h (fun hnone => hended ▸ hnone) hsame
  cases event with
  | turn now => exact follows_turn now h hlocked
  | submit command =>
    have hsame : (c.submit command).ended = c.ended ∧
        record (c.submit command).session = record c.session := by
      unfold submit
      split <;> exact ⟨by simp [*], rfl⟩
    exact hnothing _ hsame.1 hsame.2
  | receive =>
    have hsame : c.takeEvent.2.ended = c.ended ∧ c.takeEvent.2.session = c.session := by
      unfold takeEvent
      split <;> exact ⟨rfl, rfl⟩
    exact hnothing _ hsame.1 (by rw [happen, hsame.2])
  | arrive | hangUp | stopListening | abandon => exact hnothing _ rfl rfl

end Connection

open Connection

/-! ## 7. Every history -/

/-- The salts that have been announced in a history, in order. -/
def Setting.announced (g : Setting) (events : List Event) : List UInt64 :=
  (g.takenUp events).flatMap Msg.salts

theorem Setting.announced_append (g : Setting) (events : List Event) (event : Event) :
    g.announced (events ++ [event]) =
      g.announced events ++ Connection.announced (g.after events, event) := by
  rw [announced, takenUp, filterMap_trace, List.flatMap_append]
  rfl

/-- A session that begins to work follows the announcements, of which there are none. -/
theorem Setting.follows_start (g : Setting) :
    Follows [] { limits := g.limits, session := g.session, tape := g.tape } g.connection :=
  follows_carryOut rfl (keeping_begin g.fresh g.now)

/-- A session at work keeps track of the announcements. -/
theorem Setting.tracks (g : Setting) (events : List Event) :
    (g.after events).ended = none → Tracks (g.announced events) (g.after events).session := by
  induction events using List.reverseRecOn with
  | nil =>
    exact g.follows_start.1
  | append_singleton events event ih =>
    rw [g.announced_append, g.after_append]
    exact (follows_happen event ih (g.locked events)).1

theorem Setting.begun (g : Setting) (events : List Event) :
    Begun g.session.framer.auth (g.after events).session :=
  (g.holds_after (((locked_begin g.fresh g.now).and (begun_begin g.fresh g.now)).pre
    fun _ h => ⟨h, h⟩) upheld_begun events).always.2

/-- **Every envelope has the salt that was announced last.**  In every history:

* the key that the signal names, and with it the first salt, is the stored one or that of the key
  exchange, and the signal remains as it is;
* while the session works, its salt is the one that has been announced last, or the first one if
  none has been announced, and everything else about its key is as the signal says;
* if the session has had its key from the start, its first frames have the first salt;
* whatever happens next, each frame that is written is an envelope with the salt that has been
  announced last, the announcements of what is taken up with it included;
* a snapshot has this salt, too. -/
theorem Setting.salt_current (g : Setting) (events : List Event) :
    let c := g.after events
    (∀ r, c.session.ready = some r →
      (g.session.framer.auth = some r.auth ∨
        g.session.framer.auth = none ∧ c.session.exchange.result = .ok r.auth) ∧
      ∀ more, (g.after (events ++ more)).session.ready = some r) ∧
    (c.ended = none →
      c.session.framer.auth = c.session.ready.map fun r => r.auth.renew (g.announced events)) ∧
    (∀ r, g.connection.session.ready = some r → ∀ raw ∈ g.connection.session.written,
      r.auth.Stamps raw) ∧
    (∀ event, let d := g.after (events ++ [event])
      ∃ raws, d.session.written = c.session.written ++ raws ∧
        ∀ r, d.session.ready = some r → ∀ raw ∈ raws,
          (r.auth.renew (g.announced (events ++ [event]))).Stamps raw) ∧
    (∀ now ticket others, c.work? = some (.serve (.snapshot ticket) others) →
      ∃ snapshot, (g.after (events ++ [.turn now])).snapshots =
        c.snapshots ++ [(ticket, snapshot)] ∧
        snapshot.auth = c.session.ready.map fun r => r.auth.renew (g.announced events)) := by
  refine ⟨fun r hr => ⟨(g.begun events).named r hr, g.ready_after ⟨hr, ?_, g.locked events⟩⟩,
    fun hended => (g.tracks events hended).auth, fun r hr => ?_, fun event => ?_, ?_⟩
  · rw [(g.begun events).ready, hr]
    rfl
  · obtain ⟨raws, hraws, hstamps⟩ := g.follows_start.2
    rw [hraws, g.fresh.written]
    exact hstamps r hr
  · rw [g.announced_append, g.after_append]
    exact (follows_happen event (g.tracks events) (g.locked events)).2
  · intro now ticket others hwork
    refine ⟨(g.after events).session.snapshot, ?_, (g.tracks events (ended_of_serve hwork)).auth⟩
    rw [g.after_append]
    simp only [List.foldl_cons, List.foldl_nil, happen, hwork]
    rfl

end Mtproto
