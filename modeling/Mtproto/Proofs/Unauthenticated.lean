import Mathlib.Tactic.Common
import Mtproto.Proofs.HangUp
import Mtproto.Proofs.History
import Mtproto.Proofs.KeyExchange

/-!
# What does not come from the server changes nothing

A session that has a key acts on nothing but envelopes that were sealed under this key for this
session.  Whatever else arrives at `Session.onFrame` is refused with an error, and the session and
the tape are exactly as before.

Envelopes take care of themselves: what can be opened has been sealed
(`Authorization.seals_of_decrypt`).  The other way in is the key exchange, whose messages are not
encrypted.  It is shut because a session with a key has its exchange at the beginning or at the end,
and neither state expects an answer.

* `Locked`: that a session with a key has its exchange in one of these two states.  Every procedure
  upholds it, so it holds in every history (`Setting.locked`).
* `Setting.onFrame_of_not_seals`: the refusal, after any history.
-/

namespace Mtproto

open Wire

namespace Session

/-! ## 1. The exchange of a session that has a key -/

/-- Where there is a key, the exchange has not begun or has succeeded. -/
def Locked (s : Session) : Prop :=
  s.isReady = true → s.exchange.state = .init ∨ s.exchange.state = .done

/-- What the lock depends on. -/
def keyed (s : Session) : Bool × KeyExchange :=
  (s.isReady, s.exchange)

theorem Locked.of_keyed {s s' : Session} (hsame : keyed s' = keyed s) (h : Locked s) :
    Locked s' := by
  obtain ⟨hready, hexchange⟩ := Prod.mk.inj hsame
  rw [Locked, hready, hexchange]
  exact h

theorem locked_of_not_ready {s : Session} (h : s.isReady ≠ true) : Locked s :=
  fun hready => absurd hready h

theorem aside_isReady : Aside isReady :=
  fun _ _ _ _ _ hauth => congrArg Option.isSome hauth

theorem aside_keyed : Aside keyed := fun s framer queued written outcomes hauth =>
  Prod.ext (aside_isReady s framer queued written outcomes hauth) rfl

theorem keyed_signalReady (s : Session) : keyed s.signalReady = keyed s := by
  unfold signalReady
  split <;> rfl

theorem keyed_apply (s : Session) (effect : Effect) : keyed (s.apply effect) = keyed s := by
  cases effect with
  | renewSalt salt => simp [keyed, apply, isReady, Framer.setServerSalt]
  | acknowledge | answer | deliver => rfl

/-- What every effect preserves is preserved by a message. -/
theorem receive_triple {P : Session → Prop} (hP : ∀ s effect, P s → P (s.apply effect))
    (msg : Msg) : Act.Triple P (receive msg) (fun _ => P) fun _ => P := by
  refine .update_bind (fun s hs => List.foldlRecOn _ _ hs fun s hs effect _ => hP s effect hs) ?_
  cases (messageEffects {} msg.msgId msg.kind msg.payload).failure with
  | some e => exact .fail fun _ h => h
  | none => exact .pure fun _ h => h

/-- Whatever keeps the exchange, and whether there is a key, keeps the lock. -/
theorem locked_of_keeps {α : Type} {m : Act Session α} (hm : Act.Keeps keyed m) :
    Act.Triple Locked m (fun _ => Locked) fun _ => Locked :=
  hm.triple fun _ _ => Locked.of_keyed

/-- The key exchange goes on where there is no key, and has no key before it is done. -/
theorem isReady_exchanging {α : Type} (a : Act KeyExchange α) {s : Session} (h : s.isReady ≠ true) :
    Act.Triple (· = s) (exchanging a) (fun _ s' => s'.isReady ≠ true) fun _ => Locked := by
  have hkeeps : Act.Keeps isReady (exchanging a) := Act.keeps_zoom a fun _ _ => rfl
  refine (hkeeps.triple_eq s).post (fun _ s' hsame => ?_) fun _ s' hsame => ?_
  · rwa [hsame]
  · exact locked_of_not_ready (by rwa [hsame])

theorem locked_begin {s : Session} (hfresh : s.Fresh) (now : Instant) :
    Act.Triple (· = s) (begin now) (fun _ => Locked) fun _ => Locked := by
  obtain ⟨keys, hexchange⟩ := hfresh.exchange
  refine .state_bind ?_
  rintro s rfl
  refine .ite (fun _ => .update ?_) fun hready => .bind (isReady_exchanging _ hready) fun _ => ?_
  · rintro s rfl
    refine .of_keyed (keyed_signalReady s) fun _ => ?_
    rw [hexchange]
    exact Or.inl rfl
  · exact (locked_of_keeps (.bind (keeps_write aside_keyed _ _ _) fun _ => Act.keeps_pure _)).pre
      fun _ => locked_of_not_ready

/-- A key exchange that expects no answer refuses it. -/
theorem run_onKeyExchange_closed {s : Session} (h : Locked s) (hready : s.isReady = true)
    (now : Instant) (payload : Bytes) (tape : Entropy) :
    onKeyExchange now payload (s, tape) = (.error (.error .unexpectedCommand), s, tape) := by
  have hclosed : s.exchange.state.isTerminal = true ∨ s.exchange.state = .init := by
    rcases h hready with hstate | hstate
    · exact Or.inr hstate
    · rw [hstate]
      exact Or.inl rfl
  have hrun : exchanging (KeyExchange.handle now payload) (s, tape) =
      (.error (.error .unexpectedCommand), s, tape) := by
    simp only [exchanging, Act.zoom, KeyExchange.run_handle_closed hclosed]
  rw [onKeyExchange, run_bind, hrun]

/-- The key is installed when the exchange is done, and not before. -/
theorem locked_conclude (now : Instant) :
    Act.Triple (fun s => s.isReady ≠ true) (conclude now) (fun _ => Locked) fun _ => Locked := by
  refine .state_bind fun s hready => .ite (fun hdone => ?_) fun _ => .pure ?_
  · refine .ofExcept_bind ?_ fun auth _ => .update_bind (I := Locked) ?_ ?_
    · rintro e s rfl
      exact locked_of_not_ready hready
    · rintro s rfl
      exact .of_keyed (keyed_signalReady _) fun _ => Or.inr (of_decide_eq_true hdone)
    · exact locked_of_keeps (.bind Act.keeps_state fun _ => keeps_writeQueued aside_keyed.calm _ _)
  · rintro s rfl
    exact locked_of_not_ready hready

theorem locked_onKeyExchange (now : Instant) (payload : Bytes) :
    Act.Triple Locked (onKeyExchange now payload) (fun _ => Locked) fun _ => Locked := by
  refine .of_eq fun s hs => ?_
  by_cases hready : s.isReady = true
  · rintro s tape rfl
    rw [run_onKeyExchange_closed hs hready]
    exact hs
  refine onKeyExchange_triple (R := fun _ s => s.isReady ≠ true) (isReady_exchanging _ hready)
    (fun request => ?_) (locked_conclude now)
  exact ((keeps_write aside_isReady now .keyExchange request).triple fun _ _ hsame h =>
    hsame ▸ h).halts fun _ _ => locked_of_not_ready

/-- An exchange goes on only where there is no key, and gives the key only when it is done. -/
theorem locked_onFrame (now : Instant) (raw : Bytes) :
    Act.Triple Locked (onFrame now raw) (fun _ => Locked) fun _ => Locked :=
  onFrame_triple (fun _ _ h => h) (locked_onKeyExchange now) fun msg =>
    (receive_triple (fun s effect => .of_keyed (keyed_apply s effect)) msg).bind fun _ =>
      locked_of_keeps (keeps_flush aside_keyed.calm (fun _ _ _ => rfl) now)

theorem upheld_locked : Upheld (fun _ => Locked) (fun _ => Locked) fun _ => Locked where
  send _ now ticket payload := locked_of_keeps (keeps_send aside_keyed.calm now ticket payload)
  onFrame _ now raw := locked_onFrame now raw
  deliver _ _ _ h := h
  stop _ _ h := h
  finish _ _ _ h := h
  refuse _ _ _ _ h := h

end Session

open Session Connection

/-- In every history a session with a key has an exchange that has not begun or is done. -/
theorem Setting.locked (g : Setting) (events : List Event) : (g.after events).session.Locked :=
  (g.holds_after (locked_begin g.fresh g.now) upheld_locked events).always

/-! ## 2. Frames -/

/-- The server has sealed a frame for a session. -/
def Authorization.Seals (auth : Authorization) (raw : Bytes) : Prop :=
  ∃ env tape tape', env.sessionId = auth.sessionId ∧
    Envelope.encrypt auth.key .serverToClient env tape = (.ok (.ok raw), tape')

theorem Authorization.seals_of_decrypt {auth : Authorization} {raw : Bytes} {env : Envelope}
    (hsession : env.sessionId = auth.sessionId)
    (hopen : Envelope.decrypt auth.key .serverToClient raw = .ok env) : auth.Seals raw := by
  obtain ⟨pad, hsealed⟩ := Envelope.sealed_of_decrypt hopen
  exact ⟨env, _, _, hsession, (Envelope.sealed_iff_encrypt (Entropy.peek_starting pad)).mp hsealed⟩

/-- **What the server has not sealed for the session has no effect.**  Whatever has happened to a
session that has a key, such a frame is refused with an error; the session and the tape are as they
were, so nothing has been written, counted, queued, delivered or drawn. -/
theorem Setting.onFrame_of_not_seals (g : Setting) (events : List Event) {auth : Authorization}
    {raw : Bytes} (hauth : (g.after events).session.framer.auth = some auth)
    (hraw : ¬ auth.Seals raw) (now : Instant) (tape : Entropy) :
    ∃ e, onFrame now raw ((g.after events).session, tape) =
      (.error (.error e), (g.after events).session, tape) := by
  have hlocked := g.locked events
  generalize (g.after events).session = s at hauth hlocked
  cases hparse : s.framer.parse raw with
  | error e => exact ⟨e, run_onFrame_refused hparse now tape⟩
  | ok msg =>
    obtain ⟨keyId, -, hplain | ⟨-, auth', env, hauth', hopen, hsession, -⟩⟩ :=
      parse_eq_ok_iff.mp hparse
    · obtain ⟨-, msgId, payload, -, rfl⟩ := hplain
      have hready : s.isReady = true := by rw [isReady, hauth]; rfl
      exact ⟨.unexpectedCommand, (run_onFrame_exchange hparse rfl now tape).trans
        (run_onKeyExchange_closed hlocked hready now payload tape)⟩
    · rw [hauth, Option.some.injEq] at hauth'
      subst hauth'
      exact absurd (Authorization.seals_of_decrypt hsession hopen) hraw

/-- What begins with the name of another key, or with no name, has not been sealed. -/
theorem Authorization.not_seals {auth : Authorization} {raw : Bytes}
    (hkey : envelopeKeyId? raw ≠ some auth.key.id) : ¬ auth.Seals raw := by
  rintro ⟨env, tape, tape', -, hencrypt⟩
  obtain ⟨pad, hsealed⟩ := Envelope.sealed_of_decrypt (Envelope.decrypt_of_encrypt hencrypt)
  exact hkey hsealed.keyId?

/-- A stored key is taken up. -/
def Setting.stored : Setting where
  keys := []
  line _ := none
  preparations := [.restore { auth := some zeroAuthorization }]
  limits := ⟨1048576, 2⟩
  tape := .starting []
  now := ⟨0, 0⟩

/-- A message of the key exchange comes too late. -/
theorem Setting.onFrame_of_plain : ∃ e,
    onFrame ⟨0, 0⟩ (List.replicate 24 0) ((stored.after [.turn ⟨0, 0⟩]).session, .starting []) =
      (.error (.error e), (stored.after [.turn ⟨0, 0⟩]).session, .starting []) := by
  have hkey : envelopeKeyId? (List.replicate 24 0) ≠ some zeroAuthorization.key.id := by
    intro h
    exact id_zeroAuthorization (Option.some.inj h).symm
  exact stored.onFrame_of_not_seals [.turn ⟨0, 0⟩] rfl (Authorization.not_seals hkey) ⟨0, 0⟩ _

end Mtproto
