import Mathlib.Tactic.Common
import Mtproto.Proofs.Frames
import Mtproto.Proofs.Handshake
import Mtproto.Proofs.Writing

/-!
# What a session does with a frame

`Session.onFrame` takes one frame off the line.  A frame is refused, or goes to the key exchange, or
is a message (`onFrame_triple`).

Deliveries come from one place: a message that has been taken out of an encrypted envelope.
Everything else that a session does leaves them as they are (`Apart`), and so does a frame that is
too short for such an envelope (`deliveries_onFrame`).  The module on hang-ups needs this, because
it asks when there is anything to lose.

The second half follows one content message without payload through a session that has a key: it is
delivered, and its acknowledgement is written (`run_onFrame_content`).
-/

namespace Mtproto.Session

open Wire

/-! ## 1. A frame -/

/-- What follows an answer of the key exchange.  If the exchange is done, the key is installed and
the signal given, and then everything is written that waits. -/
def conclude (now : Instant) : Act Session Unit := do
  let exchange := (← Act.state).exchange
  if exchange.isDone then
    let auth ← Act.ofExcept exchange.result
    Act.update fun s => { s with framer := s.framer.setAuth auth }.signalReady
    writeQueued now (← Act.state).queued

section Triples

variable {P Q : Session → Prop} {E : Halt → Session → Prop} {s : Session} {raw : Bytes}

/-- An answer of the key exchange: it is handled, the next request is written if there is one, and
then the exchange is concluded. -/
theorem onKeyExchange_triple {R : Option Bytes → Session → Prop} {now : Instant} {payload : Bytes}
    (hhandle : Act.Triple P (exchanging (KeyExchange.handle now payload)) R E)
    (hwrite : ∀ request, Act.Triple (R (some request)) (write now .keyExchange request)
      (fun _ => R none) E)
    (hconclude : Act.Triple (R none) (conclude now) (fun _ => Q) E) :
    Act.Triple P (onKeyExchange now payload) (fun _ => Q) E := by
  refine hhandle.bind fun next => ?_
  cases next with
  | none => exact hconclude
  | some request => exact (hwrite request).bind fun _ => hconclude

theorem signalReady_eq {auth : Authorization} (hauth : s.framer.auth = some auth)
    (hready : s.ready = none) :
    s.signalReady = { s with ready := some { auth, seqNo := s.framer.seqNo } } := by
  rw [signalReady, hauth, hready]

/-- A session begins with the signal if it has a key, and otherwise with the first request. -/
theorem begin_triple {R : Bytes → Session → Prop} {now : Instant} (hready : s.ready = none)
    (hkeyed : ∀ auth, s.framer.auth = some auth →
      Q { s with ready := some { auth, seqNo := s.framer.seqNo } })
    (hstart : s.framer.auth = none → Act.Triple (· = s) (exchanging KeyExchange.start) R E)
    (hwrite : ∀ request, Act.Triple (R request) (write now .keyExchange request) (fun _ => Q) E) :
    Act.Triple (· = s) (begin now) (fun _ => Q) E := by
  refine .state_bind ?_
  rintro s rfl
  refine .ite (fun hkey => .update ?_) fun hkey => ?_
  · rintro s rfl
    obtain ⟨auth, hauth⟩ := Option.isSome_iff_exists.mp hkey
    rw [signalReady_eq hauth hready]
    exact hkeyed auth hauth
  · exact (hstart (Option.not_isSome_iff_eq_none.mp hkey)).bind fun request =>
      (hwrite request).bind fun _ => .pure fun _ h => h

theorem run_onFrame_refused {e : Error} (hparse : s.framer.parse raw = .error e) (now : Instant)
    (tape : Entropy) : onFrame now raw (s, tape) = (.error (.error e), s, tape) := by
  unfold onFrame
  rw [Act.state_bind, hparse]
  rfl

theorem run_onFrame_exchange {msg : Msg} (hparse : s.framer.parse raw = .ok msg)
    (hkind : msg.kind = .keyExchange) (now : Instant) (tape : Entropy) :
    onFrame now raw (s, tape) = onKeyExchange now msg.payload (s, tape) := by
  unfold onFrame
  rw [Act.state_bind]
  simp only [hparse, Act.ofExcept_ok_bind, hkind]

theorem run_onFrame_message {msg : Msg} (hparse : s.framer.parse raw = .ok msg)
    (hkind : msg.kind ≠ .keyExchange) (now : Instant) (tape : Entropy) :
    onFrame now raw (s, tape) = (do receive msg; flush now : Act Session Unit) (s, tape) := by
  unfold onFrame
  rw [Act.state_bind]
  simp only [hparse, Act.ofExcept_ok_bind]
  cases hmsg : msg.kind with
  | keyExchange => exact absurd hmsg hkind
  | content | service => rfl

/-- A frame is refused, or goes to the key exchange, or is a message for the session. -/
theorem onFrame_triple {now : Instant} (hrefused : ∀ e s, P s → E (.error e) s)
    (hexchange : ∀ payload, Act.Triple P (onKeyExchange now payload) (fun _ => Q) E)
    (hmessage : ∀ msg, Act.Triple P (do receive msg; flush now) (fun _ => Q) E) :
    Act.Triple P (onFrame now raw) (fun _ => Q) E := by
  intro s tape hs
  cases hparse : s.framer.parse raw with
  | error e =>
    rw [run_onFrame_refused hparse]
    exact hrefused e s hs
  | ok msg =>
    by_cases hkind : msg.kind = .keyExchange
    · rw [run_onFrame_exchange hparse hkind]
      exact hexchange msg.payload s tape hs
    · rw [run_onFrame_message hparse hkind]
      exact hmessage msg s tape hs

end Triples

/-! ## 2. What the key exchange leaves as it is -/

section Apart

variable {τ : Type} {f : Session → τ}

/-- What `f` sees of a session comes from encrypted messages only. -/
def Apart (f : Session → τ) : Prop :=
  ∀ s framer exchange queued written outcomes ready,
    f { s with framer, exchange, queued, written, outcomes, ready } = f s

theorem Apart.aside (hf : Apart f) : Aside f :=
  fun s framer queued written outcomes _ => hf s framer s.exchange queued written outcomes s.ready

theorem apart_deliveries : Apart deliveries := fun _ _ _ _ _ _ _ => rfl

theorem Apart.signalReady (hf : Apart f) (s : Session) : f s.signalReady = f s := by
  unfold Session.signalReady
  split
  · exact hf s s.framer s.exchange s.queued s.written s.outcomes _
  · rfl

theorem keeps_exchanging (hf : Apart f) {α : Type} (a : Act KeyExchange α) :
    Act.Keeps f (exchanging a) :=
  Act.keeps_zoom a fun exchange s => hf s s.framer exchange s.queued s.written s.outcomes s.ready

theorem keeps_begin (hf : Apart f) (now : Instant) : Act.Keeps f (begin now) :=
  .bind Act.keeps_state fun _ => .ite (Act.keeps_update hf.signalReady)
    (.bind (keeps_exchanging hf _) fun _ => .bind (keeps_write hf.aside _ _ _) fun _ =>
      Act.keeps_pure _)

theorem keeps_conclude (hf : Apart f) (now : Instant) : Act.Keeps f (conclude now) := by
  refine .bind Act.keeps_state fun _ => .ite (.bind (Act.keeps_ofExcept _) fun auth =>
    .bind (Act.keeps_update fun s => ?_) fun _ => .bind Act.keeps_state fun _ =>
      keeps_writeQueued hf.aside.calm _ _) (Act.keeps_pure _)
  exact (hf.signalReady _).trans (hf s _ s.exchange s.queued s.written s.outcomes s.ready)

theorem keeps_onKeyExchange (hf : Apart f) (now : Instant) (payload : Bytes) :
    Act.Keeps f (onKeyExchange now payload) := by
  refine .bind (keeps_exchanging hf _) fun next => ?_
  cases next with
  | none => exact keeps_conclude hf now
  | some request => exact .bind (keeps_write hf.aside _ _ _) fun _ => keeps_conclude hf now

end Apart

/-! ## 3. Frames that are too short -/

/-- A message comes out of a plain envelope, or out of an encrypted one of the session. -/
theorem parse_eq_ok_iff {f : Framer} {raw : Bytes} {msg : Msg} :
    f.parse raw = .ok msg ↔ ∃ keyId, envelopeKeyId? raw = some keyId ∧
      ((keyId = 0 ∧ ∃ msgId payload, PlainEnvelope.unwrap raw = .ok (msgId, payload) ∧
        msg = ⟨.keyExchange, msgId, payload⟩) ∨
      (keyId ≠ 0 ∧ ∃ auth env, f.auth = some auth ∧
        Envelope.decrypt auth.key .serverToClient raw = .ok env ∧ env.sessionId = auth.sessionId ∧
        msg = ⟨.ofSeqNo env.seqNo, env.msgId, env.payload⟩)) := by
  unfold Framer.parse
  cases hkey : envelopeKeyId? raw with
  | none => simp [throw, throwThe, MonadExceptOf.throw]
  | some keyId =>
    by_cases hzero : keyId = 0
    · cases hplain : PlainEnvelope.unwrap raw with
      | error e => simp [hzero, bind, Except.bind]
      | ok r => simp [hzero, bind, Except.bind, pure, Except.pure, Prod.ext_iff, eq_comm]
    · cases hauth : f.auth with
      | none => simp [hzero, throw, throwThe, MonadExceptOf.throw]
      | some auth =>
        cases hopen : Envelope.decrypt auth.key .serverToClient raw with
        | error e => simp [hzero, hopen, bind, Except.bind]
        | ok env =>
          by_cases hsession : env.sessionId = auth.sessionId
          · simp [hzero, hopen, hsession, bind, Except.bind, pure, Except.pure, eq_comm]
          · simp [hzero, hopen, hsession, bind, Except.bind, throw, throwThe, MonadExceptOf.throw]

/-- The shortest encrypted envelope. -/
def shortestEnvelope : Nat := Envelope.outerHeader + Envelope.innerHeader

/-- What is shorter than every encrypted envelope belongs to the key exchange. -/
theorem kind_of_parse {f : Framer} {raw : Bytes} {msg : Msg}
    (hshort : raw.length < shortestEnvelope) (h : f.parse raw = .ok msg) :
    msg.kind = .keyExchange := by
  obtain ⟨keyId, -, hplain | ⟨-, auth, env, -, hopen, -⟩⟩ := parse_eq_ok_iff.mp h
  · obtain ⟨-, msgId, payload, -, rfl⟩ := hplain
    rfl
  · obtain ⟨pad, hsealed⟩ := Envelope.sealed_of_decrypt hopen
    have := hsealed.length_raw
    rw [shortestEnvelope] at hshort
    omega

/-- **A frame that is too short delivers nothing.** -/
theorem deliveries_onFrame {raw : Bytes} (hshort : raw.length < shortestEnvelope) (now : Instant)
    (s : Session × Entropy) : (onFrame now raw s).2.1.deliveries = s.1.deliveries := by
  cases hparse : s.1.framer.parse raw with
  | error e => rw [run_onFrame_refused hparse]
  | ok msg =>
    rw [run_onFrame_exchange hparse (kind_of_parse hshort hparse)]
    exact keeps_onKeyExchange apart_deliveries now msg.payload s

/-! ## 4. A content message -/

/-- The session has written an acknowledgement of a message. -/
def Acknowledged (auth : Authorization) (s : Session) (msgId : UInt64) : Prop :=
  ∃ raw ∈ s.written, ∃ env ids, Envelope.decrypt auth.key .clientToServer raw = .ok env ∧
    boxedBytes (MsgsAck.mk ids) = .ok env.payload ∧ msgId ∈ ids

/-- A framer can number messages for a key at a time. -/
structure Numbers (auth : Authorization) (now : Instant) (f : Framer) : Prop where
  auth : f.auth = some auth
  clock : (now.shift? f.msgIds.timeOffset.toInt).isSome

/-- A service message is put into an envelope that the server can open. -/
theorem run_format_service {f : Framer} {e : Entropy} {auth : Authorization} {now : Instant}
    {payload : Bytes} (hf : Numbers auth now f) (hpayload : payload.length < 2 ^ 32) :
    ∃ msgId raw f' e' env pad,
      Framer.format now .service payload (f, e) = (.ok (msgId, raw), f', e') ∧
      Numbers auth now f' ∧ Envelope.Sealed auth.key .clientToServer env pad raw ∧
      env.payload = payload := by
  obtain ⟨t, ht⟩ := Option.isSome_iff_exists.mp hf.clock
  obtain ⟨raw, e', pad, hrun, hsealed⟩ :=
    Framer.exists_format_keyed (e := e) ht (by decide : MsgKind.service ≠ .keyExchange) hf.auth
      hpayload
  exact ⟨_, raw, _, e', _, pad, hrun, ⟨hf.auth, hf.clock⟩, hsealed, rfl⟩

/-- A line that does not fail takes a frame. -/
theorem run_transmit {s : Session} {e : Entropy} (raw : Bytes)
    (hline : s.line s.written.length = none) :
    transmit raw (s, e) = (.ok (), { s with written := s.written ++ [raw] }, e) := by
  rw [transmit, Act.state_bind]
  simp only [hline]
  rfl

/-- Writing a short service message. -/
theorem run_write_service {s : Session} {e : Entropy} {auth : Authorization} {now : Instant}
    {payload : Bytes} (hf : Numbers auth now s.framer) (hline : s.line s.written.length = none)
    (hpayload : payload.length ≤ 400) :
    ∃ msgId raw f e', write now .service payload (s, e) =
        (.ok msgId, { s with framer := f, written := s.written ++ [raw] }, e') ∧
      Numbers auth now f ∧ ∃ env, Envelope.decrypt auth.key .clientToServer raw = .ok env ∧
        env.payload = payload := by
  obtain ⟨msgId, raw, f, e', env, pad, hformat, hf', hsealed, henv⟩ :=
    run_format_service (e := e) hf (lt_of_le_of_lt hpayload (by decide))
  refine ⟨msgId, raw, f, e', ?_, hf', env, Envelope.decrypt_of_sealed hsealed, henv⟩
  obtain ⟨header, hheader⟩ : ∃ header, Transport.frameHeader raw.length = .ok header := by
    have hlength := hsealed.length_raw
    have hmod := hsealed.length_mod
    have hpad := hsealed.padding_lt
    simp only [henv, Envelope.outerHeader, Envelope.innerHeader, Envelope.block]
      at hlength hmod hpad
    exact ⟨_, Transport.frameHeader_eq_ok (by omega) (by omega)⟩
  have hframing : framing (Framer.format now .service payload) (s, e) =
      (.ok (msgId, raw), { s with framer := f }, e') := by
    rw [framing, Act.zoom, hformat]
  rw [write, run_bind_ok hframing]
  simp only [hheader, Act.ofExcept_ok_bind]
  exact run_bind_ok (run_transmit raw hline)

/-- The acknowledgement of one message. -/
theorem boxedBytes_ack (msgId : UInt64) :
    ∃ bytes, boxedBytes (MsgsAck.mk [msgId]) = .ok bytes ∧ bytes.length ≤ 400 := by
  have hcodes :
      Codes (fun w => Bare.write w (MsgsAck.mk [msgId])) Bare.read _ (MsgsAck.mk [msgId]) :=
    .map (.vector (by simp) (by simp) fun k _ => Codes.word64 k)
  obtain ⟨bytes, hbytes, hlength, -⟩ := boxed_readBack hcodes
  refine ⟨bytes, hbytes, ?_⟩
  rw [hlength]
  simp

/-- One message to acknowledge and nothing to answer: the acknowledgement is written. -/
theorem run_flush_ack {s : Session} {e : Entropy} {auth : Authorization} {now : Instant}
    {msgId : UInt64} (hf : Numbers auth now s.framer) (hline : ∀ n, s.line n = none)
    (hpongs : s.pongs = []) (hacks : s.acks = [msgId]) :
    ∃ f raw e', flush now (s, e) = (.ok (), { s with
        framer := f, pongs := [], acks := [], written := s.written ++ [raw] }, e') ∧
      Numbers auth now f ∧ ∃ env, Envelope.decrypt auth.key .clientToServer raw = .ok env ∧
        boxedBytes (MsgsAck.mk [msgId]) = .ok env.payload := by
  obtain ⟨bytes, hbytes, hlength⟩ := boxedBytes_ack msgId
  have hdue : s.due = .ok [bytes] := by
    simp [due, hpongs, hacks, hbytes, bind, Except.bind, pure, Except.pure]
  obtain ⟨id, raw, f, e', hwrite, hf', env, hopen, henv⟩ :=
    run_write_service (s := { s with pongs := [], acks := [] }) (e := e) hf (hline _) hlength
  refine ⟨f, raw, e', ?_, hf', env, hopen, henv ▸ hbytes⟩
  rw [flush, Act.state_bind, hdue, DecodeError.lift_ok, Act.ofExcept_ok_bind, Act.update_bind]
  exact run_bind_ok (run_bind_ok hwrite)

/-- A content message without payload is acknowledged and delivered. -/
theorem run_receive_content {s : Session} {e : Entropy} (msgId : UInt64) :
    receive ⟨.content, msgId, []⟩ (s, e) = (.ok (), { s with
      acks := s.acks ++ [msgId], deliveries := s.deliveries ++ [.message msgId []] }, e) := by
  have heffects : messageEffects {} msgId .content [] =
      ⟨[.acknowledge msgId, .deliver (.message msgId [])], none⟩ := by
    rw [messageEffects, payloadEffects]
    rfl
  unfold receive
  simp only [heffects]
  rfl

/-- **A content message on its way through a session.**  It is delivered, and the server can see
that it has been acknowledged. -/
theorem run_onFrame_content {s : Session} {e : Entropy} {auth : Authorization} {now : Instant}
    {salt msgId : UInt64} {pad raw : Bytes} (hf : Numbers auth now s.framer)
    (hid : auth.key.id ≠ 0) (hline : ∀ n, s.line n = none) (hpongs : s.pongs = [])
    (hacks : s.acks = [])
    (hraw : Envelope.Sealed auth.key .serverToClient ⟨salt, auth.sessionId, msgId, 1, []⟩ pad raw) :
    ∃ f ack e', onFrame now raw (s, e) = (.ok (), { s with
        framer := f, pongs := [], acks := [], written := s.written ++ [ack]
        deliveries := s.deliveries ++ [.message msgId []] }, e') ∧
      Numbers auth now f ∧ ∃ env, Envelope.decrypt auth.key .clientToServer ack = .ok env ∧
        boxedBytes (MsgsAck.mk [msgId]) = .ok env.payload := by
  have hparse : s.framer.parse raw = .ok ⟨.content, msgId, []⟩ :=
    parse_eq_ok_iff.mpr ⟨auth.key.id, hraw.keyId?, Or.inr ⟨hid, auth, _, hf.auth,
      Envelope.decrypt_of_sealed hraw, rfl, rfl⟩⟩
  obtain ⟨f, ack, e', hflush, hf', hack⟩ := run_flush_ack
    (s := { s with acks := [msgId], deliveries := s.deliveries ++ [.message msgId []] }) (e := e)
    hf hline hpongs rfl
  refine ⟨f, ack, e', ?_, hf', hack⟩
  have hreceive := run_receive_content (s := s) (e := e) msgId
  rw [hacks, List.nil_append] at hreceive
  rw [run_onFrame_message hparse MsgKind.noConfusion]
  exact (run_bind_ok hreceive).trans hflush

end Mtproto.Session
