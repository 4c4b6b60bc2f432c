import Mathlib.Tactic.Common
import Mtproto.Proofs.Grammar
import Mtproto.Proofs.Session

/-!
# Which strings a framer accepts

`Framer.parse` takes a message out of what has arrived.  The first eight bytes of a string say what
it is: if they are zero, a plain envelope, and otherwise one that is sealed under the key they name.
`Framer.TakesPlain` says that a framer goes the first way, whatever the two ways lead to.

* `PlainEnvelope.unwrap_eq_ok_iff`: a plain envelope has one form, and its length is exact.
* `takesPlain_iff`: the first way is taken exactly if the first eight bytes are zero, with a key or
  without.
* `Framer.parse_exact`: so on either way it is known exactly what is accepted, and as what.
-/

namespace Mtproto

open Wire

/-! ## 1. Plain envelopes -/

namespace PlainEnvelope

/-- The fields of a plain envelope: the key identifier, the message identifier, the payload. -/
def readFields : Read (UInt64 × UInt64 × Bytes) := do
  return (← Read.word64, ← Read.word64, ← Read.raw (← Read.word32).toNat)

/-- The bytes of the fields. -/
def layout (keyId msgId : UInt64) (payload : Bytes) : Bytes :=
  Bytes.le 8 keyId.toNat ++ (Bytes.le 8 msgId.toNat ++ (Bytes.le 4 payload.length ++ payload))

theorem selfDelimiting_readFields : SelfDelimiting readFields :=
  .bind .word64 fun _ => .bind .word64 fun _ => .prefixed _

theorem reads_readFields_iff {bs : Bytes} {keyId msgId : UInt64} {payload : Bytes} :
    Reads readFields bs (keyId, msgId, payload) ↔
      payload.length < 2 ^ 32 ∧ bs = layout keyId msgId payload := by
  constructor
  · intro h
    obtain ⟨as, a, cs, rfl, ha, h⟩ :=
      (reads_bind_iff .word64 fun _ => .bind .word64 fun _ => .prefixed _).mp h
    obtain ⟨bs, b, cs, rfl, hb, h⟩ := (reads_bind_iff .word64 fun _ => .prefixed _).mp h
    obtain ⟨payload, hlt, rfl, hfields⟩ := reads_prefixed_iff.mp h
    cases hfields
    exact ⟨hlt, by rw [reads_word64_iff.mp ha, reads_word64_iff.mp hb, layout]⟩
  · rintro ⟨hlt, rfl⟩
    exact (Reads.word64_le keyId).bind ((Reads.word64_le msgId).bind
      (reads_prefixed_iff.mpr ⟨payload, hlt, rfl, rfl⟩))

/-- What comes of the fields that have been read. -/
def conclude (run : (UInt64 × UInt64 × Bytes) × Reader) : Except Error (UInt64 × Bytes) := do
  DecodeError.lift run.2.finish
  if run.1.1 ≠ 0 then throw (.unknownAuthKeyId run.1.1)
  return run.1.2

theorem unwrap_eq (raw : Bytes) : unwrap raw = conclude (readFields (.ofBytes raw)) := rfl

/-- The string has been read to its end, and names no key. -/
theorem conclude_eq_ok_iff {run : (UInt64 × UInt64 × Bytes) × Reader} {r : UInt64 × Bytes} :
    conclude run = .ok r ↔
      (run.2.failure = none ∧ run.2.rest = []) ∧ run.1 = (0, r) := by
  obtain ⟨⟨keyId, fields⟩, reader⟩ := run
  rw [← Reader.finish_eq_ok_iff, conclude]
  cases hfinish : reader.finish with
  | error e => simp [DecodeError.lift, Except.mapError, bind, Except.bind]
  | ok u =>
    rw [DecodeError.lift_ok]
    by_cases hzero : keyId = 0
    · simp [hzero, bind, Except.bind, pure, Except.pure]
    · simp [hzero, bind, Except.bind, throw, throwThe, MonadExceptOf.throw]

theorem unwrap_eq_ok_iff_reads {raw : Bytes} {msgId : UInt64} {payload : Bytes} :
    unwrap raw = .ok (msgId, payload) ↔ Reads readFields raw (0, msgId, payload) := by
  rw [unwrap_eq, conclude_eq_ok_iff]
  constructor
  · rintro ⟨⟨hnone, hrest⟩, hfields⟩
    obtain ⟨bs, rest, a, rfl, hread, hrun⟩ := selfDelimiting_readFields.exists_of_ofBytes hnone
    rw [hrun] at hrest hfields
    obtain rfl : rest = [] := hrest
    obtain rfl : a = (0, msgId, payload) := hfields
    rwa [List.append_nil]
  · intro h
    rw [h.ofBytes]
    exact ⟨⟨rfl, rfl⟩, rfl⟩

theorem wrap_eq_ok_iff {msgId : UInt64} {payload raw : Bytes} :
    wrap msgId payload = .ok raw ↔ payload.length < 2 ^ 32 ∧ raw = layout 0 msgId payload := by
  rcases Nat.lt_or_ge payload.length (2 ^ 32) with hlt | hge
  · have hword : (UInt32.ofNat payload.length).toNat = payload.length :=
      UInt32.toNat_ofNat_of_lt' hlt
    have htext : text msgId payload = layout 0 msgId payload := by rw [text, hword, layout]
    rw [wrap_of_lt hlt, htext, Except.ok.injEq, and_iff_right hlt]
    exact eq_comm
  · rw [wrap_of_le hge]
    constructor
    · intro h
      cases h
    · intro h
      exact absurd h.1 (Nat.not_lt.mpr hge)

/-- **A plain envelope has one form.** -/
theorem unwrap_eq_ok_iff {raw : Bytes} {msgId : UInt64} {payload : Bytes} :
    unwrap raw = .ok (msgId, payload) ↔ wrap msgId payload = .ok raw := by
  rw [unwrap_eq_ok_iff_reads, reads_readFields_iff, wrap_eq_ok_iff]

end PlainEnvelope

/-! ## 2. The first eight bytes -/

/-- The key identifier of an envelope is zero if its bytes are. -/
theorem envelopeKeyId?_eq_zero_iff {raw : Bytes} :
    envelopeKeyId? raw = some 0 ↔ raw.take 8 = List.replicate 8 0 := by
  by_cases hshort : raw.length < 8
  · rw [Envelope.envelopeKeyId?_of_lt hshort, List.take_of_length_le hshort.le]
    refine iff_of_false nofun ?_
    rintro rfl
    simp at hshort
  · obtain ⟨front, rest, hfront, rfl⟩ : ∃ front rest : Bytes, front.length = 8 ∧
        raw = front ++ rest :=
      ⟨raw.take 8, raw.drop 8, List.length_take_of_le (Nat.not_lt.mp hshort),
        (List.take_append_drop 8 raw).symm⟩
    rw [Envelope.envelopeKeyId?_append hfront, List.take_left' hfront, Option.some.injEq]
    constructor
    · intro hzero
      rw [← Bytes.le_ofLE_eight hfront, hzero]
      rfl
    · rintro rfl
      rfl

namespace MsgKind

/-- Odd sequence numbers mark content. -/
theorem ofSeqNo_eq (seqNo : UInt32) :
    ofSeqNo seqNo = if seqNo.toNat % 2 = 1 then .content else .service := by
  have hodd : seqNo % 2 = 1 ↔ seqNo.toNat % 2 = 1 := by
    rw [← UInt32.toNat_inj, UInt32.toNat_mod]
    exact Iff.rfl
  simp only [ofSeqNo, hodd]

end MsgKind

namespace Framer

/-- Take a message out of its envelope, where the two kinds of envelopes are opened in any way. -/
def parseBy (openPlain : Bytes → Except Error (UInt64 × Bytes))
    (openSealed : AuthKey → Bytes → Except Error Envelope) (f : Framer) (raw : Bytes) :
    Except Error Msg := do
  match envelopeKeyId? raw with
  | none => throw (.decode (.unexpectedEof 8 raw.length))
  | some keyId =>
    if keyId = 0 then
      let (msgId, payload) ← openPlain raw
      return { kind := .keyExchange, msgId, payload }
    match f.auth with
    | none => throw (.unknownAuthKeyId keyId)
    | some auth =>
      let env ← openSealed auth.key raw
      if env.sessionId ≠ auth.sessionId then throw .sessionMismatch
      return { kind := .ofSeqNo env.seqNo, msgId := env.msgId, payload := env.payload }

theorem parse_eq (f : Framer) (raw : Bytes) :
    f.parse raw =
      f.parseBy PlainEnvelope.unwrap (fun key => Envelope.decrypt key .serverToClient) raw := rfl

/-- A string is left to the opener of plain envelopes: what this one says is the answer, whatever
the two openers say. -/
def TakesPlain (f : Framer) (raw : Bytes) : Prop :=
  ∀ openPlain openSealed, f.parseBy openPlain openSealed raw =
    (openPlain raw).map fun (msgId, payload) => ⟨.keyExchange, msgId, payload⟩

/-- **A string is left to the opener of plain envelopes if it starts with eight zero bytes**, and
only then. -/
theorem takesPlain_iff {f : Framer} {raw : Bytes} :
    f.TakesPlain raw ↔ raw.take 8 = List.replicate 8 0 := by
  rw [← envelopeKeyId?_eq_zero_iff]
  constructor
  · intro h
    -- an opener that always succeeds is not asked on the other ways, which all end with an error
    have hasked := h (fun _ => .ok (0, [])) fun _ _ => .error .sessionMismatch
    by_contra hkey
    unfold parseBy at hasked
    split at hasked
    · cases hasked
    · rename_i keyId hsome
      have hne : keyId ≠ 0 := by
        rintro rfl
        exact hkey hsome
      rw [if_neg hne] at hasked
      split at hasked <;> cases hasked
  · intro hkey openPlain openSealed
    simp only [parseBy, hkey, if_true]
    cases openPlain raw <;> rfl

theorem parse_eq_ok_iff_of_zero {f : Framer} {raw : Bytes} {msg : Msg}
    (h : raw.take 8 = List.replicate 8 0) :
    f.parse raw = .ok msg ↔
      msg.kind = .keyExchange ∧ PlainEnvelope.unwrap raw = .ok (msg.msgId, msg.payload) := by
  obtain ⟨kind, msgId, payload⟩ := msg
  rw [parse_eq, takesPlain_iff.mpr h]
  cases PlainEnvelope.unwrap raw with
  | error e => simp [Except.map]
  | ok r => simp [Except.map, Prod.ext_iff, eq_comm]

theorem parse_eq_ok_iff_of_ne {f : Framer} {raw : Bytes} {msg : Msg}
    (h : raw.take 8 ≠ List.replicate 8 0) :
    f.parse raw = .ok msg ↔ ∃ auth env, f.auth = some auth ∧
      Envelope.decrypt auth.key .serverToClient raw = .ok env ∧ env.sessionId = auth.sessionId ∧
      msg = ⟨.ofSeqNo env.seqNo, env.msgId, env.payload⟩ := by
  have hkey : envelopeKeyId? raw ≠ some 0 := fun hzero => h (envelopeKeyId?_eq_zero_iff.mp hzero)
  rw [Session.parse_eq_ok_iff]
  constructor
  · rintro ⟨keyId, hsome, ⟨rfl, -⟩ | ⟨-, hopen⟩⟩
    · exact absurd hsome hkey
    · exact hopen
  · rintro ⟨auth, env, hauth, hopen, hrest⟩
    -- what can be opened names the key
    obtain ⟨pad, hsealed⟩ := Envelope.sealed_of_decrypt hopen
    have hsome := hsealed.keyId?
    refine ⟨auth.key.id, hsome, Or.inr ⟨?_, auth, env, hauth, hopen, hrest⟩⟩
    intro hzero
    rw [hzero] at hsome
    exact hkey hsome

/-- **Which strings `parse` takes for messages.**

* A payload has a plain envelope if its length fits into a word; a string is unwrapped into an
  identifier and a payload exactly if it is their plain envelope.
* A framer, whatever it holds, leaves a string to the opener of plain envelopes exactly if the
  first eight bytes are zero.
* Such a string is a message of the key exchange, if it is a plain envelope.  Any other string is a
  message exactly if it can be opened under the key of the framer as one from the server, and
  belongs to the session; the message is content if its sequence number is odd, and keeps
  identifier and payload. -/
theorem parse_exact :
    (∀ (msgId : UInt64) (payload : Bytes),
      (∃ raw, PlainEnvelope.wrap msgId payload = .ok raw) ↔ payload.length < 2 ^ 32) ∧
    (∀ (msgId : UInt64) (payload raw : Bytes),
      PlainEnvelope.unwrap raw = .ok (msgId, payload) ↔
        PlainEnvelope.wrap msgId payload = .ok raw) ∧
    (∀ (f : Framer) (raw : Bytes),
      f.parse raw =
        f.parseBy PlainEnvelope.unwrap (fun key => Envelope.decrypt key .serverToClient) raw ∧
      (f.TakesPlain raw ↔ raw.take 8 = List.replicate 8 0)) ∧
    ∀ (f : Framer) (raw : Bytes) (msg : Msg), f.parse raw = .ok msg ↔
      if raw.take 8 = List.replicate 8 0 then
        msg.kind = .keyExchange ∧ PlainEnvelope.unwrap raw = .ok (msg.msgId, msg.payload)
      else ∃ auth env, f.auth = some auth ∧
        Envelope.decrypt auth.key .serverToClient raw = .ok env ∧
        env.sessionId = auth.sessionId ∧
        msg = ⟨if env.seqNo.toNat % 2 = 1 then .content else .service, env.msgId, env.payload⟩ := by
  refine ⟨?_, fun msgId payload raw => PlainEnvelope.unwrap_eq_ok_iff,
    fun f raw => ⟨parse_eq f raw, takesPlain_iff⟩, ?_⟩
  · intro msgId payload
    simp only [PlainEnvelope.wrap_eq_ok_iff, exists_and_left, exists_eq, and_true]
  · intro f raw msg
    split
    · rename_i hzero
      exact parse_eq_ok_iff_of_zero hzero
    · rename_i hne
      simp only [parse_eq_ok_iff_of_ne hne, MsgKind.ofSeqNo_eq]

end Framer

end Mtproto
