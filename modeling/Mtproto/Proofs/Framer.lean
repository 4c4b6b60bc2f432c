import Mathlib.Tactic.Common
import Mtproto.Message.Framer
import Mtproto.Proofs.Envelope
import Mtproto.Proofs.Triple

/-!
# What a framer writes

`Framer.format` is asked for one message and leaves two things behind: bytes for the line, and a
framer that has counted the message.  `Formats` says both at once.  The bytes are described by what
the other side finds in them, not by how they are made: the envelope that opens them is known
completely, down to the sequence number.

* `format_triple`: a message that is formatted is one of these, and a framer that halts has its key
  as before, and its counter unless it was about to write content.
* `run_format_plain`, `run_format_keyed` and the others like them: as long as the clock can be
  shifted to the server's, nothing is left open but the padding.  They say what comes of each kind
  of message, halts included.
* `keeps_format`: the key and the offset of the clock stay, also when formatting halts.
-/

namespace Mtproto

/-! ## 1. Envelopes -/

namespace Envelope

/-- What has been sealed is opened again. -/
theorem decrypt_of_encrypt {key : AuthKey} {d : Direction} {env : Envelope} {e e' : Entropy}
    {raw : Bytes} (h : env.encrypt key d e = (.ok (.ok raw), e')) :
    decrypt key d raw = .ok env := by
  rcases Nat.lt_or_ge env.payload.length (2 ^ 32) with hlt | hge
  · rw [run_encrypt hlt] at h
    obtain ⟨hseal, -⟩ := ok_pair_eq_iff.mp h
    refine decrypt_of_sealed ⟨hlt, ?_, sealText_eq_ok_iff.mp hseal⟩
    rw [Entropy.length_peek]
    exact paddingFor_lt _ (by decide)
  · rw [run_encrypt_of_le hge] at h
    obtain ⟨hseal, -⟩ := ok_pair_eq_iff.mp h
    cases hseal

end Envelope

namespace PlainEnvelope

/-- The bytes of a plain envelope. -/
def text (msgId : UInt64) (payload : Bytes) : Bytes :=
  Bytes.le 8 (0 : UInt64).toNat ++ (Bytes.le 8 msgId.toNat ++
    (Bytes.le 4 (UInt32.ofNat payload.length).toNat ++ payload))

theorem wrap_of_lt {payload : Bytes} (h : payload.length < 2 ^ 32) (msgId : UInt64) :
    wrap msgId payload = .ok (text msgId payload) := by
  rw [wrap, Envelope.lengthWord_eq h]
  have hall := ((Wire.Writes.word64 0).append ((Wire.Writes.word64 msgId).append
    ((Wire.Writes.word32 (UInt32.ofNat payload.length)).append (.raw payload)))).finish
  exact congrArg DecodeError.lift hall

/-- The length of a payload has to fit a word. -/
theorem wrap_of_le {payload : Bytes} (h : 2 ^ 32 ≤ payload.length) (msgId : UInt64) :
    wrap msgId payload = .error (.decode (.overflow payload.length 32)) := by
  have hlong : ¬ payload.length < UInt32.size := Nat.not_lt.mpr h
  rw [wrap, lengthWord, if_neg hlong]
  rfl

/-- A plain envelope is taken apart again. -/
theorem unwrap_text {payload : Bytes} (h : payload.length < 2 ^ 32) (msgId : UInt64) :
    unwrap (text msgId payload) = .ok (msgId, payload) := by
  have hword : (UInt32.ofNat payload.length).toNat = payload.length :=
    UInt32.toNat_ofNat_of_lt' h
  have hfields := (Wire.Reads.word64_le 0).bind (f := fun keyId => do
      return (keyId, ← Wire.Read.word64, ← Wire.Read.raw (← Wire.Read.word32).toNat))
    ((Wire.Reads.word64_le msgId).bind ((Wire.Reads.word32_le (UInt32.ofNat payload.length)).bind
      (Wire.Reads.map (Wire.Reads.raw hword.symm))))
  have hrun := hfields.ofBytes
  simp only [unwrap, text, hrun]
  rfl

end PlainEnvelope

/-! ## 2. What is counted -/

namespace Framer

/-- A message has been put into its envelope, and counted. -/
structure Formats (kind : MsgKind) (payload : Bytes) (f : Framer) (msgId : UInt64) (raw : Bytes)
    (f' : Framer) : Prop where
  auth : f'.auth = f.auth
  seqNo : f'.seqNo = if kind = .content then f.seqNo + 2 else f.seqNo
  plain : kind = .keyExchange → PlainEnvelope.wrap msgId payload = .ok raw
  encrypted : kind ≠ .keyExchange → ∃ auth, f.auth = some auth ∧
    Envelope.decrypt auth.key .clientToServer raw = .ok
      { salt := auth.serverSalt, sessionId := auth.sessionId, msgId
        seqNo := if kind = .content then f.seqNo + 1 else f.seqNo, payload }

/-- A message has not been put into its envelope. -/
structure Fails (kind : MsgKind) (f f' : Framer) : Prop where
  auth : f'.auth = f.auth
  seqNo : kind ≠ .content → f'.seqNo = f.seqNo

theorem nextMsgId_triple (now : Instant) (kind : MsgKind) (f : Framer) :
    Act.Triple (· = f) (nextMsgId now) (fun _ f' => f'.auth = f.auth ∧ f'.seqNo = f.seqNo)
      fun _ => Fails kind f := by
  refine .state_bind ?_
  rintro f rfl
  refine .look (Act.keeps_ofFault _) ?_ fun next => .update_bind ?_ (.pure fun _ h => h)
  · rintro halt f rfl
    exact ⟨rfl, fun _ => rfl⟩
  · rintro f rfl
    exact ⟨rfl, rfl⟩

theorem nextSeqNo_triple (kind : MsgKind) (f : Framer) :
    Act.Triple (fun f' => f'.auth = f.auth ∧ f'.seqNo = f.seqNo) (nextSeqNo kind)
      (fun seqNo f' => f'.auth = f.auth ∧
        (f'.seqNo = if kind = .content then f.seqNo + 2 else f.seqNo) ∧
        seqNo = if kind = .content then f.seqNo + 1 else f.seqNo)
      fun _ => Fails kind f := by
  refine .state_bind fun f' hf => .ite (fun hkind => ?_) fun hkind => ?_
  · refine .update_bind (I := fun f'' => f''.auth = f.auth ∧ f''.seqNo = f.seqNo + 2) ?_ ?_
    · rintro f'' rfl
      exact ⟨hf.1, by rw [hf.2]⟩
    · exact .pure fun f'' h => ⟨h.1, by rw [if_pos hkind, h.2], by rw [if_pos hkind, hf.2]⟩
  · refine .pure ?_
    rintro f'' rfl
    exact ⟨hf.1, by rw [if_neg hkind, hf.2], by rw [if_neg hkind, hf.2]⟩

/-- **What `format` makes of a message.**  The other side opens the bytes as the message, with the
salt and the session of the key, and with the number that the counter gives it. -/
theorem format_triple (now : Instant) (kind : MsgKind) (payload : Bytes) (f : Framer) :
    Act.Triple (· = f) (format now kind payload) (fun r => Formats kind payload f r.1 r.2)
      fun _ => Fails kind f := by
  refine .bind (nextMsgId_triple now kind f) fun msgId => .ite (fun hkind => ?_) fun hkind => ?_
  · refine .ofExcept_bind (fun _ f' h => ⟨h.1, fun _ => h.2⟩) fun raw hraw => .pure fun f' h => ?_
    exact ⟨h.1, by rw [hkind, h.2]; rfl, fun _ => hraw, fun hne => absurd hkind hne⟩
  · refine .state_bind fun f' hf' => ?_
    cases hauth : f'.auth with
    | none =>
      refine .throw ?_
      rintro f'' rfl
      exact ⟨hf'.1, fun _ => hf'.2⟩
    | some auth =>
      refine .bind ((nextSeqNo_triple kind f).pre ?_) fun seqNo => ?_
      · rintro f'' rfl
        exact hf'
      have hfails : ∀ f'' : Framer, f''.auth = f.auth ∧
          (f''.seqNo = if kind = .content then f.seqNo + 2 else f.seqNo) ∧
          (seqNo = if kind = .content then f.seqNo + 1 else f.seqNo) → Fails kind f f'' :=
        fun f'' h => ⟨h.1, fun hne => by rw [h.2.1, if_neg hne]⟩
      refine .drawExcept_bind (fun _ _ _ _ => hfails) (fun _ => hfails) fun raw e e' hraw =>
        .pure fun f'' h => ?_
      refine ⟨h.1, h.2.1, fun h => absurd h hkind, fun _ => ⟨auth, hf'.1 ▸ hauth, ?_⟩⟩
      rw [← h.2.2]
      exact Envelope.decrypt_of_encrypt hraw

/-! ## 3. Runs at a time -/

/-- The framer after it has given out an identifier for a time. -/
def numbered (f : Framer) (t : Instant) : Framer :=
  { f with msgIds := (f.msgIds.nextAt t).2 }

/-- The envelope of the next message under a key. -/
def nextEnvelope (f : Framer) (auth : Authorization) (t : Instant) (kind : MsgKind)
    (payload : Bytes) : Envelope :=
  { salt := auth.serverSalt, sessionId := auth.sessionId, msgId := (f.msgIds.nextAt t).1
    seqNo := if kind = .content then f.seqNo + 1 else f.seqNo, payload }

section Runs

variable {f : Framer} {e : Entropy} {now t : Instant} {kind : MsgKind} {payload : Bytes}
  {auth : Authorization}

theorem run_nextMsgId (ht : now.shift? f.msgIds.timeOffset.toInt = some t) :
    nextMsgId now (f, e) = (.ok (f.msgIds.nextAt t).1, f.numbered t, e) := by
  have hnext : f.msgIds.next now = .ok (f.msgIds.nextAt t) := by
    rw [MsgIdGenerator.next, ht]
  rw [nextMsgId, Act.state_bind, hnext]
  rfl

theorem run_nextSeqNo (kind : MsgKind) : nextSeqNo kind (f, e) =
    (.ok (if kind = .content then f.seqNo + 1 else f.seqNo),
      { f with seqNo := if kind = .content then f.seqNo + 2 else f.seqNo }, e) := by
  rw [nextSeqNo, Act.state_bind]
  split <;> rfl

theorem run_format_plain (ht : now.shift? f.msgIds.timeOffset.toInt = some t) :
    format now .keyExchange payload (f, e) =
      if payload.length < 2 ^ 32 then
        (.ok ((f.msgIds.nextAt t).1, PlainEnvelope.text (f.msgIds.nextAt t).1 payload),
          f.numbered t, e)
      else (.error (.error (.decode (.overflow payload.length 32))), f.numbered t, e) := by
  rw [format, run_bind_ok (run_nextMsgId ht), if_pos rfl]
  split
  · rename_i hlt
    rw [PlainEnvelope.wrap_of_lt hlt, Act.ofExcept_ok_bind]
    rfl
  · rename_i hlong
    rw [PlainEnvelope.wrap_of_le (Nat.not_lt.mp hlong)]
    rfl

/-- Without a key an encrypted message is a fault, and an identifier has been used up by then. -/
theorem run_format_unkeyed (ht : now.shift? f.msgIds.timeOffset.toInt = some t)
    (hkind : kind ≠ .keyExchange) (hauth : f.auth = none) :
    format now kind payload (f, e) = (.error (.fault (.keyMissing kind)), f.numbered t, e) := by
  have hauth : (f.numbered t).auth = none := hauth
  rw [format, run_bind_ok (run_nextMsgId ht), if_neg hkind, Act.state_bind]
  simp only [hauth]
  rfl

/-- The framer after it has put a message under a key. -/
def counted (f : Framer) (t : Instant) (kind : MsgKind) : Framer :=
  { f.numbered t with seqNo := if kind = .content then f.seqNo + 2 else f.seqNo }

/-- With a key the envelope has salt, session, identifier and counter, and is encrypted for the
server. -/
theorem run_format_keyed (ht : now.shift? f.msgIds.timeOffset.toInt = some t)
    (hkind : kind ≠ .keyExchange) (hauth : f.auth = some auth) :
    format now kind payload (f, e) =
      (Act.drawExcept ((f.nextEnvelope auth t kind payload).encrypt auth.key .clientToServer) >>=
        fun raw => pure ((f.msgIds.nextAt t).1, raw)) (f.counted t kind, e) := by
  have hauth : (f.numbered t).auth = some auth := hauth
  rw [format, run_bind_ok (run_nextMsgId ht), if_neg hkind, Act.state_bind]
  simp only [hauth]
  exact run_bind_ok (run_nextSeqNo kind)

/-- A message that is not too long is put into an envelope. -/
theorem exists_format_keyed (ht : now.shift? f.msgIds.timeOffset.toInt = some t)
    (hkind : kind ≠ .keyExchange) (hauth : f.auth = some auth) (hlt : payload.length < 2 ^ 32) :
    ∃ raw e' pad, format now kind payload (f, e) =
        (.ok ((f.msgIds.nextAt t).1, raw), f.counted t kind, e') ∧
      Envelope.Sealed auth.key .clientToServer (f.nextEnvelope auth t kind payload) pad raw := by
  let env := f.nextEnvelope auth t kind payload
  obtain ⟨raw, hraw⟩ := Envelope.sealText_total auth.key .clientToServer
    (Entropy.length_peek e (Envelope.padding env.text))
  have hencrypt : env.encrypt auth.key .clientToServer e = _ := Envelope.run_encrypt hlt e
  rw [hraw] at hencrypt
  refine ⟨raw, e.skip (Envelope.padding env.text), _, ?_, hlt, ?_,
    Envelope.sealText_eq_ok_iff.mp hraw⟩
  · rw [run_format_keyed ht hkind hauth, Act.drawExcept_bind_eq_ok_iff]
    exact ⟨raw, _, hencrypt, rfl⟩
  · rw [Entropy.length_peek]
    exact paddingFor_lt _ (by decide)

/-- A message that is too long is counted all the same. -/
theorem run_format_overlong (ht : now.shift? f.msgIds.timeOffset.toInt = some t)
    (hkind : kind ≠ .keyExchange) (hauth : f.auth = some auth) (hlong : 2 ^ 32 ≤ payload.length) :
    format now kind payload (f, e) =
      (.error (.error (.decode (.overflow payload.length 32))), f.counted t kind, e) := by
  have hencrypt : (f.nextEnvelope auth t kind payload).encrypt auth.key .clientToServer e = _ :=
    Envelope.run_encrypt_of_le hlong e
  rw [run_format_keyed ht hkind hauth, run_bind, Act.drawExcept, run_bind, Act.draw, hencrypt]
  rfl

end Runs

/-! ## 4. What messages leave as it is -/

/-- The key of a framer, and the offset of its clock. -/
def tuning (f : Framer) : Option Authorization × Int64 :=
  (f.auth, f.msgIds.timeOffset)

theorem keeps_nextMsgId (now : Instant) : Act.Keeps tuning (nextMsgId now) := by
  rintro ⟨f, e⟩
  cases ht : now.shift? f.msgIds.timeOffset.toInt with
  | none =>
    have hnext : f.msgIds.next now = .error .instantOutOfRange := by
      rw [MsgIdGenerator.next, ht]
    rw [nextMsgId, Act.state_bind, hnext]
    rfl
  | some t =>
    rw [run_nextMsgId ht]
    rfl

theorem keeps_format (now : Instant) (kind : MsgKind) (payload : Bytes) :
    Act.Keeps tuning (format now kind payload) := by
  refine .bind (keeps_nextMsgId now) fun msgId => .ite
    (.bind (Act.keeps_ofExcept _) fun _ => Act.keeps_pure _) (.bind Act.keeps_state fun f => ?_)
  cases f.auth with
  | none => exact Act.keeps_throw _
  | some auth =>
    have hseqNo : Act.Keeps tuning (nextSeqNo kind) := fun ⟨f, e⟩ => by
      rw [run_nextSeqNo]
      rfl
    exact .bind hseqNo fun _ => .bind (Act.keeps_drawExcept _) fun _ => Act.keeps_pure _

end Framer

end Mtproto
