import Mathlib.Tactic.Common
import Mtproto.Proofs.Act
import Mtproto.Session.Effect

/-!
# What a message contains

`payloadEffects` walks through containers and compressed payloads and gathers effects on its way:
what to acknowledge, which pings to answer, what to deliver, which salt to take up.  This module
says what it gathers, without walking.

A message has `parts`, in order: the message itself, and the entries of the container that it holds,
if it holds one.  All payloads are looked at with their compression taken off (`inflate`).  What a
part leads to can be read off its payload: `ack?`, `pong?`, `incoming?`, `salt?`.

Where a message can be handled without an error, its effects are those of its parts, one part after
the other (`payloadEffects_list` for a payload, `messageEffects_list` for a message).  Where it
cannot, the effects are those up to the first error, which is what `Effects` keeps.
-/

namespace Mtproto

open ServiceMessage (classify maxUnpackedLength)

/-! ## 1. Parts -/

/-- A payload with its compression taken off, if it can be. -/
def inflate (payload : Bytes) : Bytes :=
  match classify payload with
  | .ok (some (.gzipPacked packed)) => (Gzip.unpack packed maxUnpackedLength).toOption.getD payload
  | _ => payload

/-- The entries of the container that a payload is. -/
def contained (payload : Bytes) : List ContainedMessage :=
  match classify payload with
  | .ok (some (.container messages)) => messages
  | _ => []

/-- The answer in an `rpc_result`: a result or an error. -/
def answer (reqMsgId : UInt64) (body : Bytes) : Incoming :=
  match classify (inflate body) with
  | .ok (some (.rpcError code text)) => .rpcError reqMsgId code text
  | _ => .rpcResult reqMsgId (inflate body)

/-- A part of a message, its payload without compression. -/
structure Part where
  kind : MsgKind
  msgId : UInt64
  payload : Bytes

namespace Part

/-- An entry of a container. -/
def ofEntry (m : ContainedMessage) : Part :=
  { kind := .ofSeqNo m.seqNo, msgId := m.msgId, payload := inflate m.body }

/-- The identifier to acknowledge. -/
def ack? (p : Part) : Option UInt64 :=
  match p.kind with
  | .content => some p.msgId
  | .service | .keyExchange => none

/-- The answer to a ping. -/
def pong? (p : Part) : Option Pong :=
  match classify p.payload with
  | .ok (some (.ping ping)) => some { msgId := p.msgId, pingId := ping.pingId }
  | _ => none

/-- What the application gets to see. -/
def incoming? (p : Part) : Option Incoming :=
  match classify p.payload with
  | .ok none => some (.message p.msgId p.payload)
  | .ok (some (.rpcResult reqMsgId body)) => some (answer reqMsgId body)
  | _ => none

/-- A new salt. -/
def salt? (p : Part) : Option UInt64 :=
  match classify p.payload with
  | .ok (some (.newSessionCreated _ _ salt)) => some salt
  | .ok (some (.badServerSalt _ _ _ salt)) => some salt
  | _ => none

/-- What the payload leads to. -/
def response (p : Part) : List Effect :=
  (p.pong?.map Effect.answer).toList ++ (p.incoming?.map Effect.deliver).toList ++
    (p.salt?.map Effect.renewSalt).toList

/-- What the part leads to. -/
def effects (p : Part) : List Effect :=
  (p.ack?.map Effect.acknowledge).toList ++ p.response

end Part

namespace Msg

/-- The message without compression, and the entries of the container that it is. -/
def parts (msg : Msg) : List Part :=
  { kind := msg.kind, msgId := msg.msgId, payload := inflate msg.payload } ::
    (contained (inflate msg.payload)).map Part.ofEntry

/-- The content messages, to be acknowledged. -/
def acks (msg : Msg) : List UInt64 := msg.parts.filterMap Part.ack?

/-- The answers to pings. -/
def pongs (msg : Msg) : List Pong := msg.parts.filterMap Part.pong?

/-- What the application gets to see. -/
def incoming (msg : Msg) : List Incoming := msg.parts.filterMap Part.incoming?

end Msg

/-! ## 2. Without an error -/

namespace Effects

theorem ofExcept_failure {α : Type} {r : Except DecodeError α} {f : α → Effects}
    (h : (ofExcept r f).failure = none) : ∃ a, r = .ok a ∧ (f a).failure = none := by
  cases r with
  | ok a => exact ⟨a, rfl, h⟩
  | error e => cases h

theorem acknowledging_list (kind : MsgKind) (msgId : UInt64) (payload : Bytes) (e : Effects) :
    (acknowledging kind msgId e).failure = e.failure ∧ (acknowledging kind msgId e).list =
      ((Part.mk kind msgId payload).ack?.map Effect.acknowledge).toList ++ e.list := by
  cases kind <;> exact ⟨rfl, rfl⟩

/-- Without an error, all items have been gone through. -/
theorem sequence_list {α : Type} {f : α → Effects} {as : List α}
    (h : (sequence f as).failure = none) :
    (∀ a ∈ as, (f a).failure = none) ∧ (sequence f as).list = as.flatMap fun a => (f a).list := by
  induction as with
  | nil => exact ⟨by simp, rfl⟩
  | cons a as ih =>
    unfold sequence at h ⊢
    cases hfirst : (f a).failure with
    | some e =>
      simp only [hfirst] at h
      cases h
    | none =>
      simp only [hfirst] at h ⊢
      obtain ⟨hall, hlist⟩ := ih h
      refine ⟨?_, by rw [List.flatMap_cons, hlist]⟩
      intro b hb
      rcases List.mem_cons.mp hb with rfl | hb
      · exact hfirst
      · exact hall b hb

end Effects

/-- A body without its compression. -/
theorem eq_inflate_of_answerBody {body bare : Bytes} (h : Incoming.answerBody body = .ok bare) :
    bare = inflate body := by
  obtain ⟨service, hclassify, h⟩ := except_bind_eq_ok_iff.mp h
  unfold inflate
  rw [hclassify]
  split at h
  · simp only [h]
    rfl
  · rename_i hcompressed
    obtain rfl : body = bare := Except.ok.inj h
    cases service with
    | none => rfl
    | some service =>
      cases service with
      | gzipPacked packed => exact absurd rfl (hcompressed packed)
      | _ => rfl

/-- An answer is what its body holds. -/
theorem eq_answer_of_ofAnswer {reqMsgId : UInt64} {body : Bytes} {incoming : Incoming}
    (h : Incoming.ofAnswer reqMsgId body = .ok incoming) : incoming = answer reqMsgId body := by
  obtain ⟨bare, hbare, h⟩ := except_bind_eq_ok_iff.mp h
  obtain ⟨service, hclassify, h⟩ := except_bind_eq_ok_iff.mp h
  obtain rfl := eq_inflate_of_answerBody hbare
  unfold answer
  rw [hclassify]
  split at h
  · exact (Except.ok.inj h).symm
  · rename_i herror
    cases service with
    | none => exact (Except.ok.inj h).symm
    | some service =>
      cases service with
      | rpcError code text => exact absurd rfl (herror code text)
      | _ => exact (Except.ok.inj h).symm

/-- The payload that a walk looks at. -/
def Nesting.bare (nesting : Nesting) (payload : Bytes) : Bytes :=
  if nesting.inflated then payload else inflate payload

theorem bare_of_ne {payload : Bytes} {service : Option ServiceMessage}
    (hclassify : classify payload = .ok service) (h : ∀ packed, service ≠ some (.gzipPacked packed))
    (nesting : Nesting) : nesting.bare payload = payload := by
  have hsame : inflate payload = payload := by
    unfold inflate
    rw [hclassify]
    split
    · rename_i packed heq
      exact absurd (Except.ok.inj heq) (h packed)
    · rfl
  rw [Nesting.bare, hsame, ite_self]

theorem inflate_of_unpack {payload packed inner : Bytes}
    (hclassify : classify payload = .ok (some (.gzipPacked packed)))
    (hunpack : Gzip.unpack packed maxUnpackedLength = .ok inner) : inflate payload = inner := by
  simp only [inflate, hclassify, hunpack]
  rfl

/-- **What a payload leads to.**  Its own response, and then what the entries lead to if it is a
container; in a container it is none. -/
theorem payloadEffects_list (nesting : Nesting) (msgId : UInt64) (payload : Bytes) (kind : MsgKind)
    (h : (payloadEffects nesting msgId payload).failure = none) :
    (nesting.inContainer = true → contained (nesting.bare payload) = []) ∧
    (payloadEffects nesting msgId payload).list =
      (Part.mk kind msgId (nesting.bare payload)).response ++
        (contained (nesting.bare payload)).flatMap fun m => (Part.ofEntry m).effects := by
  induction nesting, msgId, payload using payloadEffects.induct generalizing kind with
  | case1 nesting msgId payload ihInflated ihEntry =>
    rw [payloadEffects] at h ⊢
    obtain ⟨service, hclassify, h⟩ := Effects.ofExcept_failure h
    rw [hclassify]
    simp only [Effects.ofExcept]
    cases service with
    | none =>
      rw [bare_of_ne hclassify (by simp)]
      simp [contained, hclassify, Part.response, Part.pong?, Part.incoming?, Part.salt?,
        Effects.one]
    | some service =>
      cases service with
      | gzipPacked packed =>
        by_cases hinflated : nesting.inflated = true
        · simp only [hinflated, dif_pos] at h
          cases h
        · simp only [hinflated, dif_neg, not_false_eq_true, Bool.false_eq_true] at h
          obtain ⟨inner, hunpack, h⟩ := Effects.ofExcept_failure h
          have ih := ihInflated hinflated inner kind h
          have hbare : nesting.bare payload = Nesting.bare ⟨nesting.inContainer, true⟩ inner := by
            rw [Nesting.bare, if_neg hinflated, inflate_of_unpack hclassify hunpack]
            rfl
          simpa [hinflated, hunpack, hbare] using ih
      | container messages =>
        by_cases hcontainer : nesting.inContainer = true
        · simp only [hcontainer, dif_pos] at h
          cases h
        · simp only [hcontainer, dif_neg, not_false_eq_true, Bool.false_eq_true] at h ⊢
          obtain ⟨hall, hlist⟩ := Effects.sequence_list h
          rw [bare_of_ne hclassify (by simp), hlist]
          refine ⟨by simp, ?_⟩
          have hentries : contained payload = messages := by simp only [contained, hclassify]
          have hresponse : (Part.mk kind msgId payload).response = [] := by
            simp [Part.response, Part.pong?, Part.incoming?, Part.salt?, hclassify]
          rw [hentries, hresponse, List.nil_append]
          refine List.flatMap_congr fun m hm => ?_
          -- an entry is no container, so its response is all that it leads to
          obtain ⟨hfailure, hacknowledged⟩ := Effects.acknowledging_list (.ofSeqNo m.seqNo) m.msgId
            (inflate m.body) (payloadEffects { inContainer := true } m.msgId m.body)
          obtain ⟨hnone, hentry⟩ := ihEntry hcontainer m (.ofSeqNo m.seqNo) (hfailure ▸ hall m hm)
          rw [hacknowledged, hentry, hnone rfl, List.flatMap_nil, List.append_nil]
          rfl
      | rpcResult reqMsgId body =>
        obtain ⟨incoming, hanswer, -⟩ := Effects.ofExcept_failure h
        rw [bare_of_ne hclassify (by simp)]
        simp [contained, hclassify, Part.response, Part.pong?, Part.incoming?, Part.salt?,
          Effects.one, hanswer, eq_answer_of_ofAnswer hanswer]
      | rpcError | msgsAck | ping | pong | newSessionCreated | badServerSalt | badMsgNotification =>
        rw [bare_of_ne hclassify (by simp)]
        simp [contained, hclassify, Part.response, Part.pong?, Part.incoming?, Part.salt?,
          Effects.one, Effects.empty]

/-- **What a message leads to.**  Without an error, the effects of a message are those of its parts,
one part after the other. -/
theorem messageEffects_list {msg : Msg}
    (h : (messageEffects {} msg.msgId msg.kind msg.payload).failure = none) :
    (messageEffects {} msg.msgId msg.kind msg.payload).list = msg.parts.flatMap Part.effects := by
  obtain ⟨hfailure, hlist⟩ := Effects.acknowledging_list msg.kind msg.msgId (inflate msg.payload)
    (payloadEffects {} msg.msgId msg.payload)
  have hpayload := (payloadEffects_list {} msg.msgId msg.payload msg.kind (hfailure ▸ h)).2
  rw [messageEffects, hlist, hpayload, Msg.parts, List.flatMap_cons, List.flatMap_map,
    ← List.append_assoc]
  rfl

end Mtproto
