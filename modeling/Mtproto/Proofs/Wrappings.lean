import Mathlib.Tactic.Common
import Mtproto.Proofs.Containers
import Mtproto.Proofs.Contents
import Mtproto.Session.Basic

/-!
# Containers and compression change nothing

`Session.receive` takes a message.  It takes up the entries of a container one after the other, and
of a compressed message it takes up what that inflates to.  `Effects.andThen` puts effects in
sequence, and `takeUp` turns the sequence into one of procedures (`takeUp_andThen`).

So wrappings change nothing: a container of messages, some of them compressed and perhaps itself
compressed, is received like one message after the other.

* `payloadEffects_container`, `payloadEffects_gzipPacked`: the two wrappings, as effects in
  sequence.
* `receive_wrapped`: the same as an equality of procedures, so it holds for every state of the
  session and every tape, up to the first entry that fails.
-/

namespace Mtproto

open ServiceMessage

/-! ## 1. Effects in sequence -/

/-- What an effect delivers. -/
def Effect.incoming? : Effect → Option Incoming
  | .deliver incoming => some incoming
  | .acknowledge _ | .answer _ | .renewSalt _ => none

namespace Effects

/-- Effects and then others, unless there is an error between them. -/
def andThen (first others : Effects) : Effects :=
  match first.failure with
  | some _ => first
  | none => { others with list := first.list ++ others.list }

/-- What is delivered. -/
def delivered (effects : Effects) : List Incoming :=
  effects.list.filterMap Effect.incoming?

theorem andThen_of_ne_none {first : Effects} (h : first.failure ≠ none) (others : Effects) :
    first.andThen others = first := by
  unfold andThen
  split
  · rfl
  · contradiction

theorem andThen_of_eq_none {first : Effects} (h : first.failure = none) (others : Effects) :
    first.andThen others = { others with list := first.list ++ others.list } := by
  simp only [andThen, h]

@[simp] theorem andThen_empty (first : Effects) : first.andThen empty = first := by
  obtain ⟨list, _ | e⟩ := first <;> simp [andThen, empty]

/-- Effects one after another may be grouped in any way, so a container is the same as its messages
in a row. -/
theorem andThen_assoc (a b c : Effects) : (a.andThen b).andThen c = a.andThen (b.andThen c) := by
  obtain ⟨as, _ | e⟩ := a
  · obtain ⟨bs, _ | e⟩ := b <;> simp [andThen]
  · rfl

theorem sequence_cons {α : Type} (f : α → Effects) (a : α) (as : List α) :
    sequence f (a :: as) = (f a).andThen (sequence f as) := rfl

theorem sequence_append {α : Type} (f : α → Effects) (as bs : List α) :
    sequence f (as ++ bs) = (sequence f as).andThen (sequence f bs) := by
  induction as with
  | nil => rfl
  | cons a as ih => rw [List.cons_append, sequence_cons, sequence_cons, ih, andThen_assoc]

end Effects

namespace Session

/-- Take up effects, and then their error. -/
def takeUp (effects : Effects) : Act Session Unit := do
  Act.update fun s => effects.list.foldl apply s
  match effects.failure with
  | some e => Act.fail e
  | none => return

/-- How taking up effects ends. -/
def outcome (effects : Effects) : Except Halt Unit :=
  match effects.failure with
  | some e => .error (.error e)
  | none => .ok ()

/-- The outcome is the failure that has ended the effects. -/
theorem outcome_eq_error_iff {effects : Effects} {e : Error} :
    outcome effects = .error (.error e) ↔ effects.failure = some e := by
  obtain ⟨list, _ | e'⟩ := effects <;> simp [outcome]

theorem run_takeUp (effects : Effects) (s : Session) (tape : Entropy) :
    takeUp effects (s, tape) = (outcome effects, effects.list.foldl apply s, tape) := by
  obtain ⟨list, _ | e⟩ := effects <;> rfl

theorem run_receive (msg : Msg) (s : Session) (tape : Entropy) :
    receive msg (s, tape) = (outcome (messageEffects {} msg.msgId msg.kind msg.payload),
      (messageEffects {} msg.msgId msg.kind msg.payload).list.foldl apply s, tape) :=
  run_takeUp _ s tape

/-- Taking up two lists of effects is taking up one and, if it has not failed, the other. -/
theorem takeUp_andThen (first others : Effects) :
    takeUp (first.andThen others) = (do takeUp first; takeUp others) := by
  funext ⟨s, tape⟩
  rw [run_bind, run_takeUp, run_takeUp]
  obtain ⟨list, _ | e⟩ := first
  · rw [Effects.andThen_of_eq_none rfl]
    simp only [outcome, run_takeUp, List.foldl_append]
  · rw [Effects.andThen_of_ne_none (by simp)]
    rfl

theorem deliveries_foldl (effects : List Effect) (s : Session) :
    (effects.foldl apply s).deliveries = s.deliveries ++ effects.filterMap Effect.incoming? := by
  induction effects generalizing s with
  | nil => simp
  | cons effect effects ih =>
    rw [List.foldl_cons, ih, List.filterMap_cons]
    cases effect <;> simp [apply, Effect.incoming?]

end Session

/-! ## 2. Payloads -/

/-- What an entry of a container leads to. -/
def ContainedMessage.effects (m : ContainedMessage) : Effects :=
  messageEffects { inContainer := true } m.msgId (.ofSeqNo m.seqNo) m.body

theorem payloadEffects_gzipPacked {nesting : Nesting} {payload packed data : Bytes}
    (hclassify : classify payload = .ok (some (.gzipPacked packed)))
    (hunpack : Gzip.unpack packed maxUnpackedLength = .ok data) (hroom : nesting.inflated = false)
    (msgId : UInt64) :
    payloadEffects nesting msgId payload =
      payloadEffects { nesting with inflated := true } msgId data := by
  rw [payloadEffects, hclassify]
  simp only [Effects.ofExcept, hroom, Bool.false_eq_true, dite_false, hunpack]

/-- A container that is not inside another leads to what its messages lead to, in order. -/
theorem payloadEffects_container {nesting : Nesting} {payload : Bytes}
    {messages : List ContainedMessage}
    (hclassify : classify payload = .ok (some (.container messages)))
    (hroom : nesting.inContainer = false) (msgId : UInt64) :
    payloadEffects nesting msgId payload = .sequence ContainedMessage.effects messages := by
  rw [payloadEffects, hclassify]
  simp only [Effects.ofExcept, hroom, Bool.false_eq_true, dite_false]
  rfl

/-- A container, compressed or not, leads to what its entries lead to. -/
theorem payloadEffects_shows {payload container : Bytes} {messages : List ContainedMessage}
    (hshows : Shows payload container)
    (hclassify : classify container = .ok (some (.container messages))) (msgId : UInt64) :
    payloadEffects {} msgId payload = .sequence ContainedMessage.effects messages := by
  cases hshows with
  | bare => exact payloadEffects_container hclassify rfl msgId
  | inflated hpacked hunpack =>
    rw [payloadEffects_gzipPacked hpacked hunpack rfl]
    exact payloadEffects_container hclassify rfl msgId

/-- Neither a container nor a compressed message. -/
def Unwrapped (payload : Bytes) : Prop :=
  leadingTag? payload ≠ some containerTag ∧ leadingTag? payload ≠ some gzipPackedTag

instance (payload : Bytes) : Decidable (Unwrapped payload) :=
  inferInstanceAs (Decidable (_ ∧ _))

/-- Wrappings make no difference to what is not wrapped itself. -/
theorem payloadEffects_unwrapped {payload : Bytes} (h : Unwrapped payload)
    (nesting nesting' : Nesting) (msgId : UInt64) :
    payloadEffects nesting msgId payload = payloadEffects nesting' msgId payload := by
  rw [payloadEffects, payloadEffects]
  cases hclassify : classify payload with
  | error e => rfl
  | ok service =>
    cases service with
    | none => rfl
    | some service =>
      have htag := tag_of_classify hclassify
      cases service with
      | container messages => exact absurd htag h.1
      | gzipPacked packed => exact absurd htag h.2
      | rpcResult | rpcError | msgsAck | ping | pong | newSessionCreated | badServerSalt |
        badMsgNotification => rfl

/-- Whether a body has been sent as it is or packed makes no difference to what it leads to. -/
theorem payloadEffects_sentAs {data payload : Bytes} (hbare : Unwrapped data)
    (hsent : SentAs data payload) (msgId : UInt64) :
    payloadEffects { inContainer := true } msgId payload = payloadEffects {} msgId data := by
  cases hsent.shows with
  | bare => exact payloadEffects_unwrapped hbare _ _ msgId
  | inflated hclassify hunpack =>
    rw [payloadEffects_gzipPacked hclassify hunpack rfl]
    exact payloadEffects_unwrapped hbare _ _ msgId

/-! ## 3. Wrappings that change nothing -/

namespace Session

/-- An entry that a message is sent as: its body as it is or compressed. -/
structure EntryOf (m entry : ContainedMessage) : Prop where
  msgId : entry.msgId = m.msgId
  seqNo : entry.seqNo = m.seqNo
  body : SentAs m.body entry.body

/-- An entry is taken up like the message that is sent as it. -/
theorem takeUp_entry {m entry : ContainedMessage} (hbare : Unwrapped m.body) (h : EntryOf m entry) :
    takeUp entry.effects = receive ⟨.ofSeqNo m.seqNo, m.msgId, m.body⟩ := by
  have hsame : entry.effects = messageEffects {} m.msgId (.ofSeqNo m.seqNo) m.body := by
    rw [ContainedMessage.effects, messageEffects, messageEffects, h.msgId, h.seqNo,
      payloadEffects_sentAs hbare h.body]
  rw [hsame]
  rfl

theorem takeUp_entries {messages entries : List ContainedMessage}
    (hbare : ∀ m ∈ messages, Unwrapped m.body) (h : List.Forall₂ EntryOf messages entries) :
    takeUp (.sequence ContainedMessage.effects entries) =
      messages.forM fun m => receive ⟨.ofSeqNo m.seqNo, m.msgId, m.body⟩ := by
  induction h with
  | nil => rfl
  | cons hentry _ ih =>
    rw [Effects.sequence_cons, takeUp_andThen, takeUp_entry (hbare _ List.mem_cons_self) hentry,
      ih fun m hm => hbare m (List.mem_cons_of_mem _ hm)]
    rfl

/-- **Wrapping is transparent.**  Put messages that are not wrapped themselves into a container,
each as it is or compressed, and send the container as it is or compressed.  Receiving it is the
same procedure as receiving one message after the other: from every state it leads to the same
state and the same outcome. -/
theorem receive_wrapped {messages entries : List ContainedMessage} {container payload : Bytes}
    (hbare : ∀ m ∈ messages, Unwrapped m.body)
    (hentries : List.Forall₂ EntryOf messages entries)
    (hcontainer : containerBytes entries = .ok container) (hsent : SentAs container payload)
    (hlength : payload.length < 2 ^ 32) (msgId : UInt64) :
    receive ⟨.service, msgId, payload⟩ =
      messages.forM fun m => receive ⟨.ofSeqNo m.seqNo, m.msgId, m.body⟩ := by
  obtain rfl : containerText entries = container :=
    Except.ok.inj ((containerBytes_eq entries).symm.trans hcontainer)
  have hclassify := classify_containerText (countable_of_sentAs hsent hlength)
  have heffects : messageEffects {} msgId .service payload =
      .sequence ContainedMessage.effects entries :=
    payloadEffects_shows hsent.shows hclassify msgId
  change takeUp (messageEffects {} msgId .service payload) = _
  rw [heffects, takeUp_entries hbare hentries]

/-- A message of the application and a ping. -/
def twoMessages : List ContainedMessage :=
  [⟨5, 1, [1, 2, 3, 4]⟩, ⟨9, 0, Bytes.le 4 (Wire.Tagged.tag Ping).toNat ++ Bytes.le 8 7⟩]

/-- The same as entries, with the ping compressed. -/
def twoEntries : List ContainedMessage :=
  [⟨5, 1, [1, 2, 3, 4]⟩, ⟨9, 0, packedText (storedMember
    (Bytes.le 4 (Wire.Tagged.tag Ping).toNat ++ Bytes.le 8 7))⟩]

/-- A compressed container with a compressed entry. -/
theorem receive_two_messages :
    (∀ m ∈ twoMessages, Unwrapped m.body) ∧ List.Forall₂ EntryOf twoMessages twoEntries ∧
      SentAs (containerText twoEntries) (packedText (storedMember (containerText twoEntries))) ∧
      receive ⟨.service, 1, packedText (storedMember (containerText twoEntries))⟩ =
        twoMessages.forM fun m => receive ⟨.ofSeqNo m.seqNo, m.msgId, m.body⟩ := by
  have hbare : ∀ m ∈ twoMessages, Unwrapped m.body := by decide
  have hentries : List.Forall₂ EntryOf twoMessages twoEntries :=
    .cons ⟨rfl, rfl, .bare⟩ (.cons ⟨rfl, rfl, sentAs_storedMember (by decide)⟩ .nil)
  have hsent : SentAs (containerText twoEntries)
      (packedText (storedMember (containerText twoEntries))) :=
    sentAs_storedMember (by decide +kernel)
  exact ⟨hbare, hentries, hsent, receive_wrapped hbare hentries (containerBytes_eq twoEntries)
    hsent (by decide +kernel) 1⟩

end Session

end Mtproto
