import Mathlib.Tactic.Common
import Mtproto.Proofs.Wrappings

/-!
# Compressed messages in compressed messages

A session inflates what is compressed, once: a compressed message inside of a compressed message is
an error.  `payloadEffects` keeps to this for payloads, be it the payload of the message or that of
an entry of a container.  For the body of an answer to a request it does not: the answer is
delivered, and its body is the compressed message inside.

`Nests` says that a string inflates to a compressed message, and `Reaches` that a session comes to a
string on its way through a payload, in one of two roles (`Role`).

* `refused_iff`: a message in which a session comes to such a string is refused if the string is a
  payload, or if an entry before it has an error, and otherwise it is not.
* `nested_answer_delivered`: an answer with such a body, and what is delivered for it.
-/

namespace Mtproto

open ServiceMessage Session

/-! ## 1. Where a session comes to -/

/-- A compressed message that inflates to a compressed message. -/
structure Nests (object inner : Bytes) : Prop where
  compressed : ∃ packed, classify object = .ok (some (.gzipPacked packed)) ∧
    Gzip.unpack packed maxUnpackedLength = .ok inner
  again : ∃ packed, classify inner = .ok (some (.gzipPacked packed))

/-- What a session comes to on its way through a payload: the payload itself, or the body of an
entry when it has come past the entries before it. -/
inductive Reaches (payload : Bytes) : List ContainedMessage → Bytes → Prop where
  | own : Reaches payload [] payload
  | entry {container : Bytes} {before after : List ContainedMessage} {m : ContainedMessage}
      (hshows : Shows payload container)
      (hclassify : classify container = .ok (some (.container (before ++ m :: after)))) :
      Reaches payload before m.body

/-- The two uses of a string. -/
inductive Role where
  /-- It is a payload. -/
  | payload
  /-- It is the body of the answer to a request. -/
  | answer (reqMsgId : UInt64)

/-- What a payload has in a given role. -/
def Role.In (object payload : Bytes) : Role → Prop
  | .payload => payload = object
  | .answer reqMsgId => ∃ result, Shows payload result ∧
      classify result = .ok (some (.rpcResult reqMsgId object))

/-- What an entry holds for the application. -/
def ContainedMessage.incoming? (m : ContainedMessage) : Option Incoming :=
  (Part.ofEntry m).incoming?

/-- A message is refused: there is a decode error, and at most what the entries before hold has been
delivered. -/
def Session.Refuses (s : Session) (msg : Msg) (before : List ContainedMessage) (tape : Entropy) :
    Prop :=
  ∃ e s', receive msg (s, tape) = (.error (.error (.decode e)), s', tape) ∧
    ∃ delivered, delivered <+: before.filterMap ContainedMessage.incoming? ∧
      s'.deliveries = s.deliveries ++ delivered

/-! ## 2. Entries -/

namespace Effects

theorem acknowledging_failure (kind : MsgKind) (msgId : UInt64) (effects : Effects) :
    (acknowledging kind msgId effects).failure = effects.failure := by
  cases kind <;> rfl

theorem delivered_acknowledging (kind : MsgKind) (msgId : UInt64) (effects : Effects) :
    (acknowledging kind msgId effects).delivered = effects.delivered := by
  cases kind <;> rfl

theorem delivered_andThen {first : Effects} (h : first.failure = none) (others : Effects) :
    (first.andThen others).delivered = first.delivered ++ others.delivered := by
  rw [andThen_of_eq_none h]
  exact List.filterMap_append

theorem failure_andThen {first : Effects} (h : first.failure = none) (others : Effects) :
    (first.andThen others).failure = others.failure := by
  rw [andThen_of_eq_none h]

end Effects

/-- All that a payload can lead to. -/
theorem payloadEffects_cases (nesting : Nesting) (msgId : UInt64) (payload : Bytes) :
    (∃ d, payloadEffects nesting msgId payload = .fail (.decode d)) ∨
      (payloadEffects nesting msgId payload).failure = none ∨
      (nesting.inflated = false ∧ ∃ inner, payloadEffects nesting msgId payload =
        payloadEffects { nesting with inflated := true } msgId inner) ∨
      (nesting.inContainer = false ∧ ∃ messages, payloadEffects nesting msgId payload =
        .sequence ContainedMessage.effects messages) := by
  cases hclassify : classify payload with
  | error d =>
    refine .inl ⟨d, ?_⟩
    rw [payloadEffects, hclassify]
    rfl
  | ok service =>
    cases service with
    | none =>
      refine .inr (.inl ?_)
      rw [payloadEffects, hclassify]
      rfl
    | some service =>
      cases service with
      | gzipPacked packed =>
        cases hinflated : nesting.inflated with
        | true =>
          refine .inl ⟨.invalidValue .nestedGzip, ?_⟩
          rw [payloadEffects, hclassify]
          simp only [Effects.ofExcept, hinflated, dite_true]
        | false =>
          cases hunpack : Gzip.unpack packed maxUnpackedLength with
          | error d =>
            refine .inl ⟨d, ?_⟩
            rw [payloadEffects, hclassify]
            simp only [Effects.ofExcept, hinflated, Bool.false_eq_true, dite_false, hunpack]
          | ok inner =>
            exact .inr (.inr (.inl ⟨rfl, inner,
              payloadEffects_gzipPacked hclassify hunpack hinflated msgId⟩))
      | container messages =>
        cases hcontainer : nesting.inContainer with
        | true =>
          refine .inl ⟨.invalidValue .nestedContainer, ?_⟩
          rw [payloadEffects, hclassify]
          simp only [Effects.ofExcept, hcontainer, dite_true]
        | false =>
          exact .inr (.inr (.inr ⟨rfl, messages,
            payloadEffects_container hclassify hcontainer msgId⟩))
      | rpcResult reqMsgId body =>
        cases hanswer : Incoming.ofAnswer reqMsgId body with
        | error d =>
          refine .inl ⟨d, ?_⟩
          rw [payloadEffects, hclassify]
          simp only [Effects.ofExcept, hanswer]
        | ok incoming =>
          refine .inr (.inl ?_)
          rw [payloadEffects, hclassify]
          simp only [Effects.ofExcept, hanswer]
          rfl
      | rpcError | msgsAck | ping | pong | newSessionCreated | badServerSalt |
        badMsgNotification =>
        refine .inr (.inl ?_)
        rw [payloadEffects, hclassify]
        rfl

/-- In a container, what has an error leads to nothing else. -/
theorem payloadEffects_entry {nesting : Nesting} (h : nesting.inContainer = true) (msgId : UInt64)
    (payload : Bytes) :
    (payloadEffects nesting msgId payload).failure = none ∨
      ∃ d, payloadEffects nesting msgId payload = .fail (.decode d) := by
  rcases payloadEffects_cases nesting msgId payload with
    hfail | hnone | ⟨-, inner, hsame⟩ | ⟨hroom, -⟩
  · exact .inr hfail
  · exact .inl hnone
  · rw [hsame]
    -- inflated once, it is not inflated again
    rcases payloadEffects_cases { nesting with inflated := true } msgId inner with
      hfail | hnone | ⟨hroom, -⟩ | ⟨hroom, -⟩
    · exact .inr hfail
    · exact .inl hnone
    · cases hroom
    · rw [h] at hroom
      cases hroom
  · rw [h] at hroom
    cases hroom

namespace ContainedMessage

/-- An entry delivers what it holds, or there is an error and it delivers nothing. -/
theorem effects_cases (m : ContainedMessage) :
    (m.effects.failure = none ∧ m.effects.delivered = m.incoming?.toList) ∨
      ∃ d, m.effects.failure = some (.decode d) ∧ m.effects.delivered = [] := by
  have hfailure := Effects.acknowledging_failure (.ofSeqNo m.seqNo) m.msgId
    (payloadEffects { inContainer := true } m.msgId m.body)
  have hdelivered := Effects.delivered_acknowledging (.ofSeqNo m.seqNo) m.msgId
    (payloadEffects { inContainer := true } m.msgId m.body)
  have hentry : ({ inContainer := true } : Nesting).inContainer = true := rfl
  rcases payloadEffects_entry hentry m.msgId m.body with hnone | ⟨d, hfail⟩
  · refine .inl ⟨hfailure.trans hnone, hdelivered.trans ?_⟩
    obtain ⟨hcontained, hlist⟩ := payloadEffects_list _ m.msgId m.body (.ofSeqNo m.seqNo) hnone
    rw [Effects.delivered, hlist, hcontained rfl, List.flatMap_nil, List.append_nil]
    change (Part.ofEntry m).response.filterMap Effect.incoming? = (Part.ofEntry m).incoming?.toList
    unfold Part.response
    cases (Part.ofEntry m).pong? <;> cases (Part.ofEntry m).incoming? <;>
      cases (Part.ofEntry m).salt? <;> rfl
  · exact .inr ⟨d, hfailure.trans (congrArg Effects.failure hfail),
      hdelivered.trans (congrArg Effects.delivered hfail)⟩

/-- Entries are gone through to their end, or up to one that has an error. -/
theorem sequence_cases (entries : List ContainedMessage) :
    ((∀ m ∈ entries, m.effects.failure = none) ∧
        (Effects.sequence effects entries).failure = none ∧
        (Effects.sequence effects entries).delivered = entries.filterMap incoming?) ∨
      ((∃ m ∈ entries, m.effects.failure ≠ none) ∧
        (∃ d, (Effects.sequence effects entries).failure = some (.decode d)) ∧
        (Effects.sequence effects entries).delivered <+: entries.filterMap incoming?) := by
  induction entries with
  | nil => exact .inl ⟨by simp, rfl, rfl⟩
  | cons m entries ih =>
    rw [Effects.sequence_cons]
    rcases m.effects_cases with ⟨hnone, hdelivered⟩ | ⟨d, hfail, hdelivered⟩
    · have hhead : (m :: entries).filterMap incoming? =
          m.incoming?.toList ++ entries.filterMap incoming? := by
        cases hm : m.incoming? <;> simp [hm]
      rw [Effects.failure_andThen hnone, Effects.delivered_andThen hnone, hdelivered, hhead]
      rcases ih with ⟨hall, hend, hrest⟩ | ⟨⟨m', hm', hfail⟩, hend, hrest⟩
      · refine .inl ⟨?_, hend, by rw [hrest]⟩
        simpa [hnone] using hall
      · exact .inr ⟨⟨m', List.mem_cons_of_mem m hm', hfail⟩, hend,
          (List.prefix_append_right_inj _).mpr hrest⟩
    · have hne : m.effects.failure ≠ none := by simp [hfail]
      rw [Effects.andThen_of_ne_none hne, hdelivered]
      exact .inr ⟨⟨m, List.mem_cons_self, hne⟩, ⟨d, hfail⟩, List.nil_prefix⟩

end ContainedMessage

/-! ## 3. What becomes of a compressed message that is compressed again -/

/-- As a payload it is refused. -/
theorem payloadEffects_nests {object inner : Bytes} (h : Nests object inner) {nesting : Nesting}
    (hroom : nesting.inflated = false) (msgId : UInt64) :
    payloadEffects nesting msgId object = .fail (.decode (.invalidValue .nestedGzip)) := by
  obtain ⟨packed, hclassify, hunpack⟩ := h.compressed
  obtain ⟨packed', hagain⟩ := h.again
  rw [payloadEffects_gzipPacked hclassify hunpack hroom, payloadEffects, hagain]
  simp only [Effects.ofExcept, dite_true]

/-- As the body of an answer it is inflated once. -/
theorem ofAnswer_nests {object inner : Bytes} (h : Nests object inner) (reqMsgId : UInt64) :
    Incoming.ofAnswer reqMsgId object = .ok (.rpcResult reqMsgId inner) := by
  obtain ⟨packed, hclassify, hunpack⟩ := h.compressed
  obtain ⟨packed', hagain⟩ := h.again
  have hbody : Incoming.answerBody object = .ok inner := by
    simp only [Incoming.answerBody, hclassify, bind, Except.bind, hunpack]
  simp only [Incoming.ofAnswer, hbody, hagain, bind, Except.bind]
  rfl

theorem payloadEffects_answer {object inner result payload : Bytes} {reqMsgId : UInt64}
    (h : Nests object inner) (hshows : Shows payload result)
    (hclassify : classify result = .ok (some (.rpcResult reqMsgId object))) {nesting : Nesting}
    (hroom : nesting.inflated = false) (msgId : UInt64) :
    payloadEffects nesting msgId payload = .one (.deliver (.rpcResult reqMsgId inner)) := by
  have hanswer : ∀ nesting : Nesting, payloadEffects nesting msgId result =
      .one (.deliver (.rpcResult reqMsgId inner)) := by
    intro nesting
    rw [payloadEffects, hclassify]
    simp only [Effects.ofExcept, ofAnswer_nests h]
  cases hshows with
  | bare => exact hanswer nesting
  | inflated hpacked hunpack =>
    rw [payloadEffects_gzipPacked hpacked hunpack hroom]
    exact hanswer _

/-- What a payload leads to in which a session comes to `item`: first what the entries before it
lead to, then what it leads to itself. -/
theorem exists_walk {payload item : Bytes} {before : List ContainedMessage}
    (h : Reaches payload before item) (msgId : UInt64) :
    ∃ (nesting : Nesting) (itemId : UInt64) (own rest : Effects), nesting.inflated = false ∧
      payloadEffects {} msgId payload =
        (Effects.sequence ContainedMessage.effects before).andThen (own.andThen rest) ∧
      own.failure = (payloadEffects nesting itemId item).failure ∧
      own.delivered = (payloadEffects nesting itemId item).delivered := by
  cases h with
  | own =>
    exact ⟨{}, msgId, payloadEffects {} msgId payload, .empty, rfl,
      (Effects.andThen_empty _).symm, rfl, rfl⟩
  | @entry container before after m hshows hclassify =>
    -- the entries behind it are not reached if it has an error: `andThen` leaves them out
    refine ⟨{ inContainer := true }, m.msgId, m.effects,
      .sequence ContainedMessage.effects after, rfl, ?_, Effects.acknowledging_failure _ _ _,
      Effects.delivered_acknowledging _ _ _⟩
    rw [payloadEffects_shows hshows hclassify, Effects.sequence_append, Effects.sequence_cons]

/-- Whether a message is refused can be seen from what its payload leads to. -/
theorem refuses_iff {s : Session} {kind : MsgKind} {msgId : UInt64} {payload : Bytes}
    {before : List ContainedMessage} {tape : Entropy} :
    s.Refuses ⟨kind, msgId, payload⟩ before tape ↔
      (∃ d, (payloadEffects {} msgId payload).failure = some (.decode d)) ∧
        (payloadEffects {} msgId payload).delivered <+:
          before.filterMap ContainedMessage.incoming? := by
  rw [← Effects.acknowledging_failure kind msgId, ← Effects.delivered_acknowledging kind msgId]
  change _ ↔ (∃ d, (messageEffects {} msgId kind payload).failure = some (.decode d)) ∧
    (messageEffects {} msgId kind payload).delivered <+: _
  generalize heffects : messageEffects {} msgId kind payload = effects
  have hrun : receive ⟨kind, msgId, payload⟩ (s, tape) =
      (outcome effects, effects.list.foldl apply s, tape) := heffects ▸ run_receive _ s tape
  have hdeliveries : (effects.list.foldl apply s).deliveries = s.deliveries ++ effects.delivered :=
    deliveries_foldl effects.list s
  constructor
  · rintro ⟨d, s', hrefused, delivered, hprefix, hs'⟩
    rw [hrun] at hrefused
    obtain ⟨houtcome, hstate⟩ := Prod.mk.inj hrefused
    obtain ⟨rfl, -⟩ := Prod.mk.inj hstate
    rw [List.append_cancel_left (hdeliveries.symm.trans hs')]
    exact ⟨⟨d, outcome_eq_error_iff.mp houtcome⟩, hprefix⟩
  · rintro ⟨⟨d, hfailure⟩, hprefix⟩
    refine ⟨d, _, ?_, effects.delivered, hprefix, hdeliveries⟩
    rw [hrun, outcome_eq_error_iff.mpr hfailure]

/-- **Where a compressed message inside a compressed message is refused.**  Take any message in
which a session comes to a compressed message that inflates to another.

* The message is refused if that is a payload, of the message or of an entry, or if there is an
  error in an entry before; otherwise it is not.
* If that is the body of an answer, and there is no error before, the answer is delivered, and its
  body is the compressed message inside. -/
theorem refused_iff {payload object inner item : Bytes} {before : List ContainedMessage}
    {role : Role} (hreaches : Reaches payload before item) (hrole : role.In object item)
    (hnests : Nests object inner) (s : Session) (kind : MsgKind) (msgId : UInt64)
    (tape : Entropy) :
    (s.Refuses ⟨kind, msgId, payload⟩ before tape ↔
      role = .payload ∨ ∃ m ∈ before, m.effects.failure ≠ none) ∧
    ∀ reqMsgId, role = .answer reqMsgId → (∀ m ∈ before, m.effects.failure = none) →
      s.deliveries ++ before.filterMap ContainedMessage.incoming? ++ [.rpcResult reqMsgId inner] <+:
        (receive ⟨kind, msgId, payload⟩ (s, tape)).2.1.deliveries := by
  obtain ⟨nesting, itemId, own, rest, hroom, hwalk, hfailure, hdelivered⟩ :=
    exists_walk hreaches msgId
  have hreceive : (receive ⟨kind, msgId, payload⟩ (s, tape)).2.1.deliveries =
      s.deliveries ++ (payloadEffects {} msgId payload).delivered := by
    rw [run_receive, ← Effects.delivered_acknowledging kind msgId]
    exact deliveries_foldl (messageEffects {} msgId kind payload).list s
  rw [refuses_iff, hreceive, hwalk]
  rcases ContainedMessage.sequence_cases before with
    ⟨hall, hnone, hbefore⟩ | ⟨hsome, ⟨d, hfail⟩, hbefore⟩
  · have hnot : ¬ ∃ m ∈ before, m.effects.failure ≠ none := by
      rintro ⟨m, hm, hne⟩
      exact hne (hall m hm)
    rw [Effects.failure_andThen hnone, Effects.delivered_andThen hnone, hbefore]
    cases role with
    | payload =>
      obtain rfl : item = object := hrole
      rw [payloadEffects_nests hnests hroom] at hfailure hdelivered
      have hne : own.failure ≠ none := by simp [hfailure, Effects.fail]
      rw [Effects.andThen_of_ne_none hne, hdelivered]
      refine ⟨iff_of_true ⟨⟨_, hfailure⟩, ?_⟩ (.inl rfl), by simp⟩
      simp [Effects.delivered, Effects.fail]
    | answer reqMsgId =>
      obtain ⟨result, hshows, hclassify⟩ := hrole
      rw [payloadEffects_answer hnests hshows hclassify hroom] at hfailure hdelivered
      have hown : own.delivered = [.rpcResult reqMsgId inner] := hdelivered
      rw [Effects.delivered_andThen (hfailure.trans rfl), hown]
      constructor
      · refine iff_of_false ?_ (by simpa using hnot)
        rintro ⟨-, hprefix⟩
        have := hprefix.length_le
        simp at this
      · rintro reqMsgId' ⟨⟩ -
        simp
  · have hne : (Effects.sequence ContainedMessage.effects before).failure ≠ none := by
      simp [hfail]
    rw [Effects.andThen_of_ne_none hne]
    refine ⟨iff_of_true ⟨⟨d, hfail⟩, hbefore⟩ (.inr hsome), ?_⟩
    rintro reqMsgId - hall
    obtain ⟨m, hm, hfails⟩ := hsome
    exact absurd (hall m hm) hfails

/-- A compressed message with a compressed message inside it. -/
def nestedText : Bytes :=
  packedText (storedMember (packedText (storedMember [1, 2, 3, 4])))

theorem nests_nestedText : Nests nestedText (packedText (storedMember [1, 2, 3, 4])) where
  compressed := ⟨_, classify_packedText (by decide +kernel),
    unpack_storedMember (by decide +kernel) (by decide +kernel)⟩
  again := ⟨_, classify_packedText (by decide +kernel)⟩

/-- It is refused in the second entry of a container, behind a message that is delivered. -/
theorem refused_second_entry :
    Reaches (containerText [⟨5, 1, [1, 2, 3, 4]⟩, ⟨9, 3, nestedText⟩]) [⟨5, 1, [1, 2, 3, 4]⟩]
        nestedText ∧
      Role.In nestedText nestedText .payload ∧
      Nests nestedText (packedText (storedMember [1, 2, 3, 4])) ∧
      (Session.new []).Refuses
        ⟨.service, 1, containerText [⟨5, 1, [1, 2, 3, 4]⟩, ⟨9, 3, nestedText⟩]⟩
        [⟨5, 1, [1, 2, 3, 4]⟩] (.starting []) := by
  have hcount : Countable [⟨5, 1, [1, 2, 3, 4]⟩, ⟨9, 3, nestedText⟩] :=
    ⟨by decide, by decide +kernel⟩
  have hclassify : classify (containerText [⟨5, 1, [1, 2, 3, 4]⟩, ⟨9, 3, nestedText⟩]) =
      .ok (some (.container ([⟨5, 1, [1, 2, 3, 4]⟩] ++ ⟨9, 3, nestedText⟩ :: []))) :=
    classify_containerText hcount
  have hreaches : Reaches (containerText [⟨5, 1, [1, 2, 3, 4]⟩, ⟨9, 3, nestedText⟩])
      [⟨5, 1, [1, 2, 3, 4]⟩] nestedText :=
    .entry (m := ⟨9, 3, nestedText⟩) .bare hclassify
  have hrole : Role.In nestedText nestedText .payload := rfl
  have hrefused := refused_iff hreaches hrole nests_nestedText (.new []) .service 1 (.starting [])
  exact ⟨hreaches, hrole, nests_nestedText, hrefused.1.mpr (.inl rfl)⟩

/-- The answer to request 5, with that as its body. -/
def nestedAnswer : Bytes :=
  Bytes.le 4 rpcResultTag.toNat ++ (Bytes.le 8 5 ++ nestedText)

/-- It is not refused as the body of an answer. -/
theorem nested_answer_delivered :
    Nests nestedText (packedText (storedMember [1, 2, 3, 4])) ∧
      Reaches nestedAnswer [] nestedAnswer ∧ Role.In nestedText nestedAnswer (.answer 5) ∧
      ¬ (Session.new []).Refuses ⟨.content, 1, nestedAnswer⟩ [] (.starting []) := by
  have hclassify : classify nestedAnswer = .ok (some (.rpcResult 5 nestedText)) := by
    decide +kernel
  refine ⟨nests_nestedText, .own, ⟨nestedAnswer, .bare, hclassify⟩, ?_⟩
  rw [refuses_iff, payloadEffects_answer nests_nestedText .bare hclassify rfl]
  rintro ⟨⟨d, hfailure⟩, -⟩
  cases hfailure

end Mtproto
