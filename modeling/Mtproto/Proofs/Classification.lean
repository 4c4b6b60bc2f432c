import Mathlib.Tactic.Common
import Mtproto.Proofs.Containers
import Mtproto.Proofs.Records

/-!
# Which payloads are service messages

`ServiceMessage.classify` decides whether a payload is a message of the service layer, which the
session handles itself, or one for the application.  It looks at the first word of the payload in a
list of tags, and `readFields` compares the word with the tags one by one.

* `readFields_eq_none_iff`: the list and the comparisons agree, so no tag is on one and not on the
  other.
* `classify_eq_ok_none_iff`: a payload belongs to the application exactly if it does not start with
  such a tag.
* `classify_eq_ok_some_iff`: otherwise it is decoded, and fails if it is not a message of its tag.

What is decoded has one form.  For a message whose fields are self-delimiting the payload is the tag
and a string of the grammar of these fields (`classify_eq_ok_some_iff_reads`), and the grammars are
written down here: entries with their own lengths, behind a count that is guarded
(`reads_container_iff`), words, and lists of words.  An answer is different: its body goes on to the
end of the payload, whatever it is.  `classify_exact` puts all of this together.
-/

namespace Mtproto.ServiceMessage

open Wire

/-! ## 1. Tags -/

/-- A computation that finds a value, in whatever state it starts. -/
def Found {α : Type} (m : Read (Option α)) : Prop :=
  ∀ r, (m r).1 ≠ none

theorem Found.map {α β : Type} (m : Read α) (f : α → β) : Found (m >>= fun a => pure (some (f a))) :=
  fun _ h => nomatch h

theorem Found.bind {α β : Type} {m : Read α} {f : α → Read (Option β)} (h : ∀ a, Found (f a)) :
    Found (m >>= f) :=
  fun r => h (m r).1 (m r).2

/-- For the tags of the list there are fields. -/
theorem found_readFields {tag : UInt32} (h : tag ∈ serviceTags) : Found (readFields tag) := by
  unfold readFields
  repeat' split
  · exact .map _ _
  · exact .bind fun _ => .map _ _
  · exact .bind fun _ => .map _ _
  · exact .map _ _
  · exact .map _ _
  · exact .map _ _
  · exact .bind fun _ => .bind fun _ => .map _ _
  · exact .bind fun _ => .bind fun _ => .bind fun _ => .map _ _
  · exact .bind fun _ => .bind fun _ => .map _ _
  · exact .map _ _
  · simp_all [serviceTags]

/-- For other tags there are none. -/
theorem readFields_of_not_mem {tag : UInt32} (h : tag ∉ serviceTags) :
    readFields tag = pure none := by
  simp only [serviceTags, List.mem_cons, List.not_mem_nil, or_false, not_or] at h
  simp [readFields, h]

/-- **The list of the tags agrees with what is read for a tag.** -/
theorem readFields_eq_none_iff {tag : UInt32} {r : Reader} :
    (readFields tag r).1 = none ↔ tag ∉ serviceTags := by
  constructor
  · intro hnone hmem
    exact found_readFields hmem r hnone
  · intro hmem
    rw [readFields_of_not_mem hmem]
    rfl

theorem tag_mem_serviceTags (m : ServiceMessage) : m.tag ∈ serviceTags := by
  cases m <;> simp [tag, serviceTags]

/-- There is a leading tag unless the payload is too short for one. -/
theorem leadingTag?_eq_none_iff {payload : Bytes} :
    leadingTag? payload = none ↔ payload.length < 4 := by
  constructor
  · intro h
    match payload, h with
    | [], _ | [_], _ | [_, _], _ | [_, _, _], _ => simp
  · intro h
    match payload, h with
    | [], _ | [_], _ | [_, _], _ | [_, _, _], _ => rfl
    | _ :: _ :: _ :: _ :: rest, h =>
      simp only [List.length_cons] at h
      omega

/-- What is found in a payload that starts with a tag. -/
theorem classify_append (tag : UInt32) (bs : Bytes) :
    classify (Bytes.le 4 tag.toNat ++ bs) =
      if tag ∈ serviceTags then
        (ofBoxedBytes ServiceMessage (Bytes.le 4 tag.toNat ++ bs)).map some
      else .ok none := by
  have hpeek : (Reader.ofBytes (Bytes.le 4 tag.toNat ++ bs)).peekTag? = some tag :=
    leadingTag?_append tag bs
  rw [classify, hpeek]

theorem map_some_ne_ok_none {ε α : Type} (x : Except ε α) : x.map some ≠ .ok none := by
  cases x <;> simp [Except.map]

/-- **A payload belongs to the application if it has no first word, or nothing is read for it.** -/
theorem classify_eq_ok_none_iff {payload : Bytes} :
    classify payload = .ok none ↔ payload.length < 4 ∨
      ∃ tag bs, payload = Bytes.le 4 tag.toNat ++ bs ∧ ∀ r, (readFields tag r).1 = none := by
  cases htag : leadingTag? payload with
  | none =>
    have hshort := leadingTag?_eq_none_iff.mp htag
    have hpeek : (Reader.ofBytes payload).peekTag? = none := htag
    simp [classify, hpeek, hshort]
  | some tag =>
    obtain ⟨bs, rfl⟩ := exists_of_leadingTag? htag
    rw [classify_append]
    have hlong : ¬ (Bytes.le 4 tag.toNat ++ bs).length < 4 := by simp
    constructor
    · intro h
      split at h
      · exact absurd h (map_some_ne_ok_none _)
      · rename_i hmem
        exact .inr ⟨tag, bs, rfl, fun r => readFields_eq_none_iff.mpr hmem⟩
    · rintro (hshort | ⟨tag', bs', heq, hnone⟩)
      · exact absurd hshort hlong
      · obtain ⟨rfl, -⟩ := (Reads.word32_le tag).det (.word32_le tag') heq
        exact if_neg (readFields_eq_none_iff.mp (hnone (.ofBytes [])))

/-- Any other payload is decoded. -/
theorem classify_of_ne {payload : Bytes} (h : classify payload ≠ .ok none) :
    classify payload = (ofBoxedBytes ServiceMessage payload).map some := by
  unfold classify at h ⊢
  split at h
  · exact absurd rfl h
  · split at h
    · rw [if_pos ‹_›]
    · exact absurd rfl h

/-! ## 2. Decoding -/

/-- **What is recognised.**  It has the tag of the message in front, and the fields that belong to
it go to the end. -/
theorem classify_eq_ok_some_iff {payload : Bytes} {m : ServiceMessage} :
    classify payload = .ok (some m) ↔ ∃ bs, payload = Bytes.le 4 m.tag.toNat ++ bs ∧
      let found := readFields m.tag ⟨(Bytes.le 4 m.tag.toNat).reverse, bs, none⟩
      found.1 = some m ∧ found.2.finish = .ok () := by
  have hmap : ∀ x : Except DecodeError ServiceMessage, x.map some = .ok (some m) ↔ x = .ok m := by
    intro x
    cases x <;> simp [Except.map]
  have hdecode : ∀ bs, classify (Bytes.le 4 m.tag.toNat ++ bs) = .ok (some m) ↔
      ofBoxedBytes ServiceMessage (Bytes.le 4 m.tag.toNat ++ bs) = .ok m := by
    intro bs
    rw [classify_append, if_pos (tag_mem_serviceTags m), hmap]
  constructor
  · intro h
    obtain ⟨bs, rfl⟩ := exists_of_leadingTag? (tag_of_classify h)
    exact ⟨bs, rfl, ofBoxedBytes_append_eq_ok_iff.mp ((hdecode bs).mp h)⟩
  · rintro ⟨bs, rfl, hfound⟩
    exact (hdecode bs).mpr (ofBoxedBytes_append_eq_ok_iff.mpr hfound)

/-- Fields that are self-delimiting are a string of their grammar. -/
theorem classify_eq_ok_some_iff_reads {payload : Bytes} {m : ServiceMessage}
    (hread : SelfDelimiting (readFields m.tag)) :
    classify payload = .ok (some m) ↔ ∃ bs, payload = Bytes.le 4 m.tag.toNat ++ bs ∧
      Reads (readFields m.tag) bs (some m) := by
  rw [classify_eq_ok_some_iff]
  constructor
  · rintro ⟨bs, rfl, hvalue, hfinish⟩
    obtain ⟨hfailure, hrest⟩ := Reader.finish_eq_ok_iff.mp hfinish
    obtain ⟨cs, hcs, hreads⟩ := hread.reads _ hfailure
    rw [hrest, List.append_nil] at hcs
    obtain rfl : bs = cs := hcs
    rw [hvalue] at hreads
    exact ⟨bs, rfl, hreads⟩
  · rintro ⟨bs, rfl, hreads⟩
    have hrun := hreads (Bytes.le 4 m.tag.toNat).reverse []
    rw [List.append_nil] at hrun
    refine ⟨bs, rfl, ?_, ?_⟩
    · rw [hrun]
    · rw [hrun]
      rfl

/-! ## 3. Containers -/

/-- An entry of a container. -/
def readEntry : Read ContainedMessage := do
  let msgId ← Read.word64
  let seqNo ← Read.word32
  let length ← Read.word32
  let body ← Read.raw length.toNat
  return { msgId, seqNo, body }

/-- One entry and then the others, unless it has failed. -/
theorem readEntries_succ (count : Nat) (acc : List ContainedMessage) :
    readEntries (count + 1) acc = readEntry >>= fun m => Read.failed >>= fun failed =>
      if failed then pure acc.reverse else readEntries count (m :: acc) := rfl

theorem selfDelimiting_readEntry : SelfDelimiting readEntry :=
  .bind .word64 fun msgId => .bind .word32 fun seqNo => .prefixed (ContainedMessage.mk msgId seqNo)

/-- The grammar of an entry. -/
theorem reads_readEntry_iff {bs : Bytes} {m : ContainedMessage} :
    Reads readEntry bs m ↔ m.body.length < 2 ^ 32 ∧ bs = entryText m := by
  constructor
  · intro h
    obtain ⟨_, msgId, rest, rfl, hmsgId, h⟩ := (reads_bind_iff .word64 fun msgId =>
      .bind .word32 fun seqNo => .prefixed (ContainedMessage.mk msgId seqNo)).mp h
    obtain ⟨_, seqNo, rest, rfl, hseqNo, h⟩ := (reads_bind_iff .word32 fun seqNo =>
      .prefixed (ContainedMessage.mk msgId seqNo)).mp h
    obtain ⟨body, hbody, rfl, rfl⟩ := reads_prefixed_iff.mp h
    rw [reads_word64_iff.mp hmsgId, reads_word32_iff.mp hseqNo]
    refine ⟨hbody, ?_⟩
    rw [entryText, UInt32.toNat_ofNat_of_lt' hbody]
  · rintro ⟨hbody, rfl⟩
    rw [entryText, UInt32.toNat_ofNat_of_lt' hbody]
    exact (Reads.word64_le m.msgId).bind ((Reads.word32_le m.seqNo).bind
      (reads_prefixed_iff.mpr ⟨m.body, hbody, rfl, rfl⟩))

theorem selfDelimiting_readEntries (count : Nat) (acc : List ContainedMessage) :
    SelfDelimiting (readEntries count acc) := by
  induction count generalizing acc with
  | zero => exact .pure _
  | succ count ih =>
    rw [readEntries_succ]
    refine .bind selfDelimiting_readEntry fun m => .bind .failed fun failed => ?_
    split
    · exact .pure _
    · exact ih (m :: acc)

/-- The grammar of some entries: the entries, one after the other, and as many as announced. -/
theorem reads_readEntries_iff {count : Nat} {acc out : List ContainedMessage} {bs : Bytes} :
    Reads (readEntries count acc) bs out ↔ ∃ messages, messages.length = count ∧
      (∀ m ∈ messages, m.body.length < 2 ^ 32) ∧ bs = messages.flatMap entryText ∧
      out = acc.reverse ++ messages := by
  constructor
  · induction count generalizing acc bs with
    | zero =>
      intro h
      obtain ⟨rfl, rfl⟩ := reads_pure_iff.mp h
      exact ⟨[], rfl, by simp, rfl, (List.append_nil _).symm⟩
    | succ count ih =>
      intro h
      have hnext : ∀ (m : ContainedMessage) (failed : Bool), SelfDelimiting
          (if failed then pure acc.reverse else readEntries count (m :: acc)) := by
        intro m failed
        split
        · exact .pure _
        · exact selfDelimiting_readEntries count (m :: acc)
      rw [readEntries_succ] at h
      obtain ⟨_, m, rest, rfl, hentry, hrest⟩ :=
        (reads_bind_iff selfDelimiting_readEntry fun m => .bind .failed (hnext m)).mp h
      rw [reads_failed_bind_iff (hnext m)] at hrest
      obtain ⟨hbody, rfl⟩ := reads_readEntry_iff.mp hentry
      obtain ⟨messages, rfl, hbodies, rfl, rfl⟩ := ih hrest
      refine ⟨m :: messages, rfl, ?_, rfl, by simp⟩
      intro m' hm'
      rcases List.mem_cons.mp hm' with rfl | hm'
      · exact hbody
      · exact hbodies m' hm'
  · rintro ⟨messages, rfl, hbodies, rfl, rfl⟩
    exact reads_entries hbodies acc

/-- What is read behind the count of a container has room for the entries. -/
theorem sixteen_mul_le_of_reads {count : Nat} {bs : Bytes} {m : ServiceMessage}
    (h : Reads (readEntries count [] >>= fun messages => pure (container messages)) bs m) :
    16 * count ≤ bs.length := by
  obtain ⟨_, hentries, -⟩ := (reads_map_iff (selfDelimiting_readEntries count [])).mp h
  obtain ⟨messages, rfl, -, rfl, -⟩ := reads_readEntries_iff.mp hentries
  exact sixteen_mul_length_le messages

theorem selfDelimiting_readContainer : SelfDelimiting readContainer := by
  rw [readContainer_eq]
  exact .bind .word32 fun count => .guarded ((selfDelimiting_readEntries _ _).map _) (by decide)
    fun _ _ => sixteen_mul_le_of_reads

/-- The grammar of a container, behind its tag. -/
theorem reads_container_iff {bs : Bytes} {messages : List ContainedMessage} :
    Reads readContainer bs (container messages) ↔ Countable messages ∧
      bs = Bytes.le 4 (UInt32.ofNat messages.length).toNat ++ messages.flatMap entryText := by
  have hentries := fun count : UInt32 => selfDelimiting_readEntries count.toNat []
  constructor
  · intro h
    rw [readContainer_eq] at h
    obtain ⟨_, count, rest, rfl, hcount, h⟩ := (reads_bind_iff .word32 fun count =>
      .guarded ((hentries count).map _) (by decide) fun _ _ => sixteen_mul_le_of_reads).mp h
    rw [reads_guarded_iff ((hentries count).map _) (by decide)
      fun _ _ => sixteen_mul_le_of_reads] at h
    obtain ⟨found, hfound, heq⟩ := (reads_map_iff (hentries count)).mp h
    obtain rfl : messages = found := ServiceMessage.container.inj heq
    obtain ⟨messages, hlength, hbodies, rfl, rfl⟩ := reads_readEntries_iff.mp hfound
    rw [hlength, UInt32.ofNat_toNat, reads_word32_iff.mp hcount]
    exact ⟨⟨hlength ▸ count.toNat_lt, hbodies⟩, rfl⟩
  · rintro ⟨hcountable, rfl⟩
    exact reads_containerText hcountable

/-! ## 4. The payloads of a message -/

/-- The payload of a message with this text behind its tag, and with no other. -/
theorem classify_eq_ok_some_iff_text {payload text : Bytes} {m : ServiceMessage} {fits : Prop}
    (hread : SelfDelimiting (readFields m.tag))
    (h : ∀ bs, Reads (readFields m.tag) bs (some m) ↔ fits ∧ bs = text) :
    classify payload = .ok (some m) ↔ fits ∧ payload = Bytes.le 4 m.tag.toNat ++ text := by
  rw [classify_eq_ok_some_iff_reads hread]
  constructor
  · rintro ⟨bs, rfl, hreads⟩
    obtain ⟨hfits, rfl⟩ := (h bs).mp hreads
    exact ⟨hfits, rfl⟩
  · rintro ⟨hfits, rfl⟩
    exact ⟨text, rfl, (h text).mpr ⟨hfits, rfl⟩⟩

/-- **A container is recognised in its own bytes and in no others.** -/
theorem classify_eq_container_iff {payload : Bytes} {messages : List ContainedMessage} :
    classify payload = .ok (some (.container messages)) ↔
      Countable messages ∧ containerBytes messages = .ok payload := by
  have hdelimiting : SelfDelimiting (readFields containerTag) :=
    selfDelimiting_readContainer.map _
  have hread : ∀ bs, Reads (readFields containerTag) bs (some (container messages)) ↔
      Countable messages ∧
        bs = Bytes.le 4 (UInt32.ofNat messages.length).toNat ++ messages.flatMap entryText := by
    intro bs
    rw [← reads_container_iff]
    exact (reads_map_iff selfDelimiting_readContainer).trans (by simp)
  have htext : classify payload = .ok (some (container messages)) ↔
      Countable messages ∧ payload = containerText messages :=
    classify_eq_ok_some_iff_text hdelimiting hread
  rw [htext, containerBytes_eq, Except.ok.injEq, eq_comm]

/-- A record that is the whole of a message is recognised in its own bytes and in no others. -/
theorem classify_eq_record_iff {α : Type} [Tagged α] {inject : α → ServiceMessage} {a : α}
    {payload text : Bytes} {fits : Prop} (htag : (inject a).tag = Tagged.tag α)
    (hinject : ∀ b, inject b = inject a → b = a)
    (hfields : readFields (Tagged.tag α) = Bare.read >>= fun b => pure (some (inject b)))
    (hdelimiting : SelfDelimiting (Bare.read (α := α)))
    (hwrites : Writes (fun w => Bare.write w a) text)
    (hreads : ∀ bs, Reads Bare.read bs a ↔ fits ∧ bs = text) :
    classify payload = .ok (some (inject a)) ↔ fits ∧ boxedBytes a = .ok payload := by
  have hboxed : boxedBytes a = .ok (Bytes.le 4 (Tagged.tag α).toNat ++ text) :=
    ((Writes.word32 _).append hwrites).finish
  have hread : ∀ bs, Reads (readFields (inject a).tag) bs (some (inject a)) ↔
      fits ∧ bs = text := by
    intro bs
    rw [htag, hfields, reads_map_iff hdelimiting, ← hreads]
    constructor
    · rintro ⟨b, hb, heq⟩
      rwa [hinject b (Option.some.inj heq).symm] at hb
    · intro h
      exact ⟨a, h, rfl⟩
  have hself : SelfDelimiting (readFields (inject a).tag) := by
    rw [htag, hfields]
    exact hdelimiting.map _
  rw [classify_eq_ok_some_iff_text hself hread, hboxed, Except.ok.injEq, htag,
    eq_comm (a := payload)]

theorem classify_eq_msgsAck_iff {payload : Bytes} {ids : List UInt64} :
    classify payload = .ok (some (.msgsAck ⟨ids⟩)) ↔
      ids.length < 2 ^ 32 ∧ boxedBytes (MsgsAck.mk ids) = .ok payload := by
  refine classify_eq_record_iff rfl ?_ rfl (.record .msgsAck) (.vector fun k _ => .word64 k) ?_
  · intro ack h
    exact ServiceMessage.msgsAck.inj h
  · intro bs
    rw [← reads_words_iff]
    exact (reads_map_iff SelfDelimiting.words).trans (by simp)

/-- A ping is one word. -/
theorem reads_ping_iff {bs : Bytes} {ping : Ping} :
    Reads Bare.read bs ping ↔ True ∧ bs = Bytes.le 8 ping.pingId.toNat := by
  constructor
  · intro h
    obtain ⟨pingId, hpingId, rfl⟩ := (reads_map_iff .word64).mp h
    exact ⟨trivial, reads_word64_iff.mp hpingId⟩
  · rintro ⟨-, rfl⟩
    exact .map (.word64_le ping.pingId)

/-- A pong is two words. -/
theorem reads_pong_iff {bs : Bytes} {pong : Pong} :
    Reads Bare.read bs pong ↔
      True ∧ bs = Bytes.le 8 pong.msgId.toNat ++ Bytes.le 8 pong.pingId.toNat := by
  constructor
  · intro h
    obtain ⟨_, msgId, rest, rfl, hmsgId, h⟩ :=
      (reads_bind_iff .word64 fun _ => .map .word64 _).mp h
    obtain ⟨pingId, hpingId, rfl⟩ := (reads_map_iff .word64).mp h
    rw [reads_word64_iff.mp hmsgId, reads_word64_iff.mp hpingId]
    exact ⟨trivial, rfl⟩
  · rintro ⟨-, rfl⟩
    exact .bind (.word64_le pong.msgId) (.map (.word64_le pong.pingId))

theorem classify_eq_ping_iff {payload : Bytes} {ping : Ping} :
    classify payload = .ok (some (.ping ping)) ↔ boxedBytes ping = .ok payload := by
  have hexact : classify payload = .ok (some (.ping ping)) ↔
      True ∧ boxedBytes ping = .ok payload := by
    refine classify_eq_record_iff rfl ?_ rfl (.record .ping) (Writes.word64 ping.pingId)
      fun _ => reads_ping_iff
    intro ping' h
    exact ServiceMessage.ping.inj h
  rwa [true_and] at hexact

theorem classify_eq_pong_iff {payload : Bytes} {pong : Pong} :
    classify payload = .ok (some (.pong pong)) ↔ boxedBytes pong = .ok payload := by
  have hexact : classify payload = .ok (some (.pong pong)) ↔
      True ∧ boxedBytes pong = .ok payload := by
    refine classify_eq_record_iff rfl ?_ rfl (.record .pong)
      ((Writes.word64 pong.msgId).append (.word64 pong.pingId)) fun _ => reads_pong_iff
    intro pong' h
    exact ServiceMessage.pong.inj h
  rwa [true_and] at hexact

theorem remainder_eq {r : Reader} (h : r.failure = none) :
    Read.remainder r = (r.rest, ⟨r.rest.reverse ++ r.seen, [], none⟩) := by
  obtain ⟨seen, rest, failure⟩ := r
  obtain rfl : failure = none := h
  have hread : Reads (Read.raw rest.length) rest rest := .raw rfl
  have hrun := hread seen []
  rwa [List.append_nil] at hrun

/-- What is read of an answer is a word, and all the rest. -/
theorem readFields_rpcResult_iff {r : Reader} (hr : r.failure = none) {id : UInt64} {body : Bytes} :
    (readFields rpcResultTag r).1 = some (.rpcResult id body) ∧
      (readFields rpcResultTag r).2.finish = .ok () ↔ r.rest = Bytes.le 8 id.toNat ++ body := by
  have hrun : readFields rpcResultTag r = (some (.rpcResult (Read.word64 r).1
      (Read.remainder (Read.word64 r).2).1), (Read.remainder (Read.word64 r).2).2) := rfl
  rw [hrun]
  constructor
  · rintro ⟨hvalue, hfinish⟩
    obtain ⟨hfailure, -⟩ := Reader.finish_eq_ok_iff.mp hfinish
    -- after a failure there is no remainder, and the failure stays
    have hword : (Read.word64 r).2.failure = none := by
      cases hfailed : (Read.word64 r).2.failure with
      | none => rfl
      | some e =>
        rw [Idle.primitive .remainder _ e hfailed] at hfailure
        exact hfailed.symm.trans hfailure
    obtain ⟨cs, hcs, hread⟩ := SelfDelimiting.word64.reads r hword
    obtain ⟨hid, hbody⟩ := ServiceMessage.rpcResult.inj (Option.some.inj hvalue)
    rw [remainder_eq hword] at hbody
    rw [hcs, reads_word64_iff.mp hread, hid, ← hbody]
  · intro hrest
    obtain ⟨seen, rest, failure⟩ := r
    obtain rfl : failure = none := hr
    obtain rfl : rest = Bytes.le 8 id.toNat ++ body := hrest
    rw [Reads.word64_le id, remainder_eq rfl]
    exact ⟨rfl, rfl⟩

/-- **An answer is an identifier and a body**, which goes on to the end of the payload. -/
theorem classify_eq_rpcResult_iff {payload body : Bytes} {id : UInt64} :
    classify payload = .ok (some (.rpcResult id body)) ↔
      payload = Bytes.le 4 rpcResultTag.toNat ++ (Bytes.le 8 id.toNat ++ body) := by
  rw [classify_eq_ok_some_iff]
  constructor
  · rintro ⟨bs, rfl, hfound⟩
    have hrest : bs = Bytes.le 8 id.toNat ++ body := (readFields_rpcResult_iff rfl).mp hfound
    rw [hrest]
    rfl
  · rintro rfl
    exact ⟨_, rfl, (readFields_rpcResult_iff rfl).mpr rfl⟩

/-! ## 5. All payloads -/

/-- **Service messages are parsed exactly.**

* The list of the tags and the comparisons behind it agree: what is not in the list is not read, and
  what is in it is.
* A payload is left to the application if it is too short to have a tag, or has one for which
  nothing is read; any other one is what decoding it gives, a message or an error.
* Containers, acknowledgements, pings and pongs are recognised in the bytes that they are written
  as, and in no others.  So is an answer, whatever its body. -/
theorem classify_exact :
    (∀ (tag : UInt32) (r : Reader), (readFields tag r).1 = none ↔ tag ∉ serviceTags) ∧
    (∀ payload, classify payload = .ok none ↔ payload.length < 4 ∨
      ∃ tag bs, payload = Bytes.le 4 tag.toNat ++ bs ∧ ∀ r, (readFields tag r).1 = none) ∧
    (∀ payload, classify payload ≠ .ok none →
      classify payload = (ofBoxedBytes ServiceMessage payload).map some) ∧
    (∀ payload messages, classify payload = .ok (some (.container messages)) ↔
      Countable messages ∧ containerBytes messages = .ok payload) ∧
    (∀ payload ids, classify payload = .ok (some (.msgsAck ⟨ids⟩)) ↔
      ids.length < 2 ^ 32 ∧ boxedBytes (MsgsAck.mk ids) = .ok payload) ∧
    (∀ payload ping, classify payload = .ok (some (.ping ping)) ↔
      boxedBytes ping = .ok payload) ∧
    (∀ payload pong, classify payload = .ok (some (.pong pong)) ↔
      boxedBytes pong = .ok payload) ∧
    ∀ payload id body, classify payload = .ok (some (.rpcResult id body)) ↔
      payload = Bytes.le 4 rpcResultTag.toNat ++ (Bytes.le 8 id.toNat ++ body) := by
  refine ⟨?tags, ?application, ?decoded, ?containers, ?acks, ?pings, ?pongs, ?answers⟩
  case tags => exact fun tag r => readFields_eq_none_iff
  case application => exact fun payload => classify_eq_ok_none_iff
  case decoded => exact fun payload => classify_of_ne
  case containers => exact fun payload messages => classify_eq_container_iff
  case acks => exact fun payload ids => classify_eq_msgsAck_iff
  case pings => exact fun payload ping => classify_eq_ping_iff
  case pongs => exact fun payload pong => classify_eq_pong_iff
  case answers => exact fun payload id body => classify_eq_rpcResult_iff

end Mtproto.ServiceMessage
