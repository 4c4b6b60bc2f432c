import Mathlib.Tactic.Common
import Mtproto.Proofs.Wire
import Mtproto.Session.Effect

/-!
# Containers and compressed messages

The two wrappings of the service layer.  A container holds several messages, and `gzip_packed` holds
one that is compressed.  This module says how they are written and that `ServiceMessage.classify`
recognises them.

* `tag_of_classify`: what is recognised carries the tag that the payload starts with, and
  `classify_boxed`: a tag of the service layer with the fields that belong to it is recognised.
* A container is the number of its entries and then the entries, each with its own length in front.
  If the numbers fit their words, all entries come back (`classify_containerText`).
* A compressed message is one blob.  `Shows payload data` says what is left of a payload when its
  compression is taken off, and `SentAs data payload` what data may be sent as, whichever way they
  have been compressed (`SentAs.shows`).
* Up to 65535 bytes can be sent without a compressor, as one stored block (`sentAs_storedMember`),
  so there always is such a payload.
-/

namespace Mtproto.ServiceMessage

open Wire

/-! ## 1. Tags -/

/-- The tag that a payload starts with. -/
def leadingTag? (payload : Bytes) : Option UInt32 :=
  (Reader.ofBytes payload).peekTag?

theorem leadingTag?_append (tag : UInt32) (bs : Bytes) :
    leadingTag? (Bytes.le 4 tag.toNat ++ bs) = some tag := by
  have hback : Bytes.ofLE (Bytes.le 4 tag.toNat) = tag.toNat := Bytes.ofLE_le_of_lt tag.toNat_lt
  simp only [Bytes.le] at hback
  simp only [leadingTag?, Reader.ofBytes, Reader.peekTag?, Bytes.le, List.cons_append,
    List.nil_append, hback, UInt32.ofNat_toNat]

/-- A leading tag is four bytes in front of the rest. -/
theorem exists_of_leadingTag? {payload : Bytes} {tag : UInt32}
    (h : leadingTag? payload = some tag) : ∃ bs, payload = Bytes.le 4 tag.toNat ++ bs := by
  match payload, h with
  | a :: b :: c :: d :: bs, h =>
    obtain rfl : UInt32.ofNat (Bytes.ofLE [a, b, c, d]) = tag := Option.some.inj h
    have hback : Bytes.le 4 (UInt32.ofNat (Bytes.ofLE [a, b, c, d])).toNat = [a, b, c, d] :=
      Bytes.le_ofLE_four rfl
    exact ⟨bs, by rw [hback]; rfl⟩

/-- What is read as a container is one. -/
theorem exists_readContainer (r : Reader) :
    ∃ messages, (readContainer r).1 = .container messages := by
  unfold readContainer
  by_cases hcount : (Read.word32 r).2.remaining / 16 < (Read.word32 r).1.toNat
  · refine ⟨[], ?_⟩
    change ((if (Read.word32 r).2.remaining / 16 < (Read.word32 r).1.toNat then _ else _ :
      Read ServiceMessage) (Read.word32 r).2).1 = _
    rw [if_pos hcount]
    rfl
  · refine ⟨(readEntries (Read.word32 r).1.toNat [] (Read.word32 r).2).1, ?_⟩
    change ((if (Read.word32 r).2.remaining / 16 < (Read.word32 r).1.toNat then _ else _ :
      Read ServiceMessage) (Read.word32 r).2).1 = _
    rw [if_neg hcount]
    rfl

/-- What is read after a tag carries it. -/
theorem tag_of_readFields {tag : UInt32} {r : Reader} {m : ServiceMessage}
    (h : (readFields tag r).1 = some m) : m.tag = tag := by
  unfold readFields at h
  by_cases hcontainer : tag = containerTag
  · rw [if_pos hcontainer] at h
    obtain ⟨messages, hmessages⟩ := exists_readContainer r
    obtain rfl : (readContainer r).1 = m := Option.some.inj h
    rw [hmessages, hcontainer]
    rfl
  rw [if_neg hcontainer] at h
  repeat' split at h
  any_goals
    obtain rfl := Option.some.inj h
    symm
    assumption
  cases h

theorem read_bind {α β : Type} (m : Read α) (f : α → Read β) (r : Reader) :
    (m >>= f) r = f (m r).1 (m r).2 := rfl

/-- Behind a tag, the fields that belong to it are read. -/
theorem boxed_append {α : Type} [Family α] (tag : UInt32) (fields : Bytes) :
    Read.boxed α (.ofBytes (Bytes.le 4 tag.toNat ++ fields)) =
      (Family.readFields tag >>= concluded tag)
        ⟨(Bytes.le 4 tag.toNat).reverse, fields, none⟩ := by
  have hword : Read.word32 (.ofBytes (Bytes.le 4 tag.toNat ++ fields)) =
      (tag, ⟨(Bytes.le 4 tag.toNat).reverse, fields, none⟩) := by
    have hword := Reads.word32_le tag [] fields
    rwa [List.append_nil] at hword
  rw [boxed_eq, read_bind, hword]
  rfl

/-- A buffer holds a value if the fields that belong to its tag are all there is behind it. -/
theorem ofBoxedBytes_append_eq_ok_iff {α : Type} [Family α] {tag : UInt32} {fields : Bytes}
    {a : α} : ofBoxedBytes α (Bytes.le 4 tag.toNat ++ fields) = .ok a ↔
      let found := Family.readFields tag ⟨(Bytes.le 4 tag.toNat).reverse, fields, none⟩
      found.1 = some a ∧ found.2.finish = .ok () := by
  have hrun := boxed_append (α := α) tag fields
  rw [read_bind] at hrun
  rcases hfound : Family.readFields (α := α) tag
    ⟨(Bytes.le 4 tag.toNat).reverse, fields, none⟩ with ⟨a?, r⟩
  rw [hfound] at hrun
  cases a? with
  | none =>
    have hconcluded : concluded tag none r = (none (α := α), r.fail (.unknownConstructor tag)) :=
      rfl
    rw [ofBoxedBytes_of_run (hrun.trans hconcluded)]
    simp
  | some b =>
    have hconcluded : concluded tag (some b) r = (if r.failed then none else some b, r) := rfl
    rw [ofBoxedBytes_of_run (hrun.trans hconcluded)]
    cases hr : r.failure <;> simp [Reader.failed, Reader.finish, hr]

/-- What a buffer holds carries the tag that it starts with. -/
theorem tag_of_ofBoxedBytes {tag : UInt32} {bs : Bytes} {m : ServiceMessage}
    (h : ofBoxedBytes ServiceMessage (Bytes.le 4 tag.toNat ++ bs) = .ok m) : m.tag = tag :=
  tag_of_readFields (ofBoxedBytes_append_eq_ok_iff.mp h).1

/-- **What a payload is found to be, its leading tag says.** -/
theorem tag_of_classify {payload : Bytes} {m : ServiceMessage}
    (h : classify payload = .ok (some m)) : leadingTag? payload = some m.tag := by
  unfold classify at h
  cases htag : (Reader.ofBytes payload).peekTag? with
  | none =>
    rw [htag] at h
    cases h
  | some tag =>
    simp only [htag] at h
    split at h
    · obtain ⟨bs, rfl⟩ := exists_of_leadingTag? htag
      cases hread : ofBoxedBytes ServiceMessage (Bytes.le 4 tag.toNat ++ bs) with
      | error e =>
        rw [hread] at h
        cases h
      | ok m' =>
        rw [hread] at h
        obtain rfl : m' = m := Option.some.inj (Except.ok.inj h)
        rw [tag_of_ofBoxedBytes hread]
        exact htag
    · cases h

/-- A tag of the service layer and the fields that belong to it. -/
theorem classify_boxed {tag : UInt32} (htag : tag ∈ serviceTags) {bs : Bytes} {m : ServiceMessage}
    (h : Reads (readFields tag) bs (some m)) :
    classify (Bytes.le 4 tag.toNat ++ bs) = .ok (some m) := by
  have hpeek : (Reader.ofBytes (Bytes.le 4 tag.toNat ++ bs)).peekTag? = some tag :=
    leadingTag?_append tag bs
  have hboxed : ofBoxedBytes ServiceMessage (Bytes.le 4 tag.toNat ++ bs) = .ok m :=
    (Reads.boxed h).ofBoxedBytes
  rw [classify, hpeek]
  simp only [if_pos htag, hboxed]
  rfl

/-! ## 2. Containers -/

/-- The bytes of an entry. -/
def entryText (m : ContainedMessage) : Bytes :=
  Bytes.le 8 m.msgId.toNat ++ (Bytes.le 4 m.seqNo.toNat ++
    (Bytes.le 4 (UInt32.ofNat m.body.length).toNat ++ m.body))

/-- The bytes of a container. -/
def containerText (messages : List ContainedMessage) : Bytes :=
  Bytes.le 4 containerTag.toNat ++
    (Bytes.le 4 (UInt32.ofNat messages.length).toNat ++ messages.flatMap entryText)

/-- The numbers that a container is written with fit their words. -/
structure Countable (messages : List ContainedMessage) : Prop where
  count : messages.length < 2 ^ 32
  bodies : ∀ m ∈ messages, m.body.length < 2 ^ 32

theorem writes_entry (m : ContainedMessage) : Writes (fun w => writeEntry w m) (entryText m) := by
  have h := (Writes.word64 m.msgId).append ((Writes.word32 m.seqNo).append
    ((Writes.word32 (UInt32.ofNat m.body.length)).append (.raw m.body)))
  exact h

theorem containerBytes_eq (messages : List ContainedMessage) :
    containerBytes messages = .ok (containerText messages) := by
  have hentries : Writes (fun w => messages.foldl writeEntry w) (messages.flatMap entryText) :=
    Writes.foldl fun m _ => writes_entry m
  have h := ((Writes.word32 containerTag).append
    (.word32 (UInt32.ofNat messages.length))).append hentries
  rw [List.append_assoc] at h
  exact h.finish

/-- Entries are read back, whatever follows. -/
theorem reads_entries {messages : List ContainedMessage}
    (h : ∀ m ∈ messages, m.body.length < 2 ^ 32) (acc : List ContainedMessage) :
    Reads (readEntries messages.length acc) (messages.flatMap entryText)
      (acc.reverse ++ messages) := by
  induction messages generalizing acc with
  | nil =>
    rw [List.append_nil]
    exact .pure _
  | cons m messages ih =>
    have hlength : (UInt32.ofNat m.body.length).toNat = m.body.length :=
      UInt32.toNat_ofNat_of_lt' (h m List.mem_cons_self)
    have hrest := ih (fun m' hm' => h m' (List.mem_cons_of_mem m hm')) (m :: acc)
    rw [List.reverse_cons, List.append_assoc, List.singleton_append] at hrest
    rw [List.flatMap_cons, entryText, List.append_assoc, List.append_assoc, List.append_assoc]
    refine .bind (.word64_le m.msgId) (.bind (.word32_le m.seqNo) (.bind (.word32_le _)
      (.bind (.raw hlength.symm) (.failed_bind ?_))))
    exact hrest

theorem length_entryText (m : ContainedMessage) : (entryText m).length = 16 + m.body.length := by
  simp [entryText]
  omega

theorem sixteen_mul_length_le (messages : List ContainedMessage) :
    16 * messages.length ≤ (messages.flatMap entryText).length := by
  induction messages with
  | nil => simp
  | cons m messages ih =>
    rw [List.flatMap_cons, List.length_append, length_entryText, List.length_cons]
    omega

/-- The entries are read behind a guarded count. -/
theorem readContainer_eq : readContainer = Read.word32 >>= fun count =>
    guarded 16 count.toNat (fun _ => .invalidValue (.containerCount count.toNat)) (container [])
      (readEntries count.toNat [] >>= fun messages => pure (container messages)) := rfl

/-- A container is read back, whatever follows. -/
theorem reads_containerText {messages : List ContainedMessage} (h : Countable messages) :
    Reads readContainer
      (Bytes.le 4 (UInt32.ofNat messages.length).toNat ++ messages.flatMap entryText)
      (container messages) := by
  have hcount : (UInt32.ofNat messages.length).toNat = messages.length :=
    UInt32.toNat_ofNat_of_lt' h.count
  have hentries : Reads (readEntries messages.length [] >>= fun ms => pure (container ms))
      (messages.flatMap entryText) (container messages) := (reads_entries h.bodies []).map
  rw [readContainer_eq]
  refine .bind (.word32_le _) ?_
  rw [hcount]
  exact hentries.guarded (by decide) (sixteen_mul_length_le messages)

/-- **A container is recognised**, with all its entries. -/
theorem classify_containerText {messages : List ContainedMessage} (h : Countable messages) :
    classify (containerText messages) = .ok (some (.container messages)) := by
  have hread : Reads (readContainer >>= fun m => pure (some m)) _ _ := (reads_containerText h).map
  exact classify_boxed (by decide) hread

/-! ## 3. Compressed messages -/

/-- The bytes of a compressed message with this blob in it. -/
def packedText (packed : Bytes) : Bytes :=
  Bytes.le 4 gzipPackedTag.toNat ++ blobBytes packed

theorem classify_packedText {packed : Bytes} (h : packed.length ≤ maxBlobLength) :
    classify (packedText packed) = .ok (some (.gzipPacked packed)) := by
  refine classify_boxed (by decide) ?_
  have hread : Reads (Read.blob >>= fun packed => pure (some (gzipPacked packed))) _ _ :=
    (Reads.blob (isBlob_blobBytes h)).map
  exact hread

/-- What is left of a payload without its compression: the payload itself, or what it inflates
to. -/
inductive Shows (payload : Bytes) : Bytes → Prop where
  | bare : Shows payload payload
  | inflated {packed data : Bytes} (hclassify : classify payload = .ok (some (.gzipPacked packed)))
      (hunpack : Gzip.unpack packed maxUnpackedLength = .ok data) : Shows payload data

/-- What data are sent as: as they are, or as a compressed message that inflates to them. -/
inductive SentAs (data : Bytes) : Bytes → Prop where
  | bare : SentAs data data
  | compressed {packed payload : Bytes}
      (hwritten : ((Writer.empty.word32 gzipPackedTag).blob packed).finish = .ok payload)
      (hunpack : Gzip.unpack packed maxUnpackedLength = .ok data) : SentAs data payload

/-- A compressed message is written only if its blob is not too long. -/
theorem eq_packedText_of_finish {packed payload : Bytes}
    (h : ((Writer.empty.word32 gzipPackedTag).blob packed).finish = .ok payload) :
    packed.length ≤ maxBlobLength ∧ payload = packedText packed := by
  by_cases hlength : packed.length ≤ maxBlobLength
  · have hwritten := ((Writes.word32 gzipPackedTag).append (.blob hlength)).finish
    exact ⟨hlength, Except.ok.inj (h.symm.trans hwritten)⟩
  · have hfailed : encodeBlob packed = .error (.overflow packed.length 24) :=
      if_pos (Nat.lt_of_not_le hlength)
    simp [Writer.blob, hfailed, Writer.encoded, Writer.fail, Writer.word32, Writer.raw,
      Writer.empty, Writer.finish] at h

/-- **What data are sent as shows them.** -/
theorem SentAs.shows {data payload : Bytes} (h : SentAs data payload) : Shows payload data := by
  cases h with
  | bare => exact .bare
  | compressed hwritten hunpack =>
    obtain ⟨hlength, rfl⟩ := eq_packedText_of_finish hwritten
    exact .inflated (classify_packedText hlength) hunpack

/-- Data that have been inflated keep to the limit. -/
theorem length_le_of_unpack {packed data : Bytes} {limit : Nat}
    (h : Gzip.unpack packed limit = .ok data) : data.length ≤ limit := by
  unfold Gzip.unpack at h
  split at h
  · cases h
  rename_i body _
  rcases hrun : Gzip.inflate (limit + Gzip.windowLength) body with ⟨out, halt, trailer⟩
  simp only [hrun] at h
  cases halt with
  | complete =>
    by_cases hexceeded : limit < out.size
    · simp [hexceeded] at h
    · simp only [hexceeded, decide_false, Bool.false_eq_true, if_false] at h
      split at h
      · obtain rfl := Except.ok.inj h
        exact Nat.not_lt.mp hexceeded
      · cases h
  | damaged | truncated | stopped =>
    simp only [reduceCtorEq, false_and, if_false] at h
    split at h <;> cases h

/-- A container that can be sent has numbers that fit their words. -/
theorem countable_of_sentAs {messages : List ContainedMessage} {payload : Bytes}
    (h : SentAs (containerText messages) payload) (hlength : payload.length < 2 ^ 32) :
    Countable messages := by
  have htext : (containerText messages).length < 2 ^ 32 := by
    cases h with
    | bare => exact hlength
    | compressed _ hunpack =>
      refine Nat.lt_of_le_of_lt (length_le_of_unpack hunpack) ?_
      decide
  have hentries : (messages.flatMap entryText).length ≤ (containerText messages).length := by
    simp only [containerText, List.length_append]
    omega
  refine ⟨by have := sixteen_mul_length_le messages; omega, ?_⟩
  intro m hm
  have hentry := (List.sublist_flatten_of_mem (List.mem_map_of_mem (f := entryText) hm)).length_le
  rw [length_entryText, ← List.flatMap_def] at hentry
  omega

/-! ## 4. Stored data

There is a compressed form of all data that are not too long: a member with one block, in which
they are stored. -/

/-- A stored block, the last one. -/
def storedText (data : Bytes) : Bytes :=
  1 :: (Bytes.le 2 data.length ++ (Bytes.le 2 (65535 - data.length) ++ data))

/-- The trailer of a member. -/
def trailerText (data : Bytes) : Bytes :=
  Bytes.le 4 (Gzip.crc32 data).toNat ++ Bytes.le 4 data.length

/-- A member with one stored block. -/
def storedMember (data : Bytes) : Bytes :=
  [0x1f, 0x8b, 8, 0, 0, 0, 0, 0, 0, 255] ++ (storedText data ++ trailerText data)

theorem read_storedText (rest : Bytes) :
    Gzip.Bits.read { rest := 1 :: rest } 3 = .ok (1, { rest, count := 5, taken := 1 }) := by
  rw [Gzip.Bits.read, Gzip.Bits.take.eq_def, if_neg (show ¬ 3 ≤ 0 by decide)]
  simp only
  rw [Gzip.Bits.take.eq_def, if_pos (show 3 ≤ 0 + 8 by decide)]
  rfl

theorem inflate_storedText {data : Bytes} {stop : Nat} (h : data.length ≤ 65535)
    (hstop : data.length ≤ stop) (trailer : Bytes) :
    Gzip.inflate stop (storedText data ++ trailer) = (data.toArray, .complete, trailer) := by
  have hlength : Bytes.ofLE (Bytes.le 2 data.length) = data.length :=
    Bytes.ofLE_le_of_lt (by omega)
  have hcomplement : Bytes.ofLE (Bytes.le 2 (65535 - data.length)) = 65535 - data.length :=
    Bytes.ofLE_le_of_lt (by omega)
  have hfuel : 8 * ((data ++ trailer).length + 1 + 1 + 1 + 1 + 1) + 2 =
      8 * (data ++ trailer).length + 40 + 1 + 1 := by omega
  simp only [Gzip.inflate, storedText, Bytes.le, List.cons_append, List.nil_append,
    List.length_cons, hfuel] at hlength hcomplement ⊢
  simp [Gzip.Inflater.run, Gzip.Inflater.step, Gzip.Inflater.headerStep, read_storedText,
    Gzip.Inflater.storedBlock, hlength, hcomplement, hstop]

theorem trailerAgrees_trailerText (data : Bytes) :
    Gzip.trailerAgrees data (trailerText data) = true := by
  have hcrc : Bytes.ofLE (Bytes.le 4 (Gzip.crc32 data).toNat) = (Gzip.crc32 data).toNat :=
    Bytes.ofLE_le_of_lt (Gzip.crc32 data).toNat_lt
  have hlength : Bytes.ofLE (Bytes.le 4 data.length) = data.length % UInt32.size :=
    Bytes.ofLE_le 4 data.length
  have hall : (Bytes.le 4 data.length).take 4 = Bytes.le 4 data.length :=
    List.take_of_length_le (Bytes.length_le 4 data.length).le
  simp [Gzip.trailerAgrees, trailerText, hcrc, hall, hlength]

theorem unpack_storedMember {data : Bytes} {limit : Nat} (h : data.length ≤ 65535)
    (hlimit : data.length ≤ limit) : Gzip.unpack (storedMember data) limit = .ok data := by
  have hheader : Gzip.dropHeader (storedMember data) = some (storedText data ++ trailerText data) :=
    rfl
  have hstop : data.length ≤ limit + Gzip.windowLength := by omega
  rw [Gzip.unpack, hheader]
  simp only [inflate_storedText h hstop]
  simp [trailerAgrees_trailerText, hlimit]

theorem length_storedMember (data : Bytes) : (storedMember data).length = data.length + 23 := by
  simp only [storedMember, storedText, trailerText, List.length_append, List.length_cons,
    List.length_nil, Bytes.length_le]
  omega

/-- Data may be sent stored. -/
theorem sentAs_storedMember {data : Bytes} (h : data.length ≤ 65535) :
    SentAs data (packedText (storedMember data)) := by
  refine .compressed ?_ (unpack_storedMember h ?_)
  · refine ((Writes.word32 gzipPackedTag).append (.blob ?_)).finish
    rw [length_storedMember, maxBlobLength]
    omega
  · rw [maxUnpackedLength]
    omega

end Mtproto.ServiceMessage
