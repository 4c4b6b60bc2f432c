import Mathlib.Data.List.Forall2
import Mathlib.Tactic.Common
import Mtproto.Proofs.Grammar
import Mtproto.Proofs.Handshake

/-!
# The written form of a message of the key exchange

A message of the key exchange may arrive in several forms, because a blob may have a longer length
in front than it needs and padding that is not zero.  One of them is the written form, and it is the
shortest.

`Canonical m w` says this of a reader `m` and a writer `w`: whatever `m` reads as a value, `w`
writes that value in no more bytes, and `m` reads it back from them.  It is shown field by field
(`Canonical.field`), so it holds of a record and of a family as soon as it holds of the primitives.

* `HandshakeResponse.exists_written`: what has been accepted has a written form.
* `HandshakeResponse.toBytes_injective`: the written form tells the value.  This does not go by
  reading back, since a list that cannot be counted is written and not read back.
* `handshake_written_form`: both, and that every message whose fields fit is read back.
-/

namespace Mtproto

namespace Wire

variable {α β : Type}

/-! ## 1. Lists of words -/

theorem four_le_of_reads_word64 (bs : Bytes) (k : UInt64) (h : Reads Read.word64 bs k) :
    4 ≤ bs.length := by
  rw [reads_word64_iff.mp h, Bytes.length_le]
  decide

/-- A list of words has one form only. -/
theorem reads_words_iff {bs : Bytes} {ks : List UInt64} :
    Reads (Read.vector Read.word64) bs ks ↔ ks.length < 2 ^ 32 ∧
      bs = Bytes.le 4 vectorTag.toNat ++ (Bytes.le 4 (UInt32.ofNat ks.length).toNat ++
        ks.flatMap fun k => Bytes.le 8 k.toNat) := by
  have hparts : ∀ parts : List Bytes, List.Forall₂ (Reads Read.word64) parts ks ↔
      parts = ks.map fun k => Bytes.le 8 k.toNat := by
    intro parts
    rw [← List.forall₂_eq_eq_eq, List.forall₂_map_right_iff]
    exact ⟨fun h => h.imp fun _ _ => reads_word64_iff.mp,
      fun h => h.imp fun _ _ => reads_word64_iff.mpr⟩
  rw [reads_vector_iff .word64 four_le_of_reads_word64, List.flatMap_def]
  constructor
  · rintro ⟨hcount, parts, rfl, hwords⟩
    rw [(hparts parts).mp hwords]
    exact ⟨hcount, rfl⟩
  · rintro ⟨hcount, rfl⟩
    exact ⟨hcount, _, rfl, (hparts _).mpr rfl⟩

/-! ## 2. Canonical pairs -/

/-- Whatever is read as a value, the writer writes that value in no more bytes, and it is read back
from them. -/
structure Canonical (m : Read α) (w : α → Writer → Writer) : Prop where
  selfDelimiting : SelfDelimiting m
  exists_codes : ∀ {bs a}, Reads m bs a → ∃ cs, cs.length ≤ bs.length ∧ Codes (w a) m cs a

namespace Canonical

variable {m : Read α} {v : α → Writer → Writer}

theorem octets (n : Nat) : Canonical (Read.octets n) fun o w => w.octets o where
  selfDelimiting := .octets n
  exists_codes := by
    intro bs o h
    obtain ⟨o?, ho, rfl⟩ := (reads_map_iff (.take? n)).mp h
    obtain ⟨o, rfl, rfl⟩ := reads_take?_iff.mp ho
    exact ⟨o.bytes, Nat.le_refl _, .octets o⟩

theorem blob : Canonical Read.blob fun data w => w.blob data where
  selfDelimiting := .blob
  exists_codes := by
    intro bs data h
    have hblob := reads_blob_iff.mp h
    exact ⟨blobBytes data, hblob.length_blobBytes_le, .blob hblob.length_data_le⟩

theorem int32 : Canonical Read.int32 fun v w => w.int32 v where
  selfDelimiting := .int32
  exists_codes := by
    intro bs v h
    rw [reads_int32_iff.mp h]
    exact ⟨_, Nat.le_refl _, .int32 v⟩

theorem words : Canonical (Read.vector Read.word64) fun ks w => w.vector ks Writer.word64 := by
  refine ⟨.vector .word64 four_le_of_reads_word64, ?_⟩
  intro bs ks h
  obtain ⟨hcount, rfl⟩ := reads_words_iff.mp h
  exact ⟨_, Nat.le_refl _, .vector (fun k _ => .word64 k), h⟩

/-- A value for which there is nothing to read and nothing to write. -/
theorem nothing {w : β → Writer → Writer} (b : β) (hw : ∀ out, w b out = out) :
    Canonical (Pure.pure b) w where
  selfDelimiting := .pure b
  exists_codes := by
    intro bs c h
    obtain ⟨rfl, rfl⟩ := reads_pure_iff.mp h
    exact ⟨[], Nat.le_refl _, ⟨fun out => by rw [hw, List.append_nil], .pure c⟩⟩

/-- The end of a record. -/
theorem pure (b : β) : Canonical (Pure.pure b) fun _ w => w :=
  nothing b fun _ => rfl

/-- The next field `g` of a record: it is written first, and what is read is found in the record. -/
theorem field {f : α → Read β} {w : β → Writer → Writer} (g : β → α) (hm : Canonical m v)
    (hf : ∀ a, Canonical (f a) w) (hg : ∀ a r, g (f a r).1 = a := by intros; rfl) :
    Canonical (m >>= f) fun b out => w b (v (g b) out) where
  selfDelimiting := .bind hm.selfDelimiting fun a => (hf a).selfDelimiting
  exists_codes := by
    intro bs b h
    obtain ⟨as, a, rest, rfl, hread, hrest⟩ :=
      (reads_bind_iff hm.selfDelimiting fun a => (hf a).selfDelimiting).mp h
    obtain ⟨as', has, hfirst⟩ := hm.exists_codes hread
    obtain ⟨rest', hle, hothers⟩ := (hf a).exists_codes hrest
    have hfound : g b = a := by
      rw [← hrest.run.1]
      exact hg a _
    refine ⟨as' ++ rest', ?_, ?_⟩
    · simp only [List.length_append]
      omega
    · rw [hfound]
      exact hfirst.bind hothers

/-- The same value under a constructor. -/
theorem map {g : α → β} {w : β → Writer → Writer} (hm : Canonical m v) (hw : ∀ a, w (g a) = v a) :
    Canonical (m >>= fun a => Pure.pure (g a)) w where
  selfDelimiting := .bind hm.selfDelimiting fun _ => .pure _
  exists_codes := by
    intro bs b h
    obtain ⟨a, hread, rfl⟩ := (reads_map_iff hm.selfDelimiting).mp h
    obtain ⟨cs, hle, hcodes⟩ := hm.exists_codes hread
    rw [hw]
    exact ⟨cs, hle, hcodes.map⟩

theorem ite {c : Prop} [Decidable c] {m' : Read α} (hm : Canonical m v) (hm' : Canonical m' v) :
    Canonical (if c then m else m') v := by
  split
  · exact hm
  · exact hm'

end Canonical

/-! ## 3. Families -/

theorem SelfDelimiting.concluded (tag : UInt32) (a? : Option α) :
    SelfDelimiting (concluded tag a?) := by
  cases a? with
  | none => exact bind (fail _) fun _ => pure _
  | some a => exact unlessFailed a

/-- A tag without a form is refused, and one with a form needs nothing more. -/
theorem reads_concluded_iff {tag : UInt32} {a? : Option α} {bs : Bytes} {a : α} :
    Reads (concluded tag a?) bs (some a) ↔ bs = [] ∧ a? = some a := by
  cases a? with
  | none =>
    constructor
    · exact fun h => absurd h (not_reads_fail_bind fun _ => .pure _)
    · rintro ⟨-, h⟩
      cases h
  | some b =>
    change Reads (Read.failed >>= fun failed => pure (if failed then none else some b)) _ _ ↔ _
    rw [reads_failed_bind_iff fun _ => .pure _, reads_pure_iff, if_neg Bool.false_ne_true]
    exact and_congr_right fun _ => eq_comm

/-- What is left of a boxed value of one constructor when its tag has been read. -/
def exactFields (α : Type) [Tagged α] (tag : UInt32) (failed : Bool) : Read (Option α) :=
  if failed then pure none
  else if tag ≠ Tagged.tag α then do
    Read.fail (.unknownConstructor tag)
    return none
  else Bare.read >>= fun a => concluded tag (some a)

theorem SelfDelimiting.exactFields [Tagged α] (hread : SelfDelimiting (Bare.read (α := α)))
    (tag : UInt32) (failed : Bool) : SelfDelimiting (exactFields α tag failed) := by
  unfold Wire.exactFields
  split
  · exact pure _
  · split
    · exact bind (fail _) fun _ => pure _
    · exact bind hread fun a => concluded tag (some a)

/-- The grammar of one constructor: its tag, and its fields. -/
theorem reads_exactBoxed_iff [Tagged α] (hread : SelfDelimiting (Bare.read (α := α))) {bs : Bytes}
    {a : α} : Reads (Read.exactBoxed α) bs (some a) ↔
      ∃ fields, bs = Bytes.le 4 (Tagged.tag α).toNat ++ fields ∧ Reads Bare.read fields a := by
  constructor
  · intro h
    obtain ⟨_, tag, rest, rfl, htag, hrest⟩ := (reads_bind_iff .word32 fun tag =>
      .bind .failed (.exactFields hread tag)).mp h
    rw [reads_failed_bind_iff (.exactFields hread tag), exactFields,
      if_neg Bool.false_ne_true] at hrest
    split at hrest
    · exact absurd hrest (not_reads_fail_bind fun _ => .pure _)
    · rename_i hexact
      obtain ⟨fields, b, _, rfl, hfields, hend⟩ :=
        (reads_bind_iff hread fun b => .concluded tag (some b)).mp hrest
      obtain ⟨rfl, hb⟩ := reads_concluded_iff.mp hend
      obtain rfl := Option.some.inj hb
      exact ⟨fields, by rw [reads_word32_iff.mp htag, not_not.mp hexact, List.append_nil], hfields⟩
  · rintro ⟨fields, rfl, hfields⟩
    exact .exactBoxed hfields

section Family

variable [Family α] (hread : ∀ tag, SelfDelimiting (Family.readFields (α := α) tag))

include hread

/-- The fields of a family end where they say, whatever the tag. -/
theorem SelfDelimiting.boxedFields (tag : UInt32) (failed : Bool) :
    SelfDelimiting (boxedFields α tag failed) := by
  unfold Wire.boxedFields
  split
  · exact pure _
  · exact bind (hread tag) (concluded tag)

theorem SelfDelimiting.boxed : SelfDelimiting (Read.boxed α) := by
  exact bind word32 fun tag => bind failed (boxedFields hread tag)

/-- The grammar of a family: a tag, and the fields that belong to it. -/
theorem reads_boxed_iff {bs : Bytes} {a : α} :
    Reads (Read.boxed α) bs (some a) ↔ ∃ tag fields, bs = Bytes.le 4 tag.toNat ++ fields ∧
      Reads (Family.readFields tag) fields (some a) := by
  constructor
  · intro h
    obtain ⟨_, tag, fields, rfl, htag, hrest⟩ := (reads_bind_iff .word32 fun tag =>
      .bind .failed (.boxedFields hread tag)).mp h
    rw [reads_failed_bind_iff (.boxedFields hread tag)] at hrest
    refine ⟨tag, fields, by rw [reads_word32_iff.mp htag], ?_⟩
    rw [boxedFields, if_neg Bool.false_ne_true] at hrest
    obtain ⟨fields, a?, _, rfl, hfields, hend⟩ :=
      (reads_bind_iff (hread tag) (.concluded tag)).mp hrest
    obtain ⟨rfl, rfl⟩ := reads_concluded_iff.mp hend
    rwa [List.append_nil]
  · rintro ⟨tag, fields, rfl, hfields⟩
    exact .boxed hfields

/-- A buffer holds a value if it is a form of that value and nothing else. -/
theorem ofBoxedBytes_eq_ok_iff {bs : Bytes} {a : α} :
    ofBoxedBytes α bs = .ok a ↔ Reads (Read.boxed α) bs (some a) := by
  constructor
  · intro h
    rcases hrun : Read.boxed α (.ofBytes bs) with ⟨a?, r⟩
    obtain ⟨rfl, hfinish⟩ := (ofBoxedBytes_of_run hrun).mp h
    obtain ⟨hfailure, hrest⟩ := Reader.finish_eq_ok_iff.mp hfinish
    obtain ⟨-, cs, hcs, hreads⟩ := (SelfDelimiting.boxed hread).exists_reads hrun hfailure
    rw [hrest, List.append_nil] at hcs
    cases hcs
    exact hreads
  · exact Reads.ofBoxedBytes

end Family

/-! ## 4. One string, one value -/

/-- What starts with two strings that are read starts with the same value. -/
theorem Reads.det {m : Read α} {as bs rest rest' : Bytes} {a b : α} (ha : Reads m as a)
    (hb : Reads m bs b) (h : as ++ rest = bs ++ rest') : a = b ∧ rest = rest' := by
  have hrun := ha [] rest
  rw [h, hb [] rest'] at hrun
  exact ⟨(congrArg Prod.fst hrun).symm, (congrArg (·.2.rest) hrun).symm⟩

/-- Two boxed values of one constructor. -/
theorem exact_readBack [Tagged α] {bs : Bytes} {a : α}
    (h : Codes (fun w => Bare.write w a) Bare.read bs a) :
    ∃ body, boxedBytes a = .ok body ∧
      ∃ r, Read.exactBoxed α (.ofBytes body) = (some a, r) ∧ r.finish = .ok () :=
  ⟨_, h.boxedBytes, _, (Reads.exactBoxed h.reads).ofBytes, rfl⟩

/-- A writer appends one string. -/
theorem Writes.unique {w : Writer → Writer} {as bs : Bytes} (ha : Writes w as) (hb : Writes w bs) :
    as = bs := by
  have h := ha []
  rw [hb []] at h
  exact (Writer.mk.inj h).1.symm

namespace Writer

@[simp] theorem failure_octets {n : Nat} (w : Writer) (v : Octets n) :
    (w.octets v).failure = w.failure :=
  w.failure_raw _

@[simp] theorem failure_words (w : Writer) (ks : List UInt64) :
    (w.vector ks word64).failure = none ↔ w.failure = none := by
  have h := @failure_foldl_eq_none_iff UInt64 word64 (fun _ => True) (by simp) ks
  simp [vector, h]

end Writer

theorem le_eight_injective {k l : UInt64} (h : Bytes.le 8 k.toNat = Bytes.le 8 l.toNat) :
    k = l := by
  have hnumber := congrArg Bytes.ofLE h
  rwa [Bytes.ofLE_le_of_lt k.toNat_lt, Bytes.ofLE_le_of_lt l.toNat_lt, UInt64.toNat_inj] at hnumber

/-- The words of a list can be told apart, since they all have eight bytes. -/
theorem words_injective {ks ls : List UInt64}
    (h : (ks.flatMap fun k => Bytes.le 8 k.toNat) = ls.flatMap fun k => Bytes.le 8 k.toNat) :
    ks = ls := by
  induction ks generalizing ls with
  | nil =>
    cases ls with
    | nil => rfl
    | cons l ls => cases h
  | cons k ks ih =>
    cases ls with
    | nil => cases h
    | cons l ls =>
      rw [List.flatMap_cons, List.flatMap_cons] at h
      obtain ⟨hfirst, hothers⟩ := List.append_inj h (by simp)
      rw [le_eight_injective hfirst, ih hothers]

end Wire

open Wire

/-! ## 5. Answers -/

theorem ResPq.canonical : Canonical (Bare.read (α := ResPq)) fun v w => Bare.write w v := by
  have h := Canonical.field ResPq.nonce (.octets 16) fun a =>
    .field ResPq.serverNonce (.octets 16) fun b => .field ResPq.pq .blob fun c =>
      .field ResPq.fingerprints .words fun d => .pure ⟨a, b, c, d⟩
  exact h

theorem ServerDhParamsOk.canonical :
    Canonical (Bare.read (α := ServerDhParamsOk)) fun v w => Bare.write w v := by
  have h := Canonical.field ServerDhParamsOk.nonce (.octets 16) fun a =>
    .field ServerDhParamsOk.serverNonce (.octets 16) fun b =>
      .field ServerDhParamsOk.encryptedAnswer .blob fun c => .pure ⟨a, b, c⟩
  exact h

theorem ServerDhParamsFail.canonical :
    Canonical (Bare.read (α := ServerDhParamsFail)) fun v w => Bare.write w v := by
  have h := Canonical.field ServerDhParamsFail.nonce (.octets 16) fun a =>
    .field ServerDhParamsFail.serverNonce (.octets 16) fun b =>
      .field ServerDhParamsFail.newNonceHash (.octets 16) fun c => .pure ⟨a, b, c⟩
  exact h

theorem DhGenAnswer.canonical :
    Canonical (Bare.read (α := DhGenAnswer)) fun v w => Bare.write w v := by
  have h := Canonical.field DhGenAnswer.nonce (.octets 16) fun a =>
    .field DhGenAnswer.serverNonce (.octets 16) fun b =>
      .field DhGenAnswer.newNonceHash (.octets 16) fun c => .pure ⟨a, b, c⟩
  exact h

namespace HandshakeResponse

/-- The byte fields of an answer. -/
def blobs : HandshakeResponse → List Bytes
  | resPq v => [v.pq]
  | serverDhParamsOk v => [v.encryptedAnswer]
  | serverDhParamsFail _ | dhGenOk _ | dhGenRetry _ | dhGenFail _ => []

/-- The fingerprints in an answer. -/
def fingerprints : HandshakeResponse → List UInt64
  | resPq v => v.fingerprints
  | _ => []

/-- No field is too long for the length in front of it. -/
def Fits (v : HandshakeResponse) : Prop :=
  (∀ data ∈ v.blobs, data.length ≤ maxBlobLength) ∧ v.fingerprints.length < 2 ^ 32

/-- Write what has been found for a tag. -/
def writeFound (v? : Option HandshakeResponse) (w : Writer) : Writer :=
  match v? with
  | some v => v.writeFields w
  | none => w

theorem canonical (tag : UInt32) : Canonical (readFields tag) writeFound :=
  .ite (.map ResPq.canonical fun _ => rfl) <|
  .ite (.map ServerDhParamsOk.canonical fun _ => rfl) <|
  .ite (.map ServerDhParamsFail.canonical fun _ => rfl) <|
  .ite (.map DhGenAnswer.canonical fun _ => rfl) <|
  .ite (.map DhGenAnswer.canonical fun _ => rfl) <|
  .ite (.map DhGenAnswer.canonical fun _ => rfl) (.nothing none fun _ => rfl)

/-- What is read behind a tag is a response with this tag. -/
theorem tag_of_readFields {tag : UInt32} {r : Reader} {v : HandshakeResponse}
    (h : (readFields tag r).1 = some v) : v.tag = tag := by
  unfold readFields at h
  split_ifs at h
  case neg => cases h
  all_goals
    cases Option.some.inj h
    exact Eq.symm ‹_›

/-- An answer that fits is written, and what is written is read back. -/
theorem exists_codes {v : HandshakeResponse} (h : v.Fits) :
    ∃ bs, Codes (fun w => v.writeFields w) (readFields v.tag) bs (some v) := by
  obtain ⟨hblobs, hcount⟩ := h
  cases v with
  | resPq v =>
    have hcodes := ResPq.codes (hblobs v.pq List.mem_cons_self) hcount
    exact ⟨_, hcodes.writes, readFields_resPq hcodes.reads⟩
  | serverDhParamsOk v =>
    have hcodes := ServerDhParamsOk.codes (hblobs v.encryptedAnswer List.mem_cons_self)
    exact ⟨_, hcodes.writes, readFields_serverDhParamsOk hcodes.reads⟩
  | serverDhParamsFail v => exact ⟨_, v.codes.writes, readFields_serverDhParamsFail v.codes.reads⟩
  | dhGenOk v => exact ⟨_, v.codes.writes, readFields_dhGenOk v.codes.reads⟩
  | dhGenRetry v => exact ⟨_, v.codes.writes, readFields_dhGenRetry v.codes.reads⟩
  | dhGenFail v => exact ⟨_, v.codes.writes, readFields_dhGenFail v.codes.reads⟩

/-- A response is its tag and its fields. -/
theorem toBytes_of_writes {v : HandshakeResponse} {fields : Bytes}
    (h : Writes (fun w => v.writeFields w) fields) :
    v.toBytes = .ok (Bytes.le 4 v.tag.toNat ++ fields) :=
  ((Writes.word32 v.tag).append h).finish

/-- **Whatever is accepted has a written form.**  It is no longer than what has been accepted. -/
theorem exists_written {bs : Bytes} {v : HandshakeResponse}
    (h : ofBoxedBytes HandshakeResponse bs = .ok v) :
    ∃ written, v.toBytes = .ok written ∧ Bytes.le 4 v.tag.toNat <+: written ∧
      written.length ≤ bs.length ∧ ofBoxedBytes HandshakeResponse written = .ok v := by
  have hread : ∀ tag, SelfDelimiting (readFields tag) := fun tag => (canonical tag).selfDelimiting
  obtain ⟨tag, fields, rfl, hfields⟩ :=
    (reads_boxed_iff hread).mp ((ofBoxedBytes_eq_ok_iff hread).mp h)
  obtain ⟨cs, hle, hcodes⟩ := (canonical tag).exists_codes hfields
  have htag : v.tag = tag := tag_of_readFields hfields.run.1
  subst htag
  refine ⟨_, toBytes_of_writes hcodes.writes, List.prefix_append _ _, ?_,
    Reads.ofBoxedBytes (.boxed hcodes.reads)⟩
  simp only [List.length_append, Bytes.length_le]
  omega

end HandshakeResponse

/-! What is written is the tag and the fields, so it tells the value.  A list of fingerprints with
more items than can be counted is written behind a count that is too small, and is not read back;
but its words are all there. -/

theorem ResPq.writes {v : ResPq} (h : v.pq.length ≤ maxBlobLength) :
    Writes (fun w => Bare.write w v) (v.nonce.bytes ++ (v.serverNonce.bytes ++ (blobBytes v.pq ++
      (Bytes.le 4 vectorTag.toNat ++ (Bytes.le 4 (UInt32.ofNat v.fingerprints.length).toNat ++
        v.fingerprints.flatMap fun k => Bytes.le 8 k.toNat))))) := by
  have hwords : Writes (·.vector v.fingerprints Writer.word64) _ :=
    .vector fun k _ => .word64 k
  exact (Writes.octets v.nonce).append ((Writes.octets v.serverNonce).append
    ((Writes.blob h).append hwords))

/-- Challenges with one written form are the same, however many fingerprints they have. -/
theorem ResPq.eq_of_writes {v w : ResPq} {fields : Bytes} (hv : v.pq.length ≤ maxBlobLength)
    (hw : w.pq.length ≤ maxBlobLength) (h : Writes (fun out => Bare.write out v) fields)
    (h' : Writes (fun out => Bare.write out w) fields) : v = w := by
  have heq := ((ResPq.writes hv).unique h).trans (h'.unique (ResPq.writes hw))
  obtain ⟨hnonce, heq⟩ := (Reads.octets v.nonce).det (.octets w.nonce) heq
  obtain ⟨hserverNonce, heq⟩ := (Reads.octets v.serverNonce).det (.octets w.serverNonce) heq
  obtain ⟨hpq, heq⟩ := (Reads.blob (isBlob_blobBytes hv)).det (.blob (isBlob_blobBytes hw)) heq
  obtain ⟨-, heq⟩ := (Reads.word32_le _).det (.word32_le _) heq
  obtain ⟨-, heq⟩ := (Reads.word32_le _).det (.word32_le _) heq
  have hfingerprints := words_injective heq
  cases v
  cases w
  simp_all

namespace HandshakeResponse

/-- The only thing that can be refused in a response is a blob that is too long. -/
theorem failure_writeFields {v : HandshakeResponse} {w : Writer} :
    (v.writeFields w).failure = none ↔
      w.failure = none ∧ ∀ data ∈ v.blobs, data.length ≤ maxBlobLength := by
  cases v <;> simp [writeFields, blobs, Bare.write, Writer.failure_blob_eq_none_iff]

/-- An answer is written unless a byte field is too long. -/
theorem exists_writes {v : HandshakeResponse} {bs : Bytes} (h : v.toBytes = .ok bs) :
    (∀ data ∈ v.blobs, data.length ≤ maxBlobLength) ∧
      ∃ fields, Writes (fun w => v.writeFields w) fields ∧
        bs = Bytes.le 4 v.tag.toNat ++ fields := by
  have hblobs := (failure_writeFields.mp (Writer.failure_of_finish h)).2
  have hwrites : ∃ fields, Writes (fun w => v.writeFields w) fields := by
    cases v with
    | resPq v => exact ⟨_, ResPq.writes (hblobs v.pq List.mem_cons_self)⟩
    | _ =>
      obtain ⟨fields, hcodes⟩ := exists_codes ⟨hblobs, Nat.two_pow_pos 32⟩
      exact ⟨fields, hcodes.writes⟩
  obtain ⟨fields, hwrites⟩ := hwrites
  exact ⟨hblobs, fields, hwrites, Except.ok.inj (h.symm.trans (toBytes_of_writes hwrites))⟩

theorem exists_resPq {v : HandshakeResponse} (h : v.tag = Tagged.tag ResPq) :
    ∃ r, v = .resPq r := by
  cases v with
  | resPq r => exact ⟨r, rfl⟩
  | _ => exact absurd h (by simp only [tag]; decide)

/-- An answer without a list fits if it can be written. -/
theorem fits_of_tag_ne {v : HandshakeResponse} (h : v.tag ≠ Tagged.tag ResPq)
    (hblobs : ∀ data ∈ v.blobs, data.length ≤ maxBlobLength) : v.Fits := by
  cases v with
  | resPq r => exact absurd rfl h
  | _ => exact ⟨hblobs, Nat.two_pow_pos 32⟩

/-- **No two answers share a written form.** -/
theorem toBytes_injective {v w : HandshakeResponse} {bs : Bytes} (hv : v.toBytes = .ok bs)
    (hw : w.toBytes = .ok bs) : v = w := by
  obtain ⟨hblobs, fields, hwrites, rfl⟩ := exists_writes hv
  obtain ⟨hblobs', fields', hwrites', heq⟩ := exists_writes hw
  obtain ⟨htag, rfl⟩ := (Reads.word32_le v.tag).det (.word32_le w.tag) heq
  by_cases hresPq : v.tag = Tagged.tag ResPq
  · obtain ⟨r, rfl⟩ := exists_resPq hresPq
    obtain ⟨s, rfl⟩ := exists_resPq (htag.symm.trans hresPq)
    exact congrArg resPq (ResPq.eq_of_writes (hblobs r.pq List.mem_cons_self)
      (hblobs' s.pq List.mem_cons_self) hwrites hwrites')
  · obtain ⟨_, hcodes⟩ := exists_codes (fits_of_tag_ne hresPq hblobs)
    obtain ⟨_, hcodes'⟩ := exists_codes (fits_of_tag_ne (htag ▸ hresPq) hblobs')
    rw [hcodes.writes.unique hwrites] at hcodes
    rw [hcodes'.writes.unique hwrites', ← htag] at hcodes'
    exact Option.some.inj (hcodes.reads.run.1.symm.trans hcodes'.reads.run.1)

end HandshakeResponse

/-! ## 6. Requests -/

namespace HandshakeRequest

/-- The bytes of a request, tag included. -/
def toBytes : HandshakeRequest → Except DecodeError Bytes
  | reqPq v => boxedBytes v
  | reqDhParams v => boxedBytes v
  | setClientDhParams v => boxedBytes v

/-- The byte fields of a request. -/
def blobs : HandshakeRequest → List Bytes
  | reqPq _ => []
  | reqDhParams v => [v.p, v.q, v.encryptedData]
  | setClientDhParams v => [v.encryptedData]

/-- No field is too long for the length in front of it. -/
def Fits (v : HandshakeRequest) : Prop :=
  ∀ data ∈ v.blobs, data.length ≤ maxBlobLength

/-- A request that fits is written, and what is written is read back. -/
theorem exists_readBack {v : HandshakeRequest} (h : v.Fits) :
    ∃ bs, v.toBytes = .ok bs ∧ ofBoxedBytes HandshakeRequest bs = .ok v := by
  cases v with
  | reqPq v => exact request_readBack v.codes (readFields_reqPq v.codes.reads)
  | reqDhParams v =>
    have hcodes := ReqDhParams.codes (h v.p (by simp [blobs])) (h v.q (by simp [blobs]))
      (h v.encryptedData (by simp [blobs]))
    exact request_readBack hcodes (readFields_reqDhParams hcodes.reads)
  | setClientDhParams v =>
    have hcodes := SetClientDhParams.codes (h v.encryptedData (by simp [blobs]))
    exact request_readBack hcodes (readFields_setClientDhParams hcodes.reads)

/-- What has been written has no blob that is too long. -/
theorem fits_of_toBytes {v : HandshakeRequest} {bs : Bytes} (h : v.toBytes = .ok bs) : v.Fits := by
  cases v with
  | reqPq v => simp [Fits, blobs]
  | reqDhParams v =>
    have hfailure := Writer.failure_of_finish h
    simpa [Writer.boxed, Bare.write, Writer.failure_blob_eq_none_iff, Writer.empty, Fits, blobs,
      and_assoc] using hfailure
  | setClientDhParams v =>
    have hfailure := Writer.failure_of_finish h
    simpa [Writer.boxed, Bare.write, Writer.failure_blob_eq_none_iff, Writer.empty, Fits,
      blobs] using hfailure

/-- So whatever can be written is read back. -/
theorem ofBoxedBytes_of_toBytes {v : HandshakeRequest} {bs : Bytes} (h : v.toBytes = .ok bs) :
    ofBoxedBytes HandshakeRequest bs = .ok v := by
  obtain ⟨written, hwritten, hread⟩ := exists_readBack (fits_of_toBytes h)
  obtain rfl := Except.ok.inj (h.symm.trans hwritten)
  exact hread

/-- No two requests share a written form. -/
theorem toBytes_injective {v w : HandshakeRequest} {bs : Bytes} (hv : v.toBytes = .ok bs)
    (hw : w.toBytes = .ok bs) : v = w :=
  Except.ok.inj ((ofBoxedBytes_of_toBytes hv).symm.trans (ofBoxedBytes_of_toBytes hw))

end HandshakeRequest

/-! ## 7. All messages -/

/-- **The written form of the handshake messages.**

* An answer, a request or an inner message whose fields fit is written with its tag, and the whole
  of what is written is read as the same value under the same constructor.
* An answer that has been accepted in whatever form is written, with its tag in front, in no more
  bytes, and read back from them.
* No two answers and no two requests share a written form. -/
theorem handshake_written_form :
    (∀ v : HandshakeResponse, v.Fits →
      ∃ bs, v.toBytes = .ok bs ∧ ofBoxedBytes HandshakeResponse bs = .ok v) ∧
    (∀ v : HandshakeRequest, v.Fits →
      ∃ bs, v.toBytes = .ok bs ∧ ofBoxedBytes HandshakeRequest bs = .ok v) ∧
    (∀ v : PqInnerData, (∀ data ∈ [v.pq, v.p, v.q], data.length ≤ maxBlobLength) →
      ∃ bs, boxedBytes v = .ok bs ∧
        ∃ r, Read.exactBoxed PqInnerData (.ofBytes bs) = (some v, r) ∧ r.finish = .ok ()) ∧
    (∀ v : ServerDhInnerData, (∀ data ∈ [v.dhPrime, v.gA], data.length ≤ maxBlobLength) →
      ∃ bs, boxedBytes v = .ok bs ∧
        ∃ r, Read.exactBoxed ServerDhInnerData (.ofBytes bs) = (some v, r) ∧ r.finish = .ok ()) ∧
    (∀ v : ClientDhInnerData, v.gB.length ≤ maxBlobLength →
      ∃ bs, boxedBytes v = .ok bs ∧
        ∃ r, Read.exactBoxed ClientDhInnerData (.ofBytes bs) = (some v, r) ∧ r.finish = .ok ()) ∧
    (∀ (bs : Bytes) (v : HandshakeResponse), ofBoxedBytes HandshakeResponse bs = .ok v →
      ∃ written, v.toBytes = .ok written ∧ Bytes.le 4 v.tag.toNat <+: written ∧
        written.length ≤ bs.length ∧ ofBoxedBytes HandshakeResponse written = .ok v) ∧
    (∀ (v w : HandshakeResponse) (bs : Bytes), v.toBytes = .ok bs → w.toBytes = .ok bs → v = w) ∧
    ∀ (v w : HandshakeRequest) (bs : Bytes), v.toBytes = .ok bs → w.toBytes = .ok bs → v = w := by
  refine ⟨?answers, ?requests, ?challenge, ?parameters, ?half, ?accepted, ?distinct,
    ?requestsDistinct⟩
  case answers =>
    intro v hfits
    obtain ⟨fields, hcodes⟩ := HandshakeResponse.exists_codes hfits
    exact response_readBack hcodes.writes hcodes.reads
  case requests => exact fun v => HandshakeRequest.exists_readBack
  case challenge =>
    intro v hfits
    exact exact_readBack (PqInnerData.codes (hfits v.pq (by simp)) (hfits v.p (by simp))
      (hfits v.q (by simp)))
  case parameters =>
    intro v hfits
    exact exact_readBack (ServerDhInnerData.codes (hfits v.dhPrime (by simp))
      (hfits v.gA (by simp)))
  case half =>
    intro v hfits
    exact exact_readBack (ClientDhInnerData.codes hfits)
  case accepted => exact fun bs v => HandshakeResponse.exists_written
  case distinct => exact fun v w bs => HandshakeResponse.toBytes_injective
  case requestsDistinct => exact fun v w bs => HandshakeRequest.toBytes_injective

end Mtproto
