import Mathlib.Data.List.Forall2
import Mathlib.Tactic.Common
import Mtproto.Proofs.Wire

/-!
# Grammars of the primitives

A reader that is self-delimiting has a grammar: the strings that it reads, each with the value that
it gives for it, `Reads m`.  `Reads` is defined in the module on the wire format; here the grammars
of the primitives are written down, and how those of sequences and vectors are put together.

* `reads_word32_iff`, `reads_blob_iff` and the others: one lemma for each primitive, as an
  equivalence.  Words have one string for each value.  Blobs have several.
* `reads_bind_iff`: the strings of a sequence are those of its parts, one after the other.
* `reads_guarded_iff`: a count is accepted if what is left of the buffer could hold so many items.
* `reads_vector_iff`: so a vector of records has to name the string of each of its items.

The exact descriptions of service messages and stored states come from these by rewriting.
-/

namespace Mtproto

namespace Text.Utf8

/-- A text is read from its own bytes and from no others. -/
theorem decode_eq_ok_iff {bs : Bytes} {s : String} : decode bs = .ok s ↔ bs = encode s := by
  unfold decode encode String.fromUTF8?
  constructor
  · intro h
    by_cases hvalid : ByteArray.IsValidUTF8 ⟨bs.toArray⟩
    · rw [dif_pos hvalid] at h
      cases h
      simp [String.toUTF8, String.fromUTF8]
    · rw [dif_neg hvalid] at h
      cases h
  · rintro rfl
    have hvalid : ByteArray.IsValidUTF8 ⟨s.toUTF8.data.toList.toArray⟩ := s.isValidUTF8
    rw [dif_pos hvalid]
    rfl

end Text.Utf8

namespace Wire

variable {α β : Type}

/-! ## 1. Sequences -/

namespace Reads

/-- A string by itself. -/
theorem run {m : Read α} {bs : Bytes} {a : α} (h : Reads m bs a) :
    (m ⟨[], bs, none⟩).1 = a ∧ (m ⟨[], bs, none⟩).2 = ⟨bs.reverse, [], none⟩ := by
  have hrun := h [] []
  rw [List.append_nil, List.append_nil] at hrun
  exact ⟨congrArg Prod.fst hrun, congrArg Prod.snd hrun⟩

end Reads

/-- What a reader does with a string by itself says all. -/
theorem reads_iff_run {m : Read α} (hm : SelfDelimiting m) {bs : Bytes} {a : α} :
    Reads m bs a ↔ (m ⟨[], bs, none⟩).1 = a ∧ (m ⟨[], bs, none⟩).2 = ⟨bs.reverse, [], none⟩ := by
  constructor
  · exact Reads.run
  · rintro ⟨rfl, hleft⟩
    obtain ⟨as, has, hreads⟩ := hm.reads ⟨[], bs, none⟩ (by rw [hleft])
    rw [hleft, List.append_nil] at has
    cases has
    exact hreads

/-- What has been read in one step of a longer reading. -/
theorem SelfDelimiting.exists_reads {m : Read α} (hm : SelfDelimiting m) {r r' : Reader} {a : α}
    (h : m r = (a, r')) (hr' : r'.failure = none) :
    r.failure = none ∧ ∃ bs, r.rest = bs ++ r'.rest ∧ Reads m bs a := by
  have hdone : (m r).2.failure = none := by rw [h]; exact hr'
  obtain ⟨bs, hbs, hreads⟩ := hm.reads r hdone
  rw [h] at hbs hreads
  exact ⟨hm.failure_eq_none hdone, bs, hbs, hreads⟩

namespace Reader

theorem check_eq_ok_iff {r : Reader} : r.check = .ok () ↔ r.failure = none := by
  unfold check
  split <;> simp [*]

/-- A reader is finished if nothing has failed and nothing is left over. -/
theorem finish_eq_ok_iff {r : Reader} : r.finish = .ok () ↔ r.failure = none ∧ r.rest = [] := by
  unfold finish
  split
  · simp [*, List.isEmpty_iff]
  · simp [*]

end Reader

theorem reads_pure_iff {a b : α} {bs : Bytes} : Reads (pure a) bs b ↔ bs = [] ∧ b = a := by
  constructor
  · intro h
    obtain ⟨rfl, hleft⟩ := h.run
    exact ⟨(Reader.mk.inj hleft).2.1, rfl⟩
  · rintro ⟨rfl, rfl⟩
    exact .pure _

/-- The grammar of a sequence: one string after the other. -/
theorem reads_bind_iff {m : Read α} {f : α → Read β} (hm : SelfDelimiting m)
    (hf : ∀ a, SelfDelimiting (f a)) {bs : Bytes} {b : β} :
    Reads (m >>= f) bs b ↔ ∃ as a cs, bs = as ++ cs ∧ Reads m as a ∧ Reads (f a) cs b := by
  constructor
  · intro h
    obtain ⟨rfl, hleft⟩ := h.run
    change (f (m ⟨[], bs, none⟩).1 (m ⟨[], bs, none⟩).2).2 = _ at hleft
    have hdone : (f (m ⟨[], bs, none⟩).1 (m ⟨[], bs, none⟩).2).2.failure = none := by rw [hleft]
    obtain ⟨as, has, hreads⟩ := hm.reads _ ((hf _).failure_eq_none hdone)
    obtain ⟨cs, hcs, hrest⟩ := (hf _).reads _ hdone
    rw [hleft, List.append_nil] at hcs
    exact ⟨as, _, cs, by rw [← hcs]; exact has, hreads, hrest⟩
  · rintro ⟨as, a, cs, rfl, hreads, hrest⟩
    exact hreads.bind hrest

/-- A function of what has been read does not read. -/
theorem reads_map_iff {m : Read α} {f : α → β} (hm : SelfDelimiting m) {bs : Bytes} {b : β} :
    Reads (m >>= fun a => pure (f a)) bs b ↔ ∃ a, Reads m bs a ∧ b = f a := by
  rw [reads_bind_iff hm fun _ => .pure _]
  constructor
  · rintro ⟨as, a, cs, rfl, hreads, hpure⟩
    obtain ⟨rfl, rfl⟩ := reads_pure_iff.mp hpure
    exact ⟨a, by rwa [List.append_nil], rfl⟩
  · rintro ⟨a, hreads, rfl⟩
    exact ⟨bs, a, [], (List.append_nil bs).symm, hreads, .pure _⟩

/-- What records a failure reads nothing. -/
theorem not_reads_fail {e : DecodeError} {bs : Bytes} : ¬ Reads (Read.fail e) bs () := by
  intro h
  have hleft : Reader.fail ⟨[], bs, none⟩ e = ⟨bs.reverse, [], none⟩ := h.run.2
  simp [Reader.fail] at hleft

/-- Nothing is read by what begins with a failure. -/
theorem not_reads_fail_bind {e : DecodeError} {k : Unit → Read β}
    (hk : ∀ a, SelfDelimiting (k a)) {bs : Bytes} {b : β} : ¬ Reads (Read.fail e >>= k) bs b := by
  rw [reads_bind_iff (.fail e) hk]
  rintro ⟨as, _, _, -, hfail, -⟩
  exact not_reads_fail hfail

/-- A look whether there was a failure: there is none where something is read. -/
theorem reads_failed_bind_iff {f : Bool → Read β} (hf : ∀ a, SelfDelimiting (f a)) {bs : Bytes}
    {b : β} : Reads (Read.failed >>= f) bs b ↔ Reads (f false) bs b := by
  constructor
  · intro h
    obtain ⟨as, a, cs, rfl, hfailed, hrest⟩ := (reads_bind_iff .failed hf).mp h
    obtain ⟨rfl, hleft⟩ := hfailed.run
    obtain ⟨-, rfl, -⟩ := Reader.mk.inj hleft
    exact hrest
  · exact .failed_bind

/-! ## 2. Primitives -/

namespace Reads

theorem int64_le (v : Int64) : Reads Read.int64 (Bytes.le 8 v.toUInt64.toNat) v :=
  map (f := UInt64.toInt64) (word64_le v.toUInt64)

/-- The two tags of a truth value are read as what they stand for. -/
theorem bool (b : Bool) :
    Reads Read.bool (Bytes.le 4 (if b then trueTag else falseTag).toNat) b := by
  rw [← List.append_nil (Bytes.le 4 _)]
  refine bind (word32_le _) ?_
  cases b with
  | false => exact pure false
  | true => exact pure true

end Reads

namespace SelfDelimiting

theorem raw (n : Nat) : SelfDelimiting (Read.raw n) :=
  bind (take? n) fun _ => pure _

/-- What a tag says of a truth value. -/
theorem truth (tag : UInt32) : SelfDelimiting (if tag = trueTag then Pure.pure true
    else if tag ≠ falseTag then Read.fail (.unknownConstructor tag) >>= fun _ => Pure.pure false
    else Pure.pure false) := by
  split
  · exact pure true
  · split
    · exact bind (fail _) fun _ => pure false
    · exact pure false

/-- What a blob says as a text. -/
theorem content (data : Bytes) : SelfDelimiting (match Text.Utf8.decode data with
    | .ok s => Pure.pure s
    | .error fault => Read.fail (.invalidValue (.text fault)) >>= fun _ => Pure.pure "") := by
  split
  · exact pure _
  · exact bind (fail _) fun _ => pure ""

theorem word64 : SelfDelimiting Read.word64 :=
  bind (uint 64) fun _ => pure _

theorem int64 : SelfDelimiting Read.int64 :=
  bind word64 fun _ => pure _

theorem bool : SelfDelimiting Read.bool :=
  bind word32 truth

theorem text : SelfDelimiting Read.text :=
  bind blob content

end SelfDelimiting

theorem reads_take?_iff {n : Nat} {bs : Bytes} {v : Option (Octets n)} :
    Reads (Read.take? n) bs v ↔ ∃ o : Octets n, v = some o ∧ bs = o.bytes := by
  constructor
  · intro h
    obtain ⟨rfl, hleft⟩ := h.run
    simp only [Read.take?] at hleft ⊢
    by_cases hlen : (bs.take n).length = n
    · rw [dif_pos hlen] at hleft ⊢
      refine ⟨_, rfl, ?_⟩
      have hrest : bs.drop n = [] := (Reader.mk.inj hleft).2.1
      conv_lhs => rw [← List.take_append_drop n bs, hrest, List.append_nil]
    · rw [dif_neg hlen] at hleft
      simp [Reader.fail] at hleft
  · rintro ⟨o, rfl, rfl⟩
    exact .take? o

/-- A raw part is any bytes of the right number. -/
theorem reads_raw_iff {n : Nat} {bs data : Bytes} :
    Reads (Read.raw n) bs data ↔ bs = data ∧ data.length = n := by
  constructor
  · intro h
    obtain ⟨v, hv, rfl⟩ := (reads_map_iff (.take? n)).mp h
    obtain ⟨o, rfl, rfl⟩ := reads_take?_iff.mp hv
    exact ⟨rfl, o.length_bytes⟩
  · rintro ⟨rfl, hlength⟩
    exact .raw hlength

/-- Bytes are read as a number exactly if there are as many as the width asks for. -/
theorem reads_uint_iff {bits : Nat} (hbits : bits ∈ widths) {bs : Bytes} {n : Nat} :
    Reads (Read.uint bits) bs n ↔ bs.length = bits / 8 ∧ n = Bytes.ofLE bs := by
  constructor
  · intro h
    unfold Read.uint at h
    rw [if_pos hbits, reads_map_iff (.take? _)] at h
    obtain ⟨v, hv, rfl⟩ := h
    obtain ⟨o, rfl, rfl⟩ := reads_take?_iff.mp hv
    exact ⟨o.length_bytes, rfl⟩
  · rintro ⟨hlen, rfl⟩
    exact .uint hbits hlen

theorem reads_word32_iff {bs : Bytes} {v : UInt32} :
    Reads Read.word32 bs v ↔ bs = Bytes.le 4 v.toNat := by
  constructor
  · intro h
    obtain ⟨n, hn, rfl⟩ := (reads_map_iff (.uint 32)).mp h
    obtain ⟨hlen, rfl⟩ := (reads_uint_iff (by decide)).mp hn
    exact (Bytes.le_ofLE_four hlen).symm
  · rintro rfl
    exact .word32_le v

theorem reads_word64_iff {bs : Bytes} {v : UInt64} :
    Reads Read.word64 bs v ↔ bs = Bytes.le 8 v.toNat := by
  constructor
  · intro h
    obtain ⟨n, hn, rfl⟩ := (reads_map_iff (.uint 64)).mp h
    obtain ⟨hlen, rfl⟩ := (reads_uint_iff (by decide)).mp hn
    exact (Bytes.le_ofLE_eight hlen).symm
  · rintro rfl
    exact .word64_le v

theorem reads_int32_iff {bs : Bytes} {v : Int32} :
    Reads Read.int32 bs v ↔ bs = Bytes.le 4 v.toUInt32.toNat := by
  constructor
  · intro h
    obtain ⟨n, hn, rfl⟩ := (reads_map_iff .word32).mp h
    exact reads_word32_iff.mp hn
  · rintro rfl
    exact .int32_le v

theorem reads_int64_iff {bs : Bytes} {v : Int64} :
    Reads Read.int64 bs v ↔ bs = Bytes.le 8 v.toUInt64.toNat := by
  constructor
  · intro h
    obtain ⟨n, hn, rfl⟩ := (reads_map_iff .word64).mp h
    exact reads_word64_iff.mp hn
  · rintro rfl
    exact .int64_le v

/-- There are two tags for truth values, and no other word is one. -/
theorem reads_bool_iff {bs : Bytes} {b : Bool} :
    Reads Read.bool bs b ↔ bs = Bytes.le 4 (if b then trueTag else falseTag).toNat := by
  constructor
  · intro h
    obtain ⟨as, tag, cs, rfl, htag, hrest⟩ := (reads_bind_iff .word32 .truth).mp h
    rw [reads_word32_iff] at htag
    by_cases htrue : tag = trueTag
    · rw [if_pos htrue, reads_pure_iff] at hrest
      obtain ⟨rfl, rfl⟩ := hrest
      rw [List.append_nil, htag, htrue, if_pos rfl]
    · rw [if_neg htrue] at hrest
      by_cases hfalse : tag ≠ falseTag
      · rw [if_pos hfalse] at hrest
        exact absurd hrest (not_reads_fail_bind fun _ => .pure _)
      · rw [if_neg hfalse, reads_pure_iff] at hrest
        obtain ⟨rfl, rfl⟩ := hrest
        rw [List.append_nil, htag, not_not.mp hfalse]
        rfl
  · rintro rfl
    exact .bool b

/-- What is read as a blob are the blobs of the grammar, also those that would not be written. -/
theorem reads_blob_iff {bs data : Bytes} : Reads Read.blob bs data ↔ IsBlob bs data := by
  constructor
  · intro h
    obtain ⟨rfl, hleft⟩ := h.run
    simp only [Read.blob] at hleft ⊢
    cases hdecode : decodeBlob bs with
    | error e =>
      rw [hdecode] at hleft
      simp [Reader.fail] at hleft
    | ok found =>
      obtain ⟨data, used⟩ := found
      rw [hdecode] at hleft
      have hrest : bs.drop used = [] := (Reader.mk.inj hleft).2.1
      have hblob := (isBlob_of_decodeBlob hdecode).2
      rwa [← List.append_nil (bs.take used), ← hrest, List.take_append_drop] at hblob
  · exact .blob

/-- A text is a blob that holds the encoding of the text, so what is no encoding is refused. -/
theorem reads_text_iff {bs : Bytes} {s : String} :
    Reads Read.text bs s ↔ IsBlob bs (Text.Utf8.encode s) := by
  constructor
  · intro h
    obtain ⟨as, data, cs, rfl, hdata, hrest⟩ := (reads_bind_iff .blob .content).mp h
    cases hdecode : Text.Utf8.decode data with
    | error fault =>
      rw [hdecode] at hrest
      exact absurd hrest (not_reads_fail_bind fun _ => .pure _)
    | ok s' =>
      rw [hdecode, reads_pure_iff] at hrest
      obtain ⟨rfl, rfl⟩ := hrest
      rw [List.append_nil, ← Text.Utf8.decode_eq_ok_iff.mp hdecode]
      exact reads_blob_iff.mp hdata
  · intro h
    refine (reads_bind_iff .blob .content).mpr
      ⟨bs, _, [], (List.append_nil bs).symm, .blob h, ?_⟩
    rw [Text.Utf8.decode_eq_ok_iff.mpr rfl]
    exact .pure s

/-- Bytes behind a word that counts them. -/
theorem SelfDelimiting.prefixed (f : Bytes → β) :
    SelfDelimiting (do return f (← Read.raw (← Read.word32).toNat)) :=
  .bind .word32 fun _ => .bind (.raw _) fun _ => .pure _

/-- A word and then as many bytes as it says; the length fits in a word. -/
theorem reads_prefixed_iff {f : Bytes → β} {bs : Bytes} {b : β} :
    Reads (do return f (← Read.raw (← Read.word32).toNat)) bs b ↔
      ∃ data, data.length < 2 ^ 32 ∧ bs = Bytes.le 4 data.length ++ data ∧ b = f data := by
  constructor
  · intro h
    obtain ⟨_, length, rest, rfl, hlength, hbody⟩ :=
      (reads_bind_iff .word32 fun _ => .bind (.raw _) fun _ => .pure _).mp h
    obtain ⟨data, hraw, rfl⟩ := (reads_map_iff (.raw _)).mp hbody
    obtain ⟨rfl, hcount⟩ := reads_raw_iff.mp hraw
    rw [reads_word32_iff, ← hcount] at hlength
    exact ⟨rest, hcount ▸ length.toNat_lt, by rw [hlength], rfl⟩
  · rintro ⟨data, hlt, rfl, rfl⟩
    have hword : (UInt32.ofNat data.length).toNat = data.length := UInt32.toNat_ofNat_of_lt' hlt
    have hread := Reads.word32_le (UInt32.ofNat data.length)
    rw [hword] at hread
    refine hread.bind ?_
    rw [hword]
    exact .map (.raw rfl)

/-! ## 3. Guarded counts -/

section Guarded

variable {size count : Nat} {refusal : Nat → DecodeError} {zero : α} {m : Read α}

/-- What is read behind a count has the items that were announced, so the guard lets it pass,
whatever follows. -/
theorem reads_guarded_iff (hm : SelfDelimiting m) (hsize : 0 < size)
    (hroom : ∀ bs a, Reads m bs a → size * count ≤ bs.length) {bs : Bytes} {a : α} :
    Reads (guarded size count refusal zero m) bs a ↔ Reads m bs a := by
  constructor
  · intro h
    have hrun := h.run
    rw [guarded_apply] at hrun
    split at hrun
    · simp [Reader.fail] at hrun
    · exact (reads_iff_run hm).mpr hrun
  · intro h
    exact h.guarded hsize (hroom bs a h)

/-- A guard does not change where a program ends, if all that the program reads passes it. -/
theorem SelfDelimiting.guarded (hm : SelfDelimiting m) (hsize : 0 < size)
    (hroom : ∀ bs a, Reads m bs a → size * count ≤ bs.length) :
    SelfDelimiting (guarded size count refusal zero m) where
  sticky r hr := by
    rw [guarded_apply]
    split
    · exact (fail _).sticky r hr
    · exact hm.sticky r hr
  reads r hr := by
    rw [guarded_apply] at hr ⊢
    split at hr
    · obtain ⟨bs, -, hfail⟩ := (fail _).reads r hr
      exact absurd hfail not_reads_fail
    · rename_i hcheck
      rw [if_neg hcheck]
      obtain ⟨bs, hbs, hread⟩ := hm.reads r hr
      exact ⟨bs, hbs, hread.guarded hsize (hroom bs _ hread)⟩

end Guarded

/-! ## 4. Vectors -/

/-- One item and then the others. -/
theorem items_succ (m : Read α) (count : Nat) (acc : List α) :
    Read.items m (count + 1) acc = Read.failed >>= fun failed =>
      if failed then pure acc.reverse else m >>= fun a => Read.items m count (a :: acc) := by
  funext r
  change (if r.failed = true then _ else _) = (if r.failed = true then _ else _ : Read (List α)) r
  split <;> rfl

/-- The items of a vector, when their count has been read. -/
def counted (m : Read α) (count : Nat) : Read (List α) :=
  guarded 4 count (.unexpectedEof (count * 4)) [] (Read.items m count [])

/-- A vector, when its tag has been read. -/
def tagged (m : Read α) (tag : UInt32) (failed : Bool) : Read (List α) :=
  if failed then pure []
  else if tag ≠ vectorTag then do
    Read.fail (.unknownConstructor tag)
    return []
  else do counted m (← Read.word32).toNat

namespace SelfDelimiting

variable {m : Read α}

theorem itemsUnless (hm : SelfDelimiting m) {count : Nat} {acc : List α}
    (h : ∀ a, SelfDelimiting (Read.items m count (a :: acc))) (failed : Bool) :
    SelfDelimiting (if failed then Pure.pure acc.reverse
      else m >>= fun a => Read.items m count (a :: acc)) := by
  split
  · exact pure _
  · exact bind hm h

/-- Items end where the last of them ends. -/
theorem items (hm : SelfDelimiting m) (count : Nat) (acc : List α) :
    SelfDelimiting (Read.items m count acc) := by
  induction count generalizing acc with
  | zero => exact pure _
  | succ count ih =>
    rw [items_succ]
    exact bind failed (itemsUnless hm fun a => ih (a :: acc))

end SelfDelimiting

section Vector

variable {m : Read α} {count : Nat} {bs : Bytes} {as : List α}

/-- The grammar of some items: one string for each. -/
theorem reads_items_iff (hm : SelfDelimiting m) {acc out : List α} :
    Reads (Read.items m count acc) bs out ↔ ∃ parts as, bs = parts.flatten ∧
      List.Forall₂ (Reads m) parts as ∧ as.length = count ∧ out = acc.reverse ++ as := by
  constructor
  · induction count generalizing acc bs with
    | zero =>
      intro h
      obtain ⟨rfl, rfl⟩ := reads_pure_iff.mp h
      exact ⟨[], [], rfl, .nil, rfl, (List.append_nil _).symm⟩
    | succ count ih =>
      intro h
      have hitems := fun a : α => SelfDelimiting.items hm count (a :: acc)
      rw [items_succ, reads_failed_bind_iff (.itemsUnless hm hitems)] at h
      obtain ⟨part, a, rest, rfl, hpart, hrest⟩ := (reads_bind_iff hm hitems).mp h
      obtain ⟨parts, as, rfl, hparts, rfl, rfl⟩ := ih hrest
      exact ⟨part :: parts, a :: as, rfl, .cons hpart hparts, rfl, by simp⟩
  · rintro ⟨parts, as, rfl, hparts, rfl, rfl⟩
    exact .items acc hparts

/-- Items that are long enough in strings that are. -/
theorem four_le_of_mem_parts (hlong : ∀ bs a, Reads m bs a → 4 ≤ bs.length) {parts : List Bytes}
    (h : List.Forall₂ (Reads m) parts as) : ∀ part ∈ parts, 4 ≤ part.length := by
  intro part hpart
  obtain ⟨i, hi, rfl⟩ := List.mem_iff_getElem.mp hpart
  exact hlong _ _ (h.get hi (h.length_eq ▸ hi))

theorem four_mul_length_le_of_reads (hm : SelfDelimiting m)
    (hlong : ∀ bs a, Reads m bs a → 4 ≤ bs.length) (bs : Bytes) (as : List α)
    (h : Reads (Read.items m count []) bs as) : 4 * count ≤ bs.length := by
  obtain ⟨parts, as, rfl, hparts, rfl, rfl⟩ := (reads_items_iff hm).mp h
  rw [← hparts.length_eq]
  exact four_mul_length_le (four_le_of_mem_parts hlong hparts)

/-- There is room for as many items as there are, so the count is not refused. -/
theorem reads_counted_iff (hm : SelfDelimiting m)
    (hlong : ∀ bs a, Reads m bs a → 4 ≤ bs.length) :
    Reads (counted m count) bs as ↔ Reads (Read.items m count []) bs as :=
  reads_guarded_iff (.items hm count []) (by decide) (four_mul_length_le_of_reads hm hlong)

namespace SelfDelimiting

theorem counted (hm : SelfDelimiting m) (hlong : ∀ bs a, Reads m bs a → 4 ≤ bs.length)
    (count : Nat) : SelfDelimiting (counted m count) :=
  guarded (items hm count []) (by decide) (four_mul_length_le_of_reads hm hlong)

theorem tagged (hm : SelfDelimiting m) (hlong : ∀ bs a, Reads m bs a → 4 ≤ bs.length)
    (tag : UInt32) (failed : Bool) : SelfDelimiting (tagged m tag failed) := by
  unfold Wire.tagged
  split
  · exact pure _
  · split
    · exact bind (fail _) fun _ => pure _
    · exact bind word32 fun count => counted hm hlong count.toNat

/-- A vector ends where its last item ends. -/
theorem vector (hm : SelfDelimiting m) (hlong : ∀ bs a, Reads m bs a → 4 ≤ bs.length) :
    SelfDelimiting (Read.vector m) :=
  bind word32 fun tag => bind failed (tagged hm hlong tag)

end SelfDelimiting

/-- The grammar of a boxed vector. -/
theorem reads_vector_iff (hm : SelfDelimiting m)
    (hlong : ∀ bs a, Reads m bs a → 4 ≤ bs.length) :
    Reads (Read.vector m) bs as ↔ as.length < 2 ^ 32 ∧ ∃ parts,
      bs = Bytes.le 4 vectorTag.toNat ++
        (Bytes.le 4 (UInt32.ofNat as.length).toNat ++ parts.flatten) ∧
      List.Forall₂ (Reads m) parts as := by
  have htagged := SelfDelimiting.tagged hm hlong
  constructor
  · intro h
    obtain ⟨_, tag, rest, rfl, htag, hrest⟩ :=
      (reads_bind_iff .word32 fun tag => .bind .failed (htagged tag)).mp h
    rw [reads_failed_bind_iff (htagged tag)] at hrest
    unfold tagged at hrest
    rw [if_neg Bool.false_ne_true] at hrest
    split at hrest
    · exact absurd hrest (not_reads_fail_bind fun _ => .pure _)
    · rename_i hvector
      obtain ⟨_, count, items, rfl, hcount, hitems⟩ :=
        (reads_bind_iff .word32 fun count => .counted hm hlong count.toNat).mp hrest
      rw [reads_counted_iff hm hlong, reads_items_iff hm] at hitems
      obtain ⟨parts, as, rfl, hparts, hlength, rfl⟩ := hitems
      have hword : UInt32.ofNat as.length = count := by rw [hlength, UInt32.ofNat_toNat]
      refine ⟨hlength ▸ count.toNat_lt, parts, ?_, hparts⟩
      rw [reads_word32_iff.mp htag, not_not.mp hvector, reads_word32_iff.mp hcount]
      simp [hword]
  · rintro ⟨hcount, parts, rfl, hparts⟩
    exact .vector hcount (four_le_of_mem_parts hlong hparts) hparts

end Vector

end Wire

end Mtproto
