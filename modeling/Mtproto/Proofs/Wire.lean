import Mathlib.Data.List.Forall2
import Mathlib.Tactic.Common
import Mtproto.Proofs.Blob
import Mtproto.Wire.Boxed

/-!
# Values on the wire

`Writer` and `Reader` write and read the values of the protocol.  Three relations say what they do.

* `Writes w bs`: the writer `w` appends exactly `bs`.
* `Reads m bs a`: where `bs` comes next, `m` consumes it and gives `a`, whatever follows.
* `SelfDelimiting m`: whenever `m` succeeds, there is such a `bs`; and after a failure `m` does
  nothing.

Each is closed under sequencing, so a record needs no more than its fields: the bytes of a value are
those of its fields, one after the other.  `Codes w m bs a` pairs the first two.

There are lemmas of each kind for every operation: `Writes.word32`, `Reads.word32`,
`SelfDelimiting.word32`, and so on for blobs, strings of fixed length, vectors and boxed values.
`ofBoxedBytes_of_run` and its inverse lead from there to whole messages.
-/

namespace Mtproto.Wire

variable {α β : Type}

/-! ## 1. Writing -/

/-- The writer appends these bytes and does not fail. -/
def Writes (w : Writer → Writer) (bs : Bytes) : Prop :=
  ∀ out, w ⟨out, none⟩ = ⟨out ++ bs, none⟩

namespace Writes

/-- Two writers in a row write their strings in a row. -/
theorem append {v w : Writer → Writer} {as bs : Bytes} (hv : Writes v as) (hw : Writes w bs) :
    Writes (fun r => w (v r)) (as ++ bs) := by
  intro out
  change w (v ⟨out, none⟩) = _
  rw [hv out, hw (out ++ as), List.append_assoc]

theorem raw (bs : Bytes) : Writes (·.raw bs) bs := fun _ => rfl

theorem word32 (v : UInt32) : Writes (·.word32 v) (Bytes.le 4 v.toNat) := raw _

theorem int32 (v : Int32) : Writes (·.int32 v) (Bytes.le 4 v.toUInt32.toNat) := raw _

theorem word64 (v : UInt64) : Writes (·.word64 v) (Bytes.le 8 v.toNat) := raw _

theorem octets {n : Nat} (v : Octets n) : Writes (·.octets v) v.bytes := raw _

/-- A blob that is not too long is written whole, with its header and its padding. -/
theorem blob {data : Bytes} (h : data.length ≤ maxBlobLength) :
    Writes (·.blob data) (blobBytes data) := by
  intro out
  change Writer.encoded ⟨out, none⟩ (encodeBlob data) = _
  rw [encodeBlob_of_le h]
  rfl

/-- The items of a list, one after the other. -/
theorem foldl {item : Writer → α → Writer} {bytes : α → Bytes} {items : List α}
    (h : ∀ a ∈ items, Writes (fun w => item w a) (bytes a)) :
    Writes (fun w => items.foldl item w) (items.flatMap bytes) := by
  induction items with
  | nil =>
    intro out
    simp
  | cons a items ih =>
    intro out
    have ha : item ⟨out, none⟩ a = ⟨out ++ bytes a, none⟩ := h a List.mem_cons_self out
    have hitems := ih (fun b hb => h b (List.mem_cons_of_mem a hb)) (out ++ bytes a)
    change items.foldl item (item ⟨out, none⟩ a) = _
    rw [ha, List.flatMap_cons, ← List.append_assoc]
    exact hitems

/-- A boxed vector, counted or not. -/
theorem vector {item : Writer → α → Writer} {bytes : α → Bytes} {items : List α}
    (h : ∀ a ∈ items, Writes (fun w => item w a) (bytes a)) :
    Writes (·.vector items item) (Bytes.le 4 vectorTag.toNat ++
      (Bytes.le 4 (UInt32.ofNat items.length).toNat ++ items.flatMap bytes)) := by
  have hhead := (word32 vectorTag).append (word32 (UInt32.ofNat items.length))
  rw [← List.append_assoc]
  exact hhead.append (foldl h)

/-- What is written from nothing. -/
theorem finish {w : Writer → Writer} {bs : Bytes} (h : Writes w bs) :
    (w .empty).finish = .ok bs := by
  have h0 := h []
  rw [List.nil_append] at h0
  change (w ⟨[], none⟩).finish = .ok bs
  rw [h0]
  rfl

end Writes

namespace Writer

@[simp] theorem failure_raw (w : Writer) (bs : Bytes) : (w.raw bs).failure = w.failure := by
  unfold raw
  split <;> simp [*]

@[simp] theorem failure_word32 (w : Writer) (v : UInt32) : (w.word32 v).failure = w.failure :=
  w.failure_raw _

@[simp] theorem failure_int32 (w : Writer) (v : Int32) : (w.int32 v).failure = w.failure :=
  w.failure_raw _

@[simp] theorem failure_word64 (w : Writer) (v : UInt64) : (w.word64 v).failure = w.failure :=
  w.failure_raw _

@[simp] theorem failure_int64 (w : Writer) (v : Int64) : (w.int64 v).failure = w.failure :=
  w.failure_raw _

@[simp] theorem failure_bool (w : Writer) (v : Bool) : (w.bool v).failure = w.failure :=
  w.failure_raw _

/-- Of the things that are written, a blob can be too long. -/
theorem failure_blob_eq_none_iff {w : Writer} {data : Bytes} :
    (w.blob data).failure = none ↔ w.failure = none ∧ data.length ≤ maxBlobLength := by
  rcases Nat.lt_or_ge maxBlobLength data.length with hlong | hshort
  · have hencode : encodeBlob data = .error (.overflow data.length 24) := if_pos hlong
    rw [blob, hencode]
    cases hw : w.failure <;> simp [encoded, fail, hw, hlong]
  · rw [blob, encodeBlob_of_le hshort]
    simp [encoded, hshort]

/-- A list is written without a failure if each of its items is. -/
theorem failure_foldl_eq_none_iff {item : Writer → α → Writer} {fits : α → Prop}
    (h : ∀ w a, (item w a).failure = none ↔ w.failure = none ∧ fits a) (items : List α)
    (w : Writer) :
    (items.foldl item w).failure = none ↔ w.failure = none ∧ ∀ a ∈ items, fits a := by
  induction items generalizing w with
  | nil => simp
  | cons a items ih => simp [ih, h, and_assoc]

/-- Bytes come out of a writer only if nothing has been refused. -/
theorem failure_of_finish {w : Writer} {bs : Bytes} (h : w.finish = .ok bs) :
    w.failure = none := by
  unfold finish at h
  split at h
  · assumption
  · cases h

end Writer

/-! ## 2. Reading -/

/-- Parts of at least four bytes each. -/
theorem four_mul_length_le {parts : List Bytes} (h : ∀ part ∈ parts, 4 ≤ part.length) :
    4 * parts.length ≤ parts.flatten.length := by
  induction parts with
  | nil => simp
  | cons part parts ih =>
    have hpart := h part List.mem_cons_self
    have hparts := ih fun q hq => h q (List.mem_cons_of_mem part hq)
    simp only [List.length_cons, List.flatten_cons, List.length_append]
    omega

/-- What is read behind a count of items that take at least `size` bytes each: if the rest has no
room for them, the count is refused. -/
def guarded (size count : Nat) (refusal : Nat → DecodeError) (zero : α) (m : Read α) : Read α := do
  let remaining := (← get).remaining
  if remaining / size < count then
    Read.fail (refusal remaining)
    return zero
  m

/-- A guard compares the count with what is left, before any item is read. -/
theorem guarded_apply (size count : Nat) (refusal : Nat → DecodeError) (zero : α) (m : Read α)
    (r : Reader) :
    guarded size count refusal zero m r =
      if r.remaining / size < count then (zero, r.fail (refusal r.remaining)) else m r := by
  change (if r.remaining / size < count then _ else _ : Read α) r = _
  split <;> rfl

/-- A boxed vector of which the items are read by `items`, once they have been counted. -/
def vectorOf (items : Nat → Read (List α)) : Read (List α) := do
  let tag ← Read.word32
  if ← Read.failed then return []
  if tag ≠ vectorTag then
    Read.fail (.unknownConstructor tag)
    return []
  let count := (← Read.word32).toNat
  guarded 4 count (.unexpectedEof (count * 4)) [] (items count)

theorem vector_eq (m : Read α) :
    Read.vector m = vectorOf fun count => Read.items m count [] := rfl

/-- What is left of a boxed value when its fields have been read. -/
def concluded (tag : UInt32) : Option α → Read (Option α)
  | some a => Read.unlessFailed a
  | none => do
    Read.fail (.unknownConstructor tag)
    return none

/-- What is left of a boxed value when its tag has been read. -/
def boxedFields (α : Type) [Family α] (tag : UInt32) (failed : Bool) : Read (Option α) :=
  if failed then pure none else Family.readFields tag >>= concluded tag

theorem boxed_eq (α : Type) [Family α] :
    Read.boxed α = Read.word32 >>= fun tag => Read.failed >>= boxedFields α tag := rfl

/-- Where these bytes come next, they are consumed and give the value. -/
def Reads (m : Read α) (bs : Bytes) (a : α) : Prop :=
  ∀ seen rest, m ⟨seen, bs ++ rest, none⟩ = (a, ⟨bs.reverse ++ seen, rest, none⟩)

namespace Reads

theorem pure (a : α) : Reads (Pure.pure a) [] a := fun _ _ => rfl

/-- What two programs read is put together, the second after the first. -/
theorem bind {m : Read α} {f : α → Read β} {as bs : Bytes} {a : α} {b : β} (hm : Reads m as a)
    (hf : Reads (f a) bs b) : Reads (m >>= f) (as ++ bs) b := by
  intro seen rest
  have hbind : (m >>= f) ⟨seen, as ++ bs ++ rest, none⟩ =
      f (m ⟨seen, as ++ bs ++ rest, none⟩).1 (m ⟨seen, as ++ bs ++ rest, none⟩).2 := rfl
  rw [hbind, List.append_assoc, hm seen (bs ++ rest), hf (as.reverse ++ seen) rest,
    List.reverse_append, List.append_assoc]

/-- The last of several fields. -/
theorem map {m : Read α} {f : α → β} {bs : Bytes} {a : α} (hm : Reads m bs a) :
    Reads (m >>= fun a => Pure.pure (f a)) bs (f a) := by
  have h := bind (f := fun a => Pure.pure (f a)) hm (pure (f a))
  rwa [List.append_nil] at h

theorem failed : Reads Read.failed [] false := fun _ _ => rfl

/-- A look whether there was a failure, which there was not. -/
theorem failed_bind {f : Bool → Read β} {bs : Bytes} {b : β} (h : Reads (f false) bs b) :
    Reads (Read.failed >>= f) bs b :=
  bind failed h

/-- The one operation that takes bytes: it takes as many as it says and leaves what follows. -/
theorem take? {n : Nat} (v : Octets n) : Reads (Read.take? n) v.bytes (some v) := by
  intro seen rest
  have htake : (v.bytes ++ rest).take n = v.bytes := by
    rw [List.take_append_of_le_length (by simp), List.take_of_length_le (by simp)]
  have hdrop : (v.bytes ++ rest).drop n = rest := by
    rw [List.drop_append_of_le_length (by simp), List.drop_of_length_le (by simp),
      List.nil_append]
  simp only [Read.take?, Reader.advance, htake, hdrop, Octets.length_bytes, dite_true]

theorem octets {n : Nat} (v : Octets n) : Reads (Read.octets n) v.bytes v := by
  unfold Read.octets
  exact map (f := fun v? : Option (Octets n) => v?.getD (Octets.zero n)) (take? v)

theorem raw {bs : Bytes} {n : Nat} (h : bs.length = n) : Reads (Read.raw n) bs bs := by
  unfold Read.raw
  exact map (f := fun v? : Option (Octets n) => (v?.map (·.bytes)).getD []) (take? ⟨bs, h⟩)

theorem uint {bs : Bytes} {bits : Nat} (hbits : bits ∈ widths) (h : bs.length = bits / 8) :
    Reads (Read.uint bits) bs (Bytes.ofLE bs) := by
  unfold Read.uint
  rw [if_pos hbits]
  exact map (f := fun v? : Option (Octets (bits / 8)) => (v?.map (Bytes.ofLE ·.bytes)).getD 0)
    (take? ⟨bs, h⟩)

theorem word32 {bs : Bytes} (h : bs.length = 4) :
    Reads Read.word32 bs (UInt32.ofNat (Bytes.ofLE bs)) :=
  map (uint (by decide) h)

theorem word64 {bs : Bytes} (h : bs.length = 8) :
    Reads Read.word64 bs (UInt64.ofNat (Bytes.ofLE bs)) :=
  map (uint (by decide) h)

/-- A word is read back as it has been written. -/
theorem word32_le (v : UInt32) : Reads Read.word32 (Bytes.le 4 v.toNat) v := by
  have h : Reads Read.word32 (Bytes.le 4 v.toNat) _ := word32 (by simp)
  rwa [Bytes.ofLE_le_of_lt v.toNat_lt, UInt32.ofNat_toNat] at h

theorem word64_le (v : UInt64) : Reads Read.word64 (Bytes.le 8 v.toNat) v := by
  have h : Reads Read.word64 (Bytes.le 8 v.toNat) _ := word64 (by simp)
  rwa [Bytes.ofLE_le_of_lt v.toNat_lt, UInt64.ofNat_toNat] at h

theorem int32_le (v : Int32) : Reads Read.int32 (Bytes.le 4 v.toUInt32.toNat) v :=
  map (f := UInt32.toInt32) (word32_le v.toUInt32)

/-- A blob is read off any of its forms, also one that is longer than it need be. -/
theorem blob {bs data : Bytes} (h : IsBlob bs data) : Reads Read.blob bs data := by
  intro seen rest
  simp only [Read.blob, decodeBlob_append h rest, Reader.advance, List.take_left, List.drop_left]

/-- Items of one kind, one after the other. -/
theorem items {m : Read α} {parts : List Bytes} {as : List α} (acc : List α)
    (h : List.Forall₂ (Reads m) parts as) :
    Reads (Read.items m as.length acc) parts.flatten (acc.reverse ++ as) := by
  induction h generalizing acc with
  | nil =>
    intro seen rest
    rw [List.append_nil]
    rfl
  | @cons part a parts as ha _ ih =>
    intro seen rest
    have hfirst := ha seen (parts.flatten ++ rest)
    have hothers := ih (a :: acc) (part.reverse ++ seen) rest
    simp only [List.length_cons, Read.items, Reader.failed, Option.isSome_none, Bool.false_eq_true,
      if_false, List.flatten_cons, List.append_assoc, hfirst, hothers, List.reverse_cons,
      List.reverse_append, List.singleton_append]

/-- A count that can be met is not refused. -/
theorem guarded {size count : Nat} {refusal : Nat → DecodeError} {zero : α} {m : Read α}
    {bs : Bytes} {a : α} (hsize : 0 < size) (hroom : size * count ≤ bs.length) (h : Reads m bs a) :
    Reads (guarded size count refusal zero m) bs a := by
  intro seen rest
  have hcheck : ¬ (bs ++ rest).length / size < count := by
    rw [Nat.div_lt_iff_lt_mul hsize, List.length_append, Nat.mul_comm count size]
    omega
  rw [guarded_apply]
  exact (if_neg hcheck).trans (h seen rest)

/-- A boxed vector with room for its items. -/
theorem vectorOf {items : Nat → Read (List α)} {bs : Bytes} {as : List α}
    (hcount : as.length < 2 ^ 32) (hroom : 4 * as.length ≤ bs.length)
    (h : Reads (items as.length) bs as) :
    Reads (vectorOf items) (Bytes.le 4 vectorTag.toNat ++
      (Bytes.le 4 (UInt32.ofNat as.length).toNat ++ bs)) as := by
  have hword : (UInt32.ofNat as.length).toNat = as.length := UInt32.toNat_ofNat_of_lt' hcount
  refine bind (word32_le _) (failed_bind ?_)
  simp only [Bool.false_eq_true, if_false, ne_eq, not_true_eq_false]
  refine bind (word32_le _) ?_
  rw [hword]
  exact guarded (by decide) hroom h

/-- A boxed vector.  Every item is long enough for the count to be met. -/
theorem vector {m : Read α} {parts : List Bytes} {as : List α} (hcount : as.length < 2 ^ 32)
    (hlong : ∀ part ∈ parts, 4 ≤ part.length) (h : List.Forall₂ (Reads m) parts as) :
    Reads (Read.vector m) (Bytes.le 4 vectorTag.toNat ++
      (Bytes.le 4 (UInt32.ofNat as.length).toNat ++ parts.flatten)) as := by
  have hroom : 4 * as.length ≤ parts.flatten.length := by
    rw [← h.length_eq]
    exact four_mul_length_le hlong
  rw [vector_eq]
  exact vectorOf hcount hroom (items [] h)

/-- A boxed value of one constructor. -/
theorem exactBoxed [Tagged α] {bs : Bytes} {a : α} (h : Reads Bare.read bs a) :
    Reads (Read.exactBoxed α) (Bytes.le 4 (Tagged.tag α).toNat ++ bs) (some a) := by
  refine bind (word32_le _) ?_
  refine failed_bind ?_
  simp only [Bool.false_eq_true, if_false, ne_eq, not_true_eq_false]
  have hlast : Reads (Read.unlessFailed a) [] (some a) := fun _ _ => rfl
  have := bind h hlast
  rwa [List.append_nil] at this

/-- A boxed value of a family. -/
theorem boxed [Family α] {tag : UInt32} {bs : Bytes} {a : α}
    (h : Reads (Family.readFields tag) bs (some a)) :
    Reads (Read.boxed α) (Bytes.le 4 tag.toNat ++ bs) (some a) := by
  refine bind (word32_le _) ?_
  refine failed_bind ?_
  simp only [Bool.false_eq_true, if_false]
  have hlast : Reads (Read.unlessFailed a) [] (some a) := fun _ _ => rfl
  rw [← List.append_nil bs]
  exact bind h hlast

/-- Nothing follows. -/
theorem ofBytes {m : Read α} {bs : Bytes} {a : α} (h : Reads m bs a) :
    m (.ofBytes bs) = (a, ⟨bs.reverse, [], none⟩) := by
  have := h [] []
  simpa [Reader.ofBytes] using this

/-- A buffer that holds a boxed value of a family and nothing else. -/
theorem ofBoxedBytes [Family α] {bs : Bytes} {a : α} (h : Reads (Read.boxed α) bs (some a)) :
    ofBoxedBytes α bs = .ok a := by
  rw [Wire.ofBoxedBytes, h.ofBytes]
  rfl

end Reads

/-- What a buffer holds, from a run that has been seen. -/
theorem ofBoxedBytes_of_run [Family α] {bs : Bytes} {a? : Option α} {r : Reader}
    (h : Read.boxed α (.ofBytes bs) = (a?, r)) {a : α} :
    ofBoxedBytes α bs = .ok a ↔ a? = some a ∧ r.finish = .ok () := by
  rw [ofBoxedBytes, h]
  cases hfinish : r.finish <;> cases a? <;> simp [hfinish]

/-! ## 3. What has been read -/

/-- Whenever it succeeds, there are bytes that it has read; after a failure it does nothing. -/
structure SelfDelimiting (m : Read α) : Prop where
  sticky : ∀ r, r.failure ≠ none → (m r).2 = r
  reads : ∀ r, (m r).2.failure = none → ∃ bs, r.rest = bs ++ (m r).2.rest ∧ Reads m bs (m r).1

namespace SelfDelimiting

/-- A success has not come after a failure. -/
theorem failure_eq_none {m : Read α} (h : SelfDelimiting m) {r : Reader}
    (hr : (m r).2.failure = none) : r.failure = none := by
  by_contra hne
  rw [h.sticky r hne] at hr
  exact hne hr

theorem pure (a : α) : SelfDelimiting (Pure.pure a) where
  sticky _ _ := rfl
  reads _ _ := ⟨[], rfl, Reads.pure a⟩

/-- The second program begins where the first has ended, so where the whole ends does not depend on
what follows either. -/
theorem bind {m : Read α} {f : α → Read β} (hm : SelfDelimiting m)
    (hf : ∀ a, SelfDelimiting (f a)) : SelfDelimiting (m >>= f) where
  sticky r hr := by
    change (f (m r).1 (m r).2).2 = r
    have hmr := hm.sticky r hr
    rw [(hf _).sticky _ (by rwa [hmr]), hmr]
  reads r hr := by
    change (f (m r).1 (m r).2).2.failure = none at hr
    obtain ⟨as, has, hma⟩ := hm.reads r ((hf _).failure_eq_none hr)
    obtain ⟨bs, hbs, hfb⟩ := (hf _).reads _ hr
    refine ⟨as ++ bs, ?_, hma.bind hfb⟩
    rw [has, hbs, List.append_assoc]
    rfl

theorem failed : SelfDelimiting Read.failed where
  sticky _ _ := rfl
  reads r hr := by
    refine ⟨[], rfl, ?_⟩
    change r.failure = none at hr
    change Reads _ _ r.failure.isSome
    rw [hr]
    exact Reads.failed

theorem fail (e : DecodeError) : SelfDelimiting (Read.fail e) where
  sticky r hr := by
    change r.fail e = r
    unfold Reader.fail
    split
    · contradiction
    · rfl
  reads r hr := by
    change (r.fail e).failure = none at hr
    unfold Reader.fail at hr
    split at hr <;> simp_all

/-- As many bytes as there have to be, and the reader fails if there are fewer. -/
theorem take? (n : Nat) : SelfDelimiting (Read.take? n) where
  sticky r hr := by
    unfold Read.take?
    split
    · rfl
    · contradiction
  reads r hr := by
    have hn : r.failure = none := by
      by_contra hne
      revert hr
      unfold Read.take?
      split <;> simp_all
    unfold Read.take? at hr ⊢
    simp only [hn] at hr ⊢
    by_cases h : (r.rest.take n).length = n
    · rw [dif_pos h]
      exact ⟨r.rest.take n, (List.take_append_drop n r.rest).symm, Reads.take? ⟨_, h⟩⟩
    · rw [dif_neg h] at hr
      simp [Reader.fail, hn] at hr

/-- The header of a blob says where it ends. -/
theorem blob : SelfDelimiting Read.blob where
  sticky r hr := by
    unfold Read.blob
    split
    · rfl
    · contradiction
  reads r hr := by
    have hn : r.failure = none := by
      by_contra hne
      revert hr
      unfold Read.blob
      split <;> simp_all
    unfold Read.blob at hr ⊢
    simp only [hn] at hr ⊢
    cases hd : decodeBlob r.rest with
    | error e =>
      rw [hd] at hr
      simp [Reader.fail, hn] at hr
    | ok p =>
      obtain ⟨data, used⟩ := p
      obtain ⟨-, hblob⟩ := isBlob_of_decodeBlob hd
      exact ⟨r.rest.take used, (List.take_append_drop used r.rest).symm, Reads.blob hblob⟩

theorem octets (n : Nat) : SelfDelimiting (Read.octets n) :=
  bind (take? n) fun _ => pure _

theorem uint (bits : Nat) : SelfDelimiting (Read.uint bits) := by
  unfold Read.uint
  split
  · exact bind (take? _) fun _ => pure _
  · exact bind (fail _) fun _ => pure _

theorem word32 : SelfDelimiting Read.word32 :=
  bind (uint 32) fun _ => pure _

theorem int32 : SelfDelimiting Read.int32 :=
  bind word32 fun _ => pure _

theorem unlessFailed (a : α) : SelfDelimiting (Read.unlessFailed a) :=
  bind failed fun _ => by split <;> exact pure _

/-- A tag has four bytes, and the fields behind it end where they say. -/
theorem exactBoxed [Tagged α] (h : SelfDelimiting (Bare.read (α := α))) :
    SelfDelimiting (Read.exactBoxed α) := by
  refine bind word32 fun tag => bind failed fun b => ?_
  split
  · exact pure _
  · split
    · exact bind (fail _) fun _ => pure _
    · exact bind h fun a => unlessFailed a

/-- A buffer that has been read from its start is what has been read and the rest. -/
theorem exists_of_ofBytes {m : Read α} (h : SelfDelimiting m) {buffer : Bytes}
    (hr : (m (.ofBytes buffer)).2.failure = none) :
    ∃ bs rest a, buffer = bs ++ rest ∧ Reads m bs a ∧
      m (.ofBytes buffer) = (a, ⟨bs.reverse, rest, none⟩) := by
  obtain ⟨bs, hbs, hread⟩ := h.reads _ hr
  refine ⟨bs, _, _, hbs, hread, ?_⟩
  have hrun := hread [] (m (.ofBytes buffer)).2.rest
  rw [List.append_nil, ← hbs] at hrun
  exact hrun

end SelfDelimiting

/-! ## 4. Writing and reading one value -/

/-- The writer appends the bytes, and the reader gets the value from them. -/
structure Codes (w : Writer → Writer) (m : Read α) (bs : Bytes) (a : α) : Prop where
  writes : Writes w bs
  reads : Reads m bs a

namespace Codes

/-- A record is written and read field by field. -/
theorem bind {v w : Writer → Writer} {m : Read α} {f : α → Read β} {as bs : Bytes} {a : α} {b : β}
    (hm : Codes v m as a) (hf : Codes w (f a) bs b) :
    Codes (fun r => w (v r)) (m >>= f) (as ++ bs) b :=
  ⟨hm.writes.append hf.writes, hm.reads.bind hf.reads⟩

/-- The last of several fields. -/
theorem map {w : Writer → Writer} {m : Read α} {f : α → β} {bs : Bytes} {a : α}
    (h : Codes w m bs a) : Codes w (m >>= fun a => Pure.pure (f a)) bs (f a) :=
  ⟨h.writes, h.reads.map⟩

theorem word32 (v : UInt32) : Codes (·.word32 v) Read.word32 (Bytes.le 4 v.toNat) v :=
  ⟨.word32 v, .word32_le v⟩

theorem word64 (v : UInt64) : Codes (·.word64 v) Read.word64 (Bytes.le 8 v.toNat) v :=
  ⟨.word64 v, .word64_le v⟩

theorem int32 (v : Int32) : Codes (·.int32 v) Read.int32 (Bytes.le 4 v.toUInt32.toNat) v :=
  ⟨.int32 v, .int32_le v⟩

theorem octets {n : Nat} (v : Octets n) : Codes (·.octets v) (Read.octets n) v.bytes v :=
  ⟨.octets v, .octets v⟩

theorem blob {data : Bytes} (h : data.length ≤ maxBlobLength) :
    Codes (·.blob data) Read.blob (blobBytes data) data :=
  ⟨.blob h, .blob (isBlob_blobBytes h)⟩

/-- A vector has a tag and a count of its own, and each of its items is written and read alike. -/
theorem vector {item : Writer → α → Writer} {m : Read α} {bytes : α → Bytes} {as : List α}
    (hcount : as.length < 2 ^ 32) (hlong : ∀ a ∈ as, 4 ≤ (bytes a).length)
    (h : ∀ a ∈ as, Codes (fun w => item w a) m (bytes a) a) :
    Codes (·.vector as item) (Read.vector m) (Bytes.le 4 vectorTag.toNat ++
      (Bytes.le 4 (UInt32.ofNat as.length).toNat ++ as.flatMap bytes)) as where
  writes := .vector fun a ha => (h a ha).writes
  reads := by
    rw [List.flatMap_def]
    refine .vector hcount ?_ (List.forall₂_map_left_iff.mpr ?_)
    · intro part hpart
      obtain ⟨a, ha, rfl⟩ := List.mem_map.mp hpart
      exact hlong a ha
    · exact List.forall₂_same.mpr fun a ha => (h a ha).reads

/-- The bytes of a value with its tag. -/
theorem boxedBytes [Tagged α] {bs : Bytes} {a : α}
    (h : Codes (fun w => Bare.write w a) Bare.read bs a) :
    boxedBytes a = .ok (Bytes.le 4 (Tagged.tag α).toNat ++ bs) :=
  ((Writes.word32 _).append h.writes).finish

end Codes

end Mtproto.Wire
