import Mathlib.Data.List.Forall2
import Mathlib.Tactic.Choose
import Mathlib.Tactic.Common
import Mtproto.Proofs.Grammar
import Mtproto.Proofs.Widths

/-!
# Trees of values are written and read back

Writing with a `Writer` and reading with a `Reader` are dual, whatever is written.  A `Value` is a
tree: values of fixed kinds, one after the other, and vectors of trees.  `Value.write` writes it
with the operations of a writer.  A `Shape` is what somebody has to know who reads it, the kinds and
their order but not the values and not how many items a vector has; `Shape.read` follows it with the
operations of a reader.

`Shape.Admits` says that a tree has a shape, and that each of its parts can be written: numbers are
in their range, blobs are not too long, and vectors can be counted and have items that are not too
short.

* `Shape.Admits.codes`: writing and reading agree on the bytes of such a tree.  The induction is on
  the tree; what it carries is `Codes`, because the guard of a vector looks at what comes behind it.
* `Shape.Admits.written_read_back`: so the tree is written, and read back with nothing left over.
-/

namespace Mtproto.Wire

variable {α : Type}

/-! ## 1. Items that are not alike -/

/-- Up to `count` items, until a failure.  Whoever reads them keeps count, so that every item has a
reader of its own. -/
def itemsFrom (item : Nat → Read α) : (count next : Nat) → List α → Read (List α)
  | 0, _, acc => return acc.reverse
  | count + 1, next, acc => fun r =>
    if r.failed then (acc.reverse, r)
    else
      let (a, r) := item next r
      itemsFrom item count (next + 1) (a :: acc) r

/-- A boxed vector of such items. -/
def variedVector (item : Nat → Read α) : Read (List α) :=
  vectorOf fun count => itemsFrom item count 0 []

theorem itemsFrom_const (m : Read α) (count next : Nat) (acc : List α) :
    itemsFrom (fun _ => m) count next acc = Read.items m count acc := by
  induction count generalizing next acc with
  | zero => rfl
  | succ count ih =>
    funext r
    change (if r.failed = true then (acc.reverse, r)
      else itemsFrom (fun _ => m) count (next + 1) ((m r).1 :: acc) (m r).2) = _
    rw [ih]
    rfl

/-- If the items are alike, it is a vector as any other. -/
theorem variedVector_const (m : Read α) : variedVector (fun _ => m) = Read.vector m := by
  simp only [variedVector, itemsFrom_const, vector_eq]

/-- Items with a reader for each, one after the other. -/
theorem Reads.itemsFrom {item : Nat → Read α} {bytes : α × Nat → Bytes} {as : List α} {next : Nat}
    (acc : List α) (h : ∀ p ∈ as.zipIdx next, Reads (item p.2) (bytes p) p.1) :
    Reads (itemsFrom item as.length next acc) ((as.zipIdx next).flatMap bytes)
      (acc.reverse ++ as) := by
  induction as generalizing next acc with
  | nil =>
    intro seen rest
    rw [List.append_nil]
    rfl
  | cons a as ih =>
    intro seen rest
    rw [List.zipIdx_cons] at h ⊢
    have hfirst := h (a, next) List.mem_cons_self seen
      ((as.zipIdx (next + 1)).flatMap bytes ++ rest)
    have hothers := ih (a :: acc) (fun p hp => h p (List.mem_cons_of_mem _ hp))
      ((bytes (a, next)).reverse ++ seen) rest
    simp only [List.length_cons, Wire.itemsFrom, Reader.failed, Option.isSome_none,
      Bool.false_eq_true, if_false, List.flatMap_cons, List.append_assoc, hfirst, hothers,
      List.reverse_cons, List.reverse_append, List.singleton_append]

/-- Items that are written without their numbers. -/
theorem Writer.vector_zipIdx (w : Writer) (as : List α) (item : Writer → α → Writer) :
    w.vector as.zipIdx (fun w p => item w p.1) = w.vector as item := by
  unfold Writer.vector
  rw [List.length_zipIdx]
  generalize (w.word32 vectorTag).word32 (UInt32.ofNat as.length) = start
  calc
    as.zipIdx.foldl (fun w p => item w p.1) start
        = (as.zipIdx.map Prod.fst).foldl item start := List.foldl_map.symm
    _ = as.foldl item start := by rw [List.zipIdx_map_fst]

namespace Codes

theorem int64 (v : Int64) : Codes (·.int64 v) Read.int64 (Bytes.le 8 v.toUInt64.toNat) v :=
  ⟨.word64 _, .int64_le v⟩

theorem bool (v : Bool) :
    Codes (·.bool v) Read.bool (Bytes.le 4 (if v then trueTag else falseTag).toNat) v :=
  ⟨.word32 _, .bool v⟩

theorem text {v : String} (h : (Text.Utf8.encode v).length ≤ maxBlobLength) :
    Codes (·.text v) Read.text (blobBytes (Text.Utf8.encode v)) v :=
  ⟨.blob h, reads_text_iff.mpr (isBlob_blobBytes h)⟩

/-- A number is the number that its bytes spell. -/
theorem natural {v : Nat} (h : (Bytes.magnitude v).length ≤ maxBlobLength) :
    Codes (·.natural v) Read.natural (blobBytes (Bytes.magnitude v)) v := by
  have hread := (Reads.blob (isBlob_blobBytes h)).map (f := Bytes.ofBE)
  rw [Bytes.ofBE_magnitude] at hread
  exact ⟨.blob h, hread⟩

theorem uint {bits v : Nat} (hbits : bits ∈ widths) (h : v < 2 ^ bits) :
    Codes (·.uint v bits) (Read.uint bits) (Bytes.le (bits / 8) v) v := by
  have hback : Bytes.ofLE (Bytes.le (bits / 8) v) = v :=
    Bytes.ofLE_le_of_lt (two_pow_width hbits ▸ h)
  constructor
  · intro out
    change Writer.encoded ⟨out, none⟩ (encodeUint v bits) = _
    rw [encodeUint_of_lt hbits h]
    rfl
  · have hread := Reads.uint hbits (Bytes.length_le (bits / 8) v)
    rwa [hback] at hread

theorem raw (v : Bytes) : Codes (·.raw v) (Read.raw v.length) v v :=
  ⟨.raw v, .raw rfl⟩

/-- A boxed vector with a reader for each item. -/
theorem variedVector {write : Writer → α → Writer} {item : Nat → Read α}
    {bytes : α × Nat → Bytes} {as : List α} (hcount : as.length < 2 ^ 32)
    (hlong : ∀ p ∈ as.zipIdx, 4 ≤ (bytes p).length)
    (h : ∀ p ∈ as.zipIdx, Codes (fun w => write w p.1) (item p.2) (bytes p) p.1) :
    Codes (·.vector as write) (variedVector item) (Bytes.le 4 vectorTag.toNat ++
      (Bytes.le 4 (UInt32.ofNat as.length).toNat ++ as.zipIdx.flatMap bytes)) as where
  writes := by
    have hvector := Writes.vector fun p hp => (h p hp).writes
    simpa only [Writer.vector_zipIdx, List.length_zipIdx] using hvector
  reads := by
    have hparts : ∀ part ∈ as.zipIdx.map bytes, 4 ≤ part.length := by
      intro part hpart
      obtain ⟨p, hp, rfl⟩ := List.mem_map.mp hpart
      exact hlong p hp
    have hroom := four_mul_length_le hparts
    rw [List.length_map, List.length_zipIdx, ← List.flatMap_def] at hroom
    exact .vectorOf hcount hroom (.itemsFrom [] fun p hp => (h p hp).reads)

end Codes

/-! ## 2. Values and shapes -/

/-- A tree of typed values. -/
inductive Value where
  | word32 (v : UInt32)
  | int32 (v : Int32)
  | word64 (v : UInt64)
  | int64 (v : Int64)
  | bool (v : Bool)
  | text (v : String)
  | blob (v : Bytes)
  | natural (v : Nat)
  | octets {n : Nat} (v : Octets n)
  | uint (bits v : Nat)
  | raw (v : Bytes)
  | vector (items : List Value)
  /-- One tree after the other. -/
  | pair (first second : Value)
  /-- The end of a sequence. -/
  | done

mutual

/-- Append a tree. -/
def Value.write : Value → Writer → Writer
  | .word32 v => fun w => w.word32 v
  | .int32 v => fun w => w.int32 v
  | .word64 v => fun w => w.word64 v
  | .int64 v => fun w => w.int64 v
  | .bool v => fun w => w.bool v
  | .text v => fun w => w.text v
  | .blob v => fun w => w.blob v
  | .natural v => fun w => w.natural v
  | .octets v => fun w => w.octets v
  | .uint bits v => fun w => w.uint v bits
  | .raw v => fun w => w.raw v
  | .vector items => fun w => w.vector (Value.writes items) fun w write => write w
  | .pair first second => fun w => second.write (first.write w)
  | .done => fun w => w

/-- What is done for each of the items of a vector. -/
def Value.writes : List Value → List (Writer → Writer)
  | [] => []
  | v :: vs => v.write :: Value.writes vs

end

theorem Value.writes_eq (vs : List Value) : Value.writes vs = vs.map Value.write := by
  induction vs with
  | nil => rfl
  | cons v vs ih => rw [Value.writes, ih, List.map_cons]

theorem Value.write_vector (items : List Value) :
    (Value.vector items).write = fun w => w.vector items fun w v => v.write w := by
  funext w
  simp [Value.write, Value.writes_eq, Writer.vector, List.foldl_map]

/-- What is known of a tree before it is read. -/
inductive Shape where
  | word32
  | int32
  | word64
  | int64
  | bool
  | text
  | blob
  | natural
  | octets (n : Nat)
  | uint (bits : Nat)
  | raw (length : Nat)
  /-- A vector of items of one shape. -/
  | vector (item : Shape)
  /-- A vector in which the place of an item tells its shape. -/
  | varied (item : Nat → Shape)
  | pair (first second : Shape)
  | done

/-- Read a tree of this shape. -/
def Shape.read : Shape → Read Value
  | .word32 => return .word32 (← Read.word32)
  | .int32 => return .int32 (← Read.int32)
  | .word64 => return .word64 (← Read.word64)
  | .int64 => return .int64 (← Read.int64)
  | .bool => return .bool (← Read.bool)
  | .text => return .text (← Read.text)
  | .blob => return .blob (← Read.blob)
  | .natural => return .natural (← Read.natural)
  | .octets n => return .octets (← Read.octets n)
  | .uint bits => return .uint bits (← Read.uint bits)
  | .raw length => return .raw (← Read.raw length)
  | .vector item => return .vector (← Read.vector item.read)
  | .varied item => return .vector (← variedVector fun i => (item i).read)
  | .pair first second => return .pair (← first.read) (← second.read)
  | .done => return .done

/-- The tree has this shape, and all of it can be written. -/
inductive Shape.Admits : Shape → Value → Prop where
  | word32 (v : UInt32) : Admits .word32 (.word32 v)
  | int32 (v : Int32) : Admits .int32 (.int32 v)
  | word64 (v : UInt64) : Admits .word64 (.word64 v)
  | int64 (v : Int64) : Admits .int64 (.int64 v)
  | bool (v : Bool) : Admits .bool (.bool v)
  | text {v : String} (hfits : (Text.Utf8.encode v).length ≤ maxBlobLength) :
      Admits .text (.text v)
  | blob {v : Bytes} (hfits : v.length ≤ maxBlobLength) : Admits .blob (.blob v)
  | natural {v : Nat} (hfits : (Bytes.magnitude v).length ≤ maxBlobLength) :
      Admits .natural (.natural v)
  | octets {n : Nat} (v : Octets n) : Admits (.octets n) (.octets v)
  | uint {bits v : Nat} (hbits : bits ∈ widths) (hfits : v < 2 ^ bits) :
      Admits (.uint bits) (.uint bits v)
  | raw (v : Bytes) : Admits (.raw v.length) (.raw v)
  | vector {item : Shape} {items : List Value} (hcount : items.length < 2 ^ 32)
      (hlong : ∀ v ∈ items, 4 ≤ (v.write .empty).bytes.length)
      (hitems : ∀ v ∈ items, item.Admits v) : Admits (.vector item) (.vector items)
  | varied {item : Nat → Shape} {items : List Value} (hcount : items.length < 2 ^ 32)
      (hlong : ∀ v ∈ items, 4 ≤ (v.write .empty).bytes.length)
      (hitems : ∀ p ∈ items.zipIdx, (item p.2).Admits p.1) : Admits (.varied item) (.vector items)
  | pair {s t : Shape} {v u : Value} (hfirst : s.Admits v) (hsecond : t.Admits u) :
      Admits (.pair s t) (.pair v u)
  | done : Admits .done .done

/-! ## 3. Writing and reading back -/

theorem Writes.bytes_eq {w : Writer → Writer} {bs : Bytes} (h : Writes w bs) :
    (w .empty).bytes = bs := by
  have hout : w .empty = ⟨[] ++ bs, none⟩ := h []
  rw [hout, List.nil_append]

/-- **A tree that its shape admits is written, and read back**, whatever comes before and behind
it. -/
theorem Shape.Admits.codes {s : Shape} {v : Value} (h : s.Admits v) :
    ∃ bs, Codes v.write s.read bs v := by
  induction h with
  | word32 v => exact ⟨_, (Codes.word32 v).map⟩
  | int32 v => exact ⟨_, (Codes.int32 v).map⟩
  | word64 v => exact ⟨_, (Codes.word64 v).map⟩
  | int64 v => exact ⟨_, (Codes.int64 v).map⟩
  | bool v => exact ⟨_, (Codes.bool v).map⟩
  | text hfits => exact ⟨_, (Codes.text hfits).map⟩
  | blob hfits => exact ⟨_, (Codes.blob hfits).map⟩
  | natural hfits => exact ⟨_, (Codes.natural hfits).map⟩
  | octets v => exact ⟨_, (Codes.octets v).map⟩
  | uint hbits hfits => exact ⟨_, (Codes.uint hbits hfits).map⟩
  | raw v => exact ⟨_, (Codes.raw v).map⟩
  | @vector item items hcount hlong _ ih =>
    choose! bytes hbytes using ih
    have hlengths : ∀ v ∈ items, 4 ≤ (bytes v).length := by
      intro v hv
      rw [← (hbytes v hv).writes.bytes_eq]
      exact hlong v hv
    have hvector : Codes (fun w => w.vector items fun w v => v.write w) (Read.vector item.read)
        _ items := .vector hcount hlengths hbytes
    rw [Value.write_vector]
    exact ⟨_, hvector.map⟩
  | @varied item items hcount hlong _ ih =>
    choose! bytes hbytes using ih
    have hlengths : ∀ p ∈ items.zipIdx, 4 ≤ (bytes p).length := by
      intro p hp
      rw [← (hbytes p hp).writes.bytes_eq]
      exact hlong p.1 (List.fst_mem_of_mem_zipIdx hp)
    have hvector : Codes (fun w => w.vector items fun w v => v.write w)
        (variedVector fun i => (item i).read) _ items := .variedVector hcount hlengths hbytes
    rw [Value.write_vector]
    exact ⟨_, hvector.map⟩
  | pair _ _ ihfirst ihsecond =>
    obtain ⟨as, hfirst⟩ := ihfirst
    obtain ⟨bs, hsecond⟩ := ihsecond
    exact ⟨as ++ bs, hfirst.bind hsecond.map⟩
  | done => exact ⟨[], fun out => by rw [List.append_nil]; rfl, .pure _⟩

/-- **Writing and reading are dual.**  A tree of any shape is written, and following the shape the
reader gets the same tree, without a failure and up to the end of the buffer. -/
theorem Shape.Admits.written_read_back {s : Shape} {v : Value} (h : s.Admits v) :
    ∃ bs, (v.write .empty).finish = .ok bs ∧
      ∃ r, s.read (.ofBytes bs) = (v, r) ∧ r.failure = none ∧ r.finish = .ok () := by
  obtain ⟨bs, hcodes⟩ := h.codes
  exact ⟨bs, hcodes.writes.finish, _, hcodes.reads.ofBytes, rfl, rfl⟩

/-- A vector of vectors, and one of a word and a truth value. -/
theorem nested_written_read_back :
    let s : Shape := .pair (.vector (.vector .blob))
      (.varied fun i => if i = 0 then .word64 else .bool)
    let v : Value := .pair (.vector [.vector [.blob [], .blob [1, 2, 3, 4]], .vector []])
      (.vector [.word64 7, .bool true])
    s.Admits v ∧ ∃ bs, (v.write .empty).finish = .ok bs ∧
      ∃ r, s.read (.ofBytes bs) = (v, r) ∧ r.failure = none ∧ r.finish = .ok () := by
  intro s v
  have hblobs : ∀ u ∈ [Value.blob [], .blob [1, 2, 3, 4]], Shape.blob.Admits u := by
    intro u hu
    rcases List.mem_pair.mp hu with rfl | rfl
    · exact .blob (by decide)
    · exact .blob (by decide)
  have hvectors : ∀ u ∈ [Value.vector [.blob [], .blob [1, 2, 3, 4]], .vector []],
      (Shape.vector .blob).Admits u := by
    intro u hu
    rcases List.mem_pair.mp hu with rfl | rfl
    · exact .vector (by decide) (by decide) hblobs
    · exact .vector (by decide) (by decide) (by simp)
  have hmixed : ∀ p ∈ [Value.word64 7, .bool true].zipIdx,
      (if p.2 = 0 then Shape.word64 else .bool).Admits p.1 := by
    intro p hp
    rcases List.mem_pair.mp hp with rfl | rfl
    · exact .word64 7
    · exact .bool true
  have hadmits : s.Admits v :=
    .pair (.vector (by decide) (by decide) hvectors) (.varied (by decide) (by decide) hmixed)
  exact ⟨hadmits, Shape.Admits.written_read_back hadmits⟩

end Mtproto.Wire
