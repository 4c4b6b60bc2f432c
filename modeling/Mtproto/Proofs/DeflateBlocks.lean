import Mathlib.Tactic.Common
import Mtproto.Proofs.DeflateSymbols

/-!
# The blocks of compressed data

`Inflate.run` decodes a sequence of blocks.  A block is stored as it is, or it is written in the
codes that are fixed, or in two codes that are announced in front of its symbols.  The lengths of
the words of announced codes are written in a third code, in which runs of one length are short
(`Runs`, `Announces`).

`Block` and `Blocks` are the grammar, with the output that a block makes.  The bytes of a stored
block start at a whole byte, so the grammar counts the bits in front of a block.

* `decodes_runs`, `announcedCodes_append`: announced codes are read as they were announced.
* `reaches_block`, `reaches_blocks`: the decoder goes through a block, and through all blocks, to
  the output that the grammar says.
* `completes_of_deflates`: so data that are written by the grammar inflate to their output, whatever
  follows them.
-/

namespace Mtproto.Gzip

open Inflater

/-! ## 1. Announced codes -/

/-- Runs of code lengths, in a code for them, with the lengths before them and all lengths.  The
symbols up to 15 are lengths; 16 repeats the last one three to six times, 17 and 18 stand for three
to ten zeros and for 11 to 138. -/
inductive Runs (lengths : List Nat) : List Nat → List Bool → List Nat → Prop
  | done {all : List Nat} : Runs lengths all [] all
  | single {before all : List Nat} {word rest : List Bool} {l : Nat} (hl : l < 16)
      (hword : IsWord lengths l word) (hrest : Runs lengths (before ++ [l]) rest all) :
      Runs lengths before (word ++ rest) all
  | again {before all : List Nat} {word rest : List Bool} {l n : Nat}
      (hword : IsWord lengths 16 word) (hn : n < 2 ^ 2)
      (hrest : Runs lengths ((before ++ [l]) ++ List.replicate (3 + n) l) rest all) :
      Runs lengths (before ++ [l]) (word ++ (bitsOf 2 n ++ rest)) all
  | zeros {before all : List Nat} {word rest : List Bool} {n : Nat}
      (hword : IsWord lengths 17 word) (hn : n < 2 ^ 3)
      (hrest : Runs lengths (before ++ List.replicate (3 + n) 0) rest all) :
      Runs lengths before (word ++ (bitsOf 3 n ++ rest)) all
  | manyZeros {before all : List Nat} {word rest : List Bool} {n : Nat}
      (hword : IsWord lengths 18 word) (hn : n < 2 ^ 7)
      (hrest : Runs lengths (before ++ List.replicate (11 + n) 0) rest all) :
      Runs lengths before (word ++ (bitsOf 7 n ++ rest)) all

/-- The first `k` lengths that are announced, in an order of their own. -/
def announcedLengths (lengths : List Nat) (k : Nat) : List Nat :=
  (announcedOrder.take k).map fun symbol => lengths.getD symbol 0

/-- Two codes are announced: how many lengths there are of each, then the code in which the lengths
are written, of which all lengths after the first `k` are zero, and then the lengths. -/
inductive Announces (literals distances : List Nat) : List Bool → Prop
  | intro {lengths : List Nat} {k : Nat} {runs : List Bool}
      (hliterals : 257 ≤ literals.length ∧ literals.length ≤ 286)
      (hdistances : 1 ≤ distances.length ∧ distances.length ≤ 30)
      (hk : 4 ≤ k ∧ k ≤ 19) (hcount : lengths.length = 19) (hshort : ∀ l ∈ lengths, l < 2 ^ 3)
      (hzero : ∀ symbol ∈ announcedOrder.drop k, lengths[symbol]? = some 0)
      (hcomplete : IsComplete lengths) (hruns : Runs lengths [] runs (literals ++ distances)) :
      Announces literals distances (bitsOf 5 (literals.length - 257) ++
        (bitsOf 5 (distances.length - 1) ++ (bitsOf 4 (k - 4) ++
          ((announcedLengths lengths k).flatMap (bitsOf 3) ++ runs))))

/-! ## 2. The grammar of blocks -/

/-- The code lengths of the fixed code for bytes, ends and lengths. -/
def fixedLengths : List Nat :=
  (List.range 288).map fun symbol =>
    if symbol < 144 then 8 else if symbol < 256 then 9 else if symbol < 280 then 7 else 8

/-- The code lengths of the fixed code for distances. -/
def fixedDistanceLengths : List Nat :=
  List.replicate 32 5

/-- A block behind `start` bits and some output: whether it is the last one, its bits, and the
output after it. -/
inductive Block (start : Nat) (out : Bytes) : Bool → List Bool → Bytes → Prop
  | stored {last : Bool} {padding : List Bool} {data : Bytes} (hpadding : padding.length < 8)
      (hwhole : (start + 3 + padding.length) % 8 = 0) (hlength : data.length < 2 ^ 16) :
      Block start out last ([last, false, false] ++ (padding ++
        bitText (Bytes.le 2 data.length ++ (Bytes.le 2 (65535 - data.length) ++ data))))
        (out ++ data)
  | fixed {last : Bool} {text : List Bool} {final : Bytes}
      (hsymbols : Symbols fixedLengths fixedDistanceLengths out text final) :
      Block start out last ([last, true, false] ++ text) final
  | announced {last : Bool} {literals distances : List Nat} {announcement text : List Bool}
      {final : Bytes} (hannounces : Announces literals distances announcement)
      (hliterals : IsCode literals) (hdistances : IsCode distances)
      (hsymbols : Symbols literals distances out text final) :
      Block start out last ([last, false, true] ++ (announcement ++ text)) final

/-- Blocks up to the last one. -/
inductive Blocks : Nat → Bytes → List Bool → Bytes → Prop
  | last {start : Nat} {out final : Bytes} {text : List Bool}
      (h : Block start out true text final) : Blocks start out text final
  | next {start : Nat} {out middle final : Bytes} {text rest : List Bool}
      (h : Block start out false text middle)
      (hrest : Blocks (start + text.length) middle rest final) :
      Blocks start out (text ++ rest) final

/-- Bytes are the compressed form of data: blocks, and bits up to a whole byte. -/
def Deflates (body data : Bytes) : Prop :=
  ∃ text padding, bitText body = text ++ padding ∧ padding.length < 8 ∧ Blocks 0 [] text data

/-! ## 3. Reading announced codes -/

/-- Runs add lengths and take none away. -/
theorem Runs.length_le {lengths before all : List Nat} {text : List Bool}
    (h : Runs lengths before text all) : before.length ≤ all.length := by
  induction h with
  | done => exact Nat.le_refl _
  | single _ _ _ ih | again _ _ _ ih | zeros _ _ _ ih | manyZeros _ _ _ ih =>
    simp only [List.length_append] at ih ⊢
    omega

section Lengths

variable {code : Code} {total fuel : Nat} {before : List Nat} {bits bits' bits'' : Bits} {n : Nat}

theorem readLengths_done (before : List Nat) (fuel : Nat) (bits : Bits) :
    readLengths code before.length (fuel + 1) before.reverse bits = .ok (before, bits) := by
  simp [readLengths]

/-- One symbol below 16 is one more length. -/
theorem readLengths_single {l : Nat} (hless : before.length < total)
    (hdecode : code.decode bits = .ok (l, bits')) (hl : l < 16) :
    readLengths code total (fuel + 1) before.reverse bits =
      readLengths code total fuel (before ++ [l]).reverse bits' := by
  simp [readLengths, Nat.not_le.mpr hless, hdecode, hl, bind, Except.bind]

/-- A repetition needs a length before it. -/
theorem readLengths_again {l : Nat} (hless : (before ++ [l]).length < total)
    (hdecode : code.decode bits = .ok (16, bits')) (hread : bits'.read 2 = .ok (n, bits'')) :
    readLengths code total (fuel + 1) (before ++ [l]).reverse bits =
      readLengths code total fuel ((before ++ [l]) ++ List.replicate (3 + n) l).reverse bits'' := by
  rw [List.length_append, List.length_singleton] at hless
  simp [readLengths, Nat.not_le.mpr hless, hdecode, hread, bind, Except.bind]

/-- Three to ten zeros are one symbol and three bits. -/
theorem readLengths_zeros (hless : before.length < total)
    (hdecode : code.decode bits = .ok (17, bits')) (hread : bits'.read 3 = .ok (n, bits'')) :
    readLengths code total (fuel + 1) before.reverse bits =
      readLengths code total fuel (before ++ List.replicate (3 + n) 0).reverse bits'' := by
  simp [readLengths, Nat.not_le.mpr hless, hdecode, hread, bind, Except.bind]

/-- More than ten zeros are one symbol and seven bits. -/
theorem readLengths_manyZeros (hless : before.length < total)
    (hdecode : code.decode bits = .ok (18, bits')) (hread : bits'.read 7 = .ok (n, bits'')) :
    readLengths code total (fuel + 1) before.reverse bits =
      readLengths code total fuel (before ++ List.replicate (11 + n) 0).reverse bits'' := by
  simp [readLengths, Nat.not_le.mpr hless, hdecode, hread, bind, Except.bind]

end Lengths

/-- A symbol of the code for code lengths, and a number behind it. -/
theorem decode_append {lengths : List Nat} (hfits : Fits lengths) {symbol width n : Nat}
    {word rest tail : List Bool} (hword : IsWord lengths symbol word) (hn : n < 2 ^ width)
    {bits : Bits} (hbits : bits.Tidy)
    (htext : bits.text = (word ++ (bitsOf width n ++ rest)) ++ tail) :
    ∃ bits' bits'', (Code.ofLengths lengths).decode bits = .ok (symbol, bits') ∧
      bits'.read width = .ok (n, bits'') ∧ bits''.Tidy ∧ bits''.text = rest ++ tail := by
  rw [List.append_assoc, List.append_assoc] at htext
  obtain ⟨bits', hdecode, htidy, htext'⟩ := decodes_word hfits hword bits hbits _ htext
  obtain ⟨bits'', hread, hdone⟩ := decodes_read hn bits' htidy _ htext'
  exact ⟨bits', bits'', hdecode, hread, hdone⟩

/-- **The runs are read back.**  Each of them adds a length at least. -/
theorem decodes_runs {lengths before all : List Nat} {text : List Bool} (hfits : Fits lengths)
    (h : Runs lengths before text all) (fuel : Nat) (hfuel : all.length ≤ before.length + fuel) :
    Decodes (readLengths (.ofLengths lengths) all.length (fuel + 1) before.reverse) text all := by
  intro bits hbits tail htext
  induction h generalizing fuel bits with
  | done => exact ⟨bits, readLengths_done _ _ _, hbits, htext⟩
  | single hl hword hrest ih =>
    have hle := hrest.length_le
    simp only [List.length_append, List.length_cons, List.length_nil] at hle ih
    obtain ⟨k, rfl⟩ : ∃ k, fuel = k + 1 := ⟨fuel - 1, by omega⟩
    rw [List.append_assoc] at htext
    obtain ⟨bits', hdecode, htidy, htext'⟩ := decodes_word hfits hword bits hbits _ htext
    obtain ⟨last, hrun, hdone⟩ := ih k (by omega) bits' htidy htext'
    exact ⟨last, (readLengths_single (by omega) hdecode hl).trans hrun, hdone⟩
  | again hword hn hrest ih =>
    have hle := hrest.length_le
    simp only [List.length_append, List.length_cons, List.length_nil, List.length_replicate]
      at hfuel hle ih
    obtain ⟨k, rfl⟩ : ∃ k, fuel = k + 1 := ⟨fuel - 1, by omega⟩
    obtain ⟨_, bits', hdecode, hread, htidy, htext'⟩ := decode_append hfits hword hn hbits htext
    obtain ⟨last, hrun, hdone⟩ := ih k (by omega) bits' htidy htext'
    exact ⟨last, (readLengths_again (by simp; omega) hdecode hread).trans hrun, hdone⟩
  | zeros hword hn hrest ih =>
    have hle := hrest.length_le
    simp only [List.length_append, List.length_replicate] at hle ih
    obtain ⟨k, rfl⟩ : ∃ k, fuel = k + 1 := ⟨fuel - 1, by omega⟩
    obtain ⟨_, bits', hdecode, hread, htidy, htext'⟩ := decode_append hfits hword hn hbits htext
    obtain ⟨last, hrun, hdone⟩ := ih k (by omega) bits' htidy htext'
    exact ⟨last, (readLengths_zeros (by omega) hdecode hread).trans hrun, hdone⟩
  | manyZeros hword hn hrest ih =>
    have hle := hrest.length_le
    simp only [List.length_append, List.length_replicate] at hle ih
    obtain ⟨k, rfl⟩ : ∃ k, fuel = k + 1 := ⟨fuel - 1, by omega⟩
    obtain ⟨_, bits', hdecode, hread, htidy, htext'⟩ := decode_append hfits hword hn hbits htext
    obtain ⟨last, hrun, hdone⟩ := ih k (by omega) bits' htidy htext'
    exact ⟨last, (readLengths_manyZeros (by omega) hdecode hread).trans hrun, hdone⟩

/-- Numbers of one width are read in a row. -/
theorem decodes_readMany {width : Nat} {xs : List Nat} (h : ∀ x ∈ xs, x < 2 ^ width) :
    Decodes (readMany width xs.length) (xs.flatMap (bitsOf width)) xs := by
  induction xs with
  | nil => exact .pure []
  | cons x xs ih =>
    rw [List.flatMap_cons]
    have hrest := (ih fun y hy => h y (List.mem_cons_of_mem x hy)).map (x :: ·)
    exact (decodes_read (h x List.mem_cons_self)).bind
      (f := fun x bits => readMany width xs.length bits >>= fun r => .ok (x :: r.1, r.2)) hrest

/-- What is found for a symbol when only the first `k` symbols of the order have been announced. -/
theorem find?_announced (f : Nat → Nat) (order : List Nat) (k symbol : Nat) :
    (((order.zip ((order.take k).map f)).find? (·.1 = symbol)).map (·.2)) =
      if symbol ∈ order.take k then some (f symbol) else none := by
  induction order generalizing k with
  | nil => simp
  | cons x order ih =>
    cases k with
    | zero => simp
    | succ k =>
      rw [List.take_succ_cons, List.map_cons, List.zip_cons_cons, List.find?_cons]
      by_cases hx : x = symbol
      · simp [hx]
      · simp only [hx, decide_false, List.mem_cons, Ne.symm hx, false_or]
        exact ih k

/-- All lengths of the code for code lengths are found. -/
theorem announced_lengths {lengths : List Nat} (hcount : lengths.length = 19) {k : Nat}
    (hzero : ∀ symbol ∈ announcedOrder.drop k, lengths[symbol]? = some 0) :
    (List.range 19).map (fun symbol => (((announcedOrder.zip (announcedLengths lengths k)).find?
      (·.1 = symbol)).map (·.2)).getD 0) = lengths := by
  have horder : ∀ symbol < 19, symbol ∈ announcedOrder := by decide
  refine List.ext_getElem (by simp [hcount]) fun symbol h h' => ?_
  rw [List.getElem_map, List.getElem_range, announcedLengths, find?_announced]
  split
  · rw [Option.getD_some, List.getD_eq_getElem?_getD, List.getElem?_eq_getElem h', Option.getD_some]
  · rename_i hnot
    have hmem := horder symbol (hcount ▸ h')
    rw [← List.take_append_drop k announcedOrder, List.mem_append] at hmem
    have hlength := hzero symbol (hmem.resolve_left hnot)
    rw [List.getElem?_eq_getElem h', Option.some.injEq] at hlength
    exact hlength.symm

theorem length_announcedLengths (lengths : List Nat) {k : Nat} (h : k ≤ 19) :
    (announcedLengths lengths k).length = k := by
  rw [announcedLengths, List.length_map]
  exact List.length_take_of_le h

theorem announcedLengths_lt {lengths : List Nat} {n : Nat} (hn : 0 < n)
    (h : ∀ l ∈ lengths, l < n) (k : Nat) : ∀ l ∈ announcedLengths lengths k, l < n := by
  intro l hl
  obtain ⟨symbol, -, rfl⟩ := List.mem_map.mp hl
  rw [List.getD_eq_getElem?_getD]
  cases hlength : lengths[symbol]? with
  | none => exact hn
  | some l => exact h l (List.mem_of_getElem? hlength)

/-- **Announced codes are read.** -/
theorem announcedCodes_append {literals distances : List Nat} {text : List Bool}
    (h : Announces literals distances text) (hliterals : IsCode literals)
    (hdistances : IsCode distances) {bits : Bits} (hbits : bits.Tidy) {tail : List Bool}
    (htext : bits.text = text ++ tail) :
    ∃ bits', announcedCodes bits = .ok (.ofLengths literals, .ofLengths distances, bits') ∧
      bits'.Tidy ∧ bits'.text = tail := by
  cases h with
  | @intro lengths k runs hl hd hk hcount hshort hzero hcomplete hruns =>
    simp only [List.append_assoc] at htext
    obtain ⟨bits₁, hread₁, htidy₁, htext₁⟩ :=
      decodes_read (show literals.length - 257 < 2 ^ 5 by omega) bits hbits _ htext
    obtain ⟨bits₂, hread₂, htidy₂, htext₂⟩ :=
      decodes_read (show distances.length - 1 < 2 ^ 5 by omega) bits₁ htidy₁ _ htext₁
    obtain ⟨bits₃, hread₃, htidy₃, htext₃⟩ :=
      decodes_read (show k - 4 < 2 ^ 4 by omega) bits₂ htidy₂ _ htext₂
    obtain ⟨bits₄, hread₄, htidy₄, htext₄⟩ :=
      decodes_readMany (announcedLengths_lt (by decide) hshort k) bits₃ htidy₃ _ htext₃
    obtain ⟨bits₅, hread₅, htidy₅, htext₅⟩ := decodes_runs hcomplete.fits hruns
      (literals ++ distances).length (Nat.le_add_left _ _) bits₄ htidy₄ _ htext₄
    have hl' : literals.length - 257 + 257 = literals.length := by omega
    have hd' : distances.length - 1 + 1 = distances.length := by omega
    have hbounds : ¬ (286 < literals.length ∨ 30 < distances.length) := by omega
    have hk' : (announcedLengths lengths k).length = k - 4 + 4 := by
      rw [length_announcedLengths lengths hk.2]
      omega
    rw [hk'] at hread₄
    rw [List.length_append, List.reverse_nil] at hread₅
    refine ⟨bits₅, ?_, htidy₅, htext₅⟩
    simp only [announcedCodes, hread₁, hread₂, hread₃, bind, Except.bind, hl', hd', if_neg hbounds,
      pure, Except.pure, hread₄, announced_lengths hcount hzero, lengthCode_eq hcomplete, hread₅,
      List.take_left, List.drop_left, blockCode_eq hliterals, blockCode_eq hdistances]

/-! ## 4. Decoding blocks -/

section Header

variable {bits : Bits} {tail : List Bool} {last first second : Bool}

/-- The three bits in front of a block, as a number. -/
theorem read_header (hbits : bits.Tidy) (htext : bits.text = [last, first, second] ++ tail) :
    ∃ bits', bits.read 3 = .ok (last.toNat + 2 * (first.toNat + 2 * second.toNat), bits') ∧
      bits'.Tidy ∧ bits'.text = tail := by
  have hthree : [last, first, second] =
      bitsOf 3 (last.toNat + 2 * (first.toNat + 2 * second.toNat)) := by
    cases last <;> cases first <;> cases second <;> rfl
  rw [hthree] at htext
  refine decodes_read ?_ bits hbits tail htext
  cases last <;> cases first <;> cases second <;> decide

variable {bits' : Bits}

/-- The header of a block says whether it is the last one, and of which kind it is. -/
theorem headerStep_stored (out : Array UInt8) (hread : bits.read 3 = .ok (last.toNat, bits')) :
    headerStep bits out = Inflater.storedBlock bits' out last := by
  rw [headerStep, hread]
  cases last <;> rfl

theorem headerStep_fixed (out : Array UInt8) (hread : bits.read 3 = .ok (last.toNat + 2, bits')) :
    headerStep bits out = (out, .ok (bits', .symbol fixedLiterals fixedDistances last)) := by
  rw [headerStep, hread]
  cases last <;> rfl

theorem headerStep_announced (out : Array UInt8) {literals distances : Code} {bits'' : Bits}
    (hread : bits.read 3 = .ok (last.toNat + 4, bits'))
    (hcodes : announcedCodes bits' = .ok (literals, distances, bits'')) :
    headerStep bits out = (out, .ok (bits'', .symbol literals distances last)) := by
  rw [headerStep, hread]
  cases last <;> simp [hcodes]

end Header

theorem fixedLengths_eq : fixedLiteralLengths = fixedLengths := by decide +kernel

/-- The fixed code takes all the room. -/
theorem isComplete_fixedLengths : IsComplete fixedLengths :=
  ⟨by decide +kernel, by decide +kernel⟩

theorem isComplete_fixedDistanceLengths : IsComplete fixedDistanceLengths :=
  ⟨by decide +kernel, by decide +kernel⟩

section Block

variable {start : Nat} {last : Bool} {s : Inflater} {out : Bytes} {tail : List Bool}

theorem step_header (h : s.phase = .header) : step s = headerStep s.bits s.out := by
  obtain ⟨bits, out, phase⟩ := s
  obtain rfl := h
  rfl

/-- Up to a whole byte, and then bytes. -/
theorem rest_of_text {bits : Bits} (hbits : bits.Tidy) {padding : List Bool} {bytes : Bytes}
    (hpadding : padding.length < 8) (htail : tail.length % 8 = 0)
    (htext : bits.text = padding ++ (bitText bytes ++ tail)) :
    ∃ rest, bits.rest = bytes ++ rest ∧ tail = bitText rest := by
  have hlength := congrArg List.length htext
  simp only [Bits.length_text, List.length_append, length_bitText] at hlength
  have hcount := hbits.count_lt
  -- both are less than a byte, and leave whole bytes behind them
  have hsame : bits.count = padding.length := by omega
  rw [Bits.text] at htext
  exact exists_of_bitText_eq (List.append_inj htext (by rw [length_bitsOf, hsame])).2

/-- The bytes of a stored block are appended. -/
theorem storedBlock_append {bits : Bits} {data rest : Bytes} (hlength : data.length < 2 ^ 16)
    (hrest : bits.rest =
      (Bytes.le 2 data.length ++ (Bytes.le 2 (65535 - data.length) ++ data)) ++ rest)
    (out : Array UInt8) :
    Inflater.storedBlock bits out last = (out ++ data.toArray,
      .ok ({ rest, taken := bits.taken + 4 + data.length }, behindBlock last)) := by
  have hback : Bytes.ofLE (Bytes.le 2 data.length) = data.length :=
    Bytes.ofLE_le_of_lt (by omega)
  have hcomplement : Bytes.ofLE (Bytes.le 2 (65535 - data.length)) = 65535 - data.length :=
    Bytes.ofLE_le_of_lt (by omega)
  simp only [Bytes.le, List.cons_append, List.nil_append] at hrest hback hcomplement
  simp [Inflater.storedBlock, hrest, hback, hcomplement]

/-- **A block is decoded**, in no more steps than it has bits. -/
theorem reaches_block {text : List Bool} {final : Bytes} (h : Block start out last text final)
    (hs : Stands s .header (text ++ tail) out) (hwhole : (start + (text ++ tail).length) % 8 = 0) :
    Reaches text.length s (behindBlock last) tail final := by
  have hstep := step_header hs.phase
  have htext := hs.text
  cases h with
  | @stored padding data hpadding hpart hlength =>
    rw [List.append_assoc, List.append_assoc] at htext
    obtain ⟨bits, hread, htidy, hrest⟩ := read_header hs.tidy htext
    -- the whole text ends at a byte, and so does the block
    have htail : tail.length % 8 = 0 := by
      simp only [List.length_append, List.length_cons, List.length_nil, length_bitText] at hwhole
      omega
    obtain ⟨rest, hbytes, rfl⟩ := rest_of_text htidy hpadding htail hrest
    rw [headerStep_stored s.out hread, storedBlock_append hlength hbytes] at hstep
    refine Reaches.mono (.one (t := ⟨{ rest, taken := bits.taken + 4 + data.length },
      s.out ++ data.toArray, behindBlock last⟩) hstep
      ⟨rfl, Bits.tidy_start rest _, Bits.text_start rest _, ?_⟩) ?_
    · rw [Array.toList_append, hs.out]
    · simp only [List.length_append, List.length_cons]
      omega
  | @fixed text final hsymbols =>
    rw [List.append_assoc] at htext
    obtain ⟨bits, hread, htidy, hrest⟩ := read_header hs.tidy htext
    rw [headerStep_fixed s.out hread] at hstep
    have hstands : Stands ⟨bits, s.out, inBlock fixedLengths fixedDistanceLengths last⟩
        (inBlock fixedLengths fixedDistanceLengths last) (text ++ tail) out :=
      ⟨rfl, htidy, hrest, hs.out⟩
    have hphase : Phase.symbol fixedLiterals fixedDistances last =
        inBlock fixedLengths fixedDistanceLengths last := by
      rw [fixedLiterals, fixedLengths_eq]
      rfl
    rw [hphase] at hstep
    refine Reaches.mono (.of_step hstep (reaches_symbols isComplete_fixedLengths.fits
      isComplete_fixedDistanceLengths.fits hsymbols hstands)) ?_
    simp only [List.length_append, List.length_cons]
    omega
  | @announced literals distances announcement text final hannounces hl hd hsymbols =>
    rw [List.append_assoc, List.append_assoc] at htext
    obtain ⟨bits, hread, htidy, hrest⟩ := read_header hs.tidy htext
    obtain ⟨bits', hcodes, htidy', hrest'⟩ := announcedCodes_append hannounces hl hd htidy hrest
    rw [headerStep_announced s.out hread hcodes] at hstep
    have hstands : Stands ⟨bits', s.out, inBlock literals distances last⟩
        (inBlock literals distances last) (text ++ tail) out := ⟨rfl, htidy', hrest', hs.out⟩
    refine Reaches.mono (.of_step hstep (reaches_symbols hl.fits hd.fits hsymbols hstands)) ?_
    simp only [List.length_append, List.length_cons]
    omega

/-- **Blocks are decoded up to the last one.** -/
theorem reaches_blocks {text : List Bool} {final : Bytes} (h : Blocks start out text final)
    (hs : Stands s .header (text ++ tail) out) (hwhole : (start + (text ++ tail).length) % 8 = 0) :
    Reaches text.length s .finished tail final := by
  induction h generalizing s with
  | last h => exact reaches_block h hs hwhole
  | @next start out middle final text rest h hrest ih =>
    rw [List.append_assoc] at hs hwhole
    have hnext := (reaches_block h hs hwhole).trans fun t ht => ih ht (by
      rw [List.length_append] at hwhole
      omega)
    rwa [← List.length_append] at hnext

end Block

/-- **Compressed data are decoded to the end**, whatever follows them. -/
theorem completes_of_deflates {body data : Bytes} (h : Deflates body data) (trailer : Bytes) :
    Completes (8 * (body ++ trailer).length + 2) ⟨{ rest := body ++ trailer }, #[], .header⟩
      data.toArray trailer := by
  obtain ⟨text, padding, htext, hpadding, hblocks⟩ := h
  have hstands : Stands ⟨{ rest := body ++ trailer }, #[], .header⟩ .header
      (text ++ (padding ++ bitText trailer)) [] := by
    refine ⟨rfl, Bits.tidy_start _ _, ?_, rfl⟩
    rw [Bits.text_start, bitText_append, htext, List.append_assoc]
  have hlength := congrArg List.length htext
  simp only [length_bitText, List.length_append] at hlength
  have hwhole : (0 + (text ++ (padding ++ bitText trailer)).length) % 8 = 0 := by
    simp only [List.length_append, length_bitText]
    omega
  -- a step for every bit at most, and one more that finds the end
  obtain ⟨n, t, hn, hleads, hend⟩ := reaches_blocks hblocks hstands hwhole
  have hlast : step t = (data.toArray, .error .complete) := by
    obtain ⟨bits, out, phase⟩ := t
    obtain rfl : phase = .finished := hend.phase
    have hout : out.toList = data := hend.out
    rw [← hout, Array.toArray_toList]
    rfl
  have htail := hend.text
  rw [← List.append_nil (bitText trailer)] at htail
  obtain ⟨rest, hrest, hnil⟩ := rest_of_text hend.tidy hpadding rfl htail
  refine ⟨n, t, ?_, hleads, hlast, ?_⟩
  · rw [List.length_append]
    omega
  · have hnone : rest = [] := by
      have hzero := congrArg List.length hnil
      rw [length_bitText, List.length_nil] at hzero
      exact List.eq_nil_of_length_eq_zero (by omega)
    rw [hrest, hnone, List.append_nil]

end Mtproto.Gzip
