import Mathlib.Tactic.Common
import Mtproto.Proofs.DeflateCodes
import Mtproto.Proofs.InflateLimits

/-!
# The symbols of a block of compressed data

A block that is not stored is written in two codes.  The words of the first one stand for bytes, for
the end of the block, or for the length of a reference; behind such a word come its extra bits, a
word of the second code for the distance, and the extra bits of that.  `Symbols` is the grammar,
with the output before and after.

What a reference appends is said without a loop: each byte is the one so many places before it
(`Repeats`), which may be one of those that are appended.

* `toList_copy`: the copying loop of the decoder appends exactly that.
* `reaches_symbols`: the decoder takes one step for each byte, each reference and the end, and comes
  to the output of the grammar.
-/

namespace Mtproto.Gzip

open Inflater

/-! ## 1. References -/

/-- How many extra bits the length symbol `257 + i` has. -/
def lengthExtra (i : Nat) : Nat :=
  if i = 28 then 0 else i / 4 - 1

/-- The length that the symbol `257 + i` stands for if its extra bits are zero.  Four symbols share
a number of extra bits, and each follows on from the one before. -/
def lengthBase (i : Nat) : Nat :=
  if i < 4 then 3 + i else if i = 28 then 258 else 3 + (4 + i % 4) * 2 ^ (i / 4 - 1)

/-- How many extra bits the distance symbol `j` has. -/
def distanceExtra (j : Nat) : Nat :=
  j / 2 - 1

/-- The distance that the symbol `j` stands for if its extra bits are zero. -/
def distanceBase (j : Nat) : Nat :=
  if j < 2 then 1 + j else 1 + (2 + j % 2) * 2 ^ (j / 2 - 1)

/-- These bytes repeat what is `distance` places before them, themselves included. -/
structure Repeats (out copied : Bytes) (distance : Nat) : Prop where
  reaches : distance ≤ out.length
  back : ∀ i < copied.length,
    (out ++ copied)[out.length + i]? = (out ++ copied)[out.length + i - distance]?

/-- The symbols of a block up to its end, with the output before them and after them. -/
inductive Symbols (literals distances : List Nat) : Bytes → List Bool → Bytes → Prop
  | ended {out : Bytes} {word : List Bool} (hword : IsWord literals 256 word) :
      Symbols literals distances out word out
  | literal {out final : Bytes} {word rest : List Bool} (b : UInt8)
      (hword : IsWord literals b.toNat word)
      (hrest : Symbols literals distances (out ++ [b]) rest final) :
      Symbols literals distances out (word ++ rest) final
  | reference {out copied final : Bytes} {i j m n : Nat} {lengthWord distanceWord rest : List Bool}
      (hi : i < 29) (hlengthWord : IsWord literals (257 + i) lengthWord)
      (hm : m < 2 ^ lengthExtra i)
      (hj : j < 30) (hdistanceWord : IsWord distances j distanceWord)
      (hn : n < 2 ^ distanceExtra j)
      (hlength : copied.length = lengthBase i + m)
      (hrepeats : Repeats out copied (distanceBase j + n))
      (hrest : Symbols literals distances (out ++ copied) rest final) :
      Symbols literals distances out (lengthWord ++ (bitsOf (lengthExtra i) m ++
        (distanceWord ++ (bitsOf (distanceExtra j) n ++ rest)))) final

/-! ## 2. Reading a reference -/

theorem lengthTable_eq {i : Nat} (h : i < 29) :
    lengthTable[i]? = some (lengthBase i, lengthExtra i) := by
  revert i
  decide

theorem distanceTable_eq {j : Nat} (h : j < 30) :
    distanceTable[j]? = some (distanceBase j, distanceExtra j) := by
  revert j
  decide

theorem decodes_extended {table : Array (Nat × Nat)} {symbol base extra n : Nat}
    (hentry : table[symbol]? = some (base, extra)) (hn : n < 2 ^ extra) :
    Decodes (extended table symbol) (bitsOf extra n) (base + n) := by
  unfold extended
  rw [hentry]
  exact (decodes_read hn).map (base + ·)

theorem distanceBase_pos (j : Nat) : 0 < distanceBase j := by
  unfold distanceBase
  split <;> omega

section Reference

variable {distances : List Nat} {i j m n : Nat} {word : List Bool}

/-- Behind its length symbol, a reference is read up to its end. -/
theorem reference_append (hfits : Fits distances) (hi : i < 29) (hm : m < 2 ^ lengthExtra i)
    (hj : j < 30) (hword : IsWord distances j word) (hn : n < 2 ^ distanceExtra j) {bits : Bits}
    (hbits : bits.Tidy) {tail : List Bool}
    (htext : bits.text =
      bitsOf (lengthExtra i) m ++ (word ++ (bitsOf (distanceExtra j) n ++ tail))) :
    ∃ bits', reference (.ofLengths distances) (257 + i) bits =
        .ok (lengthBase i + m, distanceBase j + n, bits') ∧ bits'.Tidy ∧ bits'.text = tail := by
  obtain ⟨bits₁, hlength, htidy₁, htext₁⟩ :=
    decodes_extended (lengthTable_eq hi) hm bits hbits _ htext
  obtain ⟨bits₂, hsymbol, htidy₂, htext₂⟩ := decodes_word hfits hword bits₁ htidy₁ _ htext₁
  obtain ⟨bits₃, hdistance, htidy₃, htext₃⟩ :=
    decodes_extended (distanceTable_eq hj) hn bits₂ htidy₂ _ htext₂
  refine ⟨bits₃, ?_, htidy₃, htext₃⟩
  unfold reference
  rw [Nat.add_sub_cancel_left, hlength]
  change ((Code.ofLengths distances).decode bits₁ >>= _) = _
  rw [hsymbol]
  change (extended distanceTable j bits₂ >>= _) = _
  rw [hdistance]
  rfl

end Reference

/-- The first byte that is repeated. -/
theorem Repeats.head {out copied : Bytes} {b : UInt8} {distance : Nat} (hpos : 0 < distance)
    (h : Repeats out (b :: copied) distance) : out[out.length - distance]? = some b := by
  have hreaches := h.reaches
  have hback := h.back 0 (Nat.succ_pos _)
  rw [Nat.add_zero, List.getElem?_append_right (Nat.le_refl _), Nat.sub_self,
    List.getElem?_append_left (by omega)] at hback
  exact hback.symm

/-- The other bytes repeat the output with the first one. -/
theorem Repeats.tail {out copied : Bytes} {b : UInt8} {distance : Nat}
    (h : Repeats out (b :: copied) distance) : Repeats (out ++ [b]) copied distance := by
  have hreaches := h.reaches
  constructor
  · rw [List.length_append]
    omega
  · intro i hi
    have hback := h.back (i + 1) (Nat.succ_lt_succ hi)
    rw [List.append_assoc, List.singleton_append, List.length_append, List.length_singleton,
      Nat.add_assoc, Nat.add_comm 1 i]
    exact hback

/-- **A copy appends what repeats the output.** -/
theorem toList_copy {out : Array UInt8} {copied : Bytes} {distance : Nat} (hpos : 0 < distance)
    (h : Repeats out.toList copied distance) :
    (copy out distance copied.length).toList = out.toList ++ copied := by
  induction copied generalizing out with
  | nil =>
    rw [List.append_nil]
    rfl
  | cons b copied ih =>
    have hreaches := h.reaches
    have hhead := h.head hpos
    have htail := h.tail
    rw [Array.length_toList] at hreaches hhead
    have hbyte : (if distance ≤ out.size then out.getD (out.size - distance) 0 else 0) = b := by
      rw [if_pos hreaches, Array.getD_eq_getD_getElem?, ← Array.getElem?_toList, hhead]
      rfl
    rw [← Array.toList_push] at htail
    rw [List.length_cons, copy]
    simp only [hbyte]
    rw [ih htail, Array.toList_push, List.append_assoc]
    rfl

/-! ## 3. Steps -/

/-- Where a decoder stands: its phase, the bits before it, and its output. -/
structure Stands (s : Inflater) (phase : Phase) (text : List Bool) (out : Bytes) : Prop where
  phase : s.phase = phase
  tidy : s.bits.Tidy
  text : s.bits.text = text
  out : s.out.toList = out

/-- The decoder comes to stand there after no more than `k` steps. -/
def Reaches (k : Nat) (s : Inflater) (phase : Phase) (text : List Bool) (out : Bytes) : Prop :=
  ∃ n t, n ≤ k ∧ Leads n s t ∧ Stands t phase text out

theorem Reaches.mono {k l : Nat} {s : Inflater} {phase : Phase} {text : List Bool} {out : Bytes}
    (h : Reaches k s phase text out) (hle : k ≤ l) : Reaches l s phase text out := by
  obtain ⟨n, t, hn, hleads, hstands⟩ := h
  exact ⟨n, t, hn.trans hle, hleads, hstands⟩

/-- A step, and then others. -/
theorem Reaches.of_step {k : Nat} {s t : Inflater} {phase : Phase} {text : List Bool} {out : Bytes}
    (hstep : step s = (t.out, .ok (t.bits, t.phase))) (h : Reaches k t phase text out) :
    Reaches (k + 1) s phase text out := by
  obtain ⟨n, u, hn, hleads, hstands⟩ := h
  exact ⟨n + 1, u, Nat.succ_le_succ hn, .step hstep hleads, hstands⟩

/-- A single step. -/
theorem Reaches.one {s t : Inflater} {phase : Phase} {text : List Bool} {out : Bytes}
    (hstep : step s = (t.out, .ok (t.bits, t.phase))) (h : Stands t phase text out) :
    Reaches 1 s phase text out :=
  .of_step hstep ⟨0, t, Nat.le_refl 0, .refl t, h⟩

/-- From where a decoder comes to stand it goes on. -/
theorem Reaches.trans {k l : Nat} {s : Inflater} {phase phase' : Phase} {text text' : List Bool}
    {out out' : Bytes} (h : Reaches k s phase text out)
    (h' : ∀ t, Stands t phase text out → Reaches l t phase' text' out') :
    Reaches (k + l) s phase' text' out' := by
  obtain ⟨m, t, hm, hleads, hstands⟩ := h
  obtain ⟨n, u, hn, hleads', hstands'⟩ := h' t hstands
  exact ⟨n + m, u, by omega, hleads.trans hleads', hstands'⟩

section Symbol

variable {literals distances : List Nat} {last : Bool} {s : Inflater} {out : Bytes}
  {tail : List Bool}

/-- In the symbols of a block. -/
abbrev inBlock (literals distances : List Nat) (last : Bool) : Phase :=
  .symbol (.ofLengths literals) (.ofLengths distances) last

/-- Behind a block. -/
abbrev behindBlock (last : Bool) : Phase :=
  if last then .finished else .header

/-- What comes of a symbol. -/
theorem exists_symbol (hliterals : Fits literals) {symbol : Nat} {word : List Bool}
    (hword : IsWord literals symbol word)
    (h : Stands s (inBlock literals distances last) (word ++ tail) out) :
    ∃ bits, (Code.ofLengths literals).decode s.bits = .ok (symbol, bits) ∧ bits.Tidy ∧
      bits.text = tail :=
  decodes_word hliterals hword s.bits h.tidy tail h.text

theorem step_inBlock (h : s.phase = inBlock literals distances last) :
    step s = symbolStep s.bits s.out (.ofLengths literals) (.ofLengths distances) last := by
  obtain ⟨bits, out, phase⟩ := s
  obtain rfl := h
  rfl

theorem step_ended (hliterals : Fits literals) {word : List Bool}
    (hword : IsWord literals 256 word)
    (h : Stands s (inBlock literals distances last) (word ++ tail) out) :
    Reaches 1 s (behindBlock last) tail out := by
  obtain ⟨bits, hdecode, htidy, htext⟩ := exists_symbol hliterals hword h
  have hstep : step s = (s.out, .ok (bits, behindBlock last)) := by
    rw [step_inBlock h.phase, symbolStep, hdecode]
    rfl
  exact .one (t := ⟨bits, s.out, behindBlock last⟩) hstep ⟨rfl, htidy, htext, h.out⟩

theorem step_literal (hliterals : Fits literals) {b : UInt8} {word : List Bool}
    (hword : IsWord literals b.toNat word)
    (h : Stands s (inBlock literals distances last) (word ++ tail) out) :
    Reaches 1 s (inBlock literals distances last) tail (out ++ [b]) := by
  obtain ⟨bits, hdecode, htidy, htext⟩ := exists_symbol hliterals hword h
  have hstep : step s = (s.out.push b, .ok (bits, inBlock literals distances last)) := by
    rw [step_inBlock h.phase, symbolStep, hdecode]
    simp only [if_pos (show b.toNat < 256 from b.toNat_lt), UInt8.ofNat_toNat]
  refine .one (t := ⟨bits, s.out.push b, inBlock literals distances last⟩) hstep
    ⟨rfl, htidy, htext, ?_⟩
  rw [Array.toList_push, h.out]

theorem step_reference (hliterals : Fits literals) (hdistances : Fits distances)
    {copied : Bytes} {i j m n : Nat} {lengthWord distanceWord : List Bool}
    (hi : i < 29) (hlengthWord : IsWord literals (257 + i) lengthWord) (hm : m < 2 ^ lengthExtra i)
    (hj : j < 30) (hdistanceWord : IsWord distances j distanceWord) (hn : n < 2 ^ distanceExtra j)
    (hlength : copied.length = lengthBase i + m)
    (hrepeats : Repeats out copied (distanceBase j + n))
    (h : Stands s (inBlock literals distances last) (lengthWord ++ (bitsOf (lengthExtra i) m ++
      (distanceWord ++ (bitsOf (distanceExtra j) n ++ tail)))) out) :
    Reaches 1 s (inBlock literals distances last) tail (out ++ copied) := by
  obtain ⟨bits, hdecode, htidy, htext⟩ := exists_symbol hliterals hlengthWord h
  obtain ⟨bits', hreference, htidy', htext'⟩ :=
    reference_append hdistances hi hm hj hdistanceWord hn htidy htext
  have hpos := distanceBase_pos j
  have hcopy : (copy s.out (distanceBase j + n) copied.length).toList = s.out.toList ++ copied :=
    toList_copy (by omega) (by rw [h.out]; exact hrepeats)
  have hstep : step s = (copy s.out (distanceBase j + n) copied.length,
      .ok (bits', inBlock literals distances last)) := by
    rw [step_inBlock h.phase, symbolStep, hdecode]
    simp only [if_neg (show ¬ 257 + i < 256 by omega), if_neg (show ¬ 257 + i = 256 by omega),
      hreference, hlength]
  refine .one (t := ⟨bits', copy s.out (distanceBase j + n) copied.length,
    inBlock literals distances last⟩) hstep ⟨rfl, htidy', htext', ?_⟩
  rw [hcopy, h.out]

/-- **The symbols of a block are decoded**, in no more steps than they have bits. -/
theorem reaches_symbols (hliterals : Fits literals) (hdistances : Fits distances)
    {text : List Bool} {final : Bytes} (h : Symbols literals distances out text final)
    (hs : Stands s (inBlock literals distances last) (text ++ tail) out) :
    Reaches text.length s (behindBlock last) tail final := by
  induction h generalizing s with
  | ended hword => exact (step_ended hliterals hword hs).mono hword.length_pos
  | @literal out final word rest b hword hrest ih =>
    rw [List.append_assoc] at hs
    have hpos := hword.length_pos
    refine ((step_literal hliterals hword hs).trans fun t ht => ih ht).mono ?_
    rw [List.length_append]
    omega
  | @reference out copied final i j m n lengthWord distanceWord rest hi hlengthWord hm hj
      hdistanceWord hn hlength hrepeats hrest ih =>
    simp only [List.append_assoc] at hs
    have hpos := hlengthWord.length_pos
    refine ((step_reference hliterals hdistances hi hlengthWord hm hj hdistanceWord hn hlength
      hrepeats hs).trans fun t ht => ih ht).mono ?_
    simp only [List.length_append]
    omega

end Symbol

end Mtproto.Gzip
