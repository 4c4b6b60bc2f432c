import Mathlib.Tactic.Common
import Mtproto.Gzip.Pack
import Mtproto.Proofs.GzipMembers
import Mtproto.Schema.Service

/-!
# What a packer writes

`Gzip.pack` is a packer of few means: a segment that repeats what is some way back is written as
references of the greatest length, and all others are stored.  What it writes is a member
(`isMember_pack`), so there is a member for all data.

For a compressed message it does not matter which packer has written its blob.  If that is a member,
then the message is recognised, and the data come out of it within every limit that they keep to.

* `blocks_blocksFrom`: the blocks of the packer follow the grammar of blocks.
* `gzipPackedWith_unpacks`: for every packer that writes members, this one included.
* `unpackAgain_eq`: the session inflates with its own limit, and that is no different.
-/

namespace Mtproto.Gzip

/-! ## 1. References of the greatest length -/

theorem isWord_ended : IsWord fixedLengths 256 (bitsOf 7 0) :=
  ⟨7, by decide, by decide +kernel, by decide +kernel⟩

theorem isWord_longest : IsWord fixedLengths 285 (bitsOf 8 163) :=
  ⟨8, by decide, by decide +kernel, by decide +kernel⟩

/-- The distance of a reference, and its bits. -/
theorem exists_distance {distance : Nat} (hnear : 16385 ≤ distance) (hfar : distance < 32769) :
    ∃ j n word, j < 30 ∧ IsWord fixedDistanceLengths j word ∧ n < 2 ^ distanceExtra j ∧
      distance = distanceBase j + n ∧
      bitsOf 26 (referenceBits distance) = bitsOf 8 163 ++ (word ++ bitsOf (distanceExtra j) n) := by
  have hshift : ∀ word < 2 ^ 5, ∀ n < 2 ^ 13, bitsOf 26 (163 + (word <<< 8) + (n <<< 13)) =
      bitsOf 8 163 ++ (bitsOf 5 word ++ bitsOf 13 n) := by
    intro word hword n hn
    rw [← bitsOf_add_shift hword, ← bitsOf_add_shift (by decide : 163 < 2 ^ 8)]
    congr 1
    rw [Nat.shiftLeft_eq, Nat.shiftLeft_eq]
    omega
  unfold referenceBits
  split
  · exact ⟨28, distance - 16385, bitsOf 5 7, by decide,
      ⟨5, by decide, by decide +kernel, by decide +kernel⟩,
      show distance - 16385 < 2 ^ 13 by omega,
      show distance = 16385 + (distance - 16385) by omega,
      hshift 7 (by decide) _ (by omega)⟩
  · exact ⟨29, distance - 24577, bitsOf 5 23, by decide,
      ⟨5, by decide, by decide +kernel, by decide +kernel⟩,
      show distance - 24577 < 2 ^ 13 by omega,
      show distance = 24577 + (distance - 24577) by omega,
      hshift 23 (by decide) _ (by omega)⟩

/-- A reference of the greatest length. -/
theorem symbols_longest {out copied final : Bytes} {rest : List Bool} {distance : Nat}
    (hnear : 16385 ≤ distance) (hfar : distance < 32769) (hlength : copied.length = 258)
    (hrepeats : Repeats out copied distance)
    (hrest : Symbols fixedLengths fixedDistanceLengths (out ++ copied) rest final) :
    Symbols fixedLengths fixedDistanceLengths out (bitsOf 26 (referenceBits distance) ++ rest)
      final := by
  obtain ⟨j, n, word, hj, hword, hn, rfl, hbits⟩ := exists_distance hnear hfar
  rw [hbits, List.append_assoc, List.append_assoc]
  exact .reference (i := 28) (m := 0) (by decide) isWord_longest Nat.one_pos hj hword hn hlength
    hrepeats hrest

/-- Bytes of the data that are equal to those so many places before them. -/
theorem repeats_of_getElem? {data : Bytes} {start distance n : Nat} (hreach : distance ≤ start)
    (hall : start + n ≤ data.length)
    (hback : ∀ i < n, data[start + i]? = data[start + i - distance]?) :
    Repeats (data.take start) ((data.drop start).take n) distance := by
  have hstart : (data.take start).length = start := List.length_take_of_le (by omega)
  have hlength : ((data.drop start).take n).length = n :=
    List.length_take_of_le (by rw [List.length_drop]; omega)
  constructor
  · rw [hstart]
    exact hreach
  · intro i hi
    rw [hlength] at hi
    rw [hstart, ← List.take_add, List.getElem?_take_of_lt (by omega),
      List.getElem?_take_of_lt (by omega)]
    exact hback i hi

/-- The bits of references to the same distance, as a number. -/
def referencesTo (distance n : Nat) : Nat :=
  (List.replicate n (referenceBits distance)).foldl
    (fun bits reference => (bits <<< 26) + reference) 0

theorem referencesTo_succ (distance n : Nat) :
    referencesTo distance (n + 1) = referenceBits distance + 2 ^ 26 * referencesTo distance n := by
  rw [referencesTo, List.replicate_succ', List.foldl_append, ← referencesTo]
  simp only [List.foldl_cons, List.foldl_nil, Nat.shiftLeft_eq]
  omega

theorem referenceBits_lt {distance : Nat} (h : distance < 32769) :
    referenceBits distance < 2 ^ 26 := by
  unfold referenceBits
  split <;> simp only [Nat.shiftLeft_eq] <;> omega

theorem referencesTo_lt {distance : Nat} (h : distance < 32769) (n : Nat) :
    referencesTo distance n < 2 ^ (26 * n) := by
  induction n with
  | zero => exact Nat.one_pos
  | succ n ih =>
    have hfirst := referenceBits_lt h
    rw [referencesTo_succ, Nat.mul_succ, Nat.add_comm (26 * n), Nat.pow_add]
    omega

theorem referencesTo_div {distance : Nat} (h : distance < 32769) (n k : Nat) :
    referencesTo distance n / 2 ^ (26 * n + k) = 0 :=
  Nat.div_eq_of_lt (Nat.lt_of_lt_of_le (referencesTo_lt h n)
    (Nat.pow_le_pow_right Nat.two_pos (Nat.le_add_right _ _)))

/-- References in a row, and the end of the block. -/
theorem symbols_referencesTo {data : Bytes} {distance : Nat} (hnear : 16385 ≤ distance)
    (hfar : distance < 32769) (n start : Nat) (hreach : distance ≤ start)
    (hall : start + 258 * n ≤ data.length)
    (hback : ∀ i < 258 * n, data[start + i]? = data[start + i - distance]?) :
    Symbols fixedLengths fixedDistanceLengths (data.take start)
      (bitsOf (26 * n + 7) (referencesTo distance n)) (data.take (start + 258 * n)) := by
  induction n generalizing start with
  | zero => exact .ended isWord_ended
  | succ n ih =>
    -- the reference that was added last has the lowest bits, and stands first
    have hbits : bitsOf (26 * (n + 1) + 7) (referencesTo distance (n + 1)) =
        bitsOf 26 (referenceBits distance) ++ bitsOf (26 * n + 7) (referencesTo distance n) := by
      have hcount : 26 * (n + 1) + 7 = 26 + (26 * n + 7) := by omega
      rw [hcount, referencesTo_succ, bitsOf_add_shift (referenceBits_lt hfar)]
    have hend : start + 258 + 258 * n = start + 258 * (n + 1) := by omega
    rw [← hend] at hall ⊢
    rw [Nat.mul_succ] at hback
    have hfirst : start + 258 ≤ data.length := Nat.le_of_add_right_le hall
    have hnext := ih (start + 258) (by omega) hall fun i hi => by
      have hi' := hback (258 + i) (by omega)
      rwa [← Nat.add_assoc] at hi'
    have hcut : data.take (start + 258) = data.take start ++ (data.drop start).take 258 :=
      List.take_add
    have hlength : ((data.drop start).take 258).length = 258 :=
      List.length_take_of_le (List.length_drop ▸ Nat.le_sub_of_add_le' hfirst)
    rw [hcut] at hnext
    rw [hbits]
    exact symbols_longest hnear hfar hlength (repeats_of_getElem? hreach hfirst
      fun i hi => hback i (by omega)) hnext

/-! ## 2. Blocks -/

/-- A stored block that starts at a whole byte. -/
theorem block_storedBlock {start : Nat} (hstart : start % 8 = 0) (out : Bytes) (last : Bool)
    {block : Bytes} (hlength : block.length < 2 ^ 16) :
    Block start out last (bitText (storedBlock last block)) (out ++ block) := by
  have hfirst : bitsOf 8 (if last then 1 else 0 : UInt8).toNat =
      [last, false, false] ++ List.replicate 5 false := by
    cases last <;> rfl
  rw [storedBlock, bitText_cons, hfirst, List.append_assoc]
  exact .stored (by decide) (by simp; omega) hlength

/-- An empty stored block, two bits behind a whole byte. -/
theorem block_empty {start : Nat} (hstart : start % 8 = 2) (out : Bytes) :
    Block start out false ([false, false, false] ++ ([false, false, false] ++
      bitText (Bytes.le 4 0xFFFF0000))) out := by
  have hstored := @Block.stored start out false [false, false, false] [] (by decide)
    (by simp; omega) (by decide)
  rwa [List.append_nil out] at hstored

/-- The bits of a block of references: its header, the references, and an empty stored block. -/
theorem bitText_referenceBlock {distance : Nat} (hfar : distance < 32769) :
    bitText (referenceBlock distance) =
      ([false, true, false] ++ bitsOf (26 * 128 + 7) (referencesTo distance 128)) ++
        ([false, false, false] ++ ([false, false, false] ++ bitText (Bytes.le 4 0xFFFF0000))) := by
  have hbits : bitsOf (8 * 418) (2 + (referencesTo distance 128 <<< 3)) =
      bitsOf 3 2 ++ (bitsOf (26 * 128 + 7) (referencesTo distance 128) ++ bitsOf 6 0) := by
    rw [← referencesTo_div hfar 128 7, ← bitsOf_add, ← bitsOf_add_shift (by decide : 2 < 2 ^ 3),
      Nat.shiftLeft_eq, Nat.mul_comm (2 ^ 3)]
  rw [referenceBlock, ← referencesTo, bitText_append, bitText_le, hbits, List.append_assoc,
    List.append_assoc, List.append_assoc]
  rfl

/-- A block of references, for a segment that repeats what is so far back. -/
theorem blocks_referenceBlock {data rest final : Bytes} {start position distance : Nat}
    (hstart : start % 8 = 0) (hnear : 16385 ≤ distance) (hfar : distance < 32769)
    (hreach : distance ≤ position) (hall : position + segmentLength ≤ data.length)
    (hback : ∀ i < segmentLength, data[position + i]? = data[position + i - distance]?)
    (hrest : Blocks (start + (bitText (referenceBlock distance)).length)
      (data.take (position + segmentLength)) (bitText rest) final) :
    Blocks start (data.take position) (bitText (referenceBlock distance ++ rest)) final := by
  have hsymbols := symbols_referencesTo hnear hfar 128 position hreach hall hback
  rw [bitText_append]
  rw [bitText_referenceBlock hfar] at hrest ⊢
  rw [List.append_assoc]
  -- 3338 bits of references, which is two more than whole bytes
  refine .next (.fixed hsymbols) (.next (block_empty ?_ _) ?_)
  · simp
    omega
  · rw [Nat.add_assoc, ← List.length_append]
    exact hrest

theorem getElem?_of_repeats {data : Array UInt8} {start distance n : Nat}
    (h : repeats data start distance n = true) (hall : start + n ≤ data.size) :
    ∀ i < n, data.toList[start + i]? = data.toList[start + i - distance]? := by
  induction n with
  | zero =>
    intro i hi
    omega
  | succ n ih =>
    rw [repeats, Bool.and_eq_true, beq_iff_eq] at h
    intro i hi
    rcases Nat.lt_succ_iff_lt_or_eq.mp hi with hlt | rfl
    · exact ih h.2 (by omega) i hlt
    · have hbyte := h.1
      rw [Array.getD_eq_getD_getElem?, Array.getD_eq_getD_getElem?,
        Array.getElem?_eq_getElem (by omega), Array.getElem?_eq_getElem (by omega)] at hbyte
      rw [Array.getElem?_toList, Array.getElem?_toList, Array.getElem?_eq_getElem (by omega),
        Array.getElem?_eq_getElem (by omega)]
      exact congrArg some hbyte

/-- What a segment is found to repeat. -/
theorem repeats_of_repeatDistance? {data : Array UInt8} {start distance : Nat}
    (h : repeatDistance? data start = some distance) :
    16385 ≤ distance ∧ distance < 32769 ∧ distance ≤ start ∧
      repeats data start distance segmentLength = true := by
  have hmem := List.mem_range'_1.mp (List.mem_of_find?_eq_some h)
  have hfound := List.find?_some h
  simp only [Bool.and_eq_true, decide_eq_true_eq] at hfound
  exact ⟨hmem.1, hmem.2, hfound.1, hfound.2⟩

theorem toList_segment (data : Array UInt8) (start n : Nat) :
    (data.extract start (start + n)).toList = (data.toList.drop start).take n := by
  simp [List.extract_eq_take_drop]

/-- **The blocks are those of the data**, if they start at a whole byte. -/
theorem blocks_blocksFrom (data : Array UInt8) (position : Nat) {start : Nat}
    (hstart : start % 8 = 0) (hposition : position ≤ data.size) :
    Blocks start (data.toList.take position) (bitText (blocksFrom data position)) data.toList := by
  induction position using blocksFrom.induct data generalizing start with
  | case1 position hlast =>
    have hlength : (data.toList.drop position).length < 2 ^ 16 := by
      rw [List.length_drop, Array.length_toList]
      exact Nat.lt_of_le_of_lt (by omega) (by decide : segmentLength < 2 ^ 16)
    have hblock := block_storedBlock hstart (data.toList.take position) true hlength
    rw [List.take_append_drop] at hblock
    have hsegment := toList_segment data position (data.size - position)
    rw [Nat.add_sub_cancel' hposition, List.take_of_length_le (by simp)] at hsegment
    rw [blocksFrom, if_pos hlast, hsegment]
    exact .last hblock
  | case2 position hmore ih =>
    have hall : position + segmentLength ≤ data.toList.length := by
      rw [Array.length_toList]
      omega
    rw [blocksFrom, if_neg hmore]
    dsimp only
    cases hrepeat : repeatDistance? data position with
    | some distance =>
      obtain ⟨hnear, hfar, hreach, hrepeats⟩ := repeats_of_repeatDistance? hrepeat
      refine blocks_referenceBlock hstart hnear hfar hreach hall
        (getElem?_of_repeats hrepeats hall) (ih ?_ hall)
      rw [length_bitText]
      omega
    | none =>
      have hlength : ((data.toList.drop position).take segmentLength).length < 2 ^ 16 :=
        Nat.lt_of_le_of_lt (List.length_take_le _ _) (by decide)
      have hblock := block_storedBlock hstart (data.toList.take position) false hlength
      rw [← List.take_add] at hblock
      dsimp only
      rw [toList_segment, bitText_append]
      refine .next hblock (ih ?_ hall)
      rw [length_bitText]
      omega

/-! ## 3. Members -/

theorem isHeader_plainHeader : IsHeader plainHeader :=
  show IsHeader ([0x1f, 0x8b, 8, 0] ++ ([0, 0, 0, 0, 0, 0xff] ++ ([] ++ ([] ++ []))) ++ []) from
    .intro rfl rfl rfl rfl rfl rfl

/-- **What the packer writes is a member** that holds the data. -/
theorem isMember_pack (data : Bytes) : IsMember (pack data) data :=
  .intro isHeader_plainHeader ⟨bitText (blocksFrom data.toArray 0), [], (List.append_nil _).symm,
    by decide, blocks_blocksFrom data.toArray 0 rfl (Nat.zero_le _)⟩

/-- Data of no more than a segment are stored. -/
theorem pack_of_le {data : Bytes} (h : data.length ≤ segmentLength) :
    pack data = ServiceMessage.storedMember data := by
  have hlast : data.toArray.size ≤ 0 + segmentLength := by
    rw [List.size_toArray]
    omega
  rw [pack, blocksFrom, if_pos hlast, List.extract_toArray, List.extract_eq_take_drop]
  simp [storedBlock, plainHeader, ServiceMessage.storedMember, ServiceMessage.storedText,
    ServiceMessage.trailerText]

end Mtproto.Gzip

/-! ## 4. Compressed messages -/

namespace Mtproto.ServiceMessage

open Wire

/-- Data as a compressed message, with the blob of any packer. -/
def gzipPackedWith (pack : Bytes → Bytes) (data : Bytes) : Bytes :=
  match ((Writer.empty.word32 gzipPackedTag).blob (pack data)).finish with
  | .ok bs => bs
  | .error _ => []

theorem gzipPackedWith_pack : gzipPackedWith Gzip.pack = gzipPackedBytes := rfl

theorem gzipPackedWith_eq {pack : Bytes → Bytes} {data : Bytes}
    (h : (pack data).length ≤ maxBlobLength) :
    gzipPackedWith pack data = packedText (pack data) := by
  have hwritten := ((Writes.word32 gzipPackedTag).append (.blob h)).finish
  unfold gzipPackedWith
  rw [hwritten]
  rfl

/-- **A compressed message is unpacked to its data**, whatever packer has made it, within every
limit that they keep to, and refused within every other. -/
theorem gzipPackedWith_unpacks {pack : Bytes → Bytes} {data : Bytes}
    (hpack : Gzip.IsMember (pack data) data) (hlength : (pack data).length ≤ maxBlobLength) :
    classify (gzipPackedWith pack data) = .ok (some (.gzipPacked (pack data))) ∧
      ∀ limit, limit + 1 < UInt64.size →
        (data.length ≤ limit → Gzip.checkedUnpack (pack data) limit = .ok (.ok data)) ∧
        (limit < data.length → Gzip.checkedUnpack (pack data) limit =
          .ok (.error (.invalidValue (.inflatesPast limit)))) := by
  refine ⟨?_, fun limit hlimit => ⟨fun hkeeps => ?_, fun hexceeds => ?_⟩⟩
  · rw [gzipPackedWith_eq hlength, classify_packedText hlength]
  · rw [Gzip.checkedUnpack_of_isMember hpack hlimit, if_pos hkeeps]
  · rw [Gzip.checkedUnpack_of_isMember hpack hlimit, if_neg (Nat.not_le.mpr hexceeds)]

/-- Three bytes, as the packer stores them, with a limit of three and of two. -/
theorem gzipPackedWith_unpacks_stored :
    Gzip.IsMember (Gzip.pack [7, 8, 9]) [7, 8, 9] ∧
      classify (gzipPackedWith Gzip.pack [7, 8, 9]) =
        .ok (some (.gzipPacked (Gzip.pack [7, 8, 9]))) ∧
      Gzip.checkedUnpack (Gzip.pack [7, 8, 9]) 3 = .ok (.ok [7, 8, 9]) ∧
      Gzip.checkedUnpack (Gzip.pack [7, 8, 9]) 2 =
        .ok (.error (.invalidValue (.inflatesPast 2))) := by
  have hmember := Gzip.isMember_pack [7, 8, 9]
  have hlength : (Gzip.pack [7, 8, 9]).length ≤ maxBlobLength := by
    rw [Gzip.pack_of_le (by decide), length_storedMember]
    decide
  obtain ⟨hclassify, hunpack⟩ := gzipPackedWith_unpacks hmember hlength
  exact ⟨hmember, hclassify, (hunpack 3 (by decide)).1 (by decide),
    (hunpack 2 (by decide)).2 (by decide)⟩

/-- **What has been packed is unpacked again**, if it fits into a blob. -/
theorem unpackAgain_eq {data : Bytes} (h : (Gzip.pack data).length ≤ maxBlobLength) {limit : Nat}
    (hlimit : limit + 1 < UInt64.size) :
    unpackAgain data limit = .ok (if data.length ≤ limit then .ok data
      else .error (.invalidValue (.inflatesPast limit))) := by
  rw [unpackAgain, ← gzipPackedWith_pack, gzipPackedWith_eq h, classify_packedText h]
  exact Gzip.checkedUnpack_of_isMember (Gzip.isMember_pack data) hlimit

end Mtproto.ServiceMessage
