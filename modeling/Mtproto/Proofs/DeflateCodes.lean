import Mathlib.Order.Basic
import Mathlib.Tactic.Common
import Mathlib.Tactic.Ring
import Mtproto.Gzip.Inflate
import Mtproto.Proofs.DeflateBits

/-!
# Canonical prefix codes

`PrefixCode.ofLengths` makes a code of the lengths of its words.  The words of one length are
consecutive numbers, in the order of the symbols, and the first of them follows on from the last one
of the length before (`firstWord`).  A word stands most significant bit first (`IsWord`).

* `decodes_word`: if the words take no more than all the room there is (`Fits`), then each of them
  is decoded to its symbol, whatever follows it.  The reason is that up to the length of the word,
  what has been read is never below the words of that length.
* `isComplete_ofLengths`, `isSparse_ofLengths`: which lengths the decoder accepts.  A code is
  complete if its words take all the room; a block may also have a code of one word of one bit, or
  of none (`IsCode`).
* `blockCode_eq`, `lengthCode_eq`: these are the codes of a block, and of the lengths in front of
  it.
-/

namespace Mtproto.Gzip

open Code (maxLength)

/-! ## 1. Words -/

/-- How many words have a length.  A symbol of length zero has no word. -/
def wordCount (lengths : List Nat) (l : Nat) : Nat :=
  if l = 0 then 0 else lengths.count l

/-- The first word of a length, as a number. -/
def firstWord (lengths : List Nat) : Nat → Nat
  | 0 => 0
  | l + 1 => 2 * (firstWord lengths l + wordCount lengths l)

/-- The low `l` bits of a number, most significant first. -/
def wordBits : (l : Nat) → Nat → List Bool
  | 0, _ => []
  | l + 1, w => w.testBit l :: wordBits l w

/-- These bits are the word of a symbol: as many symbols before it as have its length come between
the first word of that length and its own. -/
def IsWord (lengths : List Nat) (symbol : Nat) (bits : List Bool) : Prop :=
  ∃ l, l ≠ 0 ∧ lengths[symbol]? = some l ∧
    bits = wordBits l (firstWord lengths l + (lengths.take symbol).count l)

/-- The room that words take: a word of one bit takes half of it, each bit more half of that. -/
def share (lengths : List Nat) : Nat :=
  ((lengths.filter (· ≠ 0)).map fun l => 2 ^ (maxLength - l)).sum

/-- There is room for all words. -/
structure Fits (lengths : List Nat) : Prop where
  short : ∀ l ∈ lengths, l ≤ maxLength
  share_le : share lengths ≤ 2 ^ maxLength

/-- The words take all the room. -/
structure IsComplete (lengths : List Nat) : Prop where
  short : ∀ l ∈ lengths, l ≤ maxLength
  share_eq : share lengths = 2 ^ maxLength

/-- The codes that a block may have. -/
structure IsCode (lengths : List Nat) : Prop where
  short : ∀ l ∈ lengths, l ≤ maxLength
  share_eq : share lengths = 2 ^ maxLength ∨ lengths.filter (· ≠ 0) = [] ∨
    lengths.filter (· ≠ 0) = [1]

theorem IsComplete.fits {lengths : List Nat} (h : IsComplete lengths) : Fits lengths :=
  ⟨h.short, h.share_eq.le⟩

/-- The code of no symbol and the code of a single one take no more than half of the room. -/
theorem IsCode.fits {lengths : List Nat} (h : IsCode lengths) : Fits lengths := by
  refine ⟨h.short, ?_⟩
  rcases h.share_eq with hall | hnone | hone
  · exact hall.le
  · rw [share, hnone]
    decide
  · rw [share, hone]
    decide

@[simp] theorem length_wordBits (l w : Nat) : (wordBits l w).length = l := by
  induction l with
  | zero => rfl
  | succ l ih => rw [wordBits, List.length_cons, ih]

/-- A symbol without a word cannot be written. -/
theorem IsWord.length_pos {lengths : List Nat} {symbol : Nat} {bits : List Bool}
    (h : IsWord lengths symbol bits) : 0 < bits.length := by
  obtain ⟨l, hl, -, rfl⟩ := h
  rw [length_wordBits]
  exact Nat.pos_of_ne_zero hl

/-! ## 2. Room -/

/-- The room that a word takes, if it is not longer than `k`. -/
def roomOf (k l : Nat) : Nat :=
  if l ≠ 0 ∧ l ≤ k then 2 ^ (maxLength - l) else 0

/-- The room that the words up to a length take. -/
def shareUpTo (lengths : List Nat) (k : Nat) : Nat :=
  (lengths.map (roomOf k)).sum

theorem shareUpTo_cons (l : Nat) (lengths : List Nat) (k : Nat) :
    shareUpTo (l :: lengths) k = roomOf k l + shareUpTo lengths k := by
  rw [shareUpTo, List.map_cons, List.sum_cons, shareUpTo]

theorem share_cons (l : Nat) (lengths : List Nat) :
    share (l :: lengths) = (if l ≠ 0 then 2 ^ (maxLength - l) else 0) + share lengths := by
  by_cases hzero : l = 0
  · simp [share, hzero]
  · simp [share, hzero]

theorem wordCount_of_ne {l : Nat} (h : l ≠ 0) (lengths : List Nat) :
    wordCount lengths l = lengths.count l :=
  if_neg h

theorem roomOf_succ (k l : Nat) :
    roomOf (k + 1) l = roomOf k l + if l = k + 1 then 2 ^ (maxLength - (k + 1)) else 0 := by
  unfold roomOf
  rcases Nat.lt_trichotomy l (k + 1) with hlt | rfl | hgt
  · have hone : l ≤ k := by omega
    have hnext : l ≤ k + 1 := by omega
    simp [hone, hnext, hlt.ne]
  · simp
  · have hone : ¬ l ≤ k := by omega
    have hnext : ¬ l ≤ k + 1 := by omega
    simp [hone, hnext, hgt.ne']

/-- The room up to a length is that up to the length before, and that of the words in between. -/
theorem shareUpTo_succ (lengths : List Nat) (k : Nat) :
    shareUpTo lengths (k + 1) =
      shareUpTo lengths k + lengths.count (k + 1) * 2 ^ (maxLength - (k + 1)) := by
  induction lengths with
  | nil => simp [shareUpTo]
  | cons l lengths ih =>
    rw [shareUpTo_cons, shareUpTo_cons, ih, roomOf_succ, List.count_cons]
    by_cases hl : l = k + 1
    · simp only [hl, beq_self_eq_true, if_true, Nat.add_mul]
      omega
    · simp only [hl, beq_iff_eq, if_false, Nat.add_zero]
      omega

/-- The words up to a length, and the room that they take. -/
theorem firstWord_add_mul (lengths : List Nat) {k : Nat} (h : k ≤ maxLength) :
    (firstWord lengths k + wordCount lengths k) * 2 ^ (maxLength - k) = shareUpTo lengths k := by
  induction k with
  | zero =>
    have hnone : ∀ lengths : List Nat, shareUpTo lengths 0 = 0 := by
      intro lengths
      induction lengths with
      | nil => rfl
      | cons l lengths ih =>
        rw [shareUpTo_cons, ih, roomOf, if_neg (by omega)]
    rw [hnone, firstWord, wordCount, if_pos rfl, Nat.zero_mul]
  | succ k ih =>
    have hhalf : 2 ^ (maxLength - k) = 2 * 2 ^ (maxLength - (k + 1)) := by
      rw [← Nat.pow_succ']
      congr 1
      omega
    rw [shareUpTo_succ, ← ih (by omega), hhalf, firstWord, wordCount_of_ne (Nat.succ_ne_zero k)]
    ring

/-- Some of the words take no more room than all of them. -/
theorem shareUpTo_le (lengths : List Nat) (k : Nat) : shareUpTo lengths k ≤ share lengths := by
  induction lengths with
  | nil => exact Nat.le_refl _
  | cons l lengths ih =>
    have hroom : roomOf k l ≤ if l ≠ 0 then 2 ^ (maxLength - l) else 0 := by
      unfold roomOf
      split <;> split <;> simp_all
    rw [shareUpTo_cons, share_cons]
    exact Nat.add_le_add hroom ih

theorem shareUpTo_maxLength {lengths : List Nat} (h : ∀ l ∈ lengths, l ≤ maxLength) :
    shareUpTo lengths maxLength = share lengths := by
  induction lengths with
  | nil => rfl
  | cons l lengths ih =>
    have hl := h l List.mem_cons_self
    rw [shareUpTo_cons, share_cons, ih fun k hk => h k (List.mem_cons_of_mem l hk), roomOf]
    simp only [hl, and_true]

/-- Words have no more bits than their length. -/
theorem Fits.firstWord_add_le {lengths : List Nat} (h : Fits lengths) {k : Nat}
    (hk : k ≤ maxLength) : firstWord lengths k + wordCount lengths k ≤ 2 ^ k := by
  have hall : (firstWord lengths k + wordCount lengths k) * 2 ^ (maxLength - k) ≤
      2 ^ k * 2 ^ (maxLength - k) := by
    rw [firstWord_add_mul lengths hk, ← Nat.pow_add, Nat.add_sub_cancel' hk]
    exact (shareUpTo_le lengths k).trans h.share_le
  exact Nat.le_of_mul_le_mul_right hall (Nat.two_pow_pos _)

/-- What has been read of a longer word is not below the words of a length. -/
theorem firstWord_mul_le (lengths : List Nat) {k l : Nat} (h : k < l) :
    (firstWord lengths k + wordCount lengths k) * 2 ^ (l - k) ≤ firstWord lengths l := by
  induction l with
  | zero => omega
  | succ l ih =>
    rw [firstWord]
    rcases Nat.lt_or_ge k l with hlt | hge
    · have hdouble : 2 ^ (l + 1 - k) = 2 ^ (l - k) * 2 := by
        rw [← Nat.pow_succ]
        congr 1
        omega
      have hbelow := ih hlt
      rw [hdouble, ← Nat.mul_assoc]
      omega
    · obtain rfl : k = l := by omega
      rw [Nat.add_sub_cancel_left, Nat.pow_one, Nat.mul_comm]

/-! ## 3. Symbols -/

/-- The symbols with words of one length, the first of the list counted as `start`. -/
def groupFrom (start : Nat) (lengths : List Nat) (l : Nat) : List Nat :=
  ((lengths.zipIdx start).filter fun e => e.1 = l).map (·.2)

theorem groupFrom_cons (start x : Nat) (lengths : List Nat) (l : Nat) :
    groupFrom start (x :: lengths) l =
      if x = l then start :: groupFrom (start + 1) lengths l
      else groupFrom (start + 1) lengths l := by
  unfold groupFrom
  rw [List.zipIdx_cons]
  by_cases hx : x = l
  · simp [hx]
  · simp [hx]

/-- There are as many symbols of a length as words of it. -/
theorem length_groupFrom (start : Nat) (lengths : List Nat) (l : Nat) :
    (groupFrom start lengths l).length = lengths.count l := by
  induction lengths generalizing start with
  | nil => rfl
  | cons x lengths ih =>
    rw [groupFrom_cons, List.count_cons]
    by_cases hx : x = l
    · simp [hx, ih]
    · simp [hx, ih]

/-- Where a symbol stands among those with words of its length. -/
theorem getElem?_groupFrom {start symbol l : Nat} {lengths : List Nat}
    (h : lengths[symbol]? = some l) :
    (groupFrom start lengths l)[(lengths.take symbol).count l]? = some (start + symbol) := by
  induction lengths generalizing start symbol with
  | nil => cases h
  | cons x lengths ih =>
    rw [groupFrom_cons]
    cases symbol with
    | zero =>
      obtain rfl : x = l := Option.some.inj h
      simp
    | succ symbol =>
      have hrest := @ih (start + 1) symbol h
      rw [Nat.add_assoc, Nat.add_comm 1] at hrest
      by_cases hx : x = l
      · simpa [hx] using hrest
      · simpa [hx] using hrest

/-- The symbols with words of one length. -/
abbrev group (lengths : List Nat) (l : Nat) : List Nat :=
  groupFrom 0 lengths l

/-- The table of a code: how many words there are of each length, and the symbols in order of their
words. -/
theorem ofLengths_eq (lengths : List Nat) :
    Code.ofLengths lengths =
      { counts := (List.range' 1 maxLength).map fun l => (group lengths l).length
        symbols := ((List.range' 1 maxLength).map (group lengths)).flatten.toArray } := by
  have hrange : List.range' 1 maxLength = (List.range maxLength).map (· + 1) := by decide
  rw [hrange]
  simp [Code.ofLengths, group, groupFrom, List.map_map, Function.comp_def]

/-! ## 4. Decoding -/

/-- One bit more of what has been read. -/
theorem div_two_pow (w d : Nat) : w / 2 ^ (d + 1) * 2 + (w.testBit d).toNat = w / 2 ^ d := by
  rw [Nat.toNat_testBit, Nat.pow_succ, ← Nat.div_div_eq_div_mul]
  exact Nat.div_add_mod' _ 2

section Steps

variable {symbols : Array Nat} {n word first index bit : Nat} {bits bits' : Bits}

/-- Decoding stops at the length at which the bits read so far are a word. -/
theorem decodeFrom_found (counts : List Nat) (hread : bits.read 1 = .ok (bit, bits'))
    (hfound : word + bit < first + n) :
    Code.decodeFrom symbols (n :: counts) word first index bits =
      .ok (symbols.getD (index + (word + bit - first)) 0, bits') := by
  rw [Code.decodeFrom, hread]
  exact if_pos hfound

/-- A word that is beyond all words of its length is read on by one bit. -/
theorem decodeFrom_next (counts : List Nat) (hread : bits.read 1 = .ok (bit, bits'))
    (hlonger : first + n ≤ word + bit) (hmore : index + n < symbols.size) :
    Code.decodeFrom symbols (n :: counts) word first index bits =
      Code.decodeFrom symbols counts ((word + bit) * 2) ((first + n) * 2) (index + n) bits' := by
  rw [Code.decodeFrom, hread]
  exact (if_neg (Nat.not_lt.mpr hlonger)).trans (if_neg (Nat.not_le.mpr hmore))

end Steps

section Word

variable {lengths : List Nat} {symbol target : Nat}

/-- The word of a symbol, as a number. -/
def wordOf (lengths : List Nat) (symbol target : Nat) : Nat :=
  firstWord lengths target + (lengths.take symbol).count target

/-- A symbol comes after those that stand before it among the symbols of its length. -/
theorem count_take_lt (hsymbol : lengths[symbol]? = some target) :
    (lengths.take symbol).count target < (group lengths target).length :=
  (List.getElem?_eq_some_iff.mp (getElem?_groupFrom hsymbol)).1

/-- The search for a word, from the words of length `l` on.  The symbols with shorter words are
`before`, and twice what has been read of the word is what the search starts with. -/
theorem decodes_from (hsymbol : lengths[symbol]? = some target) (n : Nat) {l : Nat} (hl : l ≠ 0)
    (hfrom : l ≤ target) (hto : target < l + n) (before : List Nat) :
    Decodes
      (Code.decodeFrom (before ++ ((List.range' l n).map (group lengths)).flatten).toArray
        ((List.range' l n).map fun k => (group lengths k).length)
        (wordOf lengths symbol target / 2 ^ (target - l + 1) * 2) (firstWord lengths l)
        before.length)
      (wordBits (target - l + 1) (wordOf lengths symbol target)) symbol := by
  induction n generalizing l before with
  | zero => omega
  | succ n ih =>
    have hplace := count_take_lt hsymbol
    have hcount : (group lengths l).length = wordCount lengths l := by
      rw [length_groupFrom, wordCount_of_ne hl]
    have hbit := div_two_pow (wordOf lengths symbol target) (target - l)
    rw [List.range'_succ, List.map_cons, List.map_cons, List.flatten_cons]
    intro bits hbits tail htext
    obtain ⟨bits', (hread : bits.read 1 = _), htidy, hrest⟩ := decodes_bit _ bits hbits _ htext
    rcases Nat.lt_or_ge l target with hlt | hge
    · -- what has been read is not below the words of this length, and there are longer ones
      have hlonger : firstWord lengths l + (group lengths l).length ≤
          wordOf lengths symbol target / 2 ^ (target - l) := by
        rw [hcount, Nat.le_div_iff_mul_le (Nat.two_pow_pos _)]
        exact (firstWord_mul_le lengths hlt).trans (Nat.le_add_right _ _)
      have hmember : group lengths target ∈ (List.range' (l + 1) n).map (group lengths) :=
        List.mem_map_of_mem (List.mem_range'_1.mpr (by omega))
      have hlong := (List.sublist_flatten_of_mem hmember).length_le
      have hmore : before.length + (group lengths l).length < (before ++ (group lengths l ++
          ((List.range' (l + 1) n).map (group lengths)).flatten)).toArray.size := by
        simp only [List.size_toArray, List.length_append]
        omega
      have hsearch := ih (Nat.succ_ne_zero l) hlt (by omega) (before ++ group lengths l)
      have hlevel : target - (l + 1) + 1 = target - l := by omega
      rw [hlevel] at hsearch
      obtain ⟨bits'', hrun, hdone⟩ := hsearch bits' htidy tail hrest
      refine ⟨bits'', ?_, hdone⟩
      rw [decodeFrom_next _ hread (by rw [hbit]; exact hlonger) hmore, hbit]
      rw [List.append_assoc, List.length_append, firstWord, ← hcount, Nat.mul_comm 2] at hrun
      exact hrun
    · obtain rfl : l = target := Nat.le_antisymm hfrom hge
      have hread' : wordOf lengths symbol l / 2 ^ (l - l + 1) * 2 +
          ((wordOf lengths symbol l).testBit (l - l)).toNat = wordOf lengths symbol l := by
        rw [hbit, Nat.sub_self, Nat.pow_zero, Nat.div_one]
      have hfound : wordOf lengths symbol l < firstWord lengths l + (group lengths l).length :=
        Nat.add_lt_add_left hplace _
      refine ⟨bits', ?_, htidy, ?_⟩
      · rw [decodeFrom_found _ hread (by rw [hread']; exact hfound), hread']
        have hat : wordOf lengths symbol l - firstWord lengths l =
            (lengths.take symbol).count l := Nat.add_sub_cancel_left ..
        have hsymbolAt : (before ++ (group lengths l ++
            ((List.range' (l + 1) n).map (group lengths)).flatten))[before.length +
              (lengths.take symbol).count l]? = some symbol := by
          rw [List.getElem?_append_right (Nat.le_add_right _ _), Nat.add_sub_cancel_left,
            List.getElem?_append_left hplace, getElem?_groupFrom hsymbol, Nat.zero_add]
        rw [hat, Array.getD_eq_getD_getElem?, List.getElem?_toArray, hsymbolAt]
        rfl
      · rw [hrest, Nat.sub_self]
        rfl

end Word

/-- **A word is decoded to its symbol**, if there is room for all words. -/
theorem decodes_word {lengths : List Nat} (hfits : Fits lengths) {symbol : Nat} {bits : List Bool}
    (h : IsWord lengths symbol bits) : Decodes (Code.ofLengths lengths).decode bits symbol := by
  obtain ⟨target, hne, hsymbol, rfl⟩ := h
  have hshort := hfits.short target (List.mem_of_getElem? hsymbol)
  have hword : wordOf lengths symbol target < 2 ^ target := by
    have hplace := count_take_lt hsymbol
    rw [length_groupFrom, ← wordCount_of_ne hne lengths] at hplace
    exact Nat.lt_of_lt_of_le (Nat.add_lt_add_left hplace _) (hfits.firstWord_add_le hshort)
  have hsearch := decodes_from hsymbol maxLength Nat.one_ne_zero (Nat.pos_of_ne_zero hne)
    (by omega) []
  have hlevel : target - 1 + 1 = target := by omega
  rw [hlevel, Nat.div_eq_of_lt hword] at hsearch
  rw [ofLengths_eq]
  exact hsearch

/-! ## 5. Codes that are accepted -/

theorem foldl_counts (lengths : List Nat) (k : Nat) :
    ((List.range' 1 k).map fun l => (group lengths l).length).foldl
      (fun total n => (total + n) * 2) 0 = firstWord lengths (k + 1) := by
  induction k with
  | zero => rfl
  | succ k ih =>
    rw [List.range'_1_concat, List.map_append, List.foldl_append, ih, firstWord.eq_def]
    simp only [List.map_cons, List.map_nil, List.foldl_cons, List.foldl_nil, length_groupFrom,
      Nat.add_comm 1 k]
    exact Nat.mul_comm _ _

/-- Words that take all the room are a complete code. -/
theorem isComplete_ofLengths {lengths : List Nat} (h : IsComplete lengths) :
    (Code.ofLengths lengths).isComplete = true := by
  have hall := firstWord_add_mul lengths (Nat.le_refl maxLength)
  rw [shareUpTo_maxLength h.short, h.share_eq, Nat.sub_self, Nat.pow_zero, Nat.mul_one] at hall
  rw [Code.isComplete, ofLengths_eq, decide_eq_true_eq, foldl_counts, firstWord, hall]
  rfl

/-- A code with one word of one bit, or without a word. -/
theorem isSparse_ofLengths {lengths : List Nat}
    (h : lengths.filter (· ≠ 0) = [] ∨ lengths.filter (· ≠ 0) = [1]) :
    (Code.ofLengths lengths).isSparse = true := by
  have hcount : ∀ l, l ≠ 0 →
      (group lengths l).length = (lengths.filter (· ≠ 0)).count l := by
    intro l hl
    rw [length_groupFrom, List.count_filter (by simpa using hl)]
  have hcounts : (Code.ofLengths lengths).counts =
      (List.range' 1 maxLength).map fun l => (lengths.filter (· ≠ 0)).count l := by
    rw [ofLengths_eq]
    exact List.map_congr_left fun l hl => hcount l (by have := List.mem_range'_1.mp hl; omega)
  have hsize : (Code.ofLengths lengths).symbols.size = (Code.ofLengths lengths).counts.sum := by
    rw [ofLengths_eq, List.size_toArray, List.length_flatten, List.map_map]
    rfl
  have hsparse : (Code.ofLengths lengths).isSparse =
      (decide ((Code.ofLengths lengths).symbols.size = 0) ||
        (decide ((Code.ofLengths lengths).symbols.size = 1) &&
          decide ((Code.ofLengths lengths).counts.head? = some 1))) := rfl
  rw [hsparse, hsize, hcounts]
  rcases h with hnone | hone
  · rw [hnone]
    decide
  · rw [hone]
    decide

/-- The code of a block is accepted. -/
theorem blockCode_eq {lengths : List Nat} (h : IsCode lengths) (bits : Bits) :
    Inflater.blockCode lengths bits = .ok (Code.ofLengths lengths) := by
  refine if_pos ?_
  rcases h.share_eq with hall | hsparse
  · rw [isComplete_ofLengths ⟨h.short, hall⟩, Bool.true_or]
  · rw [isSparse_ofLengths hsparse, Bool.or_true]

/-- A complete code of lengths is not refused. -/
theorem lengthCode_eq {lengths : List Nat} (h : IsComplete lengths) (bits : Bits) :
    Inflater.lengthCode lengths bits = .ok (Code.ofLengths lengths) :=
  if_pos (isComplete_ofLengths h)

end Mtproto.Gzip
