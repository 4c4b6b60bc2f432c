import Mathlib.Data.List.TakeWhile
import Mathlib.Tactic.Common
import Mtproto.Proofs.Base64
import Mtproto.Rsa.Key

/-!
# The text form of a key

`RsaKey.ofPem` reads a key from a text: the binary form in base 64, cut into lines, between two
lines of dashes.  How the text is laid out does not matter: where the lines are cut, how they end,
what white space is around them, and which blank lines and lines of dashes stand between them.

`LaidOut content text` says that `text` is a layout of `content`.

* `laidOut_contentLines`: every text is a layout of something.
* `LaidOut.flatten_contentLines`: a content without white space and dashes is the only one that a
  text is a layout of.  Base 64 is such a content (`solid_encode`).
* `ofPem_of_laidOut`: so the key that is read from a layout is the one that the binary form holds.
* `ofPem_eq_ok_iff`: there is no other way to write a key.

White space can be taken away wherever it borders a line, a line feed too, which only makes one more
empty line (`contentLines_blank_cons`, `contentLines_concat_blank`).
-/

namespace Mtproto

namespace Text

/-! ## 1. Lines -/

theorem lines_ne_nil (cs : List Char) : lines cs ≠ [] := by
  cases cs with
  | nil => simp [lines]
  | cons c cs =>
    unfold lines
    split
    · simp
    · split <;> simp

theorem lines_cons_of_ne {c : Char} (hc : c ≠ '\n') (cs : List Char) :
    ∃ l ls, lines cs = l :: ls ∧ lines (c :: cs) = (c :: l) :: ls := by
  cases hlines : lines cs with
  | nil => exact absurd hlines (lines_ne_nil cs)
  | cons l ls => exact ⟨l, ls, rfl, by rw [lines, if_neg hc, hlines]⟩

/-- A line feed separates. -/
theorem lines_append_newline (as bs : List Char) :
    lines (as ++ '\n' :: bs) = lines as ++ lines bs := by
  induction as with
  | nil => rfl
  | cons c as ih =>
    by_cases hc : c = '\n'
    · subst hc
      rw [List.cons_append, lines, if_pos rfl, ih, lines, if_pos rfl, List.cons_append]
    · obtain ⟨l, ls, hlines, hcons⟩ := lines_cons_of_ne hc as
      obtain ⟨l', ls', hlines', hcons'⟩ := lines_cons_of_ne hc (as ++ '\n' :: bs)
      rw [ih, hlines, List.cons_append] at hlines'
      cases hlines'
      rw [List.cons_append, hcons', hcons, List.cons_append]

/-- A text without a line feed is one line. -/
theorem lines_of_not_mem {cs : List Char} (h : '\n' ∉ cs) : lines cs = [cs] := by
  induction cs with
  | nil => rfl
  | cons c cs ih =>
    obtain ⟨hc, hcs⟩ := List.ne_and_not_mem_of_not_mem_cons h
    rw [lines, if_neg (Ne.symm hc), ih hcs]

/-- One more character at the end. -/
theorem lines_concat_of_ne {c : Char} (hc : c ≠ '\n') (cs : List Char) :
    ∃ ls l, lines cs = ls ++ [l] ∧ lines (cs ++ [c]) = ls ++ [l ++ [c]] := by
  induction cs with
  | nil => exact ⟨[], [], rfl, lines_of_not_mem (by simpa using Ne.symm hc)⟩
  | cons d cs ih =>
    obtain ⟨ls, l, hlines, hconcat⟩ := ih
    by_cases hd : d = '\n'
    · refine ⟨[] :: ls, l, ?_, ?_⟩
      · rw [lines, if_pos hd, hlines, List.cons_append]
      · rw [List.cons_append, lines, if_pos hd, hconcat, List.cons_append]
    · cases ls with
      | nil =>
        refine ⟨[], d :: l, ?_, ?_⟩
        · rw [lines, if_neg hd, hlines]
          rfl
        · rw [List.cons_append, lines, if_neg hd, hconcat]
          rfl
      | cons l' ls =>
        refine ⟨(d :: l') :: ls, l, ?_, ?_⟩
        · rw [lines, if_neg hd, hlines]
          rfl
        · rw [List.cons_append, lines, if_neg hd, hconcat]
          rfl

/-! ## 2. White space -/

theorem trim_cons_of_blank {c : Char} (hc : isBlank c) (cs : List Char) :
    trim (c :: cs) = trim cs := by
  rw [trim, List.dropWhile_cons_of_pos hc, trim]

theorem trim_concat_of_blank {c : Char} (hc : isBlank c) (cs : List Char) :
    trim (cs ++ [c]) = trim cs := by
  unfold trim
  rw [List.dropWhile_append]
  split
  · rename_i hempty
    rw [List.isEmpty_iff.mp hempty, List.dropWhile_cons_of_pos hc]
    rfl
  · rw [List.reverse_append, List.reverse_singleton, List.singleton_append,
      List.dropWhile_cons_of_pos hc]

theorem dropWhile_isBlank_eq_self {cs : List Char} (h : ∀ c ∈ cs, isBlank c = false) :
    cs.dropWhile isBlank = cs := by
  cases cs with
  | nil => rfl
  | cons c cs => rw [List.dropWhile_cons_of_neg (by simp [h c])]

theorem trim_eq_self {cs : List Char} (h : ∀ c ∈ cs, isBlank c = false) : trim cs = cs := by
  rw [trim, dropWhile_isBlank_eq_self h, dropWhile_isBlank_eq_self (by simpa using h),
    List.reverse_reverse]

/-- What is taken away is white space. -/
theorem exists_trim (cs : List Char) :
    ∃ before after, (∀ c ∈ before, isBlank c) ∧ (∀ c ∈ after, isBlank c) ∧
      cs = before ++ trim cs ++ after := by
  refine ⟨cs.takeWhile isBlank, ((cs.dropWhile isBlank).reverse.takeWhile isBlank).reverse,
    fun c hc => List.mem_takeWhile_imp hc,
    fun c hc => List.mem_takeWhile_imp (List.mem_reverse.mp hc), ?_⟩
  rw [trim, List.append_assoc, ← List.reverse_append, List.takeWhile_append_dropWhile,
    List.reverse_reverse, List.takeWhile_append_dropWhile]

/-- What a line starts with stays if no white space is in it. -/
theorem prefix_trim_append {cs : List Char} (hcs : cs ≠ []) (h : ∀ c ∈ cs, isBlank c = false)
    (label : List Char) : cs <+: trim (cs ++ label) := by
  have hfront : (cs ++ label).dropWhile isBlank = cs ++ label := by
    rw [List.dropWhile_append, dropWhile_isBlank_eq_self h, if_neg (by simpa using hcs)]
  rw [trim, hfront, List.reverse_append, List.dropWhile_append]
  split
  · have hkept : cs.reverse.dropWhile isBlank = cs.reverse :=
      dropWhile_isBlank_eq_self (by simpa using h)
    simp only [hkept, List.reverse_reverse, List.prefix_rfl]
  · rw [List.reverse_append, List.reverse_reverse]
    exact List.prefix_append ..

end Text

namespace RsaKey

open Text (isBlank lines trim)

/-! ## 3. The lines of the content -/

theorem contentLines_append_newline (as bs : List Char) :
    contentLines (as ++ '\n' :: bs) = contentLines as ++ contentLines bs := by
  simp only [contentLines, Text.lines_append_newline, List.map_append, List.filter_append]

/-- White space in front of a text does not matter. -/
theorem contentLines_blank_cons {c : Char} (hc : isBlank c) (text : List Char) :
    contentLines (c :: text) = contentLines text := by
  by_cases hfeed : c = '\n'
  · subst hfeed
    exact contentLines_append_newline [] text
  · obtain ⟨l, ls, hlines, hcons⟩ := Text.lines_cons_of_ne hfeed text
    rw [contentLines, hcons, contentLines, hlines, List.map_cons, List.map_cons,
      Text.trim_cons_of_blank hc]

/-- Nor does white space behind it. -/
theorem contentLines_concat_blank {c : Char} (hc : isBlank c) (text : List Char) :
    contentLines (text ++ [c]) = contentLines text := by
  by_cases hfeed : c = '\n'
  · subst hfeed
    rw [contentLines_append_newline]
    exact List.append_nil _
  · obtain ⟨ls, l, hlines, hconcat⟩ := Text.lines_concat_of_ne hfeed text
    simp only [contentLines, hconcat, hlines, List.map_append, List.map_cons, List.map_nil,
      Text.trim_concat_of_blank hc]

theorem contentLines_blank_append {before : List Char} (hbefore : ∀ c ∈ before, isBlank c)
    (text : List Char) : contentLines (before ++ text) = contentLines text := by
  induction before with
  | nil => rfl
  | cons c before ih =>
    rw [List.forall_mem_cons] at hbefore
    rw [List.cons_append, contentLines_blank_cons hbefore.1, ih hbefore.2]

theorem contentLines_append_blank {after : List Char} (hafter : ∀ c ∈ after, isBlank c)
    (text : List Char) : contentLines (text ++ after) = contentLines text := by
  induction after generalizing text with
  | nil => rw [List.append_nil]
  | cons c after ih =>
    rw [List.forall_mem_cons] at hafter
    rw [List.append_cons, ih hafter.2, contentLines_concat_blank hafter.1]

/-- What a content is made of: no white space, and no dashes. -/
def Solid (cs : List Char) : Prop :=
  ∀ c ∈ cs, isBlank c = false ∧ c ≠ '-'

/-- A piece of a content is kept as it is. -/
theorem flatten_contentLines_piece {piece : List Char} (h : Solid piece) :
    (contentLines piece).flatten = piece := by
  have hfeed : '\n' ∉ piece := fun hmem => absurd (h _ hmem).1 (by decide)
  rw [contentLines, Text.lines_of_not_mem hfeed, List.map_singleton,
    Text.trim_eq_self fun c hc => (h c hc).1]
  cases piece with
  | nil => rfl
  | cons c piece =>
    have hruler : ruler.isPrefixOf (c :: piece) = false := by
      have hc : ('-' == c) = false := by simpa using Ne.symm (h c List.mem_cons_self).2
      simp [ruler, List.isPrefixOf, hc]
    simp [hruler]

/-- A line of dashes is left out. -/
theorem contentLines_ruler {label : List Char} (hlabel : '\n' ∉ label) :
    contentLines (ruler ++ label) = [] := by
  have hfeed : '\n' ∉ ruler ++ label := by simp [ruler, hlabel]
  have hdashes : ∀ c ∈ ruler, isBlank c = false := by
    intro c hc
    obtain rfl : c = '-' := by simpa [ruler] using hc
    decide
  have hprefix : ruler.isPrefixOf (trim (ruler ++ label)) = true :=
    List.isPrefixOf_iff_prefix.mpr (Text.prefix_trim_append (by decide) hdashes label)
  rw [contentLines, Text.lines_of_not_mem hfeed, List.map_singleton]
  simp only [List.filter_cons, hprefix, Bool.not_true, Bool.and_false, Bool.false_eq_true, if_false,
    List.filter_nil]

/-! ## 4. Layouts -/

/-- `IsLine piece line`: the line adds `piece` to the content, nothing if it is blank or starts
with dashes. -/
inductive IsLine : List Char → List Char → Prop where
  | piece {before piece after : List Char} (hbefore : ∀ c ∈ before, isBlank c)
      (hafter : ∀ c ∈ after, isBlank c) : IsLine piece (before ++ piece ++ after)
  | dashes {before label after : List Char} (hbefore : ∀ c ∈ before, isBlank c)
      (hlabel : '\n' ∉ label) (hafter : ∀ c ∈ after, isBlank c) :
      IsLine [] (before ++ (ruler ++ label) ++ after)

/-- What a line can end with. -/
def lineEnds : List (List Char) := [['\n'], ['\r', '\n']]

/-- `LaidOut content text`: the text is lines, and what they add is the content. -/
inductive LaidOut : List Char → List Char → Prop where
  | last {piece line : List Char} (hline : IsLine piece line) : LaidOut piece line
  | line {piece line ending content text : List Char} (hline : IsLine piece line)
      (hending : ending ∈ lineEnds) (htext : LaidOut content text) :
      LaidOut (piece ++ content) (line ++ ending ++ text)

theorem IsLine.flatten_contentLines {piece line : List Char} (h : IsLine piece line)
    (hsolid : Solid piece) : (contentLines line).flatten = piece := by
  cases h with
  | piece hbefore hafter =>
    rw [contentLines_append_blank hafter, contentLines_blank_append hbefore,
      flatten_contentLines_piece hsolid]
  | dashes hbefore hlabel hafter =>
    rw [contentLines_append_blank hafter, contentLines_blank_append hbefore,
      contentLines_ruler hlabel, List.flatten_nil]

theorem contentLines_append_ending {ending : List Char} (h : ending ∈ lineEnds)
    (line text : List Char) :
    contentLines (line ++ ending ++ text) = contentLines line ++ contentLines text := by
  simp only [lineEnds, List.mem_cons, List.not_mem_nil, or_false] at h
  rcases h with rfl | rfl
  · rw [List.append_assoc, List.singleton_append, contentLines_append_newline]
  · -- the carriage return is white space behind the line
    rw [List.append_cons, List.append_assoc, List.singleton_append, contentLines_append_newline,
      contentLines_concat_blank (by decide)]

theorem Solid.append {as bs : List Char} : Solid (as ++ bs) ↔ Solid as ∧ Solid bs :=
  List.forall_mem_append

/-- **A layout does not change the content.** -/
theorem LaidOut.flatten_contentLines {content text : List Char} (h : LaidOut content text)
    (hsolid : Solid content) : (contentLines text).flatten = content := by
  induction h with
  | last hline => exact hline.flatten_contentLines hsolid
  | line hline hending _ ih =>
    obtain ⟨hpiece, hcontent⟩ := Solid.append.mp hsolid
    rw [contentLines_append_ending hending, List.flatten_append,
      hline.flatten_contentLines hpiece, ih hcontent]

theorem isLine_contentLines {line : List Char} (h : '\n' ∉ line) :
    IsLine (contentLines line).flatten line := by
  obtain ⟨before, after, hbefore, hafter, hline⟩ := Text.exists_trim line
  have hlines : contentLines line =
      [trim line].filter fun l => !l.isEmpty && !ruler.isPrefixOf l := by
    rw [contentLines, Text.lines_of_not_mem h, List.map_singleton]
  by_cases hruler : ruler <+: trim line
  · obtain ⟨label, hlabel⟩ := hruler
    have hfeed : '\n' ∉ label := by
      intro hmem
      rw [hline, ← hlabel] at h
      exact h (by simp [hmem])
    have hnothing : contentLines line = [] := by
      rw [hlines, ← hlabel]
      simp [ruler]
    rw [hnothing, List.flatten_nil, hline, ← hlabel]
    exact .dashes hbefore hfeed hafter
  · have hpiece : (contentLines line).flatten = trim line := by
      rw [hlines]
      cases htrim : trim line with
      | nil => rfl
      | cons c cs =>
        rw [htrim, ← List.isPrefixOf_iff_prefix] at hruler
        simp [hruler]
    rw [hpiece]
    nth_rewrite 2 [hline]
    exact .piece hbefore hafter

/-- **Every text is a layout of its content.** -/
theorem laidOut_contentLines (text : List Char) : LaidOut (contentLines text).flatten text := by
  suffices hlines : ∀ line : List Char, '\n' ∉ line →
      LaidOut (contentLines (line ++ text)).flatten (line ++ text) from hlines [] (by simp)
  induction text with
  | nil =>
    intro line hline
    rw [List.append_nil]
    exact .last (isLine_contentLines hline)
  | cons c text ih =>
    intro line hline
    by_cases hc : c = '\n'
    · subst hc
      rw [contentLines_append_newline, List.flatten_append, List.append_cons]
      exact .line (isLine_contentLines hline) (by simp [lineEnds]) (ih [] (by simp))
    · rw [List.append_cons]
      exact ih (line ++ [c]) (by simp [hline, Ne.symm hc])

/-! ## 5. Keys -/

theorem solid_encode (bs : Bytes) : Solid (Text.Base64.encode bs) := by
  have hdigit : ∀ n < 64, isBlank (Text.Base64.digit n) = false ∧ Text.Base64.digit n ≠ '-' := by
    decide
  intro c hc
  rcases Text.Base64.of_mem_encode hc with rfl | ⟨n, hn, rfl⟩
  · decide
  · exact hdigit n hn

theorem ofPem_of_flatten {der : Bytes} {text : List Char}
    (h : (contentLines text).flatten = Text.Base64.encode der) :
    ofPem text = (ofDer der).mapError fun e => .config (.keyDer e) := by
  rw [ofPem, h, Text.Base64.decode_eq_some_iff.mpr rfl]

/-- **The layout of a key does not matter**: whatever lines the base 64 of a binary form is laid out
in, what is read from them is what is read from the binary form, a key or an error. -/
theorem ofPem_of_laidOut {der : Bytes} {text : List Char}
    (h : LaidOut (Text.Base64.encode der) text) :
    ofPem text = (ofDer der).mapError fun e => .config (.keyDer e) := by
  have hcontent : (contentLines text).flatten = Text.Base64.encode der :=
    h.flatten_contentLines (solid_encode der)
  exact ofPem_of_flatten hcontent

/-- A small key in three pieces, with two kinds of line ends, white space around the pieces, a blank
line between them, and dashes around them all. -/
theorem ofPem_of_laidOut_pieces :
    let der : Bytes := [0x30, 6, 2, 1, 0x21, 2, 1, 3]
    let text := "-----BEGIN KEY-----\r\n  MAYC\r\n \n\tASEC \nAQM=\n -----END KEY-----\n".toList
    LaidOut (Text.Base64.encode der) text ∧ ofPem text = .ok ⟨33, 3⟩ := by
  intro der text
  have hcontent : (contentLines text).flatten = Text.Base64.encode der := by decide +kernel
  have hlayout : LaidOut (Text.Base64.encode der) text := hcontent ▸ laidOut_contentLines text
  refine ⟨hlayout, ?_⟩
  rw [ofPem_of_laidOut hlayout, ofDer]
  rfl

/-- **A text holds a key exactly if it is a layout of a binary form that holds it.** -/
theorem ofPem_eq_ok_iff {text : List Char} {key : RsaKey} :
    ofPem text = .ok key ↔
      ∃ der, LaidOut (Text.Base64.encode der) text ∧ ofDer der = .ok key := by
  constructor
  · intro h
    cases hdecode : Text.Base64.decode (contentLines text).flatten with
    | none =>
      rw [ofPem, hdecode] at h
      cases h
    | some der =>
      have hflatten := Text.Base64.decode_eq_some_iff.mp hdecode
      rw [ofPem_of_flatten hflatten] at h
      refine ⟨der, hflatten ▸ laidOut_contentLines text, ?_⟩
      cases hder : ofDer der with
      | error e =>
        rw [hder] at h
        cases h
      | ok key' =>
        rw [hder] at h
        exact congrArg Except.ok (Except.ok.inj h)
  · rintro ⟨der, hlayout, hder⟩
    rw [ofPem_of_flatten (hlayout.flatten_contentLines (solid_encode der)), hder]
    rfl

end RsaKey

end Mtproto
