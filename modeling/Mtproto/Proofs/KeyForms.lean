import Mathlib.Tactic.Common
import Mathlib.Tactic.IntervalCases
import Mtproto.Proofs.Act
import Mtproto.Proofs.Envelope
import Mtproto.Rsa.Key

/-!
# The binary forms of a key

`RsaKey.ofDer` reads a public key from its binary form, a sequence of tagged items.  A key has many
such forms.  The length of an item may take one byte or several, and more of them than it needs; a
number may start with zero bytes; and a form may be wrapped, any number of times, in a string of
bits next to the name of an algorithm.

* `IsItem` is the grammar of items: all its forms are read (`Item.read_append`), and nothing else is
  (`Item.exists_of_read`).  `IsLayer` is that of layers (`readLayer_eq_ok_iff`).
* `Wraps` is the grammar of what is wrapped.  Looking for a key sees through it (`ofDer_of_wraps`),
  and what has been read is of this form (`ofDer_eq_ok_iff`).
* `ofDerWithin` takes every part of a string by its bounds, and looks under no more layers than it
  has been told to.  It comes to the same (`ofDerWithin_eq`): no part is outside its string, and
  there is a layer for every seven bytes at most, so the recursion is bounded by the length.
* `key_in_form`: the numbers come back from every form, and the fingerprint depends on nothing else.
-/

namespace Mtproto.Bytes

theorem magnitude_of_lt {n : Nat} (hpos : n ≠ 0) (h : n < 256) : magnitude n = [UInt8.ofNat n] := by
  have hdiv : n / 256 = 0 := by omega
  rw [magnitude, magnitudeAux, if_neg hpos, hdiv, magnitudeAux, if_pos rfl]

end Mtproto.Bytes

namespace Mtproto.Rsa.Der

/-! ## 1. Items -/

/-- The forms of a length: a byte below 128, or a byte that says how many bytes of length follow,
one to four, most significant first.  The first of these may be zero. -/
inductive IsLength : Bytes → Nat → Prop
  | short {n : Nat} (h : n < 128) : IsLength [UInt8.ofNat n] n
  | long {n : Nat} (bs : Bytes) (hsome : 1 ≤ bs.length) (hfew : bs.length ≤ 4)
      (hvalue : Bytes.ofBE bs = n) : IsLength (UInt8.ofNat (128 + bs.length) :: bs) n

/-- The forms of an item: its tag, a form of its length, and its content. -/
def IsItem (tag : UInt8) (content text : Bytes) : Prop :=
  ∃ length, IsLength length content.length ∧ text = tag :: (length ++ content)

/-- Tag and length take two bytes at least. -/
theorem IsItem.length_add_two_le {tag : UInt8} {content text : Bytes}
    (h : IsItem tag content text) : content.length + 2 ≤ text.length := by
  obtain ⟨length, hlength, rfl⟩ := h
  cases hlength <;> simp

theorem Item.split_append (tag : UInt8) (content rest : Bytes) :
    Item.split tag content.length (content ++ rest) = .ok ⟨tag, content, rest⟩ := by
  rw [Item.split, if_neg (by simp), List.take_left, List.drop_left]

/-- The byte in front of a long length says how many bytes follow. -/
theorem count_eq {n : Nat} (h : n ≤ 4) :
    ¬ UInt8.ofNat (128 + n) < 0x80 ∧ (UInt8.ofNat (128 + n) &&& 0x7F).toNat = n := by
  interval_cases n <;> decide

/-- **An item is read, whatever form its length has**, and what follows is left. -/
theorem Item.read_append {tag : UInt8} {content text : Bytes} (h : IsItem tag content text)
    (rest : Bytes) : Item.read (text ++ rest) = .ok ⟨tag, content, rest⟩ := by
  obtain ⟨length, hlength, rfl⟩ := h
  rw [List.cons_append, List.append_assoc]
  cases hlength with
  | short hshort =>
    have htoNat : (UInt8.ofNat content.length).toNat = content.length :=
      UInt8.toNat_ofNat_of_lt' (lt_trans hshort (by decide))
    have hlt : UInt8.ofNat content.length < 0x80 := by
      rw [UInt8.lt_iff_toNat_lt, htoNat]
      exact hshort
    rw [List.singleton_append, Item.read, if_pos hlt, htoNat, Item.split_append]
  | long bs hsome hfew hvalue =>
    obtain ⟨hmarked, hcount⟩ := count_eq hfew
    have hbounds : ¬ (bs.length = 0 ∨ 4 < bs.length ∨
        (bs ++ (content ++ rest)).length < bs.length) := by
      simp only [List.length_append]
      omega
    rw [List.cons_append, Item.read, if_neg hmarked]
    simp only [hcount, if_neg hbounds, List.take_left, List.drop_left, hvalue, Item.split_append]

/-- Content and rest are cut where the length says, and there is enough for the content. -/
theorem Item.split_eq_ok_iff {tag : UInt8} {length : Nat} {bs : Bytes} {item : Item} :
    Item.split tag length bs = .ok item ↔
      item.tag = tag ∧ item.content.length = length ∧ bs = item.content ++ item.rest := by
  constructor
  · intro h
    unfold Item.split at h
    split at h
    · cases h
    · cases h
      exact ⟨rfl, List.length_take_of_le (by omega), (List.take_append_drop length bs).symm⟩
  · rintro ⟨rfl, rfl, rfl⟩
    exact Item.split_append _ _ _

/-- **What is read is an item, and what follows it.** -/
theorem Item.exists_of_read {bs : Bytes} {item : Item} (h : Item.read bs = .ok item) :
    ∃ text, IsItem item.tag item.content text ∧ bs = text ++ item.rest := by
  unfold Item.read at h
  split at h
  · rename_i tag first bs
    split at h
    · rename_i hshort
      obtain ⟨rfl, hlength, rfl⟩ := Item.split_eq_ok_iff.mp h
      rw [UInt8.lt_iff_toNat_lt] at hshort
      refine ⟨item.tag :: ([first] ++ item.content), ⟨[first], ?_, rfl⟩, by simp⟩
      have hform := IsLength.short (show first.toNat < 128 from hshort)
      rwa [UInt8.ofNat_toNat, ← hlength] at hform
    · rename_i hmarked
      dsimp only at h
      split at h
      · cases h
      · rename_i hbounds
        obtain ⟨rfl, hlength, hrest⟩ := Item.split_eq_ok_iff.mp h
        generalize hcount : (first &&& 0x7F).toNat = count at *
        have hbytes : (bs.take count).length = count := List.length_take_of_le (by omega)
        have hfirst : UInt8.ofNat (128 + (bs.take count).length) = first := by
          rw [UInt8.lt_iff_toNat_lt] at hmarked
          have hmask : (first &&& 0x7F).toNat = first.toNat % 128 :=
            Nat.and_two_pow_sub_one_eq_mod first.toNat 7
          have hbyte := first.toNat_lt
          change ¬ first.toNat < 128 at hmarked
          rw [hbytes, ← UInt8.toNat_inj, UInt8.toNat_ofNat']
          omega
        refine ⟨item.tag :: (first :: bs.take count ++ item.content),
          ⟨first :: bs.take count, ?_, rfl⟩, ?_⟩
        · have hform := IsLength.long (bs.take count) (by omega) (by omega) hlength.symm
          rwa [hfirst] at hform
        · rw [List.cons_append, List.cons_append, List.cons_append, List.append_assoc, ← hrest,
            List.take_append_drop]
  · cases h

end Mtproto.Rsa.Der

namespace Mtproto.RsaKey

open Rsa.Der
open Envelope (part?)

/-! ## 2. Layers -/

/-- The forms of a layer.  In a sequence there are two numbers; or the name of an algorithm, and a
string of bits with a zero byte and what is wrapped.  Anything may follow the last of them, and
anything may follow the sequence. -/
inductive IsLayer : Bytes → Layer → Prop
  | key {ns es first second outer : Bytes} (after behind : Bytes)
      (hfirst : IsItem integerTag ns first) (hsecond : IsItem integerTag es second)
      (houter : IsItem sequenceTag (first ++ (second ++ after)) outer) :
      IsLayer (outer ++ behind) (.key ⟨Bytes.ofBE ns, Bytes.ofBE es⟩)
  | wrapped {algorithm inner first second outer : Bytes} (after behind : Bytes)
      (hfirst : IsItem sequenceTag algorithm first)
      (hsecond : IsItem bitStringTag (0 :: inner) second)
      (houter : IsItem sequenceTag (first ++ (second ++ after)) outer) :
      IsLayer (outer ++ behind) (.wrapped inner)

/-- Every layer of the grammar is read. -/
theorem readLayer_of_isLayer {der : Bytes} {layer : Layer} (h : IsLayer der layer) :
    readLayer der = .ok layer := by
  cases h with
  | key after behind hfirst hsecond houter =>
    simp [readLayer, Item.read_append houter behind, Item.read_append hfirst _,
      Item.read_append hsecond after, bind, Except.bind, pure, Except.pure]
  | wrapped after behind hfirst hsecond houter =>
    have hne : sequenceTag ≠ integerTag := by decide
    simp [readLayer, Item.read_append houter behind, Item.read_append hfirst _,
      Item.read_append hsecond after, hne, bind, Except.bind, pure, Except.pure]

/-- What is wrapped in a string of bits, behind a zero byte. -/
def unwrap (bits : Item) : Except DerError Layer :=
  match bits.content with
  | 0 :: inner =>
    if bits.tag = bitStringTag then .ok (.wrapped inner) else .error .bitStringExpected
  | _ => .error .bitStringExpected

/-- What a layer is, from the first item of its sequence and what follows. -/
def layerBehind (first : Item) : Except DerError Layer :=
  if first.tag = integerTag then
    (Item.read first.rest).bind fun second =>
      if second.tag ≠ integerTag then .error .exponentExpected
      else .ok (.key ⟨Bytes.ofBE first.content, Bytes.ofBE second.content⟩)
  else if first.tag = sequenceTag then (Item.read first.rest).bind unwrap
  else .error .unrecognised

theorem readLayer_eq (der : Bytes) : readLayer der = (Item.read der).bind fun outer =>
    if outer.tag ≠ sequenceTag then .error .sequenceExpected
    else (Item.read outer.content).bind layerBehind := rfl

/-- What is read is a layer of the grammar. -/
theorem isLayer_of_readLayer {der : Bytes} {layer : Layer} (h : readLayer der = .ok layer) :
    IsLayer der layer := by
  rw [readLayer_eq] at h
  obtain ⟨outer, houter, h⟩ := except_bind_eq_ok_iff.mp h
  split at h
  · cases h
  rename_i hsequence
  obtain ⟨first, hfirst, h⟩ := except_bind_eq_ok_iff.mp h
  obtain ⟨text, htext, hder⟩ := Item.exists_of_read houter
  obtain ⟨firstText, hfirstText, hcontent⟩ := Item.exists_of_read hfirst
  rw [not_not.mp hsequence, hcontent] at htext
  rw [hder]
  unfold layerBehind at h
  split at h
  · rename_i hnumber
    obtain ⟨second, hsecond, h⟩ := except_bind_eq_ok_iff.mp h
    obtain ⟨secondText, hsecondText, hrest⟩ := Item.exists_of_read hsecond
    split at h
    · cases h
    rename_i hexponent
    cases h
    rw [hnumber] at hfirstText
    rw [not_not.mp hexponent] at hsecondText
    rw [hrest] at htext
    exact .key second.rest outer.rest hfirstText hsecondText htext
  · split at h
    · rename_i hname
      obtain ⟨second, hsecond, h⟩ := except_bind_eq_ok_iff.mp h
      obtain ⟨secondText, hsecondText, hrest⟩ := Item.exists_of_read hsecond
      unfold unwrap at h
      split at h
      · rename_i inner hinner
        split at h
        · rename_i hbits
          cases h
          rw [hname] at hfirstText
          rw [hbits, hinner] at hsecondText
          rw [hrest] at htext
          exact .wrapped second.rest outer.rest hfirstText hsecondText htext
        · cases h
      · cases h
    · cases h

/-- **A layer is found where there is one, and nowhere else.** -/
theorem readLayer_eq_ok_iff {der : Bytes} {layer : Layer} :
    readLayer der = .ok layer ↔ IsLayer der layer :=
  ⟨isLayer_of_readLayer, readLayer_of_isLayer⟩

/-- What is wrapped is at least seven bytes shorter than what it is wrapped in. -/
theorem length_of_isLayer_wrapped {der inner : Bytes} (h : IsLayer der (.wrapped inner)) :
    inner.length + 7 ≤ der.length := by
  cases h with
  | wrapped after behind hfirst hsecond houter =>
    have houterLength := houter.length_add_two_le
    have hfirstLength := hfirst.length_add_two_le
    have hsecondLength := hsecond.length_add_two_le
    simp only [List.length_append, List.length_cons] at houterLength hsecondLength ⊢
    omega

/-! ## 3. Keys -/

theorem ofDer_of_key {der : Bytes} {key : RsaKey} (h : readLayer der = .ok (.key key)) :
    ofDer der = .ok key := by
  rw [ofDer]
  split <;> simp_all

/-- A wrapped key is read as the key inside. -/
theorem ofDer_of_wrapped {der inner : Bytes} (h : readLayer der = .ok (.wrapped inner)) :
    ofDer der = ofDer inner := by
  rw [ofDer]
  split <;> simp_all

theorem ofDer_of_error {der : Bytes} {e : DerError} (h : readLayer der = .error e) :
    ofDer der = .error e := by
  rw [ofDer]
  split <;> simp_all

/-- A form is wrapped, any number of times, in another one. -/
inductive Wraps (inner : Bytes) : Bytes → Prop
  | bare : Wraps inner inner
  | layer {middle outer : Bytes} (hlayer : IsLayer outer (.wrapped middle))
      (hmiddle : Wraps inner middle) : Wraps inner outer

/-- **What a form is wrapped in makes no difference**, whether there is a key in it or not. -/
theorem ofDer_of_wraps {inner outer : Bytes} (h : Wraps inner outer) :
    ofDer outer = ofDer inner := by
  induction h with
  | bare => rfl
  | layer hlayer _ ih => rw [ofDer_of_wrapped (readLayer_eq_ok_iff.mpr hlayer), ih]

/-- **A key is found where there is one**, under any number of layers, and nowhere else. -/
theorem ofDer_eq_ok_iff {der : Bytes} {key : RsaKey} :
    ofDer der = .ok key ↔ ∃ inner, Wraps inner der ∧ IsLayer inner (.key key) := by
  constructor
  · intro h
    fun_induction ofDer der with
    | case1 der e herror => cases h
    | case2 der found hfound =>
      cases h
      exact ⟨der, .bare, readLayer_eq_ok_iff.mp hfound⟩
    | case3 der inner hinner ih =>
      obtain ⟨innermost, hwraps, hkey⟩ := ih h
      exact ⟨innermost, .layer (readLayer_eq_ok_iff.mp hinner) hwraps, hkey⟩
  · rintro ⟨inner, hwraps, hkey⟩
    rw [ofDer_of_wraps hwraps, ofDer_of_key (readLayer_eq_ok_iff.mpr hkey)]

end Mtproto.RsaKey

/-! ## 4. Bounds -/

namespace Mtproto.Rsa.Der

open Envelope (part?)

/-- A part at the front is within the string if the string is long enough. -/
theorem part?_take {bs : Bytes} {n : Nat} (h : n ≤ bs.length) :
    part? bs 0 n = some (bs.take n) := by
  rw [part?, if_pos ⟨Nat.zero_le n, h⟩, List.drop_zero, Nat.sub_zero]

theorem part?_drop {bs : Bytes} {n : Nat} (h : n ≤ bs.length) :
    part? bs n bs.length = some (bs.drop n) := by
  rw [part?, if_pos ⟨h, Nat.le_refl _⟩, List.take_of_length_le (by simp)]

/-- `Item.split`, without a result where a part is not inside the string. -/
def Item.splitWithin (tag : UInt8) (length : Nat) (bs : Bytes) : ExceptT DerError Option Item :=
  if bs.length < length then throw .truncated
  else do
    let content ← part? bs 0 length
    let rest ← part? bs length bs.length
    return ⟨tag, content, rest⟩

/-- `Item.read`, without a result where a part is not inside the string. -/
def Item.readWithin : Bytes → ExceptT DerError Option Item
  | tag :: first :: bs =>
    if first < 0x80 then splitWithin tag first.toNat bs
    else
      let count := (first &&& 0x7F).toNat
      if count = 0 ∨ 4 < count ∨ bs.length < count then throw .badLength
      else do
        let length ← part? bs 0 count
        let rest ← part? bs count bs.length
        splitWithin tag (Bytes.ofBE length) rest
  | _ => throw .truncated

theorem Item.splitWithin_eq (tag : UInt8) (length : Nat) (bs : Bytes) :
    splitWithin tag length bs = .mk (some (split tag length bs)) := by
  unfold splitWithin split
  split
  · rfl
  · rename_i h
    rw [part?_take (Nat.not_lt.mp h), part?_drop (Nat.not_lt.mp h)]
    rfl

theorem Item.readWithin_eq (bs : Bytes) : readWithin bs = .mk (some (read bs)) := by
  match bs with
  | [] | [_] => rfl
  | tag :: first :: bs =>
    rw [readWithin, read]
    by_cases hshort : first < 0x80
    · rw [if_pos hshort, if_pos hshort]
      exact splitWithin_eq _ _ _
    · rw [if_neg hshort, if_neg hshort]
      dsimp only
      split
      · rfl
      · rename_i hbounds
        rw [part?_take (by omega), part?_drop (by omega)]
        exact splitWithin_eq _ _ _

end Mtproto.Rsa.Der

namespace Mtproto.RsaKey

open Rsa.Der
open Envelope (part?)

/-- `unwrap`, without a result where a part is not inside the string it is taken from. -/
def unwrapWithin (bits : Item) : ExceptT DerError Option Layer :=
  if bits.tag ≠ bitStringTag ∨ bits.content.head? ≠ some 0 then throw .bitStringExpected
  else do
    let inner ← part? bits.content 1 bits.content.length
    return .wrapped inner

/-- `readLayer`, without a result where a part is not inside the string it is taken from. -/
def readLayerWithin (der : Bytes) : ExceptT DerError Option Layer := do
  let outer ← Item.readWithin der
  if outer.tag ≠ sequenceTag then throw .sequenceExpected
  let first ← Item.readWithin outer.content
  if first.tag = integerTag then
    let second ← Item.readWithin first.rest
    if second.tag ≠ integerTag then throw .exponentExpected
    return .key ⟨Bytes.ofBE first.content, Bytes.ofBE second.content⟩
  else if first.tag = sequenceTag then unwrapWithin (← Item.readWithin first.rest)
  else throw .unrecognised

/-- `ofDer` in the same way, with a bound on the number of layers: without a result where there are
more of them. -/
def ofDerWithin : (layers : Nat) → Bytes → ExceptT DerError Option RsaKey
  | 0, _ => .mk none
  | layers + 1, der => do
    match ← readLayerWithin der with
    | .key key => return key
    | .wrapped inner => ofDerWithin layers inner

theorem within_bind {α β : Type} (r : Except DerError α) (f : α → ExceptT DerError Option β) :
    (ExceptT.mk (some r) >>= f) = match r with
      | .ok a => f a
      | .error e => .mk (some (.error e)) := by
  cases r <;> rfl

theorem unwrapWithin_eq (bits : Item) : unwrapWithin bits = .mk (some (unwrap bits)) := by
  unfold unwrapWithin unwrap
  split
  · rename_i hrefused
    split
    · rename_i inner hinner
      rw [if_neg fun htag => hrefused.elim (fun h => h htag) fun h => h (by rw [hinner]; rfl)]
      rfl
    · rfl
  · rename_i haccepted
    obtain ⟨htag, hzero⟩ := not_or.mp haccepted
    obtain ⟨inner, hinner⟩ := List.head?_eq_some_iff.mp (not_not.mp hzero)
    rw [hinner, part?_drop (by simp)]
    simp only [not_not.mp htag, if_true]
    rfl

/-- All parts of a layer lie within the string that they are taken from. -/
theorem readLayerWithin_eq (der : Bytes) : readLayerWithin der = .mk (some (readLayer der)) := by
  rw [readLayer_eq]
  unfold readLayerWithin layerBehind
  simp only [Item.readWithin_eq, within_bind]
  cases Item.read der with
  | error e => rfl
  | ok outer =>
    dsimp only [Except.bind]
    split
    · rfl
    cases Item.read outer.content with
    | error e => rfl
    | ok first =>
      dsimp only
      split
      · cases Item.read first.rest with
        | error e => rfl
        | ok second =>
          dsimp only
          split <;> rfl
      · split
        · cases Item.read first.rest with
          | error e => rfl
          | ok second =>
            dsimp only
            exact unwrapWithin_eq second
        · rfl

/-- A layer takes seven bytes at least, so a bound on the layers is reached by no string that is
shorter. -/
theorem ofDerWithin_eq {layers : Nat} {der : Bytes} (h : der.length < 7 * layers) :
    ofDerWithin layers der = .mk (some (ofDer der)) := by
  induction layers generalizing der with
  | zero => omega
  | succ layers ih =>
    rw [ofDerWithin, readLayerWithin_eq, within_bind]
    cases hlayer : readLayer der with
    | error e => rw [ofDer_of_error hlayer]
    | ok layer =>
      cases layer with
      | key key =>
        rw [ofDer_of_key hlayer]
        rfl
      | wrapped inner =>
        have hshorter := length_of_isLayer_wrapped (readLayer_eq_ok_iff.mp hlayer)
        rw [ofDer_of_wrapped hlayer]
        exact ih (by omega)

/-! ## 5. The key in a form -/

/-- The fingerprint of a key whose numbers can be written as blobs. -/
theorem fingerprint_eq {key : RsaKey}
    (hn : (Bytes.magnitude key.modulus).length ≤ Wire.maxBlobLength)
    (he : (Bytes.magnitude key.exponent).length ≤ Wire.maxBlobLength) :
    key.fingerprint = sha1Word (Wire.blobBytes (Bytes.magnitude key.modulus) ++
      Wire.blobBytes (Bytes.magnitude key.exponent)) := by
  have hfinish := ((Wire.Writes.blob hn).append (Wire.Writes.blob he)).finish
  unfold fingerprint Wire.Writer.natural
  rw [hfinish]

/-- The fingerprint of a key with a number that is too long: nothing has been written. -/
theorem fingerprint_of_lt {key : RsaKey}
    (h : ¬ ((Bytes.magnitude key.modulus).length ≤ Wire.maxBlobLength ∧
      (Bytes.magnitude key.exponent).length ≤ Wire.maxBlobLength)) :
    key.fingerprint = sha1Word [] := by
  unfold fingerprint Wire.Writer.natural
  split
  · rename_i bs hfinish
    have hnone := Wire.Writer.failure_of_finish hfinish
    rw [Wire.Writer.failure_blob_eq_none_iff, Wire.Writer.failure_blob_eq_none_iff] at hnone
    exact absurd ⟨hnone.1.2, hnone.2⟩ h
  · rfl

/-- The form of a layer with a key in it, when the numbers start with zero bytes. -/
theorem isLayer_of_zeros {n e i j : Nat} {first second after outer : Bytes} (behind : Bytes)
    (hfirst : IsItem integerTag (List.replicate i 0 ++ Bytes.magnitude n) first)
    (hsecond : IsItem integerTag (List.replicate j 0 ++ Bytes.magnitude e) second)
    (houter : IsItem sequenceTag (first ++ (second ++ after)) outer) :
    IsLayer (outer ++ behind) (.key ⟨n, e⟩) := by
  have hlayer := IsLayer.key after behind hfirst hsecond houter
  rwa [Bytes.ofBE_zeros_append, Bytes.ofBE_zeros_append, Bytes.ofBE_magnitude,
    Bytes.ofBE_magnitude] at hlayer

/-- **`ofDer` reads a key in every form.**

* Two numbers in a sequence are the modulus and the exponent, with any number of zero bytes in
  front of them, whatever forms the lengths have, and whatever follows the numbers or the sequence.
  The fingerprint is taken from the two numbers as blobs, and from nothing if one is too long.
* What is next to an algorithm in a sequence, behind a zero byte in a string of bits, gives the
  same key or the same error with or without that layer; and so it does with any number of layers.
* There is a result for every string: no part is taken that is not inside it, and every layer
  takes seven bytes at least. -/
theorem key_in_form :
    (∀ (n e i j : Nat) (first second after outer behind : Bytes),
      IsItem integerTag (List.replicate i 0 ++ Bytes.magnitude n) first →
      IsItem integerTag (List.replicate j 0 ++ Bytes.magnitude e) second →
      IsItem sequenceTag (first ++ (second ++ after)) outer →
      ∃ key, ofDer (outer ++ behind) = .ok key ∧ key.modulus = n ∧ key.exponent = e ∧
        key.fingerprint = sha1Word
          (if (Bytes.magnitude n).length ≤ Wire.maxBlobLength ∧
              (Bytes.magnitude e).length ≤ Wire.maxBlobLength then
            Wire.blobBytes (Bytes.magnitude n) ++ Wire.blobBytes (Bytes.magnitude e)
          else [])) ∧
    (∀ algorithm inner first second after outer behind : Bytes,
      IsItem sequenceTag algorithm first → IsItem bitStringTag (0 :: inner) second →
      IsItem sequenceTag (first ++ (second ++ after)) outer →
      ofDer (outer ++ behind) = ofDer inner) ∧
    (∀ inner outer : Bytes, Wraps inner outer → ofDer outer = ofDer inner) ∧
    (∀ der inner : Bytes, readLayer der = .ok (.wrapped inner) →
      inner.length + 7 ≤ der.length) ∧
    ∀ der : Bytes, ofDerWithin (der.length / 7 + 1) der = .mk (some (ofDer der)) := by
  refine ⟨?numbers, ?layer, fun _ _ => ofDer_of_wraps, ?consumed, ?bounds⟩
  case numbers =>
    intro n e i j first second after outer behind hfirst hsecond houter
    have hlayer := isLayer_of_zeros behind hfirst hsecond houter
    refine ⟨⟨n, e⟩, ofDer_of_key (readLayer_eq_ok_iff.mpr hlayer), rfl, rfl, ?_⟩
    split
    · rename_i hshort
      exact fingerprint_eq hshort.1 hshort.2
    · rename_i hlong
      exact fingerprint_of_lt hlong
  case layer =>
    intro algorithm inner first second after outer behind hfirst hsecond houter
    exact ofDer_of_wraps (.layer (.wrapped after behind hfirst hsecond houter) .bare)
  case consumed =>
    intro der inner h
    exact length_of_isLayer_wrapped (readLayer_eq_ok_iff.mp h)
  case bounds =>
    intro der
    exact ofDerWithin_eq (by omega)

/-- A key whose modulus starts with a zero byte and whose lengths take up to five bytes, with a byte
behind it, under two layers.  An algorithm without content is next to it in both. -/
theorem key_in_form_under_layers :
    let bare : Bytes := [0x30, 0x84, 0, 0, 0, 8, 2, 2, 0, 33, 2, 0x81, 1, 3] ++ [7]
    let once : Bytes := [0x30, 20, 0x30, 0, 3, 16, 0] ++ bare
    let twice : Bytes := [0x30, 0x81, 28, 0x30, 0x81, 0, 3, 23, 0] ++ once
    IsItem integerTag (List.replicate 1 0 ++ Bytes.magnitude 33) [2, 2, 0, 33] ∧
      IsItem integerTag (List.replicate 0 0 ++ Bytes.magnitude 3) [2, 0x81, 1, 3] ∧
      IsItem sequenceTag [2, 2, 0, 33, 2, 0x81, 1, 3] (bare.take 14) ∧
      Wraps bare twice ∧ readLayer twice = .ok (.wrapped once) ∧
      (∃ key, ofDer bare = .ok key ∧ key.modulus = 33 ∧ key.exponent = 3) ∧
      ofDer once = ofDer bare ∧ ofDer twice = ofDer bare ∧ once.length + 7 ≤ twice.length ∧
      ofDerWithin 5 twice = .mk (some (ofDer bare)) := by
  intro bare once twice
  have hmodulus : IsItem integerTag (List.replicate 1 0 ++ Bytes.magnitude 33) [2, 2, 0, 33] := by
    rw [Bytes.magnitude_of_lt (by decide) (by decide)]
    exact ⟨[2], .short (n := 2) (by decide), rfl⟩
  have hexponent : IsItem integerTag (List.replicate 0 0 ++ Bytes.magnitude 3)
      [2, 0x81, 1, 3] := by
    rw [Bytes.magnitude_of_lt (by decide) (by decide)]
    exact ⟨[0x81, 1], .long [1] (by decide) (by decide) rfl, rfl⟩
  have hsequence : IsItem sequenceTag [2, 2, 0, 33, 2, 0x81, 1, 3] (bare.take 14) :=
    ⟨[0x84, 0, 0, 0, 8], .long [0, 0, 0, 8] (by decide) (by decide) rfl, rfl⟩
  have hname : IsItem sequenceTag [] [0x30, 0] := ⟨[0], .short (n := 0) (by decide), rfl⟩
  have hbits : IsItem bitStringTag (0 :: bare) ([3, 16, 0] ++ bare) :=
    ⟨[16], .short (n := 16) (by decide), rfl⟩
  have honce : IsItem sequenceTag ([0x30, 0] ++ (([3, 16, 0] ++ bare) ++ [])) once :=
    ⟨[20], .short (n := 20) (by decide), rfl⟩
  have hlongName : IsItem sequenceTag [] [0x30, 0x81, 0] :=
    ⟨[0x81, 0], .long [0] (by decide) (by decide) rfl, rfl⟩
  have hlongBits : IsItem bitStringTag (0 :: once) ([3, 23, 0] ++ once) :=
    ⟨[23], .short (n := 23) (by decide), rfl⟩
  have htwice : IsItem sequenceTag ([0x30, 0x81, 0] ++ (([3, 23, 0] ++ once) ++ [])) twice :=
    ⟨[0x81, 28], .long [28] (by decide) (by decide) rfl, rfl⟩
  have hlayer : IsLayer (twice ++ []) (.wrapped once) := .wrapped [] [] hlongName hlongBits htwice
  have hread : readLayer twice = .ok (.wrapped once) := readLayer_eq_ok_iff.mpr hlayer
  have hwraps : Wraps bare twice := .layer hlayer (.layer (.wrapped [] [] hname hbits honce) .bare)
  obtain ⟨hnumbers, hunder, hany, hconsumed, hbounds⟩ := key_in_form
  obtain ⟨key, hkey, hn, he, -⟩ := hnumbers 33 3 1 0 _ _ [] _ [7] hmodulus hexponent hsequence
  refine ⟨hmodulus, hexponent, hsequence, hwraps, hread, ⟨key, hkey, hn, he⟩, ?_,
    hany bare twice hwraps, hconsumed twice once hread, ?_⟩
  · exact hunder [] bare _ _ [] _ [] hname hbits honce
  · have hlayers : twice.length / 7 + 1 = 5 := by decide
    rw [← hany bare twice hwraps, ← hlayers]
    exact hbounds twice

end Mtproto.RsaKey
