import Mtproto.Error

/-!
# Tagged items

The binary form of a key is made of items: a tag, a length, and the content.  A length below
128 is one byte; otherwise the first byte says, less 128, how many bytes of length follow,
which may be one to four, most significant first.
-/

namespace Mtproto.Rsa.Der

/-- Tag of a sequence of items. -/
def sequenceTag : UInt8 := 0x30

/-- Tag of an integer. -/
def integerTag : UInt8 := 0x02

/-- Tag of a string of bits. -/
def bitStringTag : UInt8 := 0x03

/-- An item and what follows it. -/
structure Item where
  tag : UInt8
  content : Bytes
  rest : Bytes
deriving DecidableEq, Repr

/-- An item with this tag whose content is the first `length` bytes. -/
def Item.split (tag : UInt8) (length : Nat) (bs : Bytes) : Except DerError Item :=
  if bs.length < length then .error .truncated
  else .ok ⟨tag, bs.take length, bs.drop length⟩

/-- The item at the front of a byte string. -/
def Item.read : Bytes → Except DerError Item
  | tag :: first :: bs =>
    if first < 0x80 then Item.split tag first.toNat bs
    else
      let count := (first &&& 0x7F).toNat
      if count = 0 ∨ 4 < count ∨ bs.length < count then .error .badLength
      else Item.split tag (Bytes.ofBE (bs.take count)) (bs.drop count)
  | _ => .error .truncated

theorem Item.length_split {tag : UInt8} {length : Nat} {bs : Bytes} {item : Item}
    (h : Item.split tag length bs = .ok item) :
    item.content.length + item.rest.length = bs.length := by
  unfold Item.split at h
  split at h
  · cases h
  · cases h; simp; omega

/-- Content and rest together are at least two bytes shorter than the input. -/
theorem Item.length_read {bs : Bytes} {item : Item} (h : Item.read bs = .ok item) :
    item.content.length + item.rest.length + 2 ≤ bs.length := by
  unfold Item.read at h
  split at h
  · split at h
    · have := Item.length_split h
      simp; omega
    · dsimp only at h
      split at h
      · cases h
      · have := Item.length_split h
        simp at this ⊢; omega
  · cases h

end Mtproto.Rsa.Der
