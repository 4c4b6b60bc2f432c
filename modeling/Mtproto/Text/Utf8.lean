import Mtproto.Bytes

/-!
# Reading UTF-8

A string on the wire is a byte string that has to be UTF-8.  When it is not, the error says
where: the position of the first sequence that is not well formed, and how many of its bytes
are wrong together -- the longest prefix of it that some well-formed sequence starts with --
or that the input ends inside it.
-/

namespace Mtproto.Text

/-- The first place where a byte string stops being UTF-8. -/
inductive Utf8Fault where
  /-- `length` bytes from position `index` on start no character. -/
  | malformed (index length : Nat)
  /-- The string ends inside the character that starts at position `index`. -/
  | incomplete (index : Nat)
deriving DecidableEq, Repr

/-- The wording of a fault. -/
def Utf8Fault.message : Utf8Fault → String
  | malformed index length =>
    s!"invalid utf-8 sequence of {length} bytes from index {index}"
  | incomplete index => s!"incomplete utf-8 byte sequence from index {index}"

namespace Utf8

/-- Any continuation byte. -/
def continuation : UInt8 × UInt8 := (0x80, 0xBF)

/-- The ranges of the bytes that have to follow a first byte, or `none` if no character
starts with it.  The first range is narrower where the encoding could be shorter, would name
a surrogate, or would lie beyond the last code point. -/
def trailers (b : UInt8) : Option (List (UInt8 × UInt8)) :=
  if b < 0x80 then some []
  else if b < 0xC2 then none
  else if b < 0xE0 then some [continuation]
  else if b = 0xE0 then some [(0xA0, 0xBF), continuation]
  else if b = 0xED then some [(0x80, 0x9F), continuation]
  else if b < 0xF0 then some [continuation, continuation]
  else if b = 0xF0 then some [(0x90, 0xBF), continuation, continuation]
  else if b < 0xF4 then some [continuation, continuation, continuation]
  else if b = 0xF4 then some [(0x80, 0x8F), continuation, continuation]
  else none

/-- How far a string agrees with a list of ranges: `inl k` if byte `k` is outside its range,
`inr false` if the string is too short, `inr true` if all ranges are met. -/
def agrees : List (UInt8 × UInt8) → Bytes → (k : Nat := 0) → Nat ⊕ Bool
  | [], _, _ => .inr true
  | _ :: _, [], _ => .inr false
  | (lo, hi) :: ranges, b :: bs, k =>
    if lo ≤ b ∧ b ≤ hi then agrees ranges bs (k + 1) else .inl k

/-- The first fault of a string whose first byte has position `index`. -/
def firstFault (index : Nat) (bs : Bytes) : Option Utf8Fault :=
  match bs with
  | [] => none
  | b :: rest =>
    match trailers b with
    | none => some (.malformed index 1)
    | some ranges =>
      match agrees ranges rest with
      | .inl k => some (.malformed index (k + 1))
      | .inr false => some (.incomplete index)
      | .inr true => firstFault (index + 1 + ranges.length) (rest.drop ranges.length)
termination_by bs.length
decreasing_by
  rw [List.length_drop, List.length_cons]
  omega

/-- The text that a byte string encodes, or its first fault. -/
def decode (bs : Bytes) : Except Utf8Fault String :=
  match String.fromUTF8? ⟨bs.toArray⟩ with
  | some s => .ok s
  | none => .error ((firstFault 0 bs).getD (.incomplete 0))

/-- The UTF-8 bytes of a text. -/
def encode (s : String) : Bytes :=
  s.toUTF8.data.toList

end Utf8

end Mtproto.Text
