import Mtproto.Wire.Writer

/-!
# Reading values

A reader stands at a place in a buffer: the bytes before it, the bytes after it, and the
first failure, if there was one.  Reading moves bytes from one side to the other.  After a
failure nothing moves any more, and every read returns the zero value of its kind, so that a
value of many fields is read field by field and the outcome is looked at once, with `check`
or `finish`.
-/

namespace Mtproto.Wire

/-- A place in a buffer and the first failure. -/
structure Reader where
  /-- The bytes already read, the last one first. -/
  seen : Bytes := []
  /-- The bytes not read yet. -/
  rest : Bytes
  failure : Option DecodeError := none
deriving DecidableEq, Repr

/-- A computation that reads from a buffer. -/
abbrev Read := StateM Reader

namespace Reader

/-- The start of a buffer. -/
def ofBytes (bs : Bytes) : Reader := { rest := bs }

/-- How many bytes have been read. -/
def position (r : Reader) : Nat := r.seen.length

/-- How many bytes have not been read. -/
def remaining (r : Reader) : Nat := r.rest.length

/-- The bytes already read. -/
def consumed (r : Reader) : Bytes := r.seen.reverse

/-- The whole buffer. -/
def buffer (r : Reader) : Bytes := r.seen.reverse ++ r.rest

/-- There was a failure. -/
def failed (r : Reader) : Bool := r.failure.isSome

/-- Record a failure, unless there is one already. -/
def fail (r : Reader) (e : DecodeError) : Reader :=
  match r.failure with
  | none => { r with failure := some e }
  | some _ => r

/-- The first failure, if there was one. -/
def check (r : Reader) : Except DecodeError Unit :=
  match r.failure with
  | none => .ok ()
  | some e => .error e

/-- The first failure, or that the buffer has not been read to its end. -/
def finish (r : Reader) : Except DecodeError Unit :=
  match r.failure with
  | none => if r.rest.isEmpty then .ok () else .error (.trailingBytes r.remaining)
  | some e => .error e

/-- Move `bs`, which the rest starts with, to the bytes already read. -/
def advance (r : Reader) (n : Nat) : Reader :=
  { r with seen := (r.rest.take n).reverse ++ r.seen, rest := r.rest.drop n }

/-- The tag that comes next, without reading it. -/
def peekTag? (r : Reader) : Option UInt32 :=
  match r.failure, r.rest with
  | none, a :: b :: c :: d :: _ => some (UInt32.ofNat (Bytes.ofLE [a, b, c, d]))
  | _, _ => none

end Reader

namespace Read

/-- Record a failure, unless there is one already. -/
def fail (e : DecodeError) : Read Unit :=
  modify (·.fail e)

/-- There was a failure. -/
def failed : Read Bool :=
  return (← get).failed

/-- The next `n` bytes; none after a failure or if there are fewer. -/
def take? (n : Nat) : Read (Option (Octets n)) := fun r =>
  match r.failure with
  | some _ => (none, r)
  | none =>
    if h : (r.rest.take n).length = n then (some ⟨r.rest.take n, h⟩, r.advance n)
    else (none, r.fail (.unexpectedEof n r.remaining))

/-- A string of fixed length. -/
def octets (n : Nat) : Read (Octets n) :=
  return (← take? n).getD (Octets.zero n)

/-- The next `n` bytes, without a prefix. -/
def raw (n : Nat) : Read Bytes :=
  return ((← take? n).map (·.bytes)).getD []

/-- All bytes up to the end of the buffer. -/
def remainder : Read Bytes := do
  raw (← get).remaining

/-- A number in a field of `bits` bits. -/
def uint (bits : Nat) : Read Nat := do
  if bits ∈ widths then
    return ((← take? (bits / 8)).map (Bytes.ofLE ·.bytes)).getD 0
  else
    fail (.invalidValue (.width bits))
    return 0

/-- A 32-bit word. -/
def word32 : Read UInt32 :=
  return UInt32.ofNat (← uint 32)

/-- A signed 32-bit word. -/
def int32 : Read Int32 :=
  return (← word32).toInt32

/-- A 64-bit word. -/
def word64 : Read UInt64 :=
  return UInt64.ofNat (← uint 64)

/-- A signed 64-bit word. -/
def int64 : Read Int64 :=
  return (← word64).toInt64

/-- A truth value. -/
def bool : Read Bool := do
  let tag ← word32
  if tag = trueTag then return true
  if tag ≠ falseTag then fail (.unknownConstructor tag)
  return false

/-- A blob. -/
def blob : Read Bytes := fun r =>
  match r.failure with
  | some _ => ([], r)
  | none =>
    match decodeBlob r.rest with
    | .ok (data, used) => (data, r.advance used)
    | .error e => ([], r.fail e)

/-- A text, as a blob of UTF-8. -/
def text : Read String := do
  match Text.Utf8.decode (← blob) with
  | .ok s => return s
  | .error fault =>
    fail (.invalidValue (.text fault))
    return ""

/-- A number, as a blob of its bytes, most significant first. -/
def natural : Read Nat :=
  return Bytes.ofBE (← blob)

/-- Up to `count` items, until a failure; the item at which it happens is the last one. -/
def items {α : Type} (item : Read α) : (count : Nat) → List α → Read (List α)
  | 0, acc => return acc.reverse
  | count + 1, acc => fun r =>
    if r.failed then (acc.reverse, r)
    else
      let (a, r) := item r
      items item count (a :: acc) r

/-- A boxed vector.  An item takes at least four bytes, so a count that cannot be met is
refused before any item is read. -/
def vector {α : Type} (item : Read α) : Read (List α) := do
  let tag ← word32
  if ← failed then return []
  if tag ≠ vectorTag then
    fail (.unknownConstructor tag)
    return []
  let count := (← word32).toNat
  let remaining := (← get).remaining
  if remaining / 4 < count then
    fail (.unexpectedEof (count * 4) remaining)
    return []
  items item count []

end Read

end Mtproto.Wire
