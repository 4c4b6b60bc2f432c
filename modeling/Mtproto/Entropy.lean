import Mtproto.Bytes

/-!
# Random draws

Randomness is an endless tape of bytes together with the number of bytes already taken from
it.  An operation that needs random values is a function of the tape, `Draw`, so that what it
draws, and in which order, is part of its definition.

A number below a bound is drawn by rejection: candidates are taken from the tape until one is
acceptable.  On a tape that never offers one the search would not end, so every tape carries
its `patience`, the number of candidates a single search may look at; a search that runs out
is the fault `drawStalled`.
-/

namespace Mtproto

/-- An endless tape of random bytes, read from position `drawn` on. -/
structure Entropy where
  byte : Nat → UInt8
  drawn : Nat := 0
  /-- How many candidates one search may look at. -/
  patience : Nat := UInt32.size

/-- A computation that takes bytes from a tape. -/
abbrev Draw := ExceptT Fault (StateM Entropy)

namespace Entropy

/-- The bytes of a tape from its reading position on. -/
def peek (e : Entropy) (n : Nat) : Bytes :=
  (List.range n).map fun i => e.byte (e.drawn + i)

/-- The same tape, read `n` bytes further. -/
def skip (e : Entropy) (n : Nat) : Entropy :=
  { e with drawn := e.drawn + n }

/-- Take `n` bytes. -/
def take (e : Entropy) (n : Nat) : Bytes × Entropy :=
  (e.peek n, e.skip n)

@[simp] theorem length_peek (e : Entropy) (n : Nat) : (e.peek n).length = n := by
  simp [peek]

end Entropy

namespace Draw

/-- The next `n` bytes. -/
def octets (n : Nat) : Draw (Octets n) :=
  fun e => (.ok ⟨e.peek n, by simp⟩, e.skip n)

/-- The next `n` bytes as a plain string. -/
def bytes (n : Nat) : Draw Bytes :=
  return (← octets n).bytes

/-- The next eight bytes as a word. -/
def word64 : Draw UInt64 :=
  return UInt64.ofNat (Bytes.ofLE (← octets 8).bytes)

/-- The number of bits of a number. -/
def bitLength (n : Nat) : Nat :=
  if n = 0 then 0 else n.log2 + 1

/-- Look at no more than `patience` candidates and return the value of the first acceptable
one. -/
def search {α : Type} (candidate : Draw (Option α)) : (patience : Nat) → Draw α
  | 0 => throw .drawStalled
  | patience + 1 => do
    match ← candidate with
    | some a => return a
    | none => search candidate patience

/-- Search with the patience of the tape. -/
def firstAccepted {α : Type} (candidate : Draw (Option α)) : Draw α := do
  search candidate (← get).patience

/-- A candidate for a word below `range`: the high half of its product with a random word,
acceptable if the low half is below the largest multiple of `range` that is the range shifted
left. -/
def wordCandidate (range : UInt64) : Draw (Option UInt64) := do
  let product := (← word64).toNat * range.toNat
  let zone := (range.toNat <<< (64 - bitLength range.toNat)) - 1
  return if product % UInt64.size ≤ zone then some (UInt64.ofNat (product / UInt64.size)) else none

/-- A word from `lo` up to, but not including, `hi`. -/
def wordBetween (lo hi : UInt64) : Draw UInt64 := do
  return lo + (← firstAccepted (wordCandidate (hi - lo)))

/-- A candidate for a number below `range`: as many 32-bit words as the range has, least
significant first, the last one shifted down to the width of the range. -/
def naturalCandidate (range : Nat) : Draw (Option Nat) := do
  let bits := bitLength range
  let words := (bits + 31) / 32
  let low := Bytes.ofLE (← octets (4 * (words - 1))).bytes
  let high := Bytes.ofLE (← octets 4).bytes >>> (32 * words - bits)
  let n := low + (high <<< (32 * (words - 1)))
  return if n < range then some n else none

/-- A number from `lo` up to, but not including, `hi`. -/
def naturalBetween (lo hi : Nat) : Draw Nat := do
  return lo + (← firstAccepted (naturalCandidate (hi - lo)))

end Draw

/-! ## Tapes from a seed -/

namespace Entropy

/-- The state advances by this odd constant for every word. -/
def increment : UInt64 := 0x9E3779B97F4A7C15

/-- Scramble a state into a word. -/
def scramble (z : UInt64) : UInt64 :=
  let z := (z ^^^ (z >>> 30)) * 0xBF58476D1CE4E5B9
  let z := (z ^^^ (z >>> 27)) * 0x94D049BB133111EB
  z ^^^ (z >>> 31)

/-- Byte `i` of the words that a seed generates, each least significant byte first. -/
def seededByte (seed : UInt64) (i : Nat) : UInt8 :=
  let word := scramble (seed + increment * UInt64.ofNat (i / 8 + 1))
  (word >>> UInt64.ofNat (8 * (i % 8))).toUInt8

/-- The tape that a seed generates. -/
def seeded (seed : UInt64) : Entropy :=
  { byte := seededByte seed }

/-- The tape that starts with given bytes and goes on as `seed` generates it. -/
def scripted (script : Array UInt8) (seed : UInt64) : Entropy :=
  { byte := fun i => script.getD i (seededByte seed (i - script.size)) }

end Entropy

end Mtproto
