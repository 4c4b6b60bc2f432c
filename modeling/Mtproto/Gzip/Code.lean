import Mtproto.Bytes

/-!
# Prefix codes and the bits they are written in

Compressed data is a sequence of bits, the least significant bit of each byte first.  A
canonical prefix code is given by the length of the code word of every symbol: the words of
one length are consecutive numbers, handed out in the order of the symbols, and the first
word of a length follows on from the last word of the length before.
-/

namespace Mtproto.Gzip

/-- Why decoding cannot go on. -/
inductive Halt where
  /-- The last block has been decoded. -/
  | complete
  /-- The input ends too early. -/
  | truncated
  /-- Once so many bytes have been taken, the input cannot have been written by a
  compressor. -/
  | damaged (taken : Nat)
  /-- More has been written than the reader wants to see. -/
  | stopped
deriving DecidableEq, Repr

/-! ## 1. Bits -/

/-- The bits not read yet: those of the current byte, and the bytes after it. -/
structure Bits where
  /-- The unread bits of the current byte, as a number. -/
  current : Nat := 0
  /-- How many they are. -/
  count : Nat := 0
  rest : Bytes
  /-- How many bytes have been taken so far, the current one included. -/
  taken : Nat := 0

namespace Bits

/-- Read a number of `n` bits, least significant first.  No byte is taken before it is
needed. -/
def take (n current count taken : Nat) (rest : Bytes) : Except Halt (Nat × Bits) :=
  if n ≤ count then .ok (current % (1 <<< n), ⟨current >>> n, count - n, rest, taken⟩)
  else match rest with
    | [] => .error .truncated
    | b :: rest => take n (current + (b.toNat <<< count)) (count + 8) (taken + 1) rest

/-- Read a number of `n` bits, least significant first. -/
def read (bits : Bits) (n : Nat) : Except Halt (Nat × Bits) :=
  take n bits.current bits.count bits.taken bits.rest

/-- What these bits belong to is damaged. -/
def damaged {α : Type} (bits : Bits) : Except Halt α :=
  .error (.damaged bits.taken)

end Bits

/-! ## 2. Codes -/

/-- A canonical prefix code: how many words there are of each length from one on, and the
symbols in the order of their words. -/
structure Code where
  counts : List Nat
  symbols : Array Nat

namespace Code

/-- The longest code word. -/
def maxLength : Nat := 15

/-- The code in which symbol `i` has a word of length `lengths[i]`, or none if that is
zero. -/
def ofLengths (lengths : List Nat) : Code :=
  let numbered := lengths.zipIdx
  let withLength (len : Nat) := (numbered.filter fun e => e.1 = len).map (·.2)
  let groups := (List.range maxLength).map fun l => withLength (l + 1)
  { counts := groups.map List.length, symbols := groups.flatten.toArray }

/-- Every sequence of bits starts with exactly one word. -/
def isComplete (code : Code) : Bool :=
  code.counts.foldl (fun total n => (total + n) * 2) 0 = 1 <<< (maxLength + 1)

/-- There is no word, or only one, of a single bit. -/
def isSparse (code : Code) : Bool :=
  code.symbols.isEmpty || (code.symbols.size = 1 && code.counts.head? = some 1)

/-- Decode bit by bit.  `word` is what has been read, `first` the first word of the present
length, and `index` the place of its symbol.  The search is given up as soon as all words are
shorter than what has been read. -/
def decodeFrom (symbols : Array Nat) :
    (counts : List Nat) → (word first index : Nat) → Bits → Except Halt (Nat × Bits)
  | [], _, _, _, bits => bits.damaged
  | n :: counts, word, first, index, bits =>
    match bits.read 1 with
    | .error h => .error h
    | .ok (bit, bits) =>
      let word := word + bit
      if word < first + n then .ok (symbols.getD (index + (word - first)) 0, bits)
      else if symbols.size ≤ index + n then bits.damaged
      else decodeFrom symbols counts (word * 2) ((first + n) * 2) (index + n) bits

/-- Read the word of one symbol. -/
def decode (code : Code) (bits : Bits) : Except Halt (Nat × Bits) :=
  decodeFrom code.symbols code.counts 0 0 0 bits

end Code

end Mtproto.Gzip
