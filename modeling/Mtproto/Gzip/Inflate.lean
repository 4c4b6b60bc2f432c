import Mtproto.Gzip.Code

/-!
# Inflating

Compressed data is a sequence of blocks: stored bytes, or symbols of a fixed or of an
announced pair of codes, where a symbol is a byte, a reference to earlier output, or the end
of the block.

Decoding is a sequence of steps.  `step` reads one block header or one symbol, and every step
that goes on takes at least one bit, so that the number of bits bounds the number of steps.
`run` takes steps until one of them halts, or until the output is longer than the reader
wants to see.
-/

namespace Mtproto.Gzip

/-- What comes next. -/
inductive Phase where
  /-- The header of a block. -/
  | header
  /-- A symbol of a block. -/
  | symbol (literals distances : Code) (last : Bool)
  /-- Nothing: the last block has ended. -/
  | finished

/-- The state of decoding. -/
structure Inflater where
  bits : Bits
  out : Array UInt8
  phase : Phase

namespace Inflater

/-! ## 1. Symbols -/

/-- Shortest length and number of extra bits of each length symbol from 257 on. -/
def lengthTable : Array (Nat × Nat) :=
  #[(3, 0), (4, 0), (5, 0), (6, 0), (7, 0), (8, 0), (9, 0), (10, 0), (11, 1), (13, 1),
    (15, 1), (17, 1), (19, 2), (23, 2), (27, 2), (31, 2), (35, 3), (43, 3), (51, 3), (59, 3),
    (67, 4), (83, 4), (99, 4), (115, 4), (131, 5), (163, 5), (195, 5), (227, 5), (258, 0)]

/-- Shortest distance and number of extra bits of each distance symbol. -/
def distanceTable : Array (Nat × Nat) :=
  #[(1, 0), (2, 0), (3, 0), (4, 0), (5, 1), (7, 1), (9, 2), (13, 2), (17, 3), (25, 3),
    (33, 4), (49, 4), (65, 5), (97, 5), (129, 6), (193, 6), (257, 7), (385, 7), (513, 8),
    (769, 8), (1025, 9), (1537, 9), (2049, 10), (3073, 10), (4097, 11), (6145, 11),
    (8193, 12), (12289, 12), (16385, 13), (24577, 13)]

/-- The value of a table's symbol, with its extra bits read. -/
def extended (table : Array (Nat × Nat)) (symbol : Nat) (bits : Bits) :
    Except Halt (Nat × Bits) :=
  match table[symbol]? with
  | none => bits.damaged
  | some (base, extra) => do
    let (n, bits) ← bits.read extra
    return (base + n, bits)

/-- The rest of a reference, after its length symbol: length and distance. -/
def reference (distances : Code) (symbol : Nat) (bits : Bits) :
    Except Halt (Nat × Nat × Bits) := do
  let (length, bits) ← extended lengthTable (symbol - 257) bits
  let (symbol, bits) ← distances.decode bits
  let (distance, bits) ← extended distanceTable symbol bits
  return (length, distance, bits)

/-- Append `n` bytes of the output, each from `distance` places back.  In front of the output
there are zero bytes. -/
def copy (out : Array UInt8) (distance : Nat) : (n : Nat) → Array UInt8
  | 0 => out
  | n + 1 =>
    let b := if distance ≤ out.size then out.getD (out.size - distance) 0 else 0
    copy (out.push b) distance n

/-- Decode one symbol. -/
def symbolStep (bits : Bits) (out : Array UInt8) (literals distances : Code) (last : Bool) :
    Array UInt8 × Except Halt (Bits × Phase) :=
  match literals.decode bits with
  | .error h => (out, .error h)
  | .ok (symbol, bits) =>
    if symbol < 256 then
      (out.push (UInt8.ofNat symbol), .ok (bits, .symbol literals distances last))
    else if symbol = 256 then (out, .ok (bits, if last then .finished else .header))
    else
      match reference distances symbol bits with
      | .error h => (out, .error h)
      | .ok (length, distance, bits) =>
        (copy out distance length, .ok (bits, .symbol literals distances last))

/-! ## 2. Block headers -/

/-- The code lengths of the fixed literal code. -/
def fixedLiteralLengths : List Nat :=
  List.replicate 144 8 ++ List.replicate 112 9 ++ List.replicate 24 7 ++ List.replicate 8 8

/-- The code lengths of the fixed distance code. -/
def fixedDistanceLengths : List Nat := List.replicate 32 5

/-- The fixed literal code. -/
def fixedLiterals : Code := .ofLengths fixedLiteralLengths

/-- The fixed distance code. -/
def fixedDistances : Code := .ofLengths fixedDistanceLengths

/-- The order in which the lengths of the code for code lengths are announced. -/
def announcedOrder : List Nat :=
  [16, 17, 18, 0, 8, 7, 9, 6, 10, 5, 11, 4, 12, 3, 13, 2, 14, 1, 15]

/-- Read `n` numbers of `width` bits. -/
def readMany (width : Nat) : (n : Nat) → Bits → Except Halt (List Nat × Bits)
  | 0, bits => .ok ([], bits)
  | n + 1, bits => do
    let (x, bits) ← bits.read width
    let (xs, bits) ← readMany width n bits
    return (x :: xs, bits)

/-- Read code lengths until there are `total` of them.  `lengths` is what has been read, the
last one first; symbol 16 repeats the last length, symbols 17 and 18 write zeros. -/
def readLengths (code : Code) (total : Nat) : (fuel : Nat) → List Nat → Bits →
    Except Halt (List Nat × Bits)
  | 0, _, bits => bits.damaged
  | fuel + 1, lengths, bits =>
    if total ≤ lengths.length then
      if lengths.length = total then .ok (lengths.reverse, bits) else bits.damaged
    else do
      let (symbol, bits) ← code.decode bits
      if symbol < 16 then readLengths code total fuel (symbol :: lengths) bits
      else if symbol = 16 then
        match lengths with
        | [] => bits.damaged
        | last :: _ =>
          let (n, bits) ← bits.read 2
          readLengths code total fuel (List.replicate (3 + n) last ++ lengths) bits
      else if symbol = 17 then
        let (n, bits) ← bits.read 3
        readLengths code total fuel (List.replicate (3 + n) 0 ++ lengths) bits
      else
        let (n, bits) ← bits.read 7
        readLengths code total fuel (List.replicate (11 + n) 0 ++ lengths) bits

/-- The code of the code lengths: it has to be complete. -/
def lengthCode (lengths : List Nat) (bits : Bits) : Except Halt Code :=
  let code := Code.ofLengths lengths
  if code.isComplete then .ok code else bits.damaged

/-- A code of a block: complete, or hardly a code at all. -/
def blockCode (lengths : List Nat) (bits : Bits) : Except Halt Code :=
  let code := Code.ofLengths lengths
  if code.isComplete || code.isSparse then .ok code else bits.damaged

/-- Read the two codes that a block announces. -/
def announcedCodes (bits : Bits) : Except Halt (Code × Code × Bits) := do
  let (n, bits) ← bits.read 5
  let literals := n + 257
  let (n, bits) ← bits.read 5
  let distances := n + 1
  let (n, bits) ← bits.read 4
  if 286 < literals ∨ 30 < distances then bits.damaged
  let (announced, bits) ← readMany 3 (n + 4) bits
  let lengthOf (symbol : Nat) := (((announcedOrder.zip announced).find? (·.1 = symbol)).map
    (·.2)).getD 0
  let code ← lengthCode ((List.range 19).map lengthOf) bits
  let total := literals + distances
  let (lengths, bits) ← readLengths code total (total + 1) [] bits
  let literalCode ← blockCode (lengths.take literals) bits
  let distanceCode ← blockCode (lengths.drop literals) bits
  return (literalCode, distanceCode, bits)

/-- Append the bytes of a stored block, which start at the next whole byte. -/
def storedBlock (bits : Bits) (out : Array UInt8) (last : Bool) :
    Array UInt8 × Except Halt (Bits × Phase) :=
  match bits.rest with
  | a :: b :: c :: d :: rest =>
    let length := Bytes.ofLE [a, b]
    if Bytes.ofLE [c, d] ≠ 65535 - length then (out, .error (.damaged (bits.taken + 4)))
    else
      let stored := rest.take length
      let out := out ++ stored.toArray
      if stored.length < length then (out, .error .truncated)
      else
        let bits : Bits := { rest := rest.drop length, taken := bits.taken + 4 + length }
        (out, .ok (bits, if last then .finished else .header))
  | _ => (out, .error .truncated)

/-- Read a block header. -/
def headerStep (bits : Bits) (out : Array UInt8) : Array UInt8 × Except Halt (Bits × Phase) :=
  match bits.read 3 with
  | .error h => (out, .error h)
  | .ok (n, bits) =>
    let last := n % 2 = 1
    match n / 2 with
    | 0 => storedBlock bits out last
    | 1 => (out, .ok (bits, .symbol fixedLiterals fixedDistances last))
    | 2 =>
      match announcedCodes bits with
      | .error h => (out, .error h)
      | .ok (literals, distances, bits) =>
        (out, .ok (bits, .symbol literals distances last))
    | _ => (out, bits.damaged)

/-! ## 3. Steps -/

/-- One step: the output after it, and what comes next or why nothing does. -/
def step : Inflater → Array UInt8 × Except Halt (Bits × Phase)
  | ⟨bits, out, .header⟩ => headerStep bits out
  | ⟨bits, out, .symbol literals distances last⟩ =>
    symbolStep bits out literals distances last
  | ⟨_, out, .finished⟩ => (out, .error .complete)

/-- Take steps until one halts or the output is longer than `stop`: the output, why decoding
ended, and the bytes after the compressed data. -/
def run (stop : Nat) : (fuel : Nat) → Inflater → Array UInt8 × Halt × Bytes
  | 0, s => (s.out, .truncated, [])
  | fuel + 1, ⟨bits, out, phase⟩ =>
    if stop < out.size then (out, .stopped, [])
    else
      match step ⟨bits, out, phase⟩ with
      | (out, .error h) => (out, h, bits.rest)
      | (out, .ok (bits, phase)) => run stop fuel ⟨bits, out, phase⟩

end Inflater

/-- Inflate a byte string: the output, why decoding ended, and the bytes after the compressed
data.  Nothing is decoded once there are more than `stop` bytes of output. -/
def inflate (stop : Nat) (bs : Bytes) : Array UInt8 × Halt × Bytes :=
  Inflater.run stop (8 * bs.length + 2) ⟨{ rest := bs }, #[], .header⟩

end Mtproto.Gzip
