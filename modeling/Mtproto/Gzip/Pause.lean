import Mtproto.Gzip.Inflate

/-!
# Where decoding pauses

Input is read in pieces of a fixed length, and output is made in windows of a fixed length.
Decoding pauses in two places, and in both it is about to go further:

* it needs a byte of the next piece of the input;
* it needs room for a byte of the next window of the output.

What has come out by the time of a pause is certain, whatever follows.  A pause is described
by how much that is, and by whether the piece at hand has been used up.
-/

namespace Mtproto.Gzip

/-- The length of a piece of the input. -/
def pieceLength : Nat := 32768

/-- The length of a window of the output. -/
def windowLength : Nat := 32768

/-- A pause of decoding. -/
structure Pause where
  /-- How many bytes have come out. -/
  size : Nat
  /-- The piece of the input has been used up. -/
  spent : Bool
deriving DecidableEq, Repr

/-- The multiples of `unit` from `lo` up to, but not including, `hi`. -/
def multiples (unit lo hi : Nat) : List Nat :=
  let first := (lo + unit - 1) / unit
  (List.range' first ((hi + unit - 1) / unit - first)).map (· * unit)

/-- How the input is cut into pieces: `ahead` bytes are in front of the compressed data, which
are `total` bytes together with what follows. -/
structure Cutting where
  ahead : Nat
  total : Nat

namespace Cutting

/-- A piece ends after so many bytes of the compressed data. -/
def endsAt (c : Cutting) (position : Nat) : Bool :=
  position = c.total || (c.ahead + position) % pieceLength = 0

/-- The pauses of one step of decoding, which takes the input from `lo` to `hi` and the output
from `before` to `after`.  The last `carried` bytes of that input are the output itself; all
other input is needed before the first byte comes out. -/
def pauses (c : Cutting) (lo hi before after carried : Nat) : List Pause :=
  let first := hi - carried
  let ends := (multiples pieceLength (c.ahead + lo) (c.ahead + hi)).map fun p =>
    { size := before + (p - c.ahead - first), spent := true : Pause }
  let full := (multiples windowLength before after).map fun size =>
    { size, spent := c.endsAt (if carried = 0 then hi else first + (size - before)) : Pause }
  (ends ++ full).mergeSort (·.size ≤ ·.size)

end Cutting

namespace Inflater

/-- How much of the output of a step is carried by the input as it is.  Only stored blocks
come out of a step at a header. -/
def carried (phase : Phase) (before after : Nat) : Nat :=
  match phase with
  | .header => after - before
  | .symbol .. | .finished => 0

/-- The pauses of a run, up to the damage that ends it.  The last ones come first in `found`. -/
def pauses (c : Cutting) (stop : Nat) :
    (fuel : Nat) → Inflater → (found : List Pause) → List Pause
  | 0, _, found => found.reverse
  | fuel + 1, ⟨bits, out, phase⟩, found =>
    if stop < out.size then found.reverse
    else
      let lo := bits.taken
      let before := out.size
      match step ⟨bits, out, phase⟩ with
      | (_, .error (.damaged hi)) =>
        ((c.pauses lo hi before before 0).reverse ++ found).reverse
      | (_, .error _) => found.reverse
      | (out, .ok (bits, next)) =>
        let here := c.pauses lo bits.taken before out.size (carried phase before out.size)
        pauses c stop fuel ⟨bits, out, next⟩ (here.reverse ++ found)

end Inflater

/-- The pauses in inflating a byte string. -/
def inflatePauses (ahead stop : Nat) (bs : Bytes) : List Pause :=
  Inflater.pauses ⟨ahead, bs.length⟩ stop (8 * bs.length + 2) ⟨{ rest := bs }, #[], .header⟩ []

end Mtproto.Gzip
