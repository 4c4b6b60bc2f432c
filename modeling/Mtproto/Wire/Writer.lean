import Mtproto.Wire.Blob

/-!
# Writing values

A writer is the bytes written so far and the first failure, if there was one.  A failed write
adds nothing, and after it every write does nothing: the caller looks at the outcome once, at
the end, with `finish`.

A buffer has a greatest length.  What can be made to ask for more with a single number has a
checked form, in which that is a fault.
-/

namespace Mtproto.Wire

/-- The tag of a boxed vector. -/
def vectorTag : UInt32 := 0x1cb5c415

/-- The tag of the boxed truth value `true`. -/
def trueTag : UInt32 := 0x997275b5

/-- The tag of the boxed truth value `false`. -/
def falseTag : UInt32 := 0xbc799737

/-- The bytes written so far and the first failure. -/
structure Writer where
  bytes : Bytes := []
  failure : Option DecodeError := none
deriving DecidableEq, Repr, Inhabited

namespace Writer

/-- Nothing written yet. -/
def empty : Writer := {}

/-- Nothing written yet, in a buffer with room for `capacity` bytes. -/
def withCapacity (capacity : Nat) : Except Fault Writer :=
  if Bytes.maxBufferLength < capacity then .error .oversized else .ok empty

/-- Record a failure, unless there is one already. -/
def fail (w : Writer) (e : DecodeError) : Writer :=
  match w.failure with
  | none => { w with failure := some e }
  | some _ => w

/-- The bytes written, or the first failure. -/
def finish (w : Writer) : Except DecodeError Bytes :=
  match w.failure with
  | none => .ok w.bytes
  | some e => .error e

/-- Append bytes without a prefix. -/
def raw (w : Writer) (bs : Bytes) : Writer :=
  match w.failure with
  | none => { w with bytes := w.bytes ++ bs }
  | some _ => w

/-- Append the bytes of an encoding, or record why there are none. -/
def encoded (w : Writer) (r : Except DecodeError Bytes) : Writer :=
  match r with
  | .ok bs => w.raw bs
  | .error e => w.fail e

/-- Append a number in a field of `bits` bits. -/
def uint (w : Writer) (value bits : Nat) : Writer :=
  w.encoded (encodeUint value bits)

/-- Append a 32-bit word. -/
def word32 (w : Writer) (v : UInt32) : Writer :=
  w.raw (Bytes.le 4 v.toNat)

/-- Append a signed 32-bit word. -/
def int32 (w : Writer) (v : Int32) : Writer :=
  w.word32 v.toUInt32

/-- Append a 64-bit word. -/
def word64 (w : Writer) (v : UInt64) : Writer :=
  w.raw (Bytes.le 8 v.toNat)

/-- Append a signed 64-bit word. -/
def int64 (w : Writer) (v : Int64) : Writer :=
  w.word64 v.toUInt64

/-- Append a truth value. -/
def bool (w : Writer) (v : Bool) : Writer :=
  w.word32 (if v then trueTag else falseTag)

/-- Append a string of fixed length. -/
def octets {n : Nat} (w : Writer) (v : Octets n) : Writer :=
  w.raw v.bytes

/-- Append a blob. -/
def blob (w : Writer) (bs : Bytes) : Writer :=
  w.encoded (encodeBlob bs)

/-- Append a text as a blob of UTF-8. -/
def text (w : Writer) (s : String) : Writer :=
  w.blob (Text.Utf8.encode s)

/-- Append a number as a blob of its bytes, most significant first; zero is the empty
blob. -/
def natural (w : Writer) (n : Nat) : Writer :=
  w.blob (Bytes.magnitude n)

/-- Append a boxed vector. -/
def vector {α : Type} (w : Writer) (items : List α) (item : Writer → α → Writer) : Writer :=
  items.foldl item ((w.word32 vectorTag).word32 (UInt32.ofNat items.length))

/-- Append a boxed vector of items whose writing may not be able to go on. -/
def vectorM {m : Type → Type} [Monad m] {α : Type} (w : Writer) (items : List α)
    (item : Writer → α → m Writer) : m Writer :=
  items.foldlM item (w.vector items fun w _ => w)

/-- Append zero bytes up to a multiple of `align`; there is nothing to do for zero. -/
def padTo (w : Writer) (align : Nat) : Writer :=
  if align = 0 ∨ w.failure ≠ none then w
  else w.raw (List.replicate (paddingFor w.bytes.length align) 0)

/-- The same for any multiple: all the bytes have to fit into a buffer. -/
def checkedPadTo (w : Writer) (align : Nat) : Except Fault Writer :=
  if align = 0 ∨ w.failure ≠ none then .ok w
  else if Bytes.maxBufferLength < w.bytes.length + paddingFor w.bytes.length align then
    .error .oversized
  else .ok (w.padTo align)

end Writer

end Mtproto.Wire
