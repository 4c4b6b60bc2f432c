import Mtproto.Bytes

/-!
# Base 64

Three bytes are four characters.  A last group of one or two bytes is two or three characters
and filled up with `=`; the bits that such a group has too many are zero.  Reading accepts
exactly what writing produces.
-/

namespace Mtproto.Text.Base64

/-- The character of a digit below 64. -/
def digit (n : Nat) : Char :=
  if n < 26 then Char.ofNat (65 + n)
  else if n < 52 then Char.ofNat (97 + (n - 26))
  else if n < 62 then Char.ofNat (48 + (n - 52))
  else if n = 62 then '+'
  else '/'

/-- The digit that a character stands for. -/
def value? (c : Char) : Option Nat :=
  let n := c.toNat
  if 65 ≤ n ∧ n ≤ 90 then some (n - 65)
  else if 97 ≤ n ∧ n ≤ 122 then some (n - 97 + 26)
  else if 48 ≤ n ∧ n ≤ 57 then some (n - 48 + 52)
  else if c = '+' then some 62
  else if c = '/' then some 63
  else none

/-- The characters of a byte string. -/
def encode : Bytes → List Char
  | [] => []
  | [a] =>
    let n := a.toNat
    [digit (n / 4), digit (n % 4 * 16), '=', '=']
  | [a, b] =>
    let n := a.toNat * 256 + b.toNat
    [digit (n / 1024), digit (n / 16 % 64), digit (n % 16 * 4), '=']
  | a :: b :: c :: bs =>
    let n := (a.toNat * 256 + b.toNat) * 256 + c.toNat
    digit (n / 262144) :: digit (n / 4096 % 64) :: digit (n / 64 % 64) :: digit (n % 64) ::
      encode bs

/-- The byte string that characters stand for; `acc` holds the bytes of the groups before,
the last one first. -/
def decodeFrom : List Char → Bytes → Option Bytes
  | [], acc => some acc.reverse
  | [a, b, '=', '='], acc => do
    let n := (← value? a) * 64 + (← value? b)
    if n % 16 ≠ 0 then none
    return (UInt8.ofNat (n / 16) :: acc).reverse
  | [a, b, c, '='], acc => do
    let n := ((← value? a) * 64 + (← value? b)) * 64 + (← value? c)
    if n % 4 ≠ 0 then none
    return (UInt8.ofNat (n / 4) :: UInt8.ofNat (n / 1024) :: acc).reverse
  | a :: b :: c :: d :: cs, acc => do
    let n := (((← value? a) * 64 + (← value? b)) * 64 + (← value? c)) * 64 + (← value? d)
    decodeFrom cs
      (UInt8.ofNat n :: UInt8.ofNat (n / 256) :: UInt8.ofNat (n / 65536) :: acc)
  | _, _ => none

/-- The byte string that characters stand for. -/
def decode (cs : List Char) : Option Bytes :=
  decodeFrom cs []

end Mtproto.Text.Base64
