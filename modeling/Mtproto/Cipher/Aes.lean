import Mtproto.Cipher.Block

/-!
# AES

The cipher works on a state of four columns of four bytes.  A round substitutes every byte,
rotates the rows, mixes the columns and adds a round key; the last round does not mix.
Decryption undoes the rounds from the last to the first.

Bytes are elements of a field with 256 elements: addition is exclusive or, and multiplication
is that of polynomials modulo x⁸ + x⁴ + x³ + x + 1.
-/

namespace Mtproto.Aes

/-! ## 1. The field -/

/-- Multiply by x. -/
def double (b : UInt8) : UInt8 :=
  (b <<< 1) ^^^ (if b &&& 0x80 = 0 then 0 else 0x1B)

/-- Add the multiples of `a` by the powers of x that `b` has, lowest first. -/
def mulFrom : (powers : Nat) → (a b acc : UInt8) → UInt8
  | 0, _, _, acc => acc
  | n + 1, a, b, acc =>
    mulFrom n (double a) (b >>> 1) (if b &&& 1 = 1 then acc ^^^ a else acc)

/-- Multiply two elements. -/
def mul (a b : UInt8) : UInt8 :=
  mulFrom 8 a b 0

/-- The inverse of an element, which is its power 254; zero is sent to zero. -/
def inverse (a : UInt8) : UInt8 :=
  let a2 := mul a a
  let a4 := mul a2 a2
  let a8 := mul a4 a4
  let a16 := mul a8 a8
  let a32 := mul a16 a16
  let a64 := mul a32 a32
  mul (mul (mul (mul (mul (mul a2 a4) a8) a16) a32) a64) (mul a64 a64)

/-- Rotate the bits of a byte to the left. -/
def rotateBits (b n : UInt8) : UInt8 :=
  (b <<< n) ||| (b >>> (8 - n))

/-- The substitution of a byte: inversion, then an affine map of the bits. -/
def substituteByte (b : UInt8) : UInt8 :=
  let i := inverse b
  i ^^^ rotateBits i 1 ^^^ rotateBits i 2 ^^^ rotateBits i 3 ^^^ rotateBits i 4 ^^^ 0x63

/-- The substitution undone. -/
def restoreByte (b : UInt8) : UInt8 :=
  inverse (rotateBits b 1 ^^^ rotateBits b 3 ^^^ rotateBits b 6 ^^^ 0x05)

/-- A function on bytes as a table. -/
def tabulate (f : UInt8 → UInt8) : Array UInt8 :=
  Array.ofFn fun i : Fin 256 => f (UInt8.ofNat i)

/-- Look a byte up in a table. -/
def lookUp (table : Array UInt8) (b : UInt8) : UInt8 :=
  table.getD b.toNat 0

/-- The substitutions of all bytes. -/
def substitutionTable : Array UInt8 := tabulate substituteByte

/-- The substitutions of all bytes, undone. -/
def restorationTable : Array UInt8 := tabulate restoreByte

/-- The products of all bytes with 9. -/
def times9 : Array UInt8 := tabulate (mul 9)

/-- The products of all bytes with 11. -/
def times11 : Array UInt8 := tabulate (mul 11)

/-- The products of all bytes with 13. -/
def times13 : Array UInt8 := tabulate (mul 13)

/-- The products of all bytes with 14. -/
def times14 : Array UInt8 := tabulate (mul 14)

/-! ## 2. Columns -/

/-- Four bytes, from the top of a column to its bottom. -/
structure Column where
  b0 : UInt8
  b1 : UInt8
  b2 : UInt8
  b3 : UInt8
deriving DecidableEq, Inhabited

namespace Column

/-- A function applied to each byte. -/
def map (f : UInt8 → UInt8) (c : Column) : Column :=
  ⟨f c.b0, f c.b1, f c.b2, f c.b3⟩

/-- The sum of two columns. -/
def add (c d : Column) : Column :=
  ⟨c.b0 ^^^ d.b0, c.b1 ^^^ d.b1, c.b2 ^^^ d.b2, c.b3 ^^^ d.b3⟩

/-- The bytes moved up by one place, the top one to the bottom. -/
def rotate (c : Column) : Column :=
  ⟨c.b1, c.b2, c.b3, c.b0⟩

/-- A column multiplied by the mixing matrix. -/
def mix (c : Column) : Column :=
  ⟨double c.b0 ^^^ (double c.b1 ^^^ c.b1) ^^^ c.b2 ^^^ c.b3,
    c.b0 ^^^ double c.b1 ^^^ (double c.b2 ^^^ c.b2) ^^^ c.b3,
    c.b0 ^^^ c.b1 ^^^ double c.b2 ^^^ (double c.b3 ^^^ c.b3),
    (double c.b0 ^^^ c.b0) ^^^ c.b1 ^^^ c.b2 ^^^ double c.b3⟩

/-- A column multiplied by the inverse of the mixing matrix. -/
def unmix (c : Column) : Column :=
  let e := lookUp times14
  let b := lookUp times11
  let d := lookUp times13
  let n := lookUp times9
  ⟨e c.b0 ^^^ b c.b1 ^^^ d c.b2 ^^^ n c.b3,
    n c.b0 ^^^ e c.b1 ^^^ b c.b2 ^^^ d c.b3,
    d c.b0 ^^^ n c.b1 ^^^ e c.b2 ^^^ b c.b3,
    b c.b0 ^^^ d c.b1 ^^^ n c.b2 ^^^ e c.b3⟩

end Column

/-! ## 3. States -/

/-- Four columns. -/
structure State where
  c0 : Column
  c1 : Column
  c2 : Column
  c3 : Column
deriving DecidableEq, Inhabited

namespace State

/-- A function applied to each column. -/
def map (f : Column → Column) (s : State) : State :=
  ⟨f s.c0, f s.c1, f s.c2, f s.c3⟩

/-- The sum of two states. -/
def add (s t : State) : State :=
  ⟨s.c0.add t.c0, s.c1.add t.c1, s.c2.add t.c2, s.c3.add t.c3⟩

/-- Every byte substituted. -/
def substitute (s : State) : State :=
  s.map (Column.map (lookUp substitutionTable))

/-- Every substitution undone. -/
def restore (s : State) : State :=
  s.map (Column.map (lookUp restorationTable))

/-- Row `r` rotated by `r` places to the left. -/
def shiftRows (s : State) : State :=
  ⟨⟨s.c0.b0, s.c1.b1, s.c2.b2, s.c3.b3⟩, ⟨s.c1.b0, s.c2.b1, s.c3.b2, s.c0.b3⟩,
    ⟨s.c2.b0, s.c3.b1, s.c0.b2, s.c1.b3⟩, ⟨s.c3.b0, s.c0.b1, s.c1.b2, s.c2.b3⟩⟩

/-- Row `r` rotated by `r` places to the right. -/
def unshiftRows (s : State) : State :=
  ⟨⟨s.c0.b0, s.c3.b1, s.c2.b2, s.c1.b3⟩, ⟨s.c1.b0, s.c0.b1, s.c3.b2, s.c2.b3⟩,
    ⟨s.c2.b0, s.c1.b1, s.c0.b2, s.c3.b3⟩, ⟨s.c3.b0, s.c2.b1, s.c1.b2, s.c0.b3⟩⟩

/-- The state that a block fills column by column. -/
def ofOctets (b : Octets 16) : State :=
  match b with
  | ⟨[a0, a1, a2, a3, b0, b1, b2, b3, c0, c1, c2, c3, d0, d1, d2, d3], _⟩ =>
    ⟨⟨a0, a1, a2, a3⟩, ⟨b0, b1, b2, b3⟩, ⟨c0, c1, c2, c3⟩, ⟨d0, d1, d2, d3⟩⟩
  | _ => default

/-- The block that a state fills. -/
def toOctets (s : State) : Octets 16 :=
  ⟨[s.c0.b0, s.c0.b1, s.c0.b2, s.c0.b3, s.c1.b0, s.c1.b1, s.c1.b2, s.c1.b3,
    s.c2.b0, s.c2.b1, s.c2.b2, s.c2.b3, s.c3.b0, s.c3.b1, s.c3.b2, s.c3.b3], rfl⟩

end State

/-! ## 4. Round keys -/

/-- The columns of a key. -/
def keyColumns : Bytes → Array Column
  | a :: b :: c :: d :: bs => #[⟨a, b, c, d⟩] ++ keyColumns bs
  | _ => #[]

/-- Extend a key schedule by `n` columns.  Every column is the sum of the one `size` places
before it and of the last one, which is rotated and substituted at the start of each run of
`size` columns, with the constant of the run added, and only substituted in the middle of a
long run. -/
def extendSchedule (size : Nat) : (n : Nat) → (constant : UInt8) → Array Column → Array Column
  | 0, _, ws => ws
  | n + 1, constant, ws =>
    let i := ws.size
    let last := ws.getD (i - 1) default
    let substituted (c : Column) := c.map (lookUp substitutionTable)
    let starts := i % size = 0
    let term :=
      if starts then (substituted last.rotate).add ⟨constant, 0, 0, 0⟩
      else if 6 < size ∧ i % size = 4 then substituted last
      else last
    extendSchedule size n (if starts then double constant else constant)
      (ws.push ((ws.getD (i - size) default).add term))

/-- The state that starts at column `i`. -/
def stateAt (ws : Array Column) (i : Nat) : State :=
  ⟨ws.getD i default, ws.getD (i + 1) default, ws.getD (i + 2) default,
    ws.getD (i + 3) default⟩

/-- The round keys of a key, one more than there are rounds. -/
def roundKeys (key : Bytes) (rounds : Nat) : List State :=
  let columns := keyColumns key
  let size := columns.size
  let ws := extendSchedule size (4 * (rounds + 1) - size) 1 columns
  (List.range (rounds + 1)).map fun r => stateAt ws (4 * r)

/-! ## 5. The cipher -/

/-- The rounds with the given keys; the last one does not mix. -/
def encryptRounds : List State → State → State
  | [], s => s
  | [k], s => s.substitute.shiftRows.add k
  | k :: ks, s => encryptRounds ks ((s.substitute.shiftRows.map Column.mix).add k)

/-- The rounds with the given keys, undone from the last to the first. -/
def decryptRounds : List State → State → State
  | [], s => s
  | [k], s => (s.add k).unshiftRows.restore
  | k :: ks, s => (((decryptRounds ks s).add k).map Column.unmix).unshiftRows.restore

/-- Add the first round key and do the rounds with the others. -/
def encryptBlock (keys : List State) (b : Octets 16) : Octets 16 :=
  match keys with
  | [] => b
  | k :: ks => (encryptRounds ks ((State.ofOctets b).add k)).toOctets

/-- Undo the rounds with the other keys and take the first round key off. -/
def decryptBlock (keys : List State) (b : Octets 16) : Octets 16 :=
  match keys with
  | [] => b
  | k :: ks => ((decryptRounds ks (State.ofOctets b)).add k).toOctets

/-- The cipher with the given round keys. -/
def cipher (keys : List State) : BlockCipher 16 :=
  ⟨encryptBlock keys, decryptBlock keys⟩

/-- The cipher under a key of 32 bytes. -/
def aes256 (key : Octets 32) : BlockCipher 16 :=
  cipher (roundKeys key.bytes 14)

/-- The cipher under a key of 16 bytes. -/
def aes128 (key : Octets 16) : BlockCipher 16 :=
  cipher (roundKeys key.bytes 10)

end Mtproto.Aes
