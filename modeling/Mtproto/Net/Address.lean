import Mtproto.Bytes

/-!
# Socket addresses

The text of an address and back.

* An IPv4 address is four decimal numbers with dots between them, none with a leading zero.
* An IPv6 address is eight groups of up to four hexadecimal digits with colons between them.
  Two colons together stand for one or more groups that are zero, and the last two groups may
  be written as an IPv4 address.
* A socket address adds a port, after a colon; an IPv6 address then stands in brackets, with
  an optional scope after a percent sign.

The text of an IPv6 address is the canonical one: the first of the longest runs of two or
more zero groups becomes two colons.
-/

namespace Mtproto.Net

/-! ## 1. Addresses -/

/-- An IPv4 address. -/
abbrev IPv4 := Octets 4

/-- An IPv6 address: eight groups of 16 bits. -/
structure IPv6 where
  groups : List UInt16
  length_groups : groups.length = 8
deriving DecidableEq

/-- The address of a host. -/
inductive IpAddress where
  | v4 (ip : IPv4)
  | v6 (ip : IPv6)
deriving DecidableEq

/-- The address of a port of a host. -/
inductive SocketAddress where
  | v4 (ip : IPv4) (port : UInt16)
  | v6 (ip : IPv6) (scope : UInt32) (port : UInt16)
deriving DecidableEq

/-- The address of the host. -/
def SocketAddress.ip : SocketAddress → IpAddress
  | v4 ip _ => .v4 ip
  | v6 ip _ _ => .v6 ip

/-- The port. -/
def SocketAddress.port : SocketAddress → UInt16
  | v4 _ port => port
  | v6 _ _ port => port

/-! ## 2. Numbers -/

/-- How a number is written. -/
structure Numeral where
  radix : Nat
  /-- The most digits there may be. -/
  width : Option Nat
  /-- There may be zeros in front. -/
  padded : Bool
  /-- The number is less than this. -/
  bound : Nat

/-- A part of an IPv4 address. -/
def Numeral.octet : Numeral := ⟨10, some 3, false, UInt8.size⟩

/-- A group of an IPv6 address. -/
def Numeral.group : Numeral := ⟨16, some 4, true, UInt16.size⟩

/-- A port. -/
def Numeral.port : Numeral := ⟨10, none, true, UInt16.size⟩

/-- A scope. -/
def Numeral.scope : Numeral := ⟨10, none, true, UInt32.size⟩

/-- The value of a digit, whatever the radix; of any other character, a number that is no
digit in any. -/
def digitValue (c : Char) : Nat :=
  let n := c.toNat
  if 48 ≤ n ∧ n ≤ 57 then n - 48
  else if 97 ≤ n ∧ n ≤ 102 then n - 87
  else if 65 ≤ n ∧ n ≤ 70 then n - 55
  else 16

/-- The number that a text starts with, and the text after it.  All digits count, also those
that make the number too long. -/
def Numeral.read (f : Numeral) (cs : List Char) : Option (Nat × List Char) :=
  let digits := cs.takeWhile (digitValue · < f.radix)
  let value := digits.foldl (fun n c => n * f.radix + digitValue c) 0
  if digits.isEmpty ∨ f.width.any (· < digits.length) then none
  else if !f.padded ∧ 1 < digits.length ∧ digits.head? = some '0' then none
  else if f.bound ≤ value then none
  else some (value, cs.drop digits.length)

/-- The text after a character that it has to start with. -/
def after (c : Char) : List Char → Option (List Char)
  | d :: cs => if d = c then some cs else none
  | [] => none

/-! ## 3. Reading -/

/-- Read an IPv4 address. -/
def readIPv4 (cs : List Char) : Option (IPv4 × List Char) := do
  let (a, cs) ← Numeral.octet.read cs
  let (b, cs) ← Numeral.octet.read (← after '.' cs)
  let (c, cs) ← Numeral.octet.read (← after '.' cs)
  let (d, cs) ← Numeral.octet.read (← after '.' cs)
  return (⟨[.ofNat a, .ofNat b, .ofNat c, .ofNat d], rfl⟩, cs)

/-- The two groups that an IPv4 address takes up. -/
def IPv4.groups (ip : IPv4) : List UInt16 :=
  let pair (i : Nat) := UInt16.ofNat (Bytes.ofBE ((ip.bytes.drop i).take 2))
  [pair 0, pair 2]

/-- Read up to `n` groups with colons between them, and say whether the last two were an IPv4
address.  Reading stops in front of what is no group, and of the colon before it. -/
def readGroups : (n : Nat) → (first : Bool) → List Char → List UInt16 × Bool × List Char
  | 0, _, cs => ([], false, cs)
  | n + 1, first, cs =>
    let start := if first then some cs else after ':' cs
    match if 0 < n then start.bind readIPv4 else none with
    | some (ip, rest) => (ip.groups, true, rest)
    | none =>
      match start.bind Numeral.group.read with
      | some (g, rest) =>
        let (gs, embedded, rest) := readGroups n false rest
        (UInt16.ofNat g :: gs, embedded, rest)
      | none => ([], false, cs)

/-- Read an IPv6 address. -/
def readIPv6 (cs : List Char) : Option (IPv6 × List Char) := do
  let (front, embedded, cs) := readGroups 8 true cs
  if h : front.length = 8 then return (⟨front, h⟩, cs)
  if embedded then none
  let cs ← after ':' (← after ':' cs)
  let (back, _, cs) := readGroups (7 - front.length) true cs
  let groups := front ++ List.replicate (8 - front.length - back.length) 0 ++ back
  if h : groups.length = 8 then return (⟨groups, h⟩, cs)
  none

/-- Read a port after its colon. -/
def readPort (cs : List Char) : Option (UInt16 × List Char) := do
  let (port, cs) ← Numeral.port.read (← after ':' cs)
  return (UInt16.ofNat port, cs)

/-- Read a scope after its percent sign; without one it is zero. -/
def readScope (cs : List Char) : UInt32 × List Char :=
  match (after '%' cs).bind Numeral.scope.read with
  | some (scope, cs) => (UInt32.ofNat scope, cs)
  | none => (0, cs)

/-- Read an IPv4 address and a port. -/
def readSocketV4 (cs : List Char) : Option (SocketAddress × List Char) := do
  let (ip, cs) ← readIPv4 cs
  let (port, cs) ← readPort cs
  return (.v4 ip port, cs)

/-- Read an IPv6 address in brackets and a port. -/
def readSocketV6 (cs : List Char) : Option (SocketAddress × List Char) := do
  let (ip, cs) ← readIPv6 (← after '[' cs)
  let (scope, cs) := readScope cs
  let (port, cs) ← readPort (← after ']' cs)
  return (.v6 ip scope port, cs)

/-- The socket address that a whole text is. -/
def SocketAddress.ofText? (text : String) : Option SocketAddress :=
  match readSocketV4 text.toList <|> readSocketV6 text.toList with
  | some (address, []) => some address
  | _ => none

/-! ## 4. Writing -/

/-- Four numbers with dots between them. -/
def IPv4.text (ip : IPv4) : String :=
  ".".intercalate (ip.bytes.map fun b => toString b.toNat)

/-- Groups with colons between them. -/
def groupsText (gs : List UInt16) : String :=
  ":".intercalate (gs.map fun g => String.ofList (Nat.toDigits 16 g.toNat))

/-- Where the first of the longest runs of zero groups starts, and how long it is. -/
def longestRun (gs : List UInt16) : Nat × Nat :=
  (List.range gs.length).foldl
    (fun best i =>
      let n := ((gs.drop i).takeWhile (· == 0)).length
      if best.2 < n then (i, n) else best)
    (0, 0)

/-- The IPv4 address that an IPv6 address stands for, if it is one of those. -/
def IPv6.mapped? (ip : IPv6) : Option IPv4 :=
  match ip.groups with
  | [0, 0, 0, 0, 0, 0xffff, a, b] =>
    let high (g : UInt16) := UInt8.ofNat (g.toNat / 256)
    let low (g : UInt16) := UInt8.ofNat g.toNat
    some ⟨[high a, low a, high b, low b], rfl⟩
  | _ => none

/-- The canonical text. -/
def IPv6.text (ip : IPv6) : String :=
  match ip.mapped? with
  | some v4 => "::ffff:" ++ v4.text
  | none =>
    let (start, length) := longestRun ip.groups
    if length < 2 then groupsText ip.groups
    else groupsText (ip.groups.take start) ++ "::" ++ groupsText (ip.groups.drop (start + length))

/-- The text of the address of a host. -/
def IpAddress.text : IpAddress → String
  | v4 ip => ip.text
  | v6 ip => ip.text

end Mtproto.Net
