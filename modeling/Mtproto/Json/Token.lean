/-!
# The tokens of JSON

A scanner goes over a text once, character by character; its state says at which place of
which token it stands.  A text between quotes is kept as code points.  An escape may name
half of a surrogate pair, and two such escapes in a row name one character; a text with a
half that is left over has no content, but it is a token all the same.
-/

namespace Mtproto.Json

/-- A token. -/
inductive Token where
  | openObject
  | closeObject
  | openArray
  | closeArray
  | colon
  | comma
  /-- A text, without content if half of a surrogate pair is left over. -/
  | text (content : Option String)
  /-- A number written with digits alone, and a sign unless it is zero. -/
  | integer (value : Int)
  /-- Any other number. -/
  | number
  /-- One of the three words. -/
  | word
deriving DecidableEq, Repr

/-! ## 1. Texts -/

/-- The characters that code points stand for, two halves of a surrogate pair together for
one. -/
def joinSurrogates : List Nat → Option (List Char)
  | [] => some []
  | n :: ns =>
    if n < 0xD800 ∨ 0xE000 ≤ n then (joinSurrogates ns).map (Char.ofNat n :: ·)
    else match ns with
      | [] => none
      | m :: ns =>
        if n < 0xDC00 ∧ 0xDC00 ≤ m ∧ m < 0xE000 then
          (joinSurrogates ns).map
            (Char.ofNat (0x10000 + (n - 0xD800) * 0x400 + (m - 0xDC00)) :: ·)
        else none

/-- The character that a letter after a backslash names. -/
def escaped (c : Char) : Option Char :=
  match c with
  | '"' | '\\' | '/' => some c
  | 'b' => some '\x08'
  | 'f' => some '\x0c'
  | 'n' => some '\n'
  | 'r' => some '\r'
  | 't' => some '\t'
  | _ => none

/-- The value of a hexadecimal digit. -/
def hexValue (c : Char) : Option Nat :=
  let n := c.toNat
  if 48 ≤ n ∧ n ≤ 57 then some (n - 48)
  else if 97 ≤ n ∧ n ≤ 102 then some (n - 87)
  else if 65 ≤ n ∧ n ≤ 70 then some (n - 55)
  else none

/-! ## 2. Places -/

/-- A place in a number. -/
inductive NumberPlace where
  /-- After the sign. -/
  | sign
  /-- After a zero that starts the number. -/
  | zero
  /-- Among the digits of the whole part, whose value so far is known. -/
  | digits (value : Nat)
  /-- After the point. -/
  | point
  /-- Among the digits after the point. -/
  | fraction
  /-- After the letter of the exponent. -/
  | exponent
  /-- After the sign of the exponent. -/
  | exponentSign
  /-- Among the digits of the exponent. -/
  | exponentDigits
deriving DecidableEq, Repr

/-- A place in a text of tokens. -/
inductive Place where
  /-- Between two tokens. -/
  | between
  /-- Inside a text; its code points, the last one first. -/
  | text (points : List Nat)
  /-- After a backslash. -/
  | escape (points : List Nat)
  /-- Inside a code of four digits: how many are missing, and the value so far. -/
  | code (points : List Nat) (missing value : Nat)
  /-- Inside a number. -/
  | number (negative : Bool) (place : NumberPlace)
  /-- Inside a word of which this is missing. -/
  | word (missing : List Char)
deriving DecidableEq, Repr

/-- The place after one more character of a number, if the number goes on. -/
def NumberPlace.next (p : NumberPlace) (c : Char) : Option NumberPlace :=
  let digit := c.isDigit
  let value := c.toNat - 48
  match p with
  | sign => if c = '0' then some .zero else if digit then some (.digits value) else none
  | zero => fractional c
  | digits n => if digit then some (.digits (n * 10 + value)) else fractional c
  | point => if digit then some .fraction else none
  | fraction => if digit then some .fraction else exponential c
  | exponent =>
    if digit then some .exponentDigits
    else if c = '+' ∨ c = '-' then some .exponentSign
    else none
  | exponentSign | exponentDigits => if digit then some .exponentDigits else none
where
  /-- An exponent starts here. -/
  exponential (c : Char) : Option NumberPlace :=
    if c = 'e' ∨ c = 'E' then some .exponent else none
  /-- A fraction or an exponent starts here. -/
  fractional (c : Char) : Option NumberPlace :=
    if c = '.' then some .point else exponential c

/-- The token of a number that ends at a place, if it may end there. -/
def NumberPlace.token? (negative : Bool) : NumberPlace → Option Token
  | zero => some (if negative then .number else .integer 0)
  | digits n => some (.integer (if negative then -n else n))
  | fraction | exponentDigits => some .number
  | sign | point | exponent | exponentSign => none

/-! ## 3. Scanning -/

/-- The tokens so far, the last one first, and the place reached. -/
structure Scanner where
  tokens : List Token := []
  place : Place := .between
deriving DecidableEq, Repr

namespace Scanner

/-- Add a token, after which the next one may start. -/
def emit (s : Scanner) (t : Token) : Scanner :=
  { tokens := t :: s.tokens, place := .between }

/-- Go to another place. -/
def goto (s : Scanner) (p : Place) : Scanner :=
  { s with place := p }

/-- A character between two tokens. -/
def start (s : Scanner) (c : Char) : Option Scanner :=
  match c with
  | ' ' | '\t' | '\n' | '\r' => some (s.goto .between)
  | '\x7b' => some (s.emit .openObject)
  | '\x7d' => some (s.emit .closeObject)
  | '[' => some (s.emit .openArray)
  | ']' => some (s.emit .closeArray)
  | ':' => some (s.emit .colon)
  | ',' => some (s.emit .comma)
  | '"' => some (s.goto (.text []))
  | 't' => some (s.goto (.word ['r', 'u', 'e']))
  | 'f' => some (s.goto (.word ['a', 'l', 's', 'e']))
  | 'n' => some (s.goto (.word ['u', 'l', 'l']))
  | '-' => some (s.goto (.number true .sign))
  | c => (NumberPlace.sign.next c).map fun p => s.goto (.number false p)

/-- One character. -/
def next (s : Scanner) (c : Char) : Option Scanner :=
  match s.place with
  | .between => s.start c
  | .text points =>
    if c = '"' then some (s.emit (.text ((joinSurrogates points.reverse).map String.ofList)))
    else if c = '\\' then some (s.goto (.escape points))
    else if c.toNat < 0x20 then none
    else some (s.goto (.text (c.toNat :: points)))
  | .escape points =>
    if c = 'u' then some (s.goto (.code points 4 0))
    else (escaped c).map fun e => s.goto (.text (e.toNat :: points))
  | .code points missing value => do
    let value := value * 16 + (← hexValue c)
    if missing ≤ 1 then return s.goto (.text (value :: points))
    return s.goto (.code points (missing - 1) value)
  | .number negative place =>
    match place.next c with
    | some place => some (s.goto (.number negative place))
    | none => do (s.emit (← place.token? negative)).start c
  | .word (m :: missing) =>
    if c ≠ m then none
    else if missing.isEmpty then some (s.emit .word)
    else some (s.goto (.word missing))
  | .word [] => none

/-- The tokens at the end of the text, if it may end here. -/
def finish (s : Scanner) : Option (List Token) :=
  match s.place with
  | .between => some s.tokens.reverse
  | .number negative place => return ((← place.token? negative) :: s.tokens).reverse
  | _ => none

end Scanner

/-- The tokens of a text. -/
def tokens? (text : String) : Option (List Token) := do
  (← text.toList.foldlM Scanner.next {}).finish

end Mtproto.Json
