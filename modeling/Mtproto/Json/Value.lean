import Mtproto.Json.Token
import Mtproto.Text.Hex

/-!
# Values of JSON

Reading is strict: one value and nothing after it, no comma too many, and only texts as keys.
The reader goes over the tokens once and keeps the brackets that are open on a stack, so that
values may be nested to any depth.

`quote` writes a text with as few escapes as there can be.
-/

namespace Mtproto.Json

/-! ## 1. Values -/

/-- A value.  Numbers and words are kept only as far as anyone asks. -/
inductive Value where
  /-- A text, without content if half of a surrogate pair is left over. -/
  | text (content : Option String)
  /-- A number written with digits alone, and a sign unless it is zero. -/
  | integer (value : Int)
  /-- Any other number. -/
  | number
  /-- One of the three words. -/
  | word
  | array (items : List Value)
  /-- The fields in their order, repetitions included. -/
  | object (fields : List (Option String × Value))
deriving Repr, Inhabited

/-! ## 2. Reading -/

/-- A bracket that is open, with what it holds so far, the last one first. -/
inductive Bracket where
  | array (items : List Value)
  | object (fields : List (Option String × Value))
  /-- An object that waits for the value of this name. -/
  | member (name : Option String) (fields : List (Option String × Value))

/-- What the reader waits for; the innermost bracket is the first one. -/
inductive Expected where
  /-- A value. -/
  | value (stack : List Bracket)
  /-- The first item of an array, or its end. -/
  | item (stack : List Bracket)
  /-- The first key of an object, or its end. -/
  | field (stack : List Bracket)
  /-- A key. -/
  | name (stack : List Bracket)
  /-- The colon after a key. -/
  | colon (stack : List Bracket)
  /-- A comma or an end. -/
  | more (stack : List Bracket)
  /-- Nothing: the value is complete. -/
  | done (value : Value)

namespace Expected

/-- A value is complete. -/
def complete (v : Value) : List Bracket → Expected
  | .array items :: rest => .more (.array (v :: items) :: rest)
  | .member k fields :: rest => .more (.object ((k, v) :: fields) :: rest)
  | .object _ :: _ | [] => .done v

/-- The start of a value. -/
def begin (stack : List Bracket) : Token → Option Expected
  | .text content => some (complete (.text content) stack)
  | .integer n => some (complete (.integer n) stack)
  | .number => some (complete .number stack)
  | .word => some (complete .word stack)
  | .openArray => some (.item (.array [] :: stack))
  | .openObject => some (.field (.object [] :: stack))
  | _ => none

/-- The end of the innermost bracket. -/
def close : List Bracket → Token → Option Expected
  | .array items :: rest, .closeArray => some (complete (.array items.reverse) rest)
  | .object fields :: rest, .closeObject => some (complete (.object fields.reverse) rest)
  | _, _ => none

/-- A key of the innermost bracket. -/
def named : List Bracket → Token → Option Expected
  | .object fields :: rest, .text k => some (.colon (.member k fields :: rest))
  | _, _ => none

/-- What follows a comma. -/
def another : List Bracket → Option Expected
  | stack@(.array _ :: _) => some (.value stack)
  | stack@(.object _ :: _) => some (.name stack)
  | _ => none

/-- One token. -/
def next : Expected → Token → Option Expected
  | .value stack, t => begin stack t
  | .item stack, t => close stack t <|> begin stack t
  | .field stack, t => close stack t <|> named stack t
  | .name stack, t => named stack t
  | .colon stack, t => if t = .colon then some (.value stack) else none
  | .more stack, t => if t = .comma then another stack else close stack t
  | .done _, _ => none

end Expected

/-- The value that a text is. -/
def Value.ofText? (text : String) : Option Value := do
  match ← (← tokens? text).foldlM Expected.next (.value []) with
  | .done v => some v
  | _ => none

/-! ## 3. Writing texts -/

/-- A character between quotes. -/
def quoteChar (c : Char) : List Char :=
  match c with
  | '"' => ['\\', '"']
  | '\\' => ['\\', '\\']
  | '\x08' => ['\\', 'b']
  | '\x0c' => ['\\', 'f']
  | '\n' => ['\\', 'n']
  | '\r' => ['\\', 'r']
  | '\t' => ['\\', 't']
  | c => if c.toNat < 0x20 then '\\' :: 'u' :: Text.hexDigits 4 c.toNat else [c]

/-- A text between quotes. -/
def quote (s : String) : String :=
  String.ofList ('"' :: (s.toList.flatMap quoteChar ++ ['"']))

end Mtproto.Json
