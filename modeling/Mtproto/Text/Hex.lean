/-!
# Numbers in hexadecimal

Error texts show tags, key identifiers and single bytes as `0x` and lower-case digits, with
zeros in front up to the width of the word.
-/

namespace Mtproto.Text

/-- The character of a digit below sixteen. -/
def hexDigit (n : Nat) : Char :=
  if n < 10 then Char.ofNat (48 + n) else Char.ofNat (87 + n)

/-- The last `width` hexadecimal digits of a number. -/
def hexDigits : (width : Nat) → Nat → List Char
  | 0, _ => []
  | w + 1, n => hexDigits w (n / 16) ++ [hexDigit (n % 16)]

/-- `0x` and the last `width` digits of a number. -/
def hexWord (width n : Nat) : String :=
  String.ofList ('0' :: 'x' :: hexDigits width n)

end Mtproto.Text
