import Mtproto.Fault
import Mtproto.Hash.Sha1
import Mtproto.Number.PowMod
import Mtproto.Rsa.Der
import Mtproto.Text.Base64
import Mtproto.Text.Blank
import Mtproto.Wire.Writer

/-!
# Public keys of servers

A client encrypts only to keys it knows beforehand and finds them by their fingerprint.
A key is read from its binary form -- a sequence of modulus and exponent, or that wrapped in
a string of bits together with the name of the algorithm -- or from a text that holds the
binary form in base 64 between two lines of dashes.
-/

namespace Mtproto

/-- A public key. -/
structure RsaKey where
  modulus : Nat
  exponent : Nat
deriving DecidableEq, Repr

namespace RsaKey

/-- The length of an encrypted block. -/
def blockLength : Nat := 256

/-- The low 64 bits of the digest of modulus and exponent. -/
def fingerprint (key : RsaKey) : UInt64 :=
  match ((Wire.Writer.empty.natural key.modulus).natural key.exponent).finish with
  | .ok bs => sha1Word bs
  | .error _ => sha1Word []

/-- The data, as a number, to the power of the exponent. -/
def encrypt (key : RsaKey) (data : Bytes) : Except Fault Bytes :=
  if key.modulus = 0 then .error .zeroModulus
  else .ok (Bytes.ofNatPadded
    (Number.powMod (Bytes.ofBE data) key.exponent key.modulus) blockLength)

/-! ## 1. The binary form -/

/-- What a binary form turns out to be: a key, or another binary form that is wrapped in
it. -/
inductive Layer where
  | key (key : RsaKey)
  | wrapped (inner : Bytes)
deriving DecidableEq, Repr

open Rsa.Der in
/-- Look at the outermost layer of a binary form. -/
def readLayer (der : Bytes) : Except DerError Layer := do
  let outer ← Item.read der
  if outer.tag ≠ sequenceTag then throw .sequenceExpected
  let first ← Item.read outer.content
  if first.tag = integerTag then
    let second ← Item.read first.rest
    if second.tag ≠ integerTag then throw .exponentExpected
    return .key ⟨Bytes.ofBE first.content, Bytes.ofBE second.content⟩
  else if first.tag = sequenceTag then
    let second ← Item.read first.rest
    match second.content with
    | 0 :: inner =>
      if second.tag = bitStringTag then return .wrapped inner else throw .bitStringExpected
    | _ => throw .bitStringExpected
  else throw .unrecognised

/-- What is wrapped is shorter than what it is wrapped in. -/
theorem length_wrapped {der inner : Bytes} (h : readLayer der = .ok (.wrapped inner)) :
    inner.length < der.length := by
  unfold readLayer at h
  cases ho : Rsa.Der.Item.read der with
  | error e => rw [ho] at h; cases h
  | ok outer =>
    have hlo := Rsa.Der.Item.length_read ho
    rw [ho] at h
    simp only [bind, Except.bind, throw, throwThe, MonadExceptOf.throw, pure, Except.pure] at h
    split at h
    · cases h
    · cases hf : Rsa.Der.Item.read outer.content with
      | error e => rw [hf] at h; cases h
      | ok first =>
        have hlf := Rsa.Der.Item.length_read hf
        simp only [hf] at h
        cases hs : Rsa.Der.Item.read first.rest with
        | error e => simp only [hs] at h; grind
        | ok second =>
          have hls := Rsa.Der.Item.length_read hs
          simp only [hs] at h
          have : second.content = 0 :: inner := by grind
          rw [this] at hls
          simp at hls
          omega

/-- The key that a binary form holds, whatever it is wrapped in. -/
def ofDer (der : Bytes) : Except DerError RsaKey :=
  match _h : readLayer der with
  | .error e => .error e
  | .ok (.key key) => .ok key
  | .ok (.wrapped inner) => ofDer inner
termination_by der.length
decreasing_by exact length_wrapped _h

/-! ## 2. The text form -/

/-- What the lines around the content start with. -/
def ruler : List Char := ['-', '-', '-', '-', '-']

/-- The lines of a text form that belong to its content. -/
def contentLines (text : List Char) : List (List Char) :=
  ((Text.lines text).map Text.trim).filter fun l => !l.isEmpty && !ruler.isPrefixOf l

/-- The key that a text form holds. -/
def ofPem (text : List Char) : Except Error RsaKey :=
  match Text.Base64.decode (contentLines text).flatten with
  | none => .error (.config .keyText)
  | some der => (ofDer der).mapError fun e => .config (.keyDer e)

end RsaKey

end Mtproto
