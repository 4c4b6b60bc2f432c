import Mtproto.Wire.Reader

/-!
# Bare and boxed values

A bare value is its fields, one after the other.  A boxed value has a 32-bit tag in front
that names its constructor.  A family is a closed set of constructors that may stand in one
place; its tag says which one does.
-/

namespace Mtproto.Wire

/-- A type whose values are written and read field by field. -/
class Bare (α : Type) where
  write : Writer → α → Writer
  read : Read α

/-- A bare type whose boxed values all carry one tag. -/
class Tagged (α : Type) extends Bare α where
  tag : UInt32

/-- A closed set of constructors. -/
class Family (α : Type) where
  /-- The tag of a value. -/
  tag : α → UInt32
  /-- Read the fields that belong to a tag, or nothing if no constructor has it. -/
  readFields : UInt32 → Read (Option α)

/-- The bytes of a bare value. -/
def bareBytes {α : Type} [Bare α] (a : α) : Except DecodeError Bytes :=
  (Bare.write .empty a).finish

/-- Append a value with its tag. -/
def Writer.boxed {α : Type} [Tagged α] (w : Writer) (a : α) : Writer :=
  Bare.write (w.word32 (Tagged.tag α)) a

/-- The bytes of a value with its tag. -/
def boxedBytes {α : Type} [Tagged α] (a : α) : Except DecodeError Bytes :=
  (Writer.empty.boxed a).finish

namespace Read

/-- A value, unless a failure has been recorded. -/
def unlessFailed {α : Type} (a : α) : Read (Option α) :=
  return if ← failed then none else some a

/-- A boxed value of a family. -/
def boxed (α : Type) [Family α] : Read (Option α) := do
  let tag ← word32
  if ← failed then return none
  match ← Family.readFields tag with
  | some a => unlessFailed a
  | none =>
    fail (.unknownConstructor tag)
    return none

/-- A boxed value of one constructor. -/
def exactBoxed (α : Type) [Tagged α] : Read (Option α) := do
  let tag ← word32
  if ← failed then return none
  if tag ≠ Tagged.tag α then
    fail (.unknownConstructor tag)
    return none
  unlessFailed (← Bare.read)

end Read

/-- The boxed value of a family that a whole buffer holds. -/
def ofBoxedBytes (α : Type) [Family α] (bs : Bytes) : Except DecodeError α :=
  let (a?, r) := Read.boxed α (.ofBytes bs)
  match r.finish with
  | .error e => .error e
  | .ok () => match a? with
    | some a => .ok a
    | none => .error (.unknownConstructor 0)

end Mtproto.Wire
