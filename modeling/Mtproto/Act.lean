import Mtproto.Entropy
import Mtproto.Error

/-!
# Procedures

A procedure works on a state, takes bytes from a tape, and either gives a result or halts:
with an error, which is an answer, or with a fault.  What it has done to the state and to the
tape before it halts stays done.
-/

namespace Mtproto

/-- Why a procedure halts. -/
inductive Halt where
  | error (error : Error)
  | fault (fault : Fault)
deriving DecidableEq, Repr

/-- A procedure on a state `σ` with a result `α`. -/
abbrev Act (σ : Type) := ExceptT Halt (StateM (σ × Entropy))

namespace Act

variable {σ τ α : Type}

/-- Halt with an error. -/
def fail (e : Error) : Act σ α :=
  throw (.error e)

/-- The result, or halt with the error. -/
def ofExcept (r : Except Error α) : Act σ α :=
  match r with
  | .ok a => pure a
  | .error e => fail e

/-- The result, or halt with the fault. -/
def ofFault (r : Except Fault α) : Act σ α :=
  match r with
  | .ok a => pure a
  | .error f => throw (.fault f)

/-- The state. -/
def state : Act σ σ :=
  return (← get).1

/-- Change the state. -/
def update (f : σ → σ) : Act σ Unit :=
  modify fun (s, e) => (f s, e)

/-- Take from the tape. -/
def draw (d : Draw α) : Act σ α := fun (s, e) =>
  match d e with
  | (.ok a, e) => (.ok a, s, e)
  | (.error f, e) => (.error (.fault f), s, e)

/-- Take from the tape, and halt if the result is an error. -/
def drawExcept (d : Draw (Except Error α)) : Act σ α := do
  ofExcept (← draw d)

/-- A procedure on a part of the state. -/
def zoom (part : σ → τ) (put : τ → σ → σ) (a : Act τ α) : Act σ α := fun (s, e) =>
  let (r, t, e) := a (part s, e)
  (r, put t s, e)

end Act

end Mtproto
