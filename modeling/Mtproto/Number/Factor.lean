import Mtproto.Entropy

/-!
# Splitting a word into two factors

Pollard's rho: a walk `x ↦ x² + c` modulo the number is compared with a point saved at the
steps 1, 2, 4, … of the walk.  When the distance to it has a factor in common with the
number, that factor is returned; when the walk has closed on itself modulo every factor, a
new one is started.  A round has a budget of steps, and each round twice that of the one
before.
-/

namespace Mtproto.Number

/-! ## 1. Arithmetic on words -/

/-- The remainder of `a * b + c`, formed without overflow.  Modulo zero there is none. -/
def mulAddMod (a b c m : UInt64) : Except Fault UInt64 :=
  if m = 0 then .error .zeroModulus
  else .ok (UInt64.ofNat ((a.toNat * b.toNat + c.toNat) % m.toNat))

/-- The greatest common divisor of two words. -/
def gcd (a b : UInt64) : UInt64 :=
  if _h : b = 0 then a else gcd b (a % b)
termination_by b.toNat
decreasing_by
  have : b.toNat ≠ 0 := fun e => _h (UInt64.toNat_inj.mp e)
  rw [UInt64.toNat_mod]
  exact Nat.mod_lt _ (by omega)

/-- The distance between two words. -/
def distance (a b : UInt64) : UInt64 :=
  if a < b then b - a else a - b

/-! ## 2. The walk -/

/-- One step of the walk. -/
def walkStep (n c x : UInt64) : UInt64 :=
  UInt64.ofNat ((x.toNat * x.toNat + c.toNat) % n.toNat)

/-- A walk and the point it is compared with. -/
structure Walk where
  constant : UInt64
  point : UInt64
  saved : UInt64
  /-- Steps between the saved point and the next one that will be saved. -/
  checkpoint : Nat
  /-- Steps since the saved point. -/
  steps : Nat
deriving DecidableEq, Repr

namespace Walk

/-- A walk from a random point with a random constant. -/
def start (n : UInt64) : Draw Walk := do
  let constant ← Draw.wordBetween 1 n
  let point ← Draw.wordBetween 0 n
  return { constant, point, saved := point, checkpoint := 1, steps := 0 }

/-- The walk one step further, before the point is saved. -/
def advance (n : UInt64) (w : Walk) : Walk :=
  { w with point := walkStep n w.constant w.point, steps := w.steps + 1 }

/-- Save the point if it is time to. -/
def save (w : Walk) : Walk :=
  if w.steps = w.checkpoint then
    { w with saved := w.point, checkpoint := w.checkpoint * 2, steps := 0 }
  else w

/-- What the number has in common with the distance between the point and the saved one. -/
def common (n : UInt64) (w : Walk) : UInt64 :=
  gcd (distance w.point w.saved) n

end Walk

/-- Walk for at most `budget` steps. -/
def rho (n : UInt64) : (budget : Nat) → Walk → Draw (Option UInt64)
  | 0, _ => return none
  | budget + 1, w => do
    let w := w.advance n
    let d := w.common n
    if d = n then rho n budget (← Walk.start n)
    else if d ≠ 1 then return some d
    else rho n budget w.save

/-! ## 3. Factorization -/

/-- The number of rounds. -/
def rhoRounds : Nat := 3

/-- The budget of a round. -/
def rhoBudget (round : Nat) : Nat := 1 <<< (18 + round)

/-- The rounds from `round` on, `n` of them. -/
def factorizeRounds (pq : UInt64) : (n round : Nat) → Draw (UInt64 × UInt64)
  | 0, _ => return (1, pq)
  | n + 1, round => do
    match ← rho pq (rhoBudget round) (← Walk.start pq) with
    | some p =>
      let q := pq / p
      return if p ≤ q then (p, q) else (q, p)
    | none => factorizeRounds pq n (round + 1)

/-- Two factors of a word, the smaller one first; one and the word itself if none are
found. -/
def factorize (pq : UInt64) : Draw (UInt64 × UInt64) :=
  if pq < 4 then return (1, pq)
  else if pq % 2 = 0 then return (2, pq / 2)
  else factorizeRounds pq rhoRounds 0

end Mtproto.Number
