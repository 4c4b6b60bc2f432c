import Mtproto.Entropy
import Mtproto.Number.PowMod

/-!
# Testing for primes

A number is first divided by the small primes.  If none of them divides it, random bases are
tried: a base is a witness that the number is composite unless, in the sequence of its powers
that ends at the exponent `n - 1` and squares at each step, the first one is 1 or one of them
is `n - 1`.  A number without a witness among the bases tried is called a probable prime.
-/

namespace Mtproto.Number

/-- The primes below fifty. -/
def smallPrimes : List Nat := [2, 3, 5, 7, 11, 13, 17, 19, 23, 29, 31, 37, 41, 43, 47]

/-- Trial division: whether the number is one of the primes, if it is one of them or if one
of them divides it. -/
def trialDivision : List Nat → Nat → Option Bool
  | [], _ => none
  | p :: ps, n => if n = p then some true else if n % p = 0 then some false
    else trialDivision ps n

/-- How often two divides a number; zero is taken to be odd. -/
def twos (n : Nat) : Nat :=
  if n = 0 then 0 else if n % 2 = 0 then twos (n / 2) + 1 else 0
termination_by n
decreasing_by omega

/-- Square up to `steps` times and look for `n - 1`. -/
def meetsMinusOne (n : Nat) : (steps : Nat) → Nat → Bool
  | 0, _ => false
  | steps + 1, x =>
    let x := x * x % n
    if x = n - 1 then true else if x = 1 then false else meetsMinusOne n steps x

/-- The base does not show that `n` is composite. -/
def passes (n base : Nat) : Bool :=
  let s := twos (n - 1)
  let x := powMod base ((n - 1) >>> s) n
  x = 1 || x = n - 1 || meetsMinusOne n (s - 1) x

/-- No witness among `rounds` random bases. -/
def noWitness (n : Nat) : (rounds : Nat) → Draw Bool
  | 0 => return true
  | rounds + 1 => do
    let base ← Draw.naturalBetween 2 (n - 1)
    if passes n base then noWitness n rounds else return false

/-- The number is a prime as far as `rounds` random bases tell. -/
def isProbablePrime (n rounds : Nat) : Draw Bool :=
  match trialDivision smallPrimes n with
  | some answer => return answer
  | none => if n < 2 then return false else noWitness n rounds

end Mtproto.Number
