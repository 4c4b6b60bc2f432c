import Mathlib.Algebra.Ring.Nat
import Mtproto.Number.PowMod

/-!
# Powers modulo a number

`Number.powMod` squares its way through the binary digits of the exponent.  It gives the remainder
of the power (`powMod_eq`), so two exponents may be applied in either order (`powMod_comm`).  The
key exchange rests on the second one: both sides come to one secret.
-/

namespace Mtproto.Number

/-- The power modulo a number is the remainder of the power. -/
theorem powMod_eq (base exponent modulus : Nat) :
    powMod base exponent modulus = base ^ exponent % modulus := by
  induction exponent using Nat.strongRecOn with
  | ind e ih =>
    rw [powMod]
    by_cases h : e = 0
    · simp [h]
    · have hlt : e / 2 < e := by omega
      have hsq : base ^ (e / 2) % modulus * (base ^ (e / 2) % modulus) % modulus
          = base ^ (2 * (e / 2)) % modulus := by
        rw [← Nat.mul_mod, ← Nat.pow_add]
        congr 2; omega
      simp only [h, if_false, ih _ hlt, hsq]
      by_cases hp : e % 2 = 0
      · have : 2 * (e / 2) = e := by omega
        simp [hp, this]
      · have : e = 2 * (e / 2) + 1 := by omega
        rw [if_neg hp, Nat.mod_mul_mod, ← Nat.pow_succ, Nat.succ_eq_add_one, ← this]

/-- A power of a power takes both exponents. -/
theorem powMod_powMod (base a b modulus : Nat) :
    powMod (powMod base a modulus) b modulus = powMod base (a * b) modulus := by
  calc powMod (powMod base a modulus) b modulus
      = (base ^ a % modulus) ^ b % modulus := by rw [powMod_eq, powMod_eq]
    _ = (base ^ a) ^ b % modulus := by rw [← Nat.pow_mod]
    _ = powMod base (a * b) modulus := by rw [← Nat.pow_mul, powMod_eq]

/-- So it does not matter which of them comes first. -/
theorem powMod_comm (base a b modulus : Nat) :
    powMod (powMod base a modulus) b modulus = powMod (powMod base b modulus) a modulus := by
  rw [powMod_powMod, powMod_powMod, Nat.mul_comm]

end Mtproto.Number
