/-!
# Powers modulo a number

`powMod` squares its way through the binary digits of the exponent, so that no number on the
way is longer than twice the modulus.
-/

namespace Mtproto.Number

/-- The remainder of `base ^ exponent` by `modulus`. -/
def powMod (base exponent modulus : Nat) : Nat :=
  if exponent = 0 then 1 % modulus
  else
    let root := powMod base (exponent / 2) modulus
    let square := root * root % modulus
    if exponent % 2 = 0 then square else square * base % modulus
termination_by exponent
decreasing_by omega

end Mtproto.Number
