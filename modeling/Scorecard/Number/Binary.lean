/-!
# The exact value of a number

A finite number is a sign, a natural significand and a power of two. `exact` reads the three off
the bits of the number; whoever prints a number works on them and not on the number itself.
-/

namespace Scorecard.Number

/-- The exact value `± significand * 2 ^ exponent` of a finite number. -/
structure Binary where
  negative : Bool
  significand : Nat
  exponent : Int
  deriving Repr, DecidableEq

/-- The exact value of a finite number. The eleven exponent bits are biased by 1075 for a
significand taken as a natural number; if they are all zero, the leading bit is not implied. -/
def exact (x : Float) : Binary :=
  let bits := x.toBits.toNat
  let biased := bits / Nat.pow 2 52 % Nat.pow 2 11
  let fraction := bits % Nat.pow 2 52
  { negative := Nat.pow 2 63 ≤ bits
    significand := if biased = 0 then fraction else Nat.pow 2 52 + fraction
    exponent := (max biased 1 : Nat) - 1075 }

end Scorecard.Number
