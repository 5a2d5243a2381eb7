/-!
# Comparing numbers

Numbers are binary floating-point numbers of double precision. Beside the usual comparison, which
takes the two zeros as equal and is false of anything that is not a number, this module has the
greater and the smaller of two numbers, and a key that puts all numbers into one total order.
-/

namespace Scorecard.Number

/-- Positive infinity. -/
def infinity : Float :=
  Float.ofBits 0x7ff0000000000000

/-- Negative infinity. -/
def negativeInfinity : Float :=
  Float.ofBits 0xfff0000000000000

/-- The greater of two numbers. A NaN gives way to the other one, and of two equal numbers, such
as the two zeros, it is the first. -/
def greater (x y : Float) : Float :=
  if x < y || x.isNaN then y else x

/-- The smaller of two numbers. A NaN gives way to the other one, and of two equal numbers, such
as the two zeros, it is the first. -/
def smaller (x y : Float) : Float :=
  if y < x || x.isNaN then y else x

/-- The place of a number in the total order: the negative numbers by falling magnitude, then
`-0` and `0`, which differ here, then the positive ones, and NaN after positive infinity. -/
def orderKey (x : Float) : Int :=
  let bits := x.toBits.toNat
  if bits < Nat.pow 2 63 then bits else (Nat.pow 2 63 : Int) - 1 - bits

/-- The total order of numbers as a test. -/
def ordered (x y : Float) : Bool :=
  orderKey x ≤ orderKey y

theorem ordered_total (x y : Float) : (ordered x y || ordered y x) = true := by
  simp only [ordered, Bool.or_eq_true, decide_eq_true_eq]
  omega

theorem ordered_trans {x y z : Float} (hxy : ordered x y = true) (hyz : ordered y z = true) :
    ordered x z = true := by
  simp only [ordered, decide_eq_true_eq] at *
  omega

end Scorecard.Number
