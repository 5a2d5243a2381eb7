import Scorecard.Number.Binary
import Scorecard.Number.Rounding
import Scorecard.Number.Spelling

/-!
# Shortest decimals

`shortest` is the decimal number with the fewest digits among those that read back as a given
floating-point number, and of these the nearest to it. The numbers that read back form an interval
around the value, half way to its neighbours on both sides; its ends belong to it if the significand
is even. The search goes from coarse decimal grids to fine ones and tries the two neighbours of the
value on each.
-/

namespace Scorecard.Number

/-- What reads back as a number, as numerators over one denominator: the value, the lower end and
the upper end of the interval, and whether the ends belong to it. -/
structure Surroundings where
  value : Nat
  lower : Nat
  upper : Nat
  denominator : Nat
  closed : Bool

namespace Surroundings

/-- The interval of a positive value. Its neighbour below is only half as far if the significand is
the least of its binade. -/
def of (x : Binary) : Surroundings :=
  let scale := Nat.pow 2 (x.exponent - 2).toNat
  let isLeast := x.significand == Nat.pow 2 52 && x.exponent != -1074
  { value := 4 * x.significand * scale
    lower := (4 * x.significand - if isLeast then 1 else 2) * scale
    upper := (4 * x.significand + 2) * scale
    denominator := Nat.pow 2 (2 - x.exponent).toNat
    closed := x.significand % 2 == 0 }

/-- The same interval in units of a power of ten. -/
def inUnits (s : Surroundings) (exponent : Int) : Surroundings :=
  let scale := Nat.pow 10 (-exponent).toNat
  { value := s.value * scale
    lower := s.lower * scale
    upper := s.upper * scale
    denominator := s.denominator * Nat.pow 10 exponent.toNat
    closed := s.closed }

/-- Whether a natural number lies in the interval. -/
def holds (s : Surroundings) (n : Nat) : Bool :=
  let numerator := n * s.denominator
  if s.closed then s.lower ≤ numerator && numerator ≤ s.upper
  else s.lower < numerator && numerator < s.upper

/-- The natural number in the interval that is nearest to the value, if there is one. -/
def nearest? (tie : Tie) (s : Surroundings) : Option Nat :=
  let floor := s.value / s.denominator
  match s.holds floor, s.holds (floor + 1) with
  | true, true => some (roundQuotient tie s.value s.denominator)
  | true, false => some floor
  | false, true => some (floor + 1)
  | false, false => none

/-- The first decimal in the interval on the grids from a power of ten downward. -/
def search (tie : Tie) (s : Surroundings) : (fuel : Nat) → (exponent : Int) → Decimal
  | 0, exponent => ⟨(s.inUnits exponent).value / (s.inUnits exponent).denominator, exponent⟩
  | fuel + 1, exponent =>
    match (s.inUnits exponent).nearest? tie with
    | some n => ⟨n, exponent⟩
    | none => search tie s fuel (exponent - 1)

end Surroundings

/-- The shortest decimal that reads back as a positive value. The search starts above the value and
ends at the latest where its last binary digit is a whole number of units. -/
def shortest (tie : Tie) (x : Binary) : Decimal :=
  let s := Surroundings.of x
  let digits := (Nat.toDigits 10 (s.value / s.denominator)).length
  s.search tie (digits + 1077) digits

end Scorecard.Number
