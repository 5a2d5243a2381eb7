import Scorecard.Number.Order

/-!
# Reading numbers

A number is spelled as an optional sign and then `inf`, `infinity` or `nan` in any case, or decimal
digits with an optional point and an optional exponent. At least one digit stands before or after
the point, and at least one in an exponent. The value is the nearest floating-point number;
magnitudes beyond the range give an infinity or zero.
-/

namespace Scorecard.Number

/-- The natural number that decimal digits spell. -/
def digitsValue (digits : List Char) : Nat :=
  digits.foldl (fun value c => 10 * value + (c.toNat - '0'.toNat)) 0

/-- The decimal number `coefficient * 10 ^ exponent`. -/
structure Decimal where
  coefficient : Nat
  exponent : Int
  deriving Repr, DecidableEq

/-- The floating-point number nearest to a decimal number. Magnitudes from `10 ^ 310` on are above
the range and those below `10 ^ -330` round to zero, whatever their digits are. -/
def Decimal.toFloat (d : Decimal) : Float :=
  let magnitude : Int := (Nat.toDigits 10 d.coefficient).length + d.exponent
  if d.coefficient = 0 then 0
  else if 310 < magnitude then infinity
  else if magnitude < -330 then 0
  else Float.ofScientific d.coefficient (d.exponent < 0) d.exponent.natAbs

/-- Splits a sign off; the flag says whether it is a minus. -/
def splitSign : List Char → Bool × List Char
  | '-' :: rest => (true, rest)
  | '+' :: rest => (false, rest)
  | s => (false, s)

/-- The exponent that stands at the end of a number, zero if there is none. -/
def exponent? : List Char → Option Int
  | [] => some 0
  | mark :: rest =>
    let (negative, digits) := splitSign rest
    if (mark == 'e' || mark == 'E') && digits ≠ [] && digits.all Char.isDigit then
      some (if negative then -(digitsValue digits : Int) else digitsValue digits)
    else none

/-- The decimal number that a text without a sign spells. -/
def decimal? (s : List Char) : Option Decimal :=
  let whole := s.takeWhile Char.isDigit
  let rest := s.dropWhile Char.isDigit
  let (fraction, rest) : List Char × List Char := match rest with
    | '.' :: rest => (rest.takeWhile Char.isDigit, rest.dropWhile Char.isDigit)
    | rest => ([], rest)
  if whole = [] ∧ fraction = [] then none
  else (exponent? rest).map fun exponent =>
    ⟨digitsValue (whole ++ fraction), exponent - fraction.length⟩

/-- The value of a text without a sign. -/
def magnitude? (s : List Char) : Option Float :=
  let word := s.map Char.toLower
  if word = "inf".toList ∨ word = "infinity".toList then some infinity
  else if word = "nan".toList then some (0 / 0)
  else (decimal? s).map Decimal.toFloat

/-- The number that a text spells. -/
def read? (s : List Char) : Option Float :=
  let (negative, rest) := splitSign s
  (magnitude? rest).map fun x => if negative then -x else x

/-- The finite number that a text spells. -/
def readFinite? (s : List Char) : Option Float :=
  (read? s).filter Float.isFinite

end Scorecard.Number
