import Scorecard.Number.Shortest
import Scorecard.Number.Layout

/-!
# Numbers in JSON

A number is read in floating-point arithmetic: its leading digits, as many as fit into 64 bits, are
a significand, which is then multiplied or divided by a power of ten. The result can differ from
the nearest number in its last bit. A number beyond the range is refused.

A number is written in shortest digits, in full from `1e-5` up to `1e16` and else with an exponent.
Whole numbers show a decimal place.
-/

namespace Scorecard.Document.Json

open Number

/-! ## Reading -/

/-- Takes digits into a significand as long as it fits into 64 bits; gives the digits left over. -/
def absorb (significand : Nat) : List Char → Nat × List Char
  | [] => (significand, [])
  | digit :: rest =>
    let next := 10 * significand + (digit.toNat - '0'.toNat)
    if next < 2 ^ 64 then absorb next rest else (significand, digit :: rest)

/-- Divides by `10 ^ places` in steps that have a factor of their own. -/
def divideByPower (x : Float) (places : Nat) : Float :=
  if places ≤ 308 then x / Float.ofScientific 1 false places
  else if x == 0 then x
  else divideByPower (x / Float.ofScientific 1 false 308) (places - 308)
termination_by places

/-- Scales a significand by a power of ten; none if the result is beyond the range. -/
def scale? (significand : Nat) (exponent : Int) : Option Float :=
  let x := Float.ofNat significand
  if exponent < 0 then
    -- A significand below `10 ^ 20` is zero after this many places.
    some (divideByPower x (min exponent.natAbs 1000))
  else if 308 < exponent then if significand = 0 then some x else none
  else some (x * Float.ofScientific 1 false exponent.toNat) |>.filter fun y => !y.isInf

/-- The number of whole digits, decimal places and an exponent. -/
def numberOf? (whole fraction : List Char) (exponent : Int) : Option Float :=
  let (significand, omitted) := absorb 0 whole
  let (significand, ignored) := absorb significand fraction
  scale? significand (exponent + omitted.length - (fraction.length - ignored.length : Nat))

/-- Splits off whole digits; more than one do not start with a zero. -/
def wholeDigits? (s : List Char) : Option (List Char × List Char) :=
  match s.takeWhile Char.isDigit with
  | [] => none
  | ['0'] => some (['0'], s.dropWhile Char.isDigit)
  | '0' :: _ => none
  | digits => some (digits, s.dropWhile Char.isDigit)

/-- Splits off decimal places with their point, at least one if there is a point. -/
def fractionDigits? : List Char → Option (List Char × List Char)
  | '.' :: s =>
    match s.takeWhile Char.isDigit with
    | [] => none
    | digits => some (digits, s.dropWhile Char.isDigit)
  | s => some ([], s)

/-- Splits off an exponent. -/
def exponentPart? : List Char → Option (Int × List Char)
  | [] => some (0, [])
  | mark :: s =>
    if mark == 'e' || mark == 'E' then
      let (negative, s) := splitSign s
      match s.takeWhile Char.isDigit with
      | [] => none
      | digits =>
        let value := digitsValue digits
        some (if negative then -(value : Int) else value, s.dropWhile Char.isDigit)
    else some (0, mark :: s)

/-- Splits off a number. -/
def number? (s : List Char) : Option (Float × List Char) := do
  let (negative, s) : Bool × List Char := match s with
    | '-' :: s => (true, s)
    | s => (false, s)
  let (whole, s) ← wholeDigits? s
  let (fraction, s) ← fractionDigits? s
  let (exponent, s) ← exponentPart? s
  let x ← numberOf? whole fraction exponent
  return (if negative then -x else x, s)

/-! ## Writing -/

/-- A decimal with one digit before the point and an exponent. -/
def scientific (d : Decimal) : List Char :=
  let digits := digitsOf d.coefficient
  let exponent := d.exponent + (digits.length - 1 : Nat)
  let mantissa := if digits.length = 1 then digits else withPlaces digits (digits.length - 1)
  mantissa ++ 'e' :: (if exponent < 0 then '-' else '+') :: digitsOf exponent.natAbs

/-- The digits of a positive number. -/
def magnitudeDigits (value : Binary) : List Char :=
  let d := shortest .even value
  let exponent := d.exponent + ((digitsOf d.coefficient).length - 1 : Nat)
  if exponent < -5 || 16 ≤ exponent then scientific d
  else if 0 ≤ d.exponent then d.positional ++ ['.', '0']
  else d.positional

/-- The text of a number; infinities and NaN are null. -/
def numberDigits (x : Float) : List Char :=
  if x.isFinite then
    let value := exact x
    signed value.negative
      (if value.significand = 0 then ['0', '.', '0'] else magnitudeDigits value)
  else "null".toList

end Scorecard.Document.Json
