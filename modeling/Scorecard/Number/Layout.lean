import Scorecard.Number.Shortest

/-!
# Writing numbers

Three ways to write a number: `display` in full and in shortest digits, `fixed` with a number of
decimal places, and the helpers that place a point among digits. A NaN is written without a sign,
and the sign of zero is kept.
-/

namespace Scorecard.Number

/-- The decimal digits of a natural number. -/
def digitsOf (n : Nat) : List Char :=
  Nat.toDigits 10 n

/-- Digits with a point in front of the last `places` of them, and zeros in front where digits
lack. Without places there is no point. -/
def withPlaces (digits : List Char) (places : Nat) : List Char :=
  let padded := List.replicate (places + 1 - digits.length) '0' ++ digits
  let whole := padded.take (padded.length - places)
  if places = 0 then whole else whole ++ '.' :: padded.drop (padded.length - places)

/-- A decimal number in full, without an exponent. -/
def Decimal.positional (d : Decimal) : List Char :=
  if 0 ≤ d.exponent then digitsOf d.coefficient ++ List.replicate d.exponent.toNat '0'
  else withPlaces (digitsOf d.coefficient) (-d.exponent).toNat

/-- A minus in front of a text if asked for. -/
def signed (negative : Bool) (text : List Char) : List Char :=
  if negative then '-' :: text else text

/-- The shortest digits that read back, written in full; of two digits equally near it is the
greater one. -/
def displayDigits (x : Float) : List Char :=
  if x.isNaN then "NaN".toList
  else
    let value := exact x
    signed value.negative <|
      if x.isInf then "inf".toList
      else if value.significand = 0 then ['0']
      else (shortest .up value).positional

/-- A number in full. -/
def display (x : Float) : String :=
  String.ofList (displayDigits x)

/-- A finite number rounded to decimal places, written with exactly these. The exact value is
rounded, and a tie goes to the even digit. -/
def fixedDigits (places : Nat) (x : Float) : List Char :=
  let value := exact x
  let rounded := roundQuotient .even
    (value.significand * Nat.pow 2 value.exponent.toNat * Nat.pow 10 places)
    (Nat.pow 2 (-value.exponent).toNat)
  signed value.negative (withPlaces (digitsOf rounded) places)

end Scorecard.Number
