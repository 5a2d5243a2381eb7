import Scorecard.Number.Layout

/-!
# Amounts

The compact text of a score in tables: millions and thousands have a suffix and up to one decimal
place, other amounts from ten on have none, and small ones have up to two. Each bound stands where
the text of the smaller unit would round up into the greater one.
-/

namespace Scorecard.Report

/-- Drops the zeros at the end of decimal places, and the point if no place is left. -/
def trimPlaces (text : List Char) : List Char :=
  ((text.reverse.dropWhile (· == '0')).dropWhile (· == '.')).reverse

/-- A finite number with up to `places` decimal places. -/
def upTo (places : Nat) (x : Float) : List Char :=
  trimPlaces (Number.fixedDigits places x)

/-- The compact digits of a finite number. -/
def amountDigits (x : Float) : List Char :=
  let magnitude := x.abs
  if 999950.0 ≤ magnitude then upTo 1 (x / 1000000.0) ++ ['M']
  else if 999.5 ≤ magnitude then upTo 1 (x / 1000.0) ++ ['k']
  else if 9.995 ≤ magnitude then Number.fixedDigits 0 x
  else upTo 2 x

/-- The compact text of a number. What rounds to zero has no sign. -/
def amount (x : Float) : String :=
  if x.isFinite then
    let text := amountDigits x
    if text = ['-', '0'] then "0" else String.ofList text
  else Number.display x

end Scorecard.Report
