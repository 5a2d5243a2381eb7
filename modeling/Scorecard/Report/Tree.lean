import Scorecard.Element
import Scorecard.Number.Layout
import Scorecard.Report.Style

/-!
# Listings of calculations

A calculation as a listing with one line for each element; children stand below their node, two
columns further in.
-/

namespace Scorecard.Report

/-- A line at a depth. -/
def indented (depth : Nat) (text : String) : String :=
  String.ofList (List.replicate (2 * depth) ' ') ++ text

mutual

/-- The lines of an element at a depth. -/
def elementLines (depth : Nat) : Element → List String
  | .constant _ value => [indented depth (Number.display value)]
  | .banded name bands _ => [indented depth s!"[{name}] interval ({bands.length} ranges)"]
  | .bounded name lower upper =>
    let lower := (lower.map Number.display).getD "-inf"
    let upper := (upper.map Number.display).getD "inf"
    [indented depth s!"[{name}] range [{lower}, {upper}]"]
  | .node name _ children => indented depth name :: childLines (depth + 1) children

/-- The lines of several elements at a depth. -/
def childLines (depth : Nat) : List Element → List String
  | [] => []
  | child :: rest => elementLines depth child ++ childLines depth rest

end

/-- The listing of a calculation. -/
def tree (calculation : Calculation) : String :=
  joinLines (elementLines 0 calculation.toElement)

end Scorecard.Report
