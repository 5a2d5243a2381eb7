import Scorecard.Formula.Chain
import Scorecard.Formula.Classify
import Scorecard.Formula.Nesting

/-!
# Formulas as calculations

A formula is the sum of its fragments: each run is the chain of its tokens, and each group is the
sum of its own fragments in turn. Several formulas are the sum of all their fragments.
-/

namespace Scorecard.Formula

mutual

/-- The calculation of a fragment over a catalog. -/
def Fragment.calculation (catalog : List Element) : Fragment → Except ParseError Calculation
  | .run _ tokens => do
    let elements ← classifyAll catalog tokens
    return chain elements
  | .group _ contents => do
    let children ← Fragment.elements catalog contents
    return .of .add children

/-- The calculations of several fragments as elements. -/
def Fragment.elements (catalog : List Element) : List Fragment → Except ParseError (List Element)
  | [] => .ok []
  | fragment :: rest => do
    let calculation ← fragment.calculation catalog
    let elements ← Fragment.elements catalog rest
    return calculation.toElement :: elements

end

/-- The sum of a formula's fragments. Parentheses are matched in the whole formula before any token
is looked at. -/
def parse (catalog : List Element) (formula : String) : Except ParseError Calculation := do
  let contents ← fragments formula.toList
  let children ← Fragment.elements catalog contents
  return .of .add children

/-- The sum of all fragments of several formulas. -/
def parseSum (catalog : List Element) (formulas : List String) :
    Except ParseError Calculation := do
  let sums ← formulas.mapM (parse catalog)
  return .of .add (sums.flatMap Calculation.children)

end Scorecard.Formula
