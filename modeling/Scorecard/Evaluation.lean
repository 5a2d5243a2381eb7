import Scorecard.Element
import Scorecard.NameMap

/-!
# Evaluation

The value of a calculation tree for given inputs: the children of a node are evaluated from left to
right and folded by its operation. The first node without children, or the first lookup without an
input, ends the evaluation with an error.

The arithmetic is a parameter, so that what holds of every arithmetic can be said once.
-/

namespace Scorecard

/-- Observed values by name. -/
abbrev Inputs := NameMap Float

/-- What the operations compute. -/
abbrev Arithmetic := Operation → Float → Float → Float

/-- Why a calculation has no value. -/
inductive EvaluationError where
  /-- A node, given by its name, has no children. -/
  | emptyCalculation (operation : String)
  /-- A lookup has no input. -/
  | missingInput (name : String)
  deriving Repr, DecidableEq

namespace EvaluationError

/-- The text of an error. -/
def message : EvaluationError → String
  | emptyCalculation operation => s!"calculation '{operation}' has no children"
  | missingInput name => s!"missing input value for '{name}'"

end EvaluationError

/-- The score of the first band that holds a number, else the fallback. -/
def Band.scoreAmong (bands : List Band) (fallback x : Float) : Float :=
  match bands.find? (·.contains x) with
  | some band => band.score
  | none => fallback

/-- Holds a number within bounds if both are there. NaN passes unchanged. -/
def holdWithin (lower upper : Option Float) (x : Float) : Float :=
  match lower, upper with
  | some lower, some upper =>
    if x.isNaN then x else Number.smaller (Number.greater x lower) upper
  | _, _ => x

/-- The input of a name. -/
def Inputs.fetch (inputs : Inputs) (name : String) : Except EvaluationError Float :=
  match inputs.get? name with
  | some x => .ok x
  | none => .error (.missingInput name)

namespace Element

variable (arithmetic : Arithmetic) (inputs : Inputs)

mutual

/-- The value of an element in an arithmetic. -/
def evaluateWith : Element → Except EvaluationError Float
  | constant _ value => .ok value
  | banded name bands fallback => do
    let x ← inputs.fetch name
    return Band.scoreAmong bands fallback x
  | bounded name lower upper => do
    let x ← inputs.fetch name
    return holdWithin lower upper x
  | node name _ [] => .error (.emptyCalculation name)
  | node _ operation (first :: rest) => do
    let value ← evaluateWith first
    foldWith operation value rest

/-- Folds the values of further children into a value. -/
def foldWith (operation : Operation) (value : Float) : List Element → Except EvaluationError Float
  | [] => .ok value
  | child :: rest => do
    let next ← evaluateWith child
    foldWith operation (arithmetic operation value next) rest

end

/-- The value of an element. -/
def evaluate (inputs : Inputs) (element : Element) : Except EvaluationError Float :=
  element.evaluateWith Operation.apply inputs

end Element

namespace Calculation

/-- The value of a calculation in an arithmetic. -/
def evaluateWith (arithmetic : Arithmetic) (inputs : Inputs) (calculation : Calculation) :
    Except EvaluationError Float :=
  calculation.toElement.evaluateWith arithmetic inputs

/-- The value of a calculation. -/
def evaluate (inputs : Inputs) (calculation : Calculation) : Except EvaluationError Float :=
  calculation.evaluateWith Operation.apply inputs

end Calculation

end Scorecard
