import Scorecard.Scoring

/-!
# Validation

`Config.problems` lists everything that is wrong with a configuration at once: first the elements in
name order, then the formulas. A formula that refers to a faulty element is not reported for that
alone, since the element is.
-/

namespace Scorecard

/-- What can be wrong with a configuration. -/
inductive Problem where
  /-- There is no formula. -/
  | noFormula
  /-- A definition gives no element. -/
  | faultyElement (name : String) (error : ParseError)
  /-- A formula has no fragment. -/
  | emptyFormula (index : Nat)
  /-- An operator of a formula has no operands. -/
  | idleOperator (index : Nat) (formula operation : String)
  /-- A formula gives no calculation. -/
  | faultyFormula (index : Nat) (formula : String) (error : ParseError)
  deriving Repr, DecidableEq

namespace Problem

/-- The text of a problem. -/
def message : Problem → String
  | noFormula => "expression: at least one formula is required"
  | faultyElement name error => s!"elements.{name}: {error.message}"
  | emptyFormula index => s!"expression[{index}]: formula is empty"
  | idleOperator index formula operation =>
    s!"expression[{index}]: invalid '{formula}' - operator '{operation}' has no operands"
  | faultyFormula index formula error =>
    s!"expression[{index}]: invalid '{formula}' - {error.message}"

end Problem

/-- The problem of a definition. -/
def Definition.problem? (name : String) (definition : Definition) : Option Problem :=
  match definition.element name with
  | .ok _ => none
  | .error error => some (.faultyElement name error)

namespace Config

/-- The elements whose definitions are sound, in name order. -/
def soundElements (config : Config) : List Element :=
  config.definitions.entries.filterMap fun (name, definition) =>
    (definition.element name).toOption

/-- The problem of a formula. -/
def formulaProblem? (config : Config) (index : Nat) (formula : String) : Option Problem :=
  match Formula.parse config.soundElements formula with
  | .ok root =>
    if root.children.isEmpty then some (.emptyFormula index)
    else root.firstChildless.map (.idleOperator index formula)
  | .error error =>
    match error with
    | .unknownElement name =>
      if config.definitions.contains name then none
      else some (.faultyFormula index formula error)
    | _ => some (.faultyFormula index formula error)

/-- The problems of the definitions in name order. -/
def definitionProblems (config : Config) : List Problem :=
  config.definitions.entries.filterMap fun (name, definition) => definition.problem? name

/-- The problems of the formulas in their order. -/
def formulaProblems (config : Config) : List Problem :=
  config.formulas.zipIdx.filterMap fun (formula, index) => config.formulaProblem? index formula

/-- All problems of a configuration. -/
def problems (config : Config) : List Problem :=
  (if config.formulas.isEmpty then [.noFormula] else []) ++
    config.definitionProblems ++ config.formulaProblems

end Config

end Scorecard
