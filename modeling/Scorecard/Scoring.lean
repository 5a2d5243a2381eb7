import Scorecard.Config
import Scorecard.Evaluation
import Scorecard.Formula.Parse

/-!
# Scoring

A configuration compiles to a calculation and the catalog it refers to. The score of a subject comes
with a breakdown: each element that the calculation looks up, the span of its outputs, its input and
its output.
-/

namespace Scorecard

/-- The least and the greatest output of an element. -/
structure Span where
  least : Float
  greatest : Float
  deriving Inhabited

namespace Span

/-- The span of all numbers. -/
def all : Span :=
  ⟨Number.negativeInfinity, Number.infinity⟩

/-- The span of some numbers; a NaN does not count. -/
def ofList (xs : List Float) : Span :=
  xs.foldl (fun span x => ⟨Number.smaller span.least x, Number.greater span.greatest x⟩)
    ⟨Number.infinity, Number.negativeInfinity⟩

end Span

/-- The span of an element's outputs. -/
def Element.span : Element → Span
  | constant _ value => ⟨value, value⟩
  | banded _ bands fallback => .ofList (bands.map Band.score ++ [fallback])
  | bounded _ lower upper => ⟨lower.getD Number.negativeInfinity, upper.getD Number.infinity⟩
  | node .. => .all

/-- The share of an element in a score. -/
structure Factor where
  name : String
  span : Span
  input : Float
  output : Float
  deriving Inhabited

/-- A score with its breakdown. -/
structure Score where
  value : Float
  factors : List Factor
  deriving Inhabited

/-- A compiled configuration. -/
structure Scoring where
  root : Calculation
  catalog : List Element

namespace Scoring

/-- Compiles a configuration: the catalog first, then the formulas. -/
def compile (config : Config) : Except ParseError Scoring := do
  let catalog ← catalogOf config.definitions
  let root ← Formula.parseSum catalog config.formulas
  return ⟨root, catalog⟩

/-- The elements of the catalog that the calculation looks up, in catalog order. -/
def referenced (scoring : Scoring) : List Element :=
  let names := scoring.root.lookups.map Element.name
  scoring.catalog.filter fun element => names.contains element.name

/-- The value of the calculation alone. -/
def evaluate (scoring : Scoring) (inputs : Inputs) : Except EvaluationError Float :=
  scoring.root.evaluate inputs

/-- The share of an element. -/
def factor (inputs : Inputs) (element : Element) : Except EvaluationError Factor := do
  let input ← inputs.fetch element.name
  let output ← element.evaluate inputs
  return ⟨element.name, element.span, input, output⟩

/-- The score of given inputs, with its breakdown. -/
def score (scoring : Scoring) (inputs : Inputs) : Except EvaluationError Score := do
  let value ← scoring.evaluate inputs
  let factors ← scoring.referenced.mapM (factor inputs)
  return ⟨value, factors⟩

end Scoring

end Scorecard
