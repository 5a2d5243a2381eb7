import Scorecard.Band.Closing
import Scorecard.Element
import Scorecard.NameMap
import Scorecard.Number.Spelling
import Scorecard.ParseError
import Scorecard.Text.Blank

/-!
# The catalog of elements

A configuration defines elements by name. An interval is defined by rules such as `< 5: 0.1` and
`/> 5: 1`, a range by its two bounds. The catalog holds the elements of all definitions in name
order.
-/

namespace Scorecard

/-- The kinds of elements that a configuration can define. -/
inductive Kind where
  | interval
  | range
  deriving Repr, DecidableEq

/-- The definition of an element. -/
inductive Definition where
  /-- An interval by its rules. -/
  | interval (rules : List String)
  /-- A range by its bounds. -/
  | range (bounds : List Float)
  /-- A body that is no list of what its kind takes. -/
  | malformed (kind : Kind)
  deriving Inhabited, DecidableEq

/-! ## Rules -/

namespace Rule

open Text

/-- Whether a character ends the operator of a condition. -/
def endsOperator (c : Char) : Bool :=
  c.isDigit || isBlank c || c ∈ ['-', '+', '.']

/-- Splits a rule at its first colon. -/
def splitAtColon? (rule : List Char) : Option (List Char × List Char) :=
  match rule.dropWhile (· != ':') with
  | [] => none
  | _ :: score => some (rule.takeWhile (· != ':'), score)

/-- Splits a condition without blanks at its ends into the operator and the threshold. Both must be
there. -/
def splitCondition? (condition : List Char) : Option (List Char × List Char) :=
  match condition.takeWhile (!endsOperator ·), condition.dropWhile (!endsOperator ·) with
  | [], _ => none
  | _, [] => none
  | operator, threshold => some (operator, threshold)

/-- The side of a threshold on which a rule holds. -/
inductive Side where
  | below
  | above
  deriving Repr, DecidableEq

/-- The side that an operator names. -/
def side? : List Char → Option Side
  | ['<'] => some .below
  | ['/', '>'] => some .above
  | _ => none

/-- The band on a side of a threshold. -/
def Side.band (threshold score : Float) : Side → Band
  | .below => ⟨none, some threshold, score⟩
  | .above => ⟨some threshold, none, score⟩

/-- The finite number that a text spells between blanks. -/
def number? (s : List Char) : Option Float :=
  Number.readFinite? (trim s)

/-- The band of a rule `OPERATOR THRESHOLD: SCORE` of a named element. -/
def band (name : String) (rule : String) : Except ParseError Band :=
  match splitAtColon? rule.toList with
  | none => .error (.invalidInterval name)
  | some (condition, score) =>
    match splitCondition? (trim condition) with
    | none => .error (.invalidInterval name)
    | some (operator, threshold) =>
      match side? operator with
      | none => .error (.unsupportedOperator (String.ofList operator))
      | some side =>
        match number? threshold, number? score with
        | some threshold, some score => .ok (side.band threshold score)
        | _, _ => .error (.invalidInterval name)

end Rule

/-! ## Elements and catalogs -/

/-- Whether a reference can spell a name. -/
def isReferable (name : String) : Bool :=
  !(name.toList.any fun c => c == '[' || c == ']')

/-- What an interval scores where none of its rules holds. -/
def uncoveredScore : Float := 0

/-- The element that a definition gives a name. -/
def Definition.element (name : String) (definition : Definition) : Except ParseError Element :=
  if isReferable name then
    match definition with
    | .range [lower, upper] =>
      if lower.isFinite && upper.isFinite && lower ≤ upper then
        .ok (.bounded name (some lower) (some upper))
      else .error (.invalidRange name)
    | .range _ => .error (.invalidRange name)
    | .malformed .range => .error (.invalidRange name)
    | .malformed .interval => .error (.invalidInterval name)
    | .interval [] => .error (.invalidInterval name)
    | .interval (rule :: rules) => do
      let bands ← (rule :: rules).mapM (Rule.band name)
      return .banded name (Band.closeSides bands) uncoveredScore
  else .error (.invalidElementName name)

/-- The elements of all definitions in name order; the first faulty one gives the error. -/
def catalogOf (definitions : NameMap Definition) : Except ParseError (List Element) :=
  definitions.entries.mapM fun (name, definition) => definition.element name

end Scorecard
