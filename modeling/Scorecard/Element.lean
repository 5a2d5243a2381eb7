import Scorecard.Band
import Scorecard.Operation

/-!
# Elements and calculations

A calculation is a tree: inner nodes carry an operation, leaves are constants or lookups of a named
input. A lookup scores its input by bands, or passes it on within bounds.
-/

namespace Scorecard

/-- A node of a calculation tree. -/
inductive Element where
  /-- A fixed value; the name is its spelling. -/
  | constant (name : String) (value : Float)
  /-- Scores the input of its name by the first band that holds it, else by the fallback. -/
  | banded (name : String) (bands : List Band) (fallback : Float)
  /-- Passes the input of its name on, held within the bounds if both are there. -/
  | bounded (name : String) (lower upper : Option Float)
  /-- Joins the values of its children by an operation; the name is the operation's symbol. -/
  | node (name : String) (operation : Operation) (children : List Element)
  deriving Inhabited

/-- An inner node that stands for itself, such as the root of a formula. -/
structure Calculation where
  name : String
  operation : Operation
  children : List Element
  deriving Inhabited

namespace Calculation

/-- The calculation of an operation, named by its symbol. -/
def of (operation : Operation) (children : List Element) : Calculation :=
  ⟨operation.symbol, operation, children⟩

/-- A calculation as a node of a tree. -/
def toElement (calculation : Calculation) : Element :=
  .node calculation.name calculation.operation calculation.children

end Calculation

namespace Element

/-- The spelling of a constant, the input's name of a lookup, the symbol of a node. -/
def name : Element → String
  | constant name _ => name
  | banded name _ _ => name
  | bounded name _ _ => name
  | node name _ _ => name

/-- Whether an element looks an input up. -/
def isLookup : Element → Bool
  | banded .. => true
  | bounded .. => true
  | constant .. => false
  | node .. => false

mutual

/-- The lookups at the leaves of a tree from left to right, repeats kept. -/
def lookups : Element → List Element
  | constant .. => []
  | banded name bands fallback => [banded name bands fallback]
  | bounded name lower upper => [bounded name lower upper]
  | node _ _ children => lookupsAll children

/-- The lookups of several trees from left to right. -/
def lookupsAll : List Element → List Element
  | [] => []
  | element :: rest => element.lookups ++ lookupsAll rest

end

theorem lookupsAll_eq_flatMap (elements : List Element) :
    lookupsAll elements = elements.flatMap lookups := by
  induction elements with
  | nil => rfl
  | cons element rest ih => simp [lookupsAll, ih]

mutual

/-- The name of the first node without children, in the order of the listing. -/
def firstChildless : Element → Option String
  | constant .. => none
  | banded .. => none
  | bounded .. => none
  | node name _ [] => some name
  | node _ _ (child :: rest) => child.firstChildless.or (firstChildlessAmong rest)

/-- The first such name in several trees. -/
def firstChildlessAmong : List Element → Option String
  | [] => none
  | element :: rest => element.firstChildless.or (firstChildlessAmong rest)

end

end Element

namespace Calculation

/-- The lookups below a calculation from left to right, repeats kept. -/
def lookups (calculation : Calculation) : List Element :=
  Element.lookupsAll calculation.children

/-- The name of the first calculation in the tree that has no children. -/
def firstChildless (calculation : Calculation) : Option String :=
  calculation.toElement.firstChildless

end Calculation

end Scorecard
