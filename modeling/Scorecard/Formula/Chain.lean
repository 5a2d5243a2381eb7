import Scorecard.Element

/-!
# Chains of operators

A row of operands and operators is a chain: every operator takes the operands before it, back to
the previous operator, and then the whole chain of what follows it as its last child. So
`a - b / c` is `-(a, /(b, c))`, whatever the operators are. A node without children is an operator
here; every other element is an operand.
-/

namespace Scorecard.Formula

/-- What is read of a row from its end: the operands that stand first, and the chain that starts at
the operator after them, still without these operands. -/
structure ChainTail where
  operands : List Element
  chain : Option Calculation

namespace ChainTail

/-- The end of every row. -/
def nil : ChainTail :=
  ⟨[], none⟩

/-- The chain with the operands in front of its children. -/
def withOperands (operands : List Element) (chain : Calculation) : Calculation :=
  { chain with children := operands ++ chain.children }

/-- What stands after an operator, as its children: bare operands if no operator follows, else the
chain of the next operator alone. -/
def children (tail : ChainTail) : List Element :=
  match tail.chain with
  | none => tail.operands
  | some chain => [(withOperands tail.operands chain).toElement]

/-- Puts an element in front of a row. -/
def push (element : Element) (tail : ChainTail) : ChainTail :=
  match element with
  | .node name operation [] => ⟨[], some ⟨name, operation, tail.children⟩⟩
  | operand => { tail with operands := operand :: tail.operands }

/-- The calculation of a whole row; without an operator its operands are added. -/
def toCalculation (tail : ChainTail) : Calculation :=
  match tail.chain with
  | none => .of .add tail.operands
  | some chain => withOperands tail.operands chain

end ChainTail

/-- The calculation of a row of operands and operators. -/
def chain (elements : List Element) : Calculation :=
  (elements.foldr ChainTail.push .nil).toCalculation

end Scorecard.Formula
