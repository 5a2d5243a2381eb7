import Scorecard.Formula.Chain

/-!
# The shape of a chain

A row of operands and operators is cut at its operators into links: an operator with the operands
behind it. Its chain is right-nested over the links, whatever the operators are
(`chain_eq_rightNested`): each operator takes the operands in front of it and then either the chain
of the next link or, at the end, the operands behind it. Every lookup of the row stands in the chain
once and in order (`lookups_chain`).
-/

namespace Scorecard

namespace Element

@[simp] theorem lookupsAll_nil : lookupsAll [] = [] := by
  rw [lookupsAll]

@[simp] theorem lookupsAll_cons (element : Element) (rest : List Element) :
    lookupsAll (element :: rest) = element.lookups ++ lookupsAll rest := by
  rw [lookupsAll]

@[simp] theorem lookupsAll_append (elements more : List Element) :
    lookupsAll (elements ++ more) = lookupsAll elements ++ lookupsAll more := by
  simp [lookupsAll_eq_flatMap]

@[simp] theorem lookups_node (name : String) (operation : Operation) (children : List Element) :
    (Element.node name operation children).lookups = lookupsAll children := by
  rw [lookups]

end Element

namespace Formula

open Element

/-! ## Links -/

/-- An operator with the operands behind it, up to the next operator. -/
structure Link where
  name : String
  operation : Operation
  operands : List Element

/-- The part of a row that a link is. -/
def Link.elements (link : Link) : List Element :=
  .node link.name link.operation [] :: link.operands

/-- The calculation of operands with links behind them, nested to the right. -/
def rightNested (operands : List Element) : List Link → Calculation
  | [] => .of .add operands
  | [link] => ⟨link.name, link.operation, operands ++ link.operands⟩
  | link :: next :: rest =>
    ⟨link.name, link.operation,
      operands ++ [(rightNested link.operands (next :: rest)).toElement]⟩

/-- An element that is no operator: it is no node, or a node with children. -/
def IsOperand (element : Element) : Prop :=
  ∀ name operation, element ≠ .node name operation []

theorem push_operator (name : String) (operation : Operation) (tail : ChainTail) :
    tail.push (.node name operation []) = ⟨[], some ⟨name, operation, tail.children⟩⟩ := rfl

theorem push_operand {operand : Element} (h : IsOperand operand) (tail : ChainTail) :
    tail.push operand = { tail with operands := operand :: tail.operands } := by
  unfold ChainTail.push
  split
  · exact absurd rfl (h _ _)
  · rfl

theorem foldr_push_operands {operands : List Element} (h : ∀ operand ∈ operands, IsOperand operand)
    (tail : ChainTail) :
    operands.foldr ChainTail.push tail = { tail with operands := operands ++ tail.operands } := by
  induction operands with
  | nil => rfl
  | cons operand operands ih =>
    rw [List.foldr_cons, ih fun other hother => h other (List.mem_cons_of_mem _ hother),
      push_operand (h operand List.mem_cons_self)]
    rfl

/-- With an operator in it, what is read of a row is one child of the operator before it. -/
theorem children_of_chain {tail : ChainTail} {calculation : Calculation}
    (h : tail.chain = some calculation) : tail.children = [tail.toCalculation.toElement] := by
  simp [ChainTail.children, ChainTail.toCalculation, h]

/-- Cutting a row at its operators gives the links of its chain. -/
theorem chain_eq_rightNested {operands : List Element} {links : List Link}
    (hoperands : ∀ operand ∈ operands, IsOperand operand)
    (hlinks : ∀ link ∈ links, ∀ operand ∈ link.operands, IsOperand operand) :
    chain (operands ++ links.flatMap Link.elements) = rightNested operands links := by
  unfold chain
  rw [List.foldr_append, foldr_push_operands hoperands]
  -- the row is read from its end, so the chain of the later links is there before the operator
  induction links generalizing operands with
  | nil =>
    simp [rightNested, ChainTail.nil, ChainTail.toCalculation]
  | cons link rest ih =>
    have hlink := hlinks link List.mem_cons_self
    have hrest := ih hlink fun other hother => hlinks other (List.mem_cons_of_mem _ hother)
    rw [List.flatMap_cons, List.foldr_append, Link.elements, List.foldr_cons,
      foldr_push_operands hlink, push_operator]
    cases rest with
    | nil =>
      simp [rightNested, ChainTail.nil, ChainTail.toCalculation, ChainTail.withOperands,
        ChainTail.children]
    | cons next rest =>
      rw [rightNested, ← hrest]
      rw [List.flatMap_cons, List.foldr_append, Link.elements, List.foldr_cons, push_operator]
      rw [children_of_chain rfl]
      simp [ChainTail.toCalculation, ChainTail.withOperands]

/-! ## Lookups -/

/-- The lookups of what is read of a row. -/
def ChainTail.lookups (tail : ChainTail) : List Element :=
  lookupsAll tail.operands ++ (tail.chain.elim [] fun chain => lookupsAll chain.children)

theorem lookupsAll_children (tail : ChainTail) : lookupsAll tail.children = tail.lookups := by
  obtain ⟨operands, chain⟩ := tail
  cases chain <;>
    simp [ChainTail.children, ChainTail.lookups, ChainTail.withOperands, Calculation.toElement]

theorem lookups_push (element : Element) (tail : ChainTail) :
    (tail.push element).lookups = element.lookups ++ tail.lookups := by
  unfold ChainTail.push
  split
  · simpa [ChainTail.lookups] using lookupsAll_children tail
  · simp [ChainTail.lookups]

theorem lookups_toCalculation (tail : ChainTail) :
    tail.toCalculation.lookups = tail.lookups := by
  obtain ⟨operands, chain⟩ := tail
  cases chain <;>
    simp [ChainTail.toCalculation, ChainTail.lookups, ChainTail.withOperands, Calculation.of,
      Calculation.lookups]

/-- The lookups of a chain are those of its row. -/
theorem lookups_chain (elements : List Element) :
    (chain elements).lookups = lookupsAll elements := by
  rw [chain, lookups_toCalculation]
  induction elements with
  | nil => simp [ChainTail.lookups, ChainTail.nil]
  | cons element elements ih => rw [List.foldr_cons, lookups_push, ih, lookupsAll_cons]

end Formula

end Scorecard
