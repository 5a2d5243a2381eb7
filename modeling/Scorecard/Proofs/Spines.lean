import Scorecard.Proofs.Chains
import Scorecard.Proofs.DepthFirst

/-!
# The spine of a chain

A row is cut at its operators in exactly one way (`CutRow.isCutOf_iff`), and its chain is
right-nested over the cut. The nodes of a chain, each the last child of the one before it, are
its spine (`spine`). There is one for each operator of the row, they hold its operands once and in
order, and only the last of them can be without children. Main statement: `chain_of_row`.

The chain can also be built from the front of the row, in two passes: the first queues each operator
with the operands in front of it, the second hangs each below the operator before it
(`Queues.finish_foldl_read`).
-/

namespace Scorecard.Formula

open Element

/-! ## Operands -/

instance : DecidablePred IsOperand
  | .node name operation [] => .isFalse fun h => h name operation rfl
  | .node _ _ (_ :: _) => .isTrue fun _ _ h => by cases h
  | .constant _ _ => .isTrue fun _ _ h => by cases h
  | .banded _ _ _ => .isTrue fun _ _ h => by cases h
  | .bounded _ _ _ => .isTrue fun _ _ h => by cases h

/-- What is no operand is an operator. -/
theorem exists_operator_of_not_isOperand {element : Element} (h : ¬IsOperand element) :
    ∃ name operation, element = .node name operation [] := by
  simpa [IsOperand] using h

/-! ## Cutting a row -/

/-- A row that is cut at its operators: the operands in front of them all, and the links. -/
structure CutRow where
  first : List Element
  links : List Link

namespace CutRow

/-- The row as it was before the cut. -/
def elements (row : CutRow) : List Element :=
  row.first ++ row.links.flatMap Link.elements

/-- The runs of operands around the operators, one more than there are operators. -/
def runs (row : CutRow) : List (List Element) :=
  row.first :: row.links.map Link.operands

/-- A row cut at each of its operators. -/
structure IsCutOf (elements : List Element) (row : CutRow) : Prop where
  elements_eq : row.elements = elements
  isOperand : ∀ run ∈ row.runs, ∀ operand ∈ run, IsOperand operand

/-- Cuts a row at its operators. -/
def cut : List Element → CutRow
  | [] => ⟨[], []⟩
  | .node name operation [] :: rest => ⟨[], ⟨name, operation, (cut rest).first⟩ :: (cut rest).links⟩
  | operand :: rest => { cut rest with first := operand :: (cut rest).first }

theorem cut_operator (name : String) (operation : Operation) (rest : List Element) :
    cut (.node name operation [] :: rest) =
      ⟨[], ⟨name, operation, (cut rest).first⟩ :: (cut rest).links⟩ := by
  rw [cut]

theorem cut_operand {operand : Element} (h : IsOperand operand) (rest : List Element) :
    cut (operand :: rest) = { cut rest with first := operand :: (cut rest).first } := by
  rw [cut]
  exact h

theorem runs_cut_operator (name : String) (operation : Operation) (rest : List Element) :
    (cut (.node name operation [] :: rest)).runs = [] :: (cut rest).runs := by
  rw [cut_operator]
  rfl

theorem cut_operands_append {operands : List Element}
    (h : ∀ operand ∈ operands, IsOperand operand) (rest : List Element) :
    cut (operands ++ rest) = { cut rest with first := operands ++ (cut rest).first } := by
  induction operands with
  | nil => rfl
  | cons operand operands ih =>
    obtain ⟨hoperand, hoperands⟩ := List.forall_mem_cons.1 h
    rw [List.cons_append, cut_operand hoperand, ih hoperands]
    rfl

theorem isCutOf_cut (elements : List Element) : (cut elements).IsCutOf elements := by
  induction elements with
  | nil => exact ⟨rfl, by simp [cut, runs]⟩
  | cons element rest ih =>
    by_cases h : IsOperand element
    · refine ⟨?_, ?_⟩
      · rw [cut_operand h]
        exact congrArg (element :: ·) ih.elements_eq
      · obtain ⟨hfirst, hlinks⟩ := List.forall_mem_cons.1 ih.isOperand
        rw [cut_operand h]
        exact List.forall_mem_cons.2 ⟨List.forall_mem_cons.2 ⟨h, hfirst⟩, hlinks⟩
    · obtain ⟨name, operation, rfl⟩ := exists_operator_of_not_isOperand h
      refine ⟨?_, ?_⟩
      · rw [cut_operator]
        exact congrArg (Element.node name operation [] :: ·) ih.elements_eq
      · rw [runs_cut_operator]
        exact List.forall_mem_cons.2 ⟨by simp, ih.isOperand⟩

theorem cut_flatMap_elements {links : List Link}
    (h : ∀ link ∈ links, ∀ operand ∈ link.operands, IsOperand operand) :
    cut (links.flatMap Link.elements) = ⟨[], links⟩ := by
  induction links with
  | nil => rfl
  | cons link links ih =>
    obtain ⟨hlink, hlinks⟩ := List.forall_mem_cons.1 h
    rw [List.flatMap_cons, Link.elements, List.cons_append, cut_operator, cut_operands_append hlink,
      ih hlinks, List.append_nil]

/-- There is one way to cut a row at each of its operators. -/
theorem isCutOf_iff {elements : List Element} {row : CutRow} :
    row.IsCutOf elements ↔ row = cut elements := by
  refine ⟨fun h => ?_, fun h => h ▸ isCutOf_cut elements⟩
  obtain ⟨hfirst, hlinks⟩ := List.forall_mem_cons.1 h.isOperand
  rw [← h.elements_eq, CutRow.elements, cut_operands_append hfirst,
    cut_flatMap_elements (List.forall_mem_map.1 hlinks), List.append_nil]

/-- The runs of a row are its operands. -/
theorem flatten_runs_cut (elements : List Element) :
    (cut elements).runs.flatten = elements.filter (IsOperand ·) := by
  induction elements with
  | nil => rfl
  | cons element rest ih =>
    by_cases h : IsOperand element
    · rw [List.filter_cons, if_pos (decide_eq_true h), ← ih, cut_operand h]
      rfl
    · rw [List.filter_cons, if_neg (by simpa using h), ← ih]
      obtain ⟨name, operation, rfl⟩ := exists_operator_of_not_isOperand h
      rw [runs_cut_operator]
      rfl

theorem chain_cut (elements : List Element) :
    chain elements = rightNested (cut elements).first (cut elements).links := by
  have hcut := isCutOf_cut elements
  obtain ⟨hfirst, hlinks⟩ := List.forall_mem_cons.1 hcut.isOperand
  rw [← chain_eq_rightNested hfirst (List.forall_mem_map.1 hlinks)]
  exact congrArg chain hcut.elements_eq.symm

end CutRow

/-! ## The two passes -/

/-- Puts a calculation behind the operands of the operator before it. -/
def hang (top parent : Calculation) : Calculation :=
  { parent with children := parent.children ++ [top.toElement] }

/-- What the first pass over a row keeps: the operators that it has read, the latest first, each
with the operands in front of it, and the operands after them. -/
structure Queues where
  operators : List Calculation
  pending : List Element

namespace Queues

/-- Nothing is read yet. -/
def empty : Queues :=
  ⟨[], []⟩

/-- Reads the next element of the row; an operator takes the operands that are pending. -/
def read (queues : Queues) : Element → Queues
  | .node name operation [] => ⟨⟨name, operation, queues.pending⟩ :: queues.operators, []⟩
  | operand => { queues with pending := queues.pending ++ [operand] }

/-- The second pass: the last operator takes what is pending, and each goes below the one before. -/
def finish (queues : Queues) : Calculation :=
  match queues.operators with
  | [] => .of .add queues.pending
  | last :: parents =>
    parents.foldl hang { last with children := last.children ++ queues.pending }

/-- The calculation of a row of which the queues are the part that is read, and `tail` is what is
still to be read. -/
def finishWith (queues : Queues) (tail : ChainTail) : Calculation :=
  let rest := { tail with operands := queues.pending ++ tail.operands }
  match queues.operators with
  | [] => rest.toCalculation
  | last :: parents => parents.foldl hang { last with children := last.children ++ rest.children }

theorem finishWith_nil (queues : Queues) : queues.finishWith .nil = queues.finish := by
  obtain ⟨operators, pending⟩ := queues
  cases operators <;>
    simp [finishWith, finish, ChainTail.nil, ChainTail.toCalculation, ChainTail.children]

/-- Reading an element moves it from what is to be read into the queues. -/
theorem finishWith_read (queues : Queues) (element : Element) (tail : ChainTail) :
    (queues.read element).finishWith tail = queues.finishWith (tail.push element) := by
  obtain ⟨operators, pending⟩ := queues
  by_cases h : IsOperand element
  · have hread : read ⟨operators, pending⟩ element = ⟨operators, pending ++ [element]⟩ := by
      rw [read]
      exact h
    rw [hread, push_operand h]
    simp only [finishWith, List.append_assoc, List.singleton_append]
  · obtain ⟨name, operation, rfl⟩ := exists_operator_of_not_isOperand h
    rw [read, push_operator]
    -- the operator just read becomes the top, or it hangs below the one that was read before it
    cases operators with
    | nil =>
      simp [finishWith, ChainTail.toCalculation, ChainTail.withOperands]
    | cons last parents =>
      simp [finishWith, hang, ChainTail.children, ChainTail.withOperands]

theorem finishWith_foldl_read (elements : List Element) (queues : Queues) (tail : ChainTail) :
    (elements.foldl read queues).finishWith tail =
      queues.finishWith (elements.foldr ChainTail.push tail) := by
  induction elements generalizing queues with
  | nil => rfl
  | cons element rest ih => rw [List.foldl_cons, ih, finishWith_read, List.foldr_cons]

/-- The two passes build the chain. -/
theorem finish_foldl_read (elements : List Element) :
    (elements.foldl read empty).finish = chain elements := by
  rw [← finishWith_nil, finishWith_foldl_read]
  rfl

end Queues

/-! ## The nodes of a chain -/

/-- A node of a chain with the operands that it holds. -/
structure Knot where
  node : Calculation
  operands : List Element

/-- The nodes of a chain from its top. Below each of them hangs the next one, its last child, until
the given number of steps are taken. -/
def spine : Nat → Calculation → List Knot
  | 0, last => [⟨last, last.children⟩]
  | below + 1, top =>
    match top.children.getLast? with
    | some (.node name operation children) =>
      ⟨top, top.children.dropLast⟩ :: spine below ⟨name, operation, children⟩
    | _ => [⟨top, top.children⟩]

theorem spine_hang (top parent : Calculation) (below : Nat) :
    spine (below + 1) (hang top parent) =
      ⟨hang top parent, parent.children⟩ :: spine below top := by
  simp [spine, hang, Calculation.toElement]

theorem nodes_toElement (calculation : Calculation) :
    calculation.toElement.nodes = calculation.toElement :: nodesAmong calculation.children := by
  rw [Calculation.toElement, nodes]

/-- A spine goes through the whole tree: its nodes, each in front of what stands in the operands
that it holds, are the nodes of the tree in depth-first order. -/
theorem nodes_eq_flatMap_spine (below : Nat) (calculation : Calculation) :
    calculation.toElement.nodes = (spine below calculation).flatMap fun knot =>
      knot.node.toElement :: nodesAmong knot.operands := by
  induction below generalizing calculation with
  | zero => simp [spine, Calculation.toElement, nodes]
  | succ below ih =>
    rw [spine]
    split
    · rename_i name operation children hlast
      have hchildren := List.dropLast_append_getLast? _ hlast
      calc calculation.toElement.nodes
          = calculation.toElement :: nodesAmong (calculation.children.dropLast ++
              [.node name operation children]) := by rw [hchildren, nodes_toElement]
        _ = calculation.toElement :: nodesAmong calculation.children.dropLast ++
              Element.nodes (.node name operation children) := by
            rw [nodesAmong_append, nodesAmong, nodesAmong, List.append_nil, List.cons_append]
        _ = _ := by
            rw [List.flatMap_cons, ← ih]
            rfl
    · simp [Calculation.toElement, nodes]

/-- The nodes of the chain of a cut row. -/
def CutRow.knots (row : CutRow) : List Knot :=
  spine (row.links.length - 1) (rightNested row.first row.links)

theorem CutRow.knots_cons_cons (operands : List Element) (link next : Link) (rest : List Link) :
    knots ⟨operands, link :: next :: rest⟩ =
      ⟨rightNested operands (link :: next :: rest), operands⟩ ::
        knots ⟨link.operands, next :: rest⟩ :=
  spine_hang (rightNested link.operands (next :: rest)) ⟨link.name, link.operation, operands⟩
    rest.length

/-- There is a node for each operator, and one if there is no operator. -/
theorem CutRow.length_knots (operands : List Element) (links : List Link) :
    (knots ⟨operands, links⟩).length = max 1 links.length := by
  induction operands, links using rightNested.induct with
  | case1 operands => rfl
  | case2 operands link => rfl
  | case3 operands link next rest ih =>
    rw [knots_cons_cons, List.length_cons, ih]
    simp only [List.length_cons]
    omega

/-- The operands that the nodes hold are those of the row. -/
theorem CutRow.flatMap_operands_knots (operands : List Element) (links : List Link) :
    (knots ⟨operands, links⟩).flatMap Knot.operands = (CutRow.mk operands links).runs.flatten := by
  induction operands, links using rightNested.induct with
  | case1 operands => rfl
  | case2 operands link => simp [knots, rightNested, spine, runs]
  | case3 operands link next rest ih =>
    rw [knots_cons_cons, List.flatMap_cons, ih]
    rfl

/-- Each node but the last has the next one as a child; the last has the operands around it. -/
theorem CutRow.children_eq_nil_iff (operands : List Element) (links : List Link) {i : Nat}
    {knot : Knot} (h : (knots ⟨operands, links⟩)[i]? = some knot) :
    knot.node.children = [] ↔
      i + 1 = (knots ⟨operands, links⟩).length ∧
        ∀ run ∈ (CutRow.mk operands links).runs.drop i, run = [] := by
  induction operands, links using rightNested.induct generalizing i with
  | case1 operands | case2 operands link =>
    cases i with
    | zero =>
      cases h
      simp [knots, spine, rightNested, runs, Calculation.of]
    | succ i => cases h
  | case3 operands link next rest ih =>
    rw [knots_cons_cons] at h ⊢
    cases i with
    | zero =>
      cases h
      simp [rightNested, length_knots]
    | succ i =>
      rw [ih h, List.length_cons, Nat.add_left_inj]
      rfl

/-- A row is cut at its operators in one way, and its chain is right-nested over the cut, as the two
passes build it. The spine of the chain has a node for each operator, or one if there is none. Its
nodes hold the operands of the row, each once and in order, and with what stands in these they are
all nodes of the tree. A node is without children exactly if it is the last one and there are no
operands on either side of its operator. -/
theorem chain_of_row (elements : List Element) :
    ∃ row : CutRow, (∀ other : CutRow, other.IsCutOf elements ↔ other = row) ∧
      chain elements = rightNested row.first row.links ∧
      chain elements = (elements.foldl Queues.read .empty).finish ∧
      ∃ knots, knots = spine (row.links.length - 1) (chain elements) ∧
        knots.length = max 1 row.links.length ∧
        knots.flatMap Knot.operands = elements.filter (IsOperand ·) ∧
        ((chain elements).toElement.nodes = knots.flatMap fun knot =>
          knot.node.toElement :: nodesAmong knot.operands) ∧
        ∀ i knot, knots[i]? = some knot → (knot.node.children = [] ↔
          i + 1 = knots.length ∧ ∀ run ∈ row.runs.drop i, run = []) := by
  have hchain := CutRow.chain_cut elements
  refine ⟨.cut elements, fun other => CutRow.isCutOf_iff, hchain,
    (Queues.finish_foldl_read elements).symm, _, rfl, ?_, ?_,
    nodes_eq_flatMap_spine _ _, ?_⟩
  all_goals rw [hchain]
  · exact CutRow.length_knots _ _
  · rw [← CutRow.flatten_runs_cut]
    exact CutRow.flatMap_operands_knots _ _
  · exact fun i knot h => CutRow.children_eq_nil_iff _ _ h

-- an operator without operands is childless at the end of a chain only
example : chain [.node "+" .add [], .node "*" .multiply []] =
    ⟨"+", .add, [.node "*" .multiply []]⟩ := rfl

end Scorecard.Formula
