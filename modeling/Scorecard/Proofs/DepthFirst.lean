import Scorecard.Proofs.Chains
import Scorecard.Proofs.Faults

/-!
# The nodes of a tree in depth-first order

What keeps a tree from having a value can be said of its nodes one by one: a lookup offends if it
has no input, an inner node if it has no children. The faults of a tree are the offences of its
nodes in depth-first order (`faults_eq_filterMap`), and the other two walks over a tree go in the
same order: `lookups` keeps the lookups among the nodes, and `firstChildless` finds the first inner
node without children. Main statement: `evaluation_outcome`.
-/

namespace Scorecard.Element

/-! ## Nodes -/

mutual

/-- The nodes of a tree in depth-first order, each in front of what is below it. -/
def nodes : Element → List Element
  | constant name value => [constant name value]
  | banded name bands fallback => [banded name bands fallback]
  | bounded name lower upper => [bounded name lower upper]
  | node name operation children => node name operation children :: nodesAmong children

/-- The nodes of several trees from left to right. -/
def nodesAmong : List Element → List Element
  | [] => []
  | tree :: rest => tree.nodes ++ nodesAmong rest

end

theorem nodesAmong_append (trees more : List Element) :
    nodesAmong (trees ++ more) = nodesAmong trees ++ nodesAmong more := by
  induction trees with
  | nil => rfl
  | cons tree rest ih => rw [List.cons_append, nodesAmong, nodesAmong, ih, List.append_assoc]

theorem within_node_iff {element : Element} {name : String} {operation : Operation}
    {children : List Element} :
    Within element (.node name operation children) ↔
      element = .node name operation children ∨ ∃ child ∈ children, Within element child := by
  constructor
  · intro h
    cases h with
    | here => exact .inl rfl
    | deeper hchild h => exact .inr ⟨_, hchild, h⟩
  · intro h
    rcases h with rfl | ⟨child, hchild, h⟩
    · exact .here
    · exact .deeper hchild h

mutual

/-- The nodes of a tree are the elements that stand in it. -/
theorem mem_nodes_iff (element : Element) : (tree : Element) →
    (element ∈ tree.nodes ↔ Within element tree)
  | .constant name value => by
    rw [nodes, List.mem_singleton]
    exact ⟨fun h => h ▸ .here, fun h => by cases h; rfl⟩
  | .banded name bands fallback => by
    rw [nodes, List.mem_singleton]
    exact ⟨fun h => h ▸ .here, fun h => by cases h; rfl⟩
  | .bounded name lower upper => by
    rw [nodes, List.mem_singleton]
    exact ⟨fun h => h ▸ .here, fun h => by cases h; rfl⟩
  | .node name operation children => by
    rw [nodes, List.mem_cons, within_node_iff, mem_nodesAmong_iff element children]

theorem mem_nodesAmong_iff (element : Element) : (trees : List Element) →
    (element ∈ nodesAmong trees ↔ ∃ tree ∈ trees, Within element tree)
  | [] => by simp [nodesAmong]
  | tree :: rest => by
    rw [nodesAmong, List.mem_append, mem_nodes_iff element tree, mem_nodesAmong_iff element rest]
    simp

end

mutual

/-- The lookups of a tree are those among its nodes. -/
theorem lookups_eq_filter : (tree : Element) → tree.lookups = tree.nodes.filter isLookup
  | .constant name value => rfl
  | .banded name bands fallback => rfl
  | .bounded name lower upper => rfl
  | .node name operation children => by
    rw [lookups_node, lookupsAll_eq_filter children, nodes, List.filter_cons_of_neg]
    exact Bool.false_ne_true

theorem lookupsAll_eq_filter : (trees : List Element) →
    lookupsAll trees = (nodesAmong trees).filter isLookup
  | [] => by rw [lookupsAll_nil, nodesAmong, List.filter_nil]
  | tree :: rest => by
    rw [lookupsAll_cons, lookups_eq_filter tree, lookupsAll_eq_filter rest, nodesAmong,
      List.filter_append]

end

theorem mem_lookups_iff {lookup tree : Element} :
    lookup ∈ tree.lookups ↔ Within lookup tree ∧ lookup.isLookup = true := by
  rw [lookups_eq_filter, List.mem_filter, mem_nodes_iff]

/-! ## Offences -/

/-- The error of a node by itself: a lookup without an input, or an inner node without children. -/
def offence? (inputs : Inputs) : Element → Option EvaluationError
  | constant .. => none
  | banded name _ _ => (missing inputs name).head?
  | bounded name _ _ => (missing inputs name).head?
  | node name _ [] => some (.emptyCalculation name)
  | node _ _ (_ :: _) => none

theorem toList_head?_missing (inputs : Inputs) (name : String) :
    (missing inputs name).head?.toList = missing inputs name := by
  unfold missing
  cases inputs.get? name <;> rfl

theorem filterMap_singleton {α β : Type} (f : α → Option β) (a : α) :
    [a].filterMap f = (f a).toList := by
  cases h : f a <;> simp [h]

section

variable (inputs : Inputs)

mutual

/-- The faults of a tree are the offences of its nodes in depth-first order. -/
theorem faults_eq_filterMap : (tree : Element) →
    tree.faults inputs = tree.nodes.filterMap (offence? inputs)
  | .constant name value => rfl
  | .banded name bands fallback => by
    rw [faults, nodes, filterMap_singleton, offence?, toList_head?_missing]
  | .bounded name lower upper => by
    rw [faults, nodes, filterMap_singleton, offence?, toList_head?_missing]
  | .node name operation [] => rfl
  | .node name operation (child :: rest) => by
    have hchild := faults_eq_filterMap child
    have hrest := faultsAmong_eq_filterMap rest
    rw [faults, hchild, hrest, nodes, List.filterMap_cons_none rfl, nodesAmong,
      List.filterMap_append]

theorem faultsAmong_eq_filterMap : (trees : List Element) →
    faultsAmong inputs trees = (nodesAmong trees).filterMap (offence? inputs)
  | [] => rfl
  | tree :: rest => by
    rw [faultsAmong, faults_eq_filterMap tree, faultsAmong_eq_filterMap rest, nodesAmong,
      List.filterMap_append]

end

end

/-- A node by itself gives an error: it is an inner node without children, or a lookup without an
input. -/
def Offends (inputs : Inputs) (element : Element) (e : EvaluationError) : Prop :=
  (∃ name operation, element = .node name operation [] ∧ e = .emptyCalculation name) ∨
    (element.isLookup = true ∧ inputs.get? element.name = none ∧ e = .missingInput element.name)

theorem offence?_eq_some_iff {inputs : Inputs} {element : Element} {e : EvaluationError} :
    offence? inputs element = some e ↔ Offends inputs element e := by
  have hmissing (name : String) : (missing inputs name).head? = some e ↔
      inputs.get? name = none ∧ e = .missingInput name := by
    unfold missing
    cases inputs.get? name <;> simp [eq_comm]
  cases element with
  | constant name value => simp [offence?, Offends, isLookup]
  | banded name bands fallback => simp [offence?, Offends, isLookup, Element.name, hmissing]
  | bounded name lower upper => simp [offence?, Offends, isLookup, Element.name, hmissing]
  | node name operation children => cases children <;> simp [offence?, Offends, isLookup, eq_comm]

theorem offence?_eq_none_iff {inputs : Inputs} {element : Element} :
    offence? inputs element = none ↔
      (∀ name operation, element ≠ .node name operation []) ∧
      (element.isLookup = true → ∃ x, inputs.get? element.name = some x) := by
  have hmissing (name : String) :
      (missing inputs name).head? = none ↔ ∃ x, inputs.get? name = some x := by
    unfold missing
    cases inputs.get? name <;> simp
  cases element with
  | constant name value => simp [offence?, isLookup]
  | banded name bands fallback => simp [offence?, isLookup, Element.name, hmissing]
  | bounded name lower upper => simp [offence?, isLookup, Element.name, hmissing]
  | node name operation children => cases children <;> simp [offence?, isLookup]

/-! ## The first node without children -/

/-- The name of an inner node without children. -/
def childless? : Element → Option String
  | node name _ [] => some name
  | _ => none

mutual

/-- The search for a node without children goes through the nodes in depth-first order. -/
theorem firstChildless_eq_head? : (tree : Element) →
    tree.firstChildless = (tree.nodes.filterMap childless?).head?
  | .constant name value => rfl
  | .banded name bands fallback => rfl
  | .bounded name lower upper => rfl
  | .node name operation [] => rfl
  | .node name operation (child :: rest) => by
    rw [firstChildless, firstChildless_eq_head? child, firstChildlessAmong_eq_head? rest, nodes,
      List.filterMap_cons_none rfl, nodesAmong, List.filterMap_append, List.head?_append]

theorem firstChildlessAmong_eq_head? : (trees : List Element) →
    firstChildlessAmong trees = ((nodesAmong trees).filterMap childless?).head?
  | [] => rfl
  | tree :: rest => by
    rw [firstChildlessAmong, firstChildless_eq_head? tree, firstChildlessAmong_eq_head? rest,
      nodesAmong, List.filterMap_append, List.head?_append]

end

/-- All lookups of some have their inputs. -/
def Present (inputs : Inputs) (lookups : List Element) : Prop :=
  ∀ lookup ∈ lookups, ∃ x, inputs.get? lookup.name = some x

/-- If no lookup lacks its input, a node offends only by having no children. -/
theorem offence?_of_present {inputs : Inputs} {tree : Element} (h : Present inputs tree.lookups)
    {element : Element} (hmem : element ∈ tree.nodes) :
    offence? inputs element = (childless? element).map .emptyCalculation := by
  have hpresent (hlookup : element.isLookup = true) :
      (missing inputs element.name).head? = none := by
    rw [lookups_eq_filter] at h
    obtain ⟨x, hx⟩ := h element (List.mem_filter.2 ⟨hmem, hlookup⟩)
    unfold missing
    rw [hx]
    rfl
  cases element with
  | constant name value => rfl
  | banded name bands fallback => exact hpresent rfl
  | bounded name lower upper => exact hpresent rfl
  | node name operation children => cases children <;> rfl

/-! ## The outcome of an evaluation -/

section

variable (tree : Element) (inputs : Inputs) (arithmetic : Arithmetic)

/-- The error of an evaluation is that of the first node that offends. -/
theorem evaluateWith_eq_error_iff {e : EvaluationError} :
    tree.evaluateWith arithmetic inputs = .error e ↔
      ∃ before first after, tree.nodes = before ++ first :: after ∧ Offends inputs first e ∧
        ∀ element ∈ before, ∀ e', ¬Offends inputs element e' := by
  rw [(reports_evaluateWith arithmetic inputs tree).eq_error_iff, faults_eq_filterMap,
    List.head?_filterMap, List.findSome?_eq_some_iff]
  simp only [offence?_eq_some_iff, Option.eq_none_iff_forall_ne_some, ne_eq]

/-- A tree has a value if each inner node has children and each lookup an input. -/
theorem exists_evaluateWith_eq_ok_iff :
    (∃ value, tree.evaluateWith arithmetic inputs = .ok value) ↔
      tree.Populated ∧ Present inputs tree.lookups := by
  rw [(reports_evaluateWith arithmetic inputs tree).exists_ok_iff, faults_eq_filterMap,
    List.filterMap_eq_nil_iff, lookups_eq_filter]
  simp only [offence?_eq_none_iff]
  constructor
  · intro h
    refine ⟨fun name operation children hwithin hnil => ?_, fun lookup hlookup => ?_⟩
    · subst hnil
      exact (h _ ((mem_nodes_iff _ tree).2 hwithin)).1 name operation rfl
    · obtain ⟨hnode, hlookup⟩ := List.mem_filter.1 hlookup
      exact (h lookup hnode).2 hlookup
  · intro ⟨hpopulated, hpresent⟩ element hmem
    refine ⟨fun name operation heq => ?_, fun hlookup => ?_⟩
    · subst heq
      exact hpopulated name operation [] ((mem_nodes_iff _ tree).1 hmem) rfl
    · exact hpresent element (List.mem_filter.2 ⟨hmem, hlookup⟩)

/-- If no lookup lacks its input, the evaluation fails at the node that `firstChildless` finds. -/
theorem evaluateWith_eq_error_iff_of_present (h : Present inputs tree.lookups)
    {e : EvaluationError} :
    tree.evaluateWith arithmetic inputs = .error e ↔
      tree.firstChildless.map .emptyCalculation = some e := by
  have hoffences : tree.nodes.filterMap (offence? inputs) =
      (tree.nodes.filterMap childless?).map .emptyCalculation := by
    rw [List.map_filterMap]
    exact List.filterMap_congr fun element hmem => offence?_of_present h hmem
  rw [(reports_evaluateWith arithmetic inputs tree).eq_error_iff, faults_eq_filterMap, hoffences,
    List.head?_map, firstChildless_eq_head?]

end

/-- A calculation has a value for some inputs exactly if each of its inner nodes has children and
each of its lookups an input. Otherwise its error is that of the first node in depth-first order
that is an inner node without children or a lookup without an input. With an input for each lookup,
it fails with the name that `firstChildless` finds, and has a value if that finds none. -/
theorem evaluation_outcome (calculation : Calculation) (inputs : Inputs) :
    ((∃ value, calculation.evaluate inputs = .ok value) ↔
      (∀ name operation children,
        Within (.node name operation children) calculation.toElement → children ≠ []) ∧
      ∀ lookup ∈ calculation.lookups, ∃ x, inputs.get? lookup.name = some x) ∧
    (∀ e, calculation.evaluate inputs = .error e ↔
      ∃ before first after, calculation.toElement.nodes = before ++ first :: after ∧
        Offends inputs first e ∧ ∀ element ∈ before, ∀ e', ¬Offends inputs element e') ∧
    ((∀ lookup ∈ calculation.lookups, ∃ x, inputs.get? lookup.name = some x) →
      (∀ operation, calculation.evaluate inputs = .error (.emptyCalculation operation) ↔
        calculation.firstChildless = some operation) ∧
      ((∃ value, calculation.evaluate inputs = .ok value) ↔
        calculation.firstChildless = none)) := by
  have hlookups : calculation.toElement.lookups = calculation.lookups := lookups_node _ _ _
  have hok := exists_evaluateWith_eq_ok_iff calculation.toElement inputs Operation.apply
  rw [hlookups] at hok
  refine ⟨hok, fun e => evaluateWith_eq_error_iff calculation.toElement inputs Operation.apply,
    fun hpresent => ⟨fun operation => ?_, ?_⟩⟩
  · have herror := evaluateWith_eq_error_iff_of_present calculation.toElement inputs
      Operation.apply (hlookups ▸ hpresent) (e := .emptyCalculation operation)
    refine herror.trans ?_
    simp [Calculation.firstChildless]
  · refine hok.trans ?_
    rw [Calculation.firstChildless, firstChildless_eq_none_iff]
    exact and_iff_left hpresent

end Scorecard.Element
