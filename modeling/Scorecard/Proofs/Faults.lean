import Scorecard.Evaluation
import Scorecard.Proofs.Attempt

/-!
# What keeps a tree from having a value

A tree has no value if one of its nodes has no children or one of its lookups has no input. `faults`
lists all of these from left to right, and the evaluation reports the first of them in every
arithmetic (`reports_evaluateWith`). Trees without childless nodes are those in which
`firstChildless` finds nothing (`firstChildless_eq_none_iff`); they lack nothing but inputs.
-/

namespace Scorecard.Element

/-! ## The nodes of a tree -/

/-- An element stands somewhere in a tree. -/
inductive Within (element : Element) : Element → Prop where
  | here : Within element element
  | deeper {name : String} {operation : Operation} {children : List Element} {child : Element}
      (hchild : child ∈ children) (h : Within element child) :
      Within element (.node name operation children)

/-- Every node of a tree has children. -/
def Populated (tree : Element) : Prop :=
  ∀ name operation children, Within (.node name operation children) tree → children ≠ []

theorem populated_constant (name : String) (value : Float) : Populated (.constant name value) := by
  intro _ _ _ h
  cases h

theorem populated_banded (name : String) (bands : List Band) (fallback : Float) :
    Populated (.banded name bands fallback) := by
  intro _ _ _ h
  cases h

theorem populated_bounded (name : String) (lower upper : Option Float) :
    Populated (.bounded name lower upper) := by
  intro _ _ _ h
  cases h

theorem populated_node_iff {name : String} {operation : Operation} {children : List Element} :
    Populated (.node name operation children) ↔
      children ≠ [] ∧ ∀ child ∈ children, Populated child := by
  constructor
  · intro h
    exact ⟨h _ _ _ .here, fun child hchild _ _ _ hnode => h _ _ _ (.deeper hchild hnode)⟩
  · intro ⟨hne, hchildren⟩ _ _ _ hnode
    cases hnode with
    | here => exact hne
    | deeper hchild hnode => exact hchildren _ hchild _ _ _ hnode

theorem populated_of_isLookup {element : Element} (h : element.isLookup = true) :
    element.Populated := by
  cases element with
  | banded name bands fallback => exact populated_banded name bands fallback
  | bounded name lower upper => exact populated_bounded name lower upper
  | constant => cases h
  | node => cases h

theorem lookups_of_isLookup {element : Element} (h : element.isLookup = true) :
    element.lookups = [element] := by
  cases element with
  | banded => rfl
  | bounded => rfl
  | constant => cases h
  | node => cases h

mutual

theorem firstChildless_eq_none_iff : (tree : Element) →
    (tree.firstChildless = none ↔ tree.Populated)
  | .constant name value => by simp [firstChildless, populated_constant]
  | .banded name bands fallback => by simp [firstChildless, populated_banded]
  | .bounded name lower upper => by simp [firstChildless, populated_bounded]
  | .node name operation [] => by simp [firstChildless, populated_node_iff]
  | .node name operation (child :: rest) => by
    rw [firstChildless, Option.or_eq_none_iff, populated_node_iff,
      firstChildless_eq_none_iff child, firstChildlessAmong_eq_none_iff rest]
    simp

theorem firstChildlessAmong_eq_none_iff : (trees : List Element) →
    (firstChildlessAmong trees = none ↔ ∀ tree ∈ trees, tree.Populated)
  | [] => by simp [firstChildlessAmong]
  | tree :: rest => by
    rw [firstChildlessAmong, Option.or_eq_none_iff, firstChildless_eq_none_iff tree,
      firstChildlessAmong_eq_none_iff rest]
    simp

end

/-! ## Faults -/

/-- The fault of a lookup, if its input is missing. -/
def missing (inputs : Inputs) (name : String) : List EvaluationError :=
  match inputs.get? name with
  | some _ => []
  | none => [.missingInput name]

mutual

/-- All that keeps a tree from having a value, from left to right. -/
def faults (inputs : Inputs) : Element → List EvaluationError
  | constant .. => []
  | banded name _ _ => missing inputs name
  | bounded name _ _ => missing inputs name
  | node name _ [] => [.emptyCalculation name]
  | node _ _ (child :: rest) => child.faults inputs ++ faultsAmong inputs rest

/-- The faults of several trees. -/
def faultsAmong (inputs : Inputs) : List Element → List EvaluationError
  | [] => []
  | tree :: rest => tree.faults inputs ++ faultsAmong inputs rest

end

theorem reports_fetch (inputs : Inputs) (name : String) :
    Attempt.Reports (missing inputs name) (inputs.fetch name) := by
  unfold missing Inputs.fetch
  cases inputs.get? name with
  | none => rfl
  | some x => exact ⟨x, rfl⟩

/-- A lookup fails as the search for its input does. -/
theorem reports_lookup (inputs : Inputs) (name : String) (score : Float → Float) :
    Attempt.Reports (missing inputs name) (do let x ← inputs.fetch name; return score x) := by
  unfold missing Inputs.fetch
  cases inputs.get? name with
  | none => rfl
  | some x => exact ⟨score x, rfl⟩

variable (arithmetic : Arithmetic) (inputs : Inputs)

mutual

/-- The evaluation of a tree ends with its first fault. -/
theorem reports_evaluateWith : (tree : Element) →
    Attempt.Reports (tree.faults inputs) (tree.evaluateWith arithmetic inputs)
  | .constant _ value => ⟨value, rfl⟩
  | .banded name bands fallback => reports_lookup inputs name (Band.scoreAmong bands fallback)
  | .bounded name lower upper => reports_lookup inputs name (holdWithin lower upper)
  | .node _ _ [] => rfl
  | .node _ operation (child :: rest) =>
    (reports_evaluateWith child).bind (reports_foldWith operation rest)

theorem reports_foldWith (operation : Operation) : (trees : List Element) → (value : Float) →
    Attempt.Reports (faultsAmong inputs trees) (foldWith arithmetic inputs operation value trees)
  | [], value => ⟨value, rfl⟩
  | tree :: rest, value =>
    (reports_evaluateWith tree).bind fun next =>
      reports_foldWith operation rest (arithmetic operation value next)

end

/-! ## Faults of populated trees -/

/-- The name of a lookup at a leaf of a tree has no input. -/
def LacksInput (inputs : Inputs) (lookups : List Element) (e : EvaluationError) : Prop :=
  ∃ lookup ∈ lookups, e = .missingInput lookup.name ∧ inputs.get? lookup.name = none

theorem mem_missing_iff {inputs : Inputs} {name : String} {e : EvaluationError} :
    e ∈ missing inputs name ↔ e = .missingInput name ∧ inputs.get? name = none := by
  unfold missing
  cases inputs.get? name <;> simp

mutual

theorem lacksInput_of_mem_faults : (tree : Element) → tree.Populated →
    ∀ e ∈ tree.faults inputs, LacksInput inputs tree.lookups e
  | .constant name value, _ => by simp [faults]
  | .banded name bands fallback, _ => by
    intro e he
    exact ⟨_, List.mem_singleton_self _, mem_missing_iff.1 he⟩
  | .bounded name lower upper, _ => by
    intro e he
    exact ⟨_, List.mem_singleton_self _, mem_missing_iff.1 he⟩
  | .node name operation [], h => absurd rfl (populated_node_iff.1 h).1
  | .node name operation (child :: rest), h => by
    have hchildren := (populated_node_iff.1 h).2
    exact lacksInput_of_mem_faultsAmong (child :: rest) hchildren

theorem lacksInput_of_mem_faultsAmong : (trees : List Element) →
    (∀ tree ∈ trees, tree.Populated) →
    ∀ e ∈ faultsAmong inputs trees, LacksInput inputs (lookupsAll trees) e
  | [], _ => by simp [faultsAmong]
  | tree :: rest, h => by
    intro e he
    rw [lookupsAll]
    rcases List.mem_append.1 he with he | he
    · obtain ⟨lookup, hlookup, hmissing⟩ :=
        lacksInput_of_mem_faults tree (h tree List.mem_cons_self) e he
      exact ⟨lookup, List.mem_append_left _ hlookup, hmissing⟩
    · obtain ⟨lookup, hlookup, hmissing⟩ := lacksInput_of_mem_faultsAmong rest
        (fun tree htree => h tree (List.mem_cons_of_mem _ htree)) e he
      exact ⟨lookup, List.mem_append_right _ hlookup, hmissing⟩

end

/-- A tree without childless nodes lacks an input if it has no value. -/
theorem lacksInput_of_evaluateWith_eq_error {tree : Element} (h : tree.Populated)
    {e : EvaluationError} (he : tree.evaluateWith arithmetic inputs = .error e) :
    LacksInput inputs tree.lookups e := by
  have hfault := (reports_evaluateWith arithmetic inputs tree).error_mem he
  exact lacksInput_of_mem_faults inputs tree h e hfault

end Scorecard.Element
