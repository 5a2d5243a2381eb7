import Scorecard.Formula.Parse
import Scorecard.Proofs.Acceptance
import Scorecard.Proofs.Definitions
import Scorecard.Proofs.Faults

/-!
# What the trees of formulas are made of

The tree of a formula is made of finite constants, elements of the catalog, and inner nodes that are
named by the symbols of their operations (`MadeOf`). Each token stands for such a tree, and chains
and sums put trees together by inner nodes only (`MadeOf.chain`, `madeOf_elements`). Main statement:
`madeOf_of_parse`.
-/

namespace Scorecard

open Attempt

/-- A tree is made of finite constants, the lookups of a catalog, and inner nodes that are named by
the symbols of their operations. -/
inductive Element.MadeOf (catalog : List Element) : Element → Prop where
  | constant {name : String} {value : Float} (hvalue : value.isFinite = true) :
      MadeOf catalog (.constant name value)
  | lookup {element : Element} (hlookup : element.isLookup = true) (hmem : element ∈ catalog) :
      MadeOf catalog element
  | node {operation : Operation} {children : List Element}
      (hchildren : ∀ child ∈ children, MadeOf catalog child) :
      MadeOf catalog (.node operation.symbol operation children)

namespace Element

variable {catalog : List Element}

theorem madeOf_node_iff {name : String} {operation : Operation} {children : List Element} :
    MadeOf catalog (.node name operation children) ↔
      name = operation.symbol ∧ ∀ child ∈ children, MadeOf catalog child := by
  constructor
  · intro h
    cases h with
    | lookup hlookup _ => cases hlookup
    | node hchildren => exact ⟨rfl, hchildren⟩
  · intro ⟨hname, hchildren⟩
    subst hname
    exact .node hchildren

theorem MadeOf.of {operation : Operation} {children : List Element}
    (hchildren : ∀ child ∈ children, MadeOf catalog child) :
    MadeOf catalog (Calculation.of operation children).toElement :=
  madeOf_node_iff.2 ⟨rfl, hchildren⟩

theorem MadeOf.mem_of_isLookup {element : Element} (h : MadeOf catalog element)
    (hlookup : element.isLookup = true) : element ∈ catalog := by
  cases h with
  | constant _ => cases hlookup
  | lookup _ hmem => exact hmem
  | node _ => cases hlookup

/-- What stands in a tree is made of the same. -/
theorem MadeOf.within {tree element : Element} (h : MadeOf catalog tree)
    (hwithin : Within element tree) : MadeOf catalog element := by
  induction hwithin with
  | here => exact h
  | deeper hchild _ ih => exact ih ((madeOf_node_iff.1 h).2 _ hchild)

end Element

namespace Formula

open Element

variable {catalog : List Element}

/-! ## Tokens and chains -/

/-- The elements of a catalog are lookups. -/
def LookupsOnly (catalog : List Element) : Prop :=
  ∀ element ∈ catalog, element.isLookup = true

theorem lookupsOnly_of_catalogOf {definitions : NameMap Definition}
    (h : catalogOf definitions = .ok catalog) : LookupsOnly catalog :=
  fun _ hmem => isLookup_of_mem_catalog h hmem

theorem madeOf_of_classify (hcatalog : LookupsOnly catalog) {token : List Char} {element : Element}
    (h : classify catalog token = .ok element) : MadeOf catalog element := by
  unfold classify at h
  split at h
  · split at h
    · rename_i hfind
      cases h
      have hmem := List.mem_of_find?_eq_some hfind
      exact .lookup (hcatalog element hmem) hmem
    · cases h
  · split at h
    · cases h
      exact MadeOf.of fun child hchild => absurd hchild List.not_mem_nil
    · split at h
      · rename_i hvalue
        cases h
        exact .constant (readFinite?_eq_some_iff.1 hvalue).2
      · cases h

theorem madeOf_of_classifyAll (hcatalog : LookupsOnly catalog) {tokens : List (List Char)}
    {elements : List Element} (h : classifyAll catalog tokens = .ok elements) :
    ∀ element ∈ elements, MadeOf catalog element := by
  intro element hmem
  obtain ⟨token, _, htoken⟩ := exists_of_mem_mapM h hmem
  exact madeOf_of_classify hcatalog htoken

/-- What is read of a row is made of what the catalog has. -/
structure ChainTail.MadeOf (catalog : List Element) (tail : ChainTail) : Prop where
  operands : ∀ operand ∈ tail.operands, Element.MadeOf catalog operand
  chain : ∀ chain, tail.chain = some chain → Element.MadeOf catalog chain.toElement

theorem MadeOf.withOperands {operands : List Element} {chain : Calculation}
    (hoperands : ∀ operand ∈ operands, MadeOf catalog operand)
    (hchain : MadeOf catalog chain.toElement) :
    MadeOf catalog (ChainTail.withOperands operands chain).toElement := by
  obtain ⟨hname, hchildren⟩ := madeOf_node_iff.1 hchain
  refine madeOf_node_iff.2 ⟨hname, fun child hchild => ?_⟩
  rcases List.mem_append.1 hchild with hchild | hchild
  · exact hoperands child hchild
  · exact hchildren child hchild

theorem ChainTail.MadeOf.children {tail : ChainTail} (h : tail.MadeOf catalog) :
    ∀ child ∈ tail.children, Element.MadeOf catalog child := by
  unfold ChainTail.children
  cases hchain : tail.chain with
  | none => exact h.operands
  | some chain =>
    intro child hchild
    rw [List.mem_singleton.1 hchild]
    exact MadeOf.withOperands h.operands (h.chain chain hchain)

theorem ChainTail.MadeOf.push {tail : ChainTail} (h : tail.MadeOf catalog) {element : Element}
    (helement : Element.MadeOf catalog element) : (tail.push element).MadeOf catalog := by
  unfold ChainTail.push
  split
  · refine ⟨by simp, fun chain hchain => ?_⟩
    cases hchain
    exact madeOf_node_iff.2 ⟨(madeOf_node_iff.1 helement).1, h.children⟩
  · exact ⟨List.forall_mem_cons.2 ⟨helement, h.operands⟩, h.chain⟩

/-- A chain is made of what its row is made of. -/
theorem MadeOf.chain {elements : List Element} (h : ∀ element ∈ elements, MadeOf catalog element) :
    MadeOf catalog (chain elements).toElement := by
  have htail : (elements.foldr ChainTail.push .nil).MadeOf catalog := by
    induction elements with
    | nil => exact ⟨by simp [ChainTail.nil], by simp [ChainTail.nil]⟩
    | cons element rest ih =>
      obtain ⟨helement, hrest⟩ := List.forall_mem_cons.1 h
      exact (ih hrest).push helement
  unfold Formula.chain ChainTail.toCalculation
  split
  · exact MadeOf.of htail.operands
  · rename_i chain hchain
    exact MadeOf.withOperands htail.operands (htail.chain chain hchain)

/-! ## Formulas -/

mutual

theorem madeOf_calculation (hcatalog : LookupsOnly catalog) : (fragment : Fragment) →
    (calculation : Calculation) → fragment.calculation catalog = .ok calculation →
    MadeOf catalog calculation.toElement
  | .run _ tokens, calculation, h => by
    rw [Fragment.calculation] at h
    obtain ⟨elements, helements, hchain⟩ := bind_eq_ok_iff.1 h
    cases hchain
    exact MadeOf.chain (madeOf_of_classifyAll hcatalog helements)
  | .group _ contents, calculation, h => by
    rw [Fragment.calculation] at h
    obtain ⟨children, hchildren, hsum⟩ := bind_eq_ok_iff.1 h
    cases hsum
    exact MadeOf.of (madeOf_elements hcatalog contents children hchildren)

/-- The trees of fragments are made of what the catalog has. -/
theorem madeOf_elements (hcatalog : LookupsOnly catalog) : (fragments : List Fragment) →
    (elements : List Element) → Fragment.elements catalog fragments = .ok elements →
    ∀ element ∈ elements, MadeOf catalog element
  | [], elements, h => by
    rw [Fragment.elements] at h
    cases h
    simp
  | fragment :: rest, elements, h => by
    rw [Fragment.elements] at h
    obtain ⟨calculation, hcalculation, hmore⟩ := bind_eq_ok_iff.1 h
    obtain ⟨others, hothers, helements⟩ := bind_eq_ok_iff.1 hmore
    cases helements
    exact List.forall_mem_cons.2 ⟨madeOf_calculation hcatalog fragment calculation hcalculation,
      madeOf_elements hcatalog rest others hothers⟩

end

/-- The tree of a formula is made of finite constants, elements of the catalog, and inner nodes that
are named by their operations. -/
theorem madeOf_of_parse (hcatalog : LookupsOnly catalog) {formula : String} {root : Calculation}
    (h : parse catalog formula = .ok root) : MadeOf catalog root.toElement := by
  obtain ⟨contents, _, hmore⟩ := bind_eq_ok_iff.1 h
  obtain ⟨children, hchildren, hroot⟩ := bind_eq_ok_iff.1 hmore
  cases hroot
  exact MadeOf.of (madeOf_elements hcatalog contents children hchildren)

/-- So is the tree of several formulas. -/
theorem madeOf_of_parseSum (hcatalog : LookupsOnly catalog) {formulas : List String}
    {root : Calculation} (h : parseSum catalog formulas = .ok root) :
    MadeOf catalog root.toElement := by
  obtain ⟨roots, hroots, hsum⟩ := bind_eq_ok_iff.1 h
  cases hsum
  refine MadeOf.of fun child hchild => ?_
  obtain ⟨root, hmem, hchild⟩ := List.mem_flatMap.1 hchild
  obtain ⟨formula, _, hparse⟩ := exists_of_mem_mapM hroots hmem
  exact (madeOf_node_iff.1 (madeOf_of_parse hcatalog hparse)).2 child hchild

end Formula

end Scorecard
