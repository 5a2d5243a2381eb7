import Scorecard.Proofs.Composition

/-!
# The shape of a calculation

The shape of a tree is what stays of it without the values and the lookups at its leaves. A catalog
decides whether a formula parses, but not the shape of its tree, since every reference stands for a
leaf. So it takes no definition to tell whether a formula leaves an operator without operands. Main
statement: `populated_iff_of_parse`.
-/

namespace Scorecard

open Attempt

namespace Element

mutual

/-- A tree with all its leaves alike. -/
def shape : Element → Element
  | constant _ _ => .constant "" 0
  | banded _ _ _ => .constant "" 0
  | bounded _ _ _ => .constant "" 0
  | node name operation children => .node name operation (shapes children)

/-- Several trees with all their leaves alike. -/
def shapes : List Element → List Element
  | [] => []
  | element :: rest => element.shape :: shapes rest

end

@[simp] theorem shapes_nil : shapes [] = [] := by
  rw [shapes]

@[simp] theorem shapes_cons (element : Element) (rest : List Element) :
    shapes (element :: rest) = element.shape :: shapes rest := by
  rw [shapes]

@[simp] theorem shapes_append (elements more : List Element) :
    shapes (elements ++ more) = shapes elements ++ shapes more := by
  induction elements with
  | nil => simp
  | cons element rest ih => simp [ih]

@[simp] theorem shape_node (name : String) (operation : Operation) (children : List Element) :
    (node name operation children).shape = .node name operation (shapes children) := by
  rw [shape]

theorem shape_of_isLookup {element : Element} (h : element.isLookup = true) :
    element.shape = .constant "" 0 := by
  cases element with
  | banded => rfl
  | bounded => rfl
  | constant => cases h
  | node => cases h

mutual

/-- A tree has the childless nodes of its shape. -/
theorem firstChildless_shape : (tree : Element) → tree.shape.firstChildless = tree.firstChildless
  | .constant _ _ => rfl
  | .banded _ _ _ => rfl
  | .bounded _ _ _ => rfl
  | .node _ _ [] => rfl
  | .node name operation (child :: rest) => by
    rw [shape_node, shapes_cons, firstChildless, firstChildless, firstChildless_shape child,
      firstChildlessAmong_shapes rest]

theorem firstChildlessAmong_shapes : (trees : List Element) →
    firstChildlessAmong (shapes trees) = firstChildlessAmong trees
  | [] => rfl
  | tree :: rest => by
    rw [shapes_cons, firstChildlessAmong, firstChildlessAmong, firstChildless_shape tree,
      firstChildlessAmong_shapes rest]

end

/-- Trees of one shape have nodes without children both or neither. -/
theorem populated_iff_of_shape_eq {tree other : Element} (h : tree.shape = other.shape) :
    tree.Populated ↔ other.Populated := by
  rw [← firstChildless_eq_none_iff, ← firstChildless_eq_none_iff, ← firstChildless_shape tree, h,
    firstChildless_shape other]

end Element

namespace Formula

open Element

/-! ## Chains -/

namespace ChainTail

/-- What is read of a row, with all leaves alike. -/
def shape (tail : ChainTail) : ChainTail :=
  ⟨shapes tail.operands,
    tail.chain.map fun chain => { chain with children := shapes chain.children }⟩

theorem shapes_children (tail : ChainTail) : shapes tail.children = tail.shape.children := by
  obtain ⟨operands, chain⟩ := tail
  cases chain <;> simp [children, shape, withOperands, Calculation.toElement]

theorem shape_push (element : Element) (tail : ChainTail) :
    (tail.push element).shape = tail.shape.push element.shape := by
  cases element with
  | constant => simp [push, shape, Element.shape]
  | banded => simp [push, shape, Element.shape]
  | bounded => simp [push, shape, Element.shape]
  | node name operation children =>
    cases children with
    | nil => simpa [push, shape] using shapes_children tail
    | cons child rest => simp [push, shape]

theorem shape_toCalculation (tail : ChainTail) :
    tail.toCalculation.toElement.shape = tail.shape.toCalculation.toElement := by
  obtain ⟨operands, chain⟩ := tail
  cases chain <;> simp [toCalculation, shape, withOperands, Calculation.of, Calculation.toElement]

end ChainTail

/-- The shape of a chain is the chain of the shapes in its row. -/
theorem shape_chain (elements : List Element) :
    (chain elements).toElement.shape = (chain (shapes elements)).toElement := by
  have htail : (elements.foldr ChainTail.push .nil).shape =
      (shapes elements).foldr ChainTail.push .nil := by
    induction elements with
    | nil => rfl
    | cons element rest ih =>
      rw [List.foldr_cons, ChainTail.shape_push, ih, shapes_cons, List.foldr_cons]
  rw [chain, ChainTail.shape_toCalculation, htail, chain]

/-! ## Formulas -/

section

variable {catalog catalog' : List Element}

/-- Whatever a catalog has for a reference, it is a leaf. -/
theorem shape_eq_of_classify (hcatalog : LookupsOnly catalog) (hcatalog' : LookupsOnly catalog')
    {token : List Char} {element element' : Element} (h : classify catalog token = .ok element)
    (h' : classify catalog' token = .ok element') : element.shape = element'.shape := by
  unfold classify at h h'
  cases href : reference? token with
  | some name =>
    simp only [href] at h h'
    split at h
    · rename_i hfind
      cases h
      split at h'
      · rename_i hfind'
        cases h'
        rw [shape_of_isLookup (hcatalog _ (List.mem_of_find?_eq_some hfind)),
          shape_of_isLookup (hcatalog' _ (List.mem_of_find?_eq_some hfind'))]
      · cases h'
    · cases h
  | none =>
    simp only [href] at h h'
    rw [h] at h'
    cases h'
    rfl

theorem shapes_eq_of_classifyAll (hcatalog : LookupsOnly catalog)
    (hcatalog' : LookupsOnly catalog') {tokens : List (List Char)}
    {elements elements' : List Element} (h : classifyAll catalog tokens = .ok elements)
    (h' : classifyAll catalog' tokens = .ok elements') : shapes elements = shapes elements' := by
  have hpairs := mapM_eq_ok_iff.1 h
  have hpairs' := mapM_eq_ok_iff.1 h'
  clear h h'
  induction hpairs generalizing elements' with
  | nil =>
    cases hpairs'
    rfl
  | cons htoken _ ih =>
    cases hpairs' with
    | cons htoken' hrest' =>
      rw [shapes_cons, shapes_cons, shape_eq_of_classify hcatalog hcatalog' htoken htoken',
        ih hrest']

mutual

theorem shape_eq_of_calculation (hcatalog : LookupsOnly catalog)
    (hcatalog' : LookupsOnly catalog') : (fragment : Fragment) →
    (calculation calculation' : Calculation) → fragment.calculation catalog = .ok calculation →
    fragment.calculation catalog' = .ok calculation' →
    calculation.toElement.shape = calculation'.toElement.shape
  | .run _ tokens, calculation, calculation', h, h' => by
    rw [Fragment.calculation] at h h'
    obtain ⟨elements, helements, hchain⟩ := bind_eq_ok_iff.1 h
    obtain ⟨elements', helements', hchain'⟩ := bind_eq_ok_iff.1 h'
    cases hchain
    cases hchain'
    rw [shape_chain, shape_chain,
      shapes_eq_of_classifyAll hcatalog hcatalog' helements helements']
  | .group _ contents, calculation, calculation', h, h' => by
    rw [Fragment.calculation] at h h'
    obtain ⟨children, hchildren, hsum⟩ := bind_eq_ok_iff.1 h
    obtain ⟨children', hchildren', hsum'⟩ := bind_eq_ok_iff.1 h'
    cases hsum
    cases hsum'
    have hsame := shapes_eq_of_elements hcatalog hcatalog' contents _ _ hchildren hchildren'
    simp [Calculation.of, Calculation.toElement, hsame]

theorem shapes_eq_of_elements (hcatalog : LookupsOnly catalog)
    (hcatalog' : LookupsOnly catalog') : (fragments : List Fragment) →
    (elements elements' : List Element) → Fragment.elements catalog fragments = .ok elements →
    Fragment.elements catalog' fragments = .ok elements' → shapes elements = shapes elements'
  | [], elements, elements', h, h' => by
    rw [Fragment.elements] at h h'
    cases h
    cases h'
    rfl
  | fragment :: rest, elements, elements', h, h' => by
    rw [Fragment.elements] at h h'
    obtain ⟨calculation, hcalculation, hmore⟩ := bind_eq_ok_iff.1 h
    obtain ⟨calculation', hcalculation', hmore'⟩ := bind_eq_ok_iff.1 h'
    obtain ⟨others, hothers, helements⟩ := bind_eq_ok_iff.1 hmore
    obtain ⟨others', hothers', helements'⟩ := bind_eq_ok_iff.1 hmore'
    cases helements
    cases helements'
    rw [shapes_cons, shapes_cons,
      shape_eq_of_calculation hcatalog hcatalog' fragment _ _ hcalculation hcalculation',
      shapes_eq_of_elements hcatalog hcatalog' rest _ _ hothers hothers']

end

/-- Over all catalogs over which it parses, a formula has a tree of one shape. -/
theorem shape_eq_of_parse (hcatalog : LookupsOnly catalog) (hcatalog' : LookupsOnly catalog')
    {formula : String} {root root' : Calculation} (h : parse catalog formula = .ok root)
    (h' : parse catalog' formula = .ok root') : root.toElement.shape = root'.toElement.shape := by
  obtain ⟨entries, hentries, hmore⟩ := bind_eq_ok_iff.1 h
  obtain ⟨entries', hentries', hmore'⟩ := bind_eq_ok_iff.1 h'
  rw [hentries] at hentries'
  cases hentries'
  obtain ⟨children, hchildren, hroot⟩ := bind_eq_ok_iff.1 hmore
  obtain ⟨children', hchildren', hroot'⟩ := bind_eq_ok_iff.1 hmore'
  cases hroot
  cases hroot'
  have hsame := shapes_eq_of_elements hcatalog hcatalog' entries _ _ hchildren hchildren'
  simp [Calculation.of, Calculation.toElement, hsame]

/-- No catalog decides whether a formula leaves a node without children. -/
theorem populated_iff_of_parse (hcatalog : LookupsOnly catalog)
    (hcatalog' : LookupsOnly catalog') {formula : String} {root root' : Calculation}
    (h : parse catalog formula = .ok root) (h' : parse catalog' formula = .ok root') :
    root.toElement.Populated ↔ root'.toElement.Populated :=
  populated_iff_of_shape_eq (shape_eq_of_parse hcatalog hcatalog' h h')

end

end Formula

end Scorecard
