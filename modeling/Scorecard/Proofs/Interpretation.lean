import Scorecard.Evaluation
import Scorecard.Proofs.Acceptance
import Scorecard.Proofs.Definitions
import Scorecard.Proofs.Outline

/-!
# The value of a formula, read off its source

`formulaValue` gives a formula a value without building a calculation. The formula is cut at its
outermost parentheses; the value is the sum of its fragments from left to right, where a group has
the value of its interior and a run the value of its row of operands and operators. Operators group
to the right and an operand may be missing on either side of one. Main statement:
`evaluateWith_parse`, the calculation of a formula has this value for all inputs and in every
arithmetic, and the same first error where it has none.
-/

namespace Scorecard.Formula

open Attempt Text Element

/-! ## Values of the source -/

/-- Operators with an operand, or none, in front of each and behind the last. -/
structure Row where
  first : Option (List Char)
  rest : List (Operation × Option (List Char))

/-- Puts a token in front of a row. -/
def Row.push (token : List Char) (row : Row) : Row :=
  match Operation.ofSymbol? (String.ofList token) with
  | some operation => ⟨none, (operation, row.first) :: row.rest⟩
  | none => { row with first := some token }

/-- The row of some tokens. Of two operands side by side it has the first. -/
def Row.ofTokens (tokens : List (List Char)) : Row :=
  tokens.foldr Row.push ⟨none, []⟩

section

variable (catalog : List Element) (arithmetic : Arithmetic) (inputs : Inputs)

/-- The value of an operand: of a reference what its element makes of the input, of a number the
number. Tokens that are neither have no value. -/
def operandValue (token : List Char) : Except EvaluationError Float :=
  match reference? token, Number.readFinite? token with
  | some name, _ =>
    match find? catalog (String.ofList name) with
    | some element => element.evaluateWith arithmetic inputs
    | none => .error (.missingInput (String.ofList name))
  | none, some x => .ok x
  | none, none => .error (.missingInput (String.ofList token))

/-- The value of a row by its first operand and its operators with the operands behind them. -/
def rowValue : Option (List Char) → List (Operation × Option (List Char)) →
    Except EvaluationError Float
  | none, [] => .error (.emptyCalculation "+")
  | some x, [] => operandValue catalog arithmetic inputs x
  | none, [(operation, none)] => .error (.emptyCalculation operation.symbol)
  | some x, [(_, none)] => operandValue catalog arithmetic inputs x
  | none, [(_, some y)] => operandValue catalog arithmetic inputs y
  | some x, [(operation, some y)] => do
    let left ← operandValue catalog arithmetic inputs x
    let right ← operandValue catalog arithmetic inputs y
    return arithmetic operation left right
  | none, (_, y) :: next :: rest => rowValue y (next :: rest)
  | some x, (operation, y) :: next :: rest => do
    let left ← operandValue catalog arithmetic inputs x
    let right ← rowValue y (next :: rest)
    return arithmetic operation left right

/-- The sum of values from left to right; there is none of nothing. -/
def sumValue : List (Except EvaluationError Float) → Except EvaluationError Float
  | [] => .error (.emptyCalculation "+")
  | first :: rest => do
    let start ← first
    rest.foldlM (fun total value => do return arithmetic .add total (← value)) start

mutual

/-- The value of a stretch; a blank run has none. -/
def stretchValues : Nesting → List (Except EvaluationError Float)
  | .run text =>
    match tokens text with
    | [] => []
    | token :: more =>
      let row := Row.ofTokens (token :: more)
      [rowValue catalog arithmetic inputs row.first row.rest]
  | .group contents => [sumValue arithmetic (stretchesValues contents)]

/-- The values of several stretches. -/
def stretchesValues : List Nesting → List (Except EvaluationError Float)
  | [] => []
  | item :: rest => stretchValues item ++ stretchesValues rest

end

/-- The value of a formula. -/
def formulaValue (formula : String) : Except EvaluationError Float :=
  sumValue arithmetic (stretchesValues catalog arithmetic inputs (outline formula.toList))

end

/-! ## Operands of a catalog -/

/-- No element is an operator. -/
def OperandsOnly (catalog : List Element) : Prop :=
  ∀ element ∈ catalog, IsOperand element

theorem isOperand_of_isLookup {element : Element} (h : element.isLookup = true) :
    IsOperand element := by
  intro name operation heq
  subst heq
  cases h

theorem operandsOnly_of_catalogOf {definitions : NameMap Definition} {catalog : List Element}
    (h : catalogOf definitions = .ok catalog) : OperandsOnly catalog :=
  fun _ hmem => isOperand_of_isLookup (isLookup_of_mem_catalog h hmem)

/-! ## Rows and links -/

/-- An operand, or none, stands for a list of elements. -/
def Stands (catalog : List Element) : Option (List Char) → List Element → Prop
  | none, elements => elements = []
  | some token, elements =>
    ∃ element, elements = [element] ∧ classify catalog token = .ok element ∧ IsOperand element

/-- An operator with the operand behind it stands for a link. -/
def StandsForLink (catalog : List Element) (pair : Operation × Option (List Char)) (link : Link) :
    Prop :=
  link.name = pair.1.symbol ∧ link.operation = pair.1 ∧ Stands catalog pair.2 link.operands

/-- A row stands for elements: its operands and operators for operands and links. -/
def Row.StandsFor (catalog : List Element) (row : Row) (elements : List Element) : Prop :=
  ∃ operands links, elements = operands ++ links.flatMap Link.elements ∧
    Stands catalog row.first operands ∧ List.Forall₂ (StandsForLink catalog) row.rest links

theorem Stands.isOperand {catalog : List Element} {operand : Option (List Char)}
    {elements : List Element} (h : Stands catalog operand elements) :
    ∀ element ∈ elements, IsOperand element := by
  cases operand with
  | none =>
    rw [show elements = [] from h]
    simp
  | some token =>
    obtain ⟨element, rfl, _, helement⟩ := h
    intro other hother
    rw [List.mem_singleton.1 hother]
    exact helement

theorem isOperand_of_standsForLink {catalog : List Element}
    {rest : List (Operation × Option (List Char))} {links : List Link}
    (h : List.Forall₂ (StandsForLink catalog) rest links) :
    ∀ link ∈ links, ∀ operand ∈ link.operands, IsOperand operand := by
  induction h with
  | nil => simp
  | cons hlink _ ih =>
    intro link hmem
    rcases List.mem_cons.1 hmem with rfl | hmem
    · exact hlink.2.2.isOperand
    · exact ih link hmem

theorem classify_operator {catalog : List Element} {token : List Char} {operation : Operation}
    (h : Operation.ofSymbol? (String.ofList token) = some operation) :
    classify catalog token = .ok (Calculation.of operation []).toElement := by
  have htoken : token = operation.symbol.toList := by
    rw [← Operation.ofSymbol?_eq_some_iff.1 h, String.toList_ofList]
  have href : reference? token = none := by
    rw [htoken]
    cases operation <;> decide
  unfold classify
  rw [href, h]

/-- What is no operator stands for an operand. -/
theorem isOperand_of_classify {catalog : List Element} (hcatalog : OperandsOnly catalog)
    {token : List Char} {element : Element}
    (hsymbol : Operation.ofSymbol? (String.ofList token) = none)
    (h : classify catalog token = .ok element) : IsOperand element := by
  unfold classify at h
  split at h
  · split at h
    · rename_i hfind
      cases h
      exact hcatalog _ (List.mem_of_find?_eq_some hfind)
    · cases h
  · rw [hsymbol] at h
    simp only at h
    split at h
    · cases h
      intro name operation heq
      cases heq
    · cases h

theorem ofTokens_cons_operator {token : List Char} {operation : Operation}
    (hsymbol : Operation.ofSymbol? (String.ofList token) = some operation)
    (more : List (List Char)) :
    Row.ofTokens (token :: more) =
      ⟨none, (operation, (Row.ofTokens more).first) :: (Row.ofTokens more).rest⟩ := by
  unfold Row.ofTokens
  rw [List.foldr_cons, Row.push, hsymbol]

theorem ofTokens_cons_operand {token : List Char}
    (hsymbol : Operation.ofSymbol? (String.ofList token) = none) (more : List (List Char)) :
    Row.ofTokens (token :: more) = ⟨some token, (Row.ofTokens more).rest⟩ := by
  unfold Row.ofTokens
  rw [List.foldr_cons, Row.push, hsymbol]

theorem standsFor_cons_operator {catalog : List Element} {token : List Char}
    {more : List (List Char)} {element : Element} {elements : List Element} {operation : Operation}
    (hsymbol : Operation.ofSymbol? (String.ofList token) = some operation)
    (hclassify : classify catalog token = .ok element)
    (hmore : (Row.ofTokens more).StandsFor catalog elements) :
    (Row.ofTokens (token :: more)).StandsFor catalog (element :: elements) := by
  obtain ⟨operands, links, rfl, hoperands, hlinks⟩ := hmore
  rw [classify_operator hsymbol] at hclassify
  cases hclassify
  rw [ofTokens_cons_operator hsymbol]
  refine ⟨[], ⟨operation.symbol, operation, operands⟩ :: links, ?_, rfl,
    .cons ⟨rfl, rfl, hoperands⟩ hlinks⟩
  simp [Link.elements, Calculation.of, Calculation.toElement]

theorem standsFor_cons_operand {catalog : List Element} (hcatalog : OperandsOnly catalog)
    {token : List Char} {more : List (List Char)} {element : Element} {elements : List Element}
    (hsymbol : Operation.ofSymbol? (String.ofList token) = none)
    (hclassify : classify catalog token = .ok element)
    (hmore : (Row.ofTokens more).StandsFor catalog elements)
    (hfirst : (Row.ofTokens more).first = none) :
    (Row.ofTokens (token :: more)).StandsFor catalog (element :: elements) := by
  obtain ⟨operands, links, rfl, hoperands, hlinks⟩ := hmore
  rw [hfirst] at hoperands
  cases hoperands
  rw [ofTokens_cons_operand hsymbol]
  have helement := isOperand_of_classify hcatalog hsymbol hclassify
  exact ⟨[element], links, rfl, ⟨element, rfl, hclassify, helement⟩, hlinks⟩

/-- Tokens that start with an operator, or are none, and whose row stands for their elements. -/
def OperatorFirst (catalog : List Element) (tokens : List (List Char)) : Prop :=
  (Row.ofTokens tokens).first = none ∧
    ∀ elements, classifyAll catalog tokens = .ok elements →
      (Row.ofTokens tokens).StandsFor catalog elements

theorem operatorFirst_nil (catalog : List Element) : OperatorFirst catalog [] := by
  refine ⟨rfl, fun elements h => ?_⟩
  cases h
  exact ⟨[], [], rfl, rfl, .nil⟩

/-- A piece puts at most one word, hence at most one operand, in front of what follows it. -/
theorem standsFor_word_append {catalog : List Element} (hcatalog : OperandsOnly catalog)
    {piece : List Char} {more : List (List Char)} {elements : List Element}
    (h : classifyAll catalog (word piece ++ more) = .ok elements)
    (hmore : OperatorFirst catalog more) :
    (Row.ofTokens (word piece ++ more)).StandsFor catalog elements := by
  unfold word at h ⊢
  split
  · rename_i hnil
    rw [hnil] at h
    exact hmore.2 elements h
  · rename_i token hcons
    split at h
    · rename_i hnil
      exact absurd hnil hcons
    · cases mapM_eq_ok_iff.1 h with
      | cons hclassify hrest =>
        have hrest := hmore.2 _ (mapM_eq_ok_iff.2 hrest)
        cases hsymbol : Operation.ofSymbol? (String.ofList (trim piece)) with
        | some operation => exact standsFor_cons_operator hsymbol hclassify hrest
        | none => exact standsFor_cons_operand hcatalog hsymbol hclassify hrest hmore.1

/-- A separator that is no parenthesis is an operator. -/
theorem exists_ofSymbol?_of_isSeparator {c : Char} (hc : isSeparator c = true)
    (hparenthesis : isParenthesis c = false) :
    ∃ operation, Operation.ofSymbol? (String.ofList [c]) = some operation := by
  simp only [isSeparator, List.mem_cons, List.not_mem_nil, or_false, decide_eq_true_eq] at hc
  rcases hc with rfl | rfl | rfl | rfl | rfl | rfl
  · exact ⟨.add, rfl⟩
  · exact ⟨.multiply, rfl⟩
  · exact ⟨.divide, rfl⟩
  · exact ⟨.power, rfl⟩
  · exact absurd hparenthesis (by decide)
  · exact absurd hparenthesis (by decide)

/-- What stands behind the first piece of a run starts with an operator. -/
theorem operatorFirst_of_tail {catalog : List Element} (hcatalog : OperandsOnly catalog)
    {tail : List (Char × List Char)}
    (htail : ∀ pair ∈ tail,
      ∃ operation, Operation.ofSymbol? (String.ofList [pair.1]) = some operation) :
    OperatorFirst catalog
      (tail.flatMap fun (separator, piece) => [separator] :: word piece) := by
  induction tail with
  | nil => exact operatorFirst_nil catalog
  | cons pair rest ih =>
    have hrest := ih fun other hother => htail other (List.mem_cons_of_mem _ hother)
    obtain ⟨operation, hoperation⟩ := htail pair List.mem_cons_self
    rw [List.flatMap_cons, List.cons_append]
    refine ⟨by rw [ofTokens_cons_operator hoperation], fun elements h => ?_⟩
    cases mapM_eq_ok_iff.1 h with
    | cons hclassify hmore =>
      exact standsFor_cons_operator hoperation hclassify
        (standsFor_word_append hcatalog (mapM_eq_ok_iff.2 hmore) hrest)

/-- The row of a run's tokens stands for their elements. -/
theorem standsFor_tokens {catalog : List Element} (hcatalog : OperandsOnly catalog)
    {run : List Char} (hrun : Unmarked isParenthesis 0 run) {elements : List Element}
    (h : classifyAll catalog (tokens run) = .ok elements) :
    (Row.ofTokens (tokens run)).StandsFor catalog elements := by
  -- a run is cut at operators only, since its parentheses stand within brackets
  have hmarks : ∀ pair ∈ (cut isSeparator 0 run).tail,
      ∃ operation, Operation.ofSymbol? (String.ofList [pair.1]) = some operation := by
    intro pair hpair
    have hmem : pair.1 ∈ outerMarks isSeparator 0 run := by
      rw [← map_fst_tail_cut]
      exact List.mem_map_of_mem hpair
    refine exists_ofSymbol?_of_isSeparator (mem_outerMarks hmem) ?_
    cases hparenthesis : isParenthesis pair.1 with
    | false => rfl
    | true =>
      have hnone := mem_outerMarks_of_mem hmem hparenthesis
      rw [hrun] at hnone
      cases hnone
  exact standsFor_word_append hcatalog h (operatorFirst_of_tail hcatalog hmarks)

/-! ## The value of a calculation -/

section

variable {catalog : List Element} (arithmetic : Arithmetic) (inputs : Inputs)

/-- An operand has the value of its element. -/
theorem evaluateWith_of_classify {token : List Char} {element : Element}
    (h : classify catalog token = .ok element) (hoperand : IsOperand element) :
    element.evaluateWith arithmetic inputs = operandValue catalog arithmetic inputs token := by
  unfold classify at h
  unfold operandValue
  split at h
  · rename_i name href
    rw [href]
    split at h
    · rename_i hfind
      cases h
      simp only [hfind]
    · cases h
  · rename_i href
    rw [href]
    split at h
    · cases h
      exact absurd rfl (hoperand _ _)
    · split at h
      · rename_i x hx
        cases h
        rw [hx, evaluateWith]
      · cases h

theorem evaluateWith_node_singleton (name : String) (operation : Operation) (child : Element) :
    (Element.node name operation [child]).evaluateWith arithmetic inputs =
      child.evaluateWith arithmetic inputs := by
  rw [evaluateWith]
  cases child.evaluateWith arithmetic inputs with
  | error e => rfl
  | ok value => rw [ok_bind, foldWith]

theorem evaluateWith_node_pair (name : String) (operation : Operation) (left right : Element) :
    (Element.node name operation [left, right]).evaluateWith arithmetic inputs = do
      let x ← left.evaluateWith arithmetic inputs
      let y ← right.evaluateWith arithmetic inputs
      return arithmetic operation x y := by
  rw [evaluateWith]
  cases left.evaluateWith arithmetic inputs with
  | error e => rfl
  | ok x =>
    rw [ok_bind, foldWith]
    cases right.evaluateWith arithmetic inputs with
    | error e => rfl
    | ok y =>
      rw [ok_bind, ok_bind, foldWith]
      rfl

/-- The chain of operands and links has the value of the row that stands for them. -/
theorem evaluateWith_rightNested {links : List Link} {rest : List (Operation × Option (List Char))}
    (hlinks : List.Forall₂ (StandsForLink catalog) rest links) {first : Option (List Char)}
    {operands : List Element} (hfirst : Stands catalog first operands) :
    (rightNested operands links).evaluateWith arithmetic inputs =
      rowValue catalog arithmetic inputs first rest := by
  -- the operand behind an operator stands in front of the rest of the row
  induction hlinks generalizing first operands with
  | nil =>
    cases first with
    | none =>
      rw [show operands = [] from hfirst, rowValue]
      rfl
    | some x =>
      obtain ⟨element, rfl, hclassify, hoperand⟩ := hfirst
      rw [rowValue, ← evaluateWith_of_classify arithmetic inputs hclassify hoperand]
      exact evaluateWith_node_singleton arithmetic inputs _ _ element
  | @cons pair link rest links hlink hlinks ih =>
    obtain ⟨operation, second⟩ := pair
    obtain ⟨name, operation', others⟩ := link
    obtain ⟨hname, hoperation, hsecond⟩ := hlink
    simp only at hname hoperation hsecond
    subst hname hoperation
    have hmore := ih hsecond
    cases hlinks with
    | nil =>
      cases first with
      | none =>
        rw [show operands = [] from hfirst]
        cases second with
        | none =>
          rw [show others = [] from hsecond, rowValue]
          rfl
        | some y =>
          obtain ⟨element, rfl, hclassify, hoperand⟩ := hsecond
          rw [rowValue, ← evaluateWith_of_classify arithmetic inputs hclassify hoperand]
          exact evaluateWith_node_singleton arithmetic inputs _ _ element
      | some x =>
        obtain ⟨left, rfl, hleft, hleftOperand⟩ := hfirst
        have hx := evaluateWith_of_classify arithmetic inputs hleft hleftOperand
        cases second with
        | none =>
          rw [show others = [] from hsecond, rowValue, ← hx]
          exact evaluateWith_node_singleton arithmetic inputs _ _ left
        | some y =>
          obtain ⟨right, rfl, hright, hrightOperand⟩ := hsecond
          rw [rowValue, ← hx, ← evaluateWith_of_classify arithmetic inputs hright hrightOperand]
          exact evaluateWith_node_pair arithmetic inputs _ _ left right
    | cons hnext hothers =>
      rw [rightNested]
      cases first with
      | none =>
        rw [show operands = [] from hfirst, rowValue, ← hmore]
        exact evaluateWith_node_singleton arithmetic inputs _ _ _
      | some x =>
        obtain ⟨left, rfl, hleft, hleftOperand⟩ := hfirst
        rw [rowValue, ← evaluateWith_of_classify arithmetic inputs hleft hleftOperand, ← hmore]
        exact evaluateWith_node_pair arithmetic inputs _ _ left _

theorem foldWith_eq_foldlM (operation : Operation) (value : Float) (trees : List Element) :
    foldWith arithmetic inputs operation value trees =
      (trees.map (Element.evaluateWith arithmetic inputs)).foldlM
        (fun total next => do return arithmetic operation total (← next)) value := by
  induction trees generalizing value with
  | nil =>
    rw [foldWith]
    rfl
  | cons tree rest ih =>
    rw [foldWith, List.map_cons, List.foldlM_cons]
    cases tree.evaluateWith arithmetic inputs with
    | error e => rfl
    | ok next => exact ih (arithmetic operation value next)

/-- The sum of some elements has the sum of their values. -/
theorem evaluateWith_sum (children : List Element) :
    (Calculation.of .add children).evaluateWith arithmetic inputs =
      sumValue arithmetic (children.map (Element.evaluateWith arithmetic inputs)) := by
  cases children with
  | nil => rfl
  | cons first rest =>
    rw [List.map_cons, sumValue]
    simp only [← foldWith_eq_foldlM]
    exact evaluateWith.eq_5 arithmetic inputs _ _ first rest

end

section

variable {catalog : List Element} (arithmetic : Arithmetic) (inputs : Inputs)

mutual

theorem map_evaluateWith_fragment (hcatalog : OperandsOnly catalog) : (item : Nesting) →
    (∀ run ∈ item.write (fun text => [text]) (fun _ => []), Unmarked isParenthesis 0 run) →
    (children : List Element) → Fragment.elements catalog item.fragment = .ok children →
    children.map (Element.evaluateWith arithmetic inputs) =
      stretchValues catalog arithmetic inputs item
  | .run text, hruns, children, h => by
    have hrun : Unmarked isParenthesis 0 text := hruns text (by simp)
    rw [Nesting.fragment] at h
    rw [stretchValues]
    cases htokens : tokens text with
    | nil =>
      rw [htokens, Fragment.elements] at h
      cases h
      rfl
    | cons token more =>
      rw [htokens, elements_singleton, Fragment.calculation] at h
      obtain ⟨calculation, hcalculation, hchildren⟩ := bind_eq_ok_iff.1 h
      obtain ⟨elements, helements, hchain⟩ := bind_eq_ok_iff.1 hcalculation
      cases hchildren
      cases hchain
      have hstands := standsFor_tokens hcatalog hrun (htokens ▸ helements)
      rw [htokens] at hstands
      obtain ⟨operands, links, rfl, hfirst, hlinks⟩ := hstands
      rw [chain_eq_rightNested]
      · exact congrArg (fun value => [value])
          (evaluateWith_rightNested arithmetic inputs hlinks hfirst)
      · exact hfirst.isOperand
      · exact isOperand_of_standsForLink hlinks
  | .group contents, hruns, children, h => by
    rw [Nesting.fragment, elements_singleton, Fragment.calculation] at h
    obtain ⟨calculation, hcalculation, hchildren⟩ := bind_eq_ok_iff.1 h
    obtain ⟨others, hothers, hsum⟩ := bind_eq_ok_iff.1 hcalculation
    cases hchildren
    cases hsum
    have hcontents := map_evaluateWith_fragments hcatalog contents
      (by simpa [Nesting.runs] using hruns) others hothers
    rw [stretchValues, ← hcontents, ← evaluateWith_sum]
    rfl

/-- The fragments of a tree have the values of its stretches. -/
theorem map_evaluateWith_fragments (hcatalog : OperandsOnly catalog) : (items : List Nesting) →
    (∀ run ∈ Nesting.runs items, Unmarked isParenthesis 0 run) →
    (children : List Element) → Fragment.elements catalog (Nesting.fragments items) = .ok children →
    children.map (Element.evaluateWith arithmetic inputs) =
      stretchesValues catalog arithmetic inputs items
  | [], _, children, h => by
    rw [Nesting.fragments, Fragment.elements] at h
    cases h
    rw [stretchesValues]
    rfl
  | item :: rest, hruns, children, h => by
    simp only [Nesting.runs, Nesting.writeAll_cons, List.mem_append] at hruns
    rw [Nesting.fragments, elements_append] at h
    obtain ⟨first, hfirst, hmore⟩ := bind_eq_ok_iff.1 h
    obtain ⟨others, hothers, hchildren⟩ := bind_eq_ok_iff.1 hmore
    cases hchildren
    rw [List.map_append, stretchesValues,
      map_evaluateWith_fragment hcatalog item (fun run hrun => hruns run (.inl hrun)) first hfirst,
      map_evaluateWith_fragments hcatalog rest (fun run hrun => hruns run (.inr hrun)) others
        hothers]

end

end

/-- A formula that parses over the catalog of some definitions has the value that is read off its
source, for all inputs and in every arithmetic, and the same first error where it has none. -/
theorem evaluateWith_parse {definitions : NameMap Definition} {catalog : List Element}
    (hcatalog : catalogOf definitions = .ok catalog) {formula : String} {root : Calculation}
    (hparse : parse catalog formula = .ok root) (arithmetic : Arithmetic) (inputs : Inputs) :
    root.evaluateWith arithmetic inputs = formulaValue catalog arithmetic inputs formula := by
  obtain ⟨contents, hcontents, hrest⟩ := bind_eq_ok_iff.1 hparse
  obtain ⟨children, hchildren, hroot⟩ := bind_eq_ok_iff.1 hrest
  cases hroot
  obtain ⟨items, hitems⟩ : ∃ items, nest formula.toList = .ok items := by
    unfold fragments at hcontents
    cases hnest : nest formula.toList with
    | error e =>
      rw [hnest] at hcontents
      cases hcontents
    | ok items => exact ⟨items, rfl⟩
  unfold fragments at hcontents
  rw [hitems] at hcontents
  cases hcontents
  rw [evaluateWith_sum, formulaValue, outline_of_nest hitems,
    map_evaluateWith_fragments arithmetic inputs (operandsOnly_of_catalogOf hcatalog) items
      (unmarked_of_mem_runs hitems) children hchildren]

/-- The law at a formula with a missing operand, a group beside a run and an empty group. -/
theorem evaluateWith_parse_of_missing_operands :
    catalogOf (.ofList [("A", .range [0, 1])]) = .ok [.bounded "A" (some 0) (some 1)] ∧
      ∃ root, parse [.bounded "A" (some 0) (some 1)] "2 * [A] ^ ([A] / ) ()" = .ok root ∧
        root.evaluateWith Operation.apply (.ofList [("A", 1)]) =
          formulaValue [.bounded "A" (some 0) (some 1)] Operation.apply (.ofList [("A", 1)])
            "2 * [A] ^ ([A] / ) ()" := by
  have hcatalog : catalogOf (.ofList [("A", .range [0, 1])]) =
      .ok [.bounded "A" (some 0) (some 1)] := rfl
  have hsome : (parse [.bounded "A" (some 0) (some 1)]
      "2 * [A] ^ ([A] / ) ()").toOption.isSome = true := by decide +kernel
  refine ⟨hcatalog, ?_⟩
  rcases exists_ok_or_error (parse [.bounded "A" (some 0) (some 1)] "2 * [A] ^ ([A] / ) ()") with
    ⟨root, hroot⟩ | ⟨e, he⟩
  · exact ⟨root, hroot, evaluateWith_parse hcatalog hroot Operation.apply _⟩
  · rw [he] at hsome
    cases hsome

end Scorecard.Formula
