import Scorecard.Proofs.Compilation
import Scorecard.Proofs.Grouping
import Scorecard.Proofs.Interpretation
import Scorecard.Proofs.Numerals

/-!
# Formulas in parentheses within others

A formula that parses ends outside square brackets: its tokens do, since no number and no name of an
element has a bracket, and blanks and separators are none. So what is written behind it is read
anew, and a formula in parentheses between two others is a group between their fragments
(`parse_insert`). A group of one group has the value of that group, so that further pairs of
parentheses around it change nothing (`parse_wrapped`). Main statement: `parse_group_between`.
-/

namespace Scorecard

/-! ## Texts without brackets -/

namespace Text

/-- No character of a text is a square bracket. -/
def Bracketless (s : List Char) : Prop :=
  ∀ c ∈ s, c ≠ '[' ∧ c ≠ ']'

theorem bracketless_cons_iff {c : Char} {s : List Char} :
    Bracketless (c :: s) ↔ (c ≠ '[' ∧ c ≠ ']') ∧ Bracketless s :=
  List.forall_mem_cons

theorem Bracketless.depthAfter {s : List Char} (h : Bracketless s) (depth : Nat) :
    depthAfter depth s = depth := by
  induction s generalizing depth with
  | nil => rfl
  | cons c s ih =>
    obtain ⟨⟨hopen, hclose⟩, hs⟩ := bracketless_cons_iff.1 h
    rw [depthAfter_cons, bracketStep_eq_self hopen hclose]
    exact ih hs depth

end Text

namespace Number

open Text

/-! ## Numbers -/

/-- No number is spelled with a bracket. -/
theorem bracketless_of_read? {s : List Char} {x : Float} (h : read? s = some x) :
    Bracketless s := by
  intro c hc
  have hspelled := mem_of_read? h hc
  constructor
  · rintro rfl
    exact absurd hspelled (by decide)
  · rintro rfl
    exact absurd hspelled (by decide)

end Number

namespace Formula

open Text Attempt

/-! ## Formulas that parse -/

variable {catalog : List Element}

/-- A reference can spell each name of a catalog. -/
def Referable (catalog : List Element) : Prop :=
  ∀ element ∈ catalog, isReferable element.name = true

theorem referable_of_catalogOf {definitions : NameMap Definition}
    (h : catalogOf definitions = .ok catalog) : Referable catalog := by
  intro element hmem
  obtain ⟨⟨name, definition⟩, _, helement⟩ := exists_of_mem_mapM h hmem
  rw [(isLookup_and_name_of_element helement).2]
  exact isReferable_of_element helement

theorem bracketless_of_isReferable {name : String} (h : isReferable name = true) :
    Bracketless name.toList := by
  obtain ⟨hopen, hclose⟩ := isReferable_iff.1 h
  exact fun c hc => ⟨fun heq => hopen (heq ▸ hc), fun heq => hclose (heq ▸ hc)⟩

/-- A reference to a name without brackets closes the bracket that it opens. -/
theorem depthAfter_reference {name : String} (h : isReferable name = true) :
    depthAfter 0 ("[" ++ name ++ "]").toList = 0 := by
  have hname := bracketless_of_isReferable h
  have hcons : ("[" ++ name ++ "]").toList = '[' :: (name.toList ++ [']']) := by simp
  rw [hcons, depthAfter_cons, depthAfter_append, hname.depthAfter]
  rfl

/-- A token that passes ends outside brackets. -/
theorem depthAfter_of_passes (hcatalog : Referable catalog) {token : String}
    (h : Passes catalog token) : depthAfter 0 token.toList = 0 := by
  rcases h with rfl | rfl | hoperator | ⟨element, hmem, rfl⟩ | ⟨x, hx, _⟩
  · decide
  · decide
  · simp only [List.mem_cons, List.not_mem_nil, or_false] at hoperator
    rcases hoperator with rfl | rfl | rfl | rfl | rfl <;> decide
  · exact depthAfter_reference (hcatalog element hmem)
  · exact (Number.bracketless_of_read? hx).depthAfter 0

/-- Without its token a piece is blank, so it ends outside brackets if its token does. -/
theorem depthAfter_of_word {piece : List Char} (h : ∀ token ∈ word piece, depthAfter 0 token = 0) :
    depthAfter 0 piece = 0 := by
  have htrim : depthAfter 0 (trim piece) = 0 := by
    by_cases hnil : trim piece = []
    · rw [hnil]
      rfl
    · exact h _ (mem_word_iff.2 ⟨rfl, hnil⟩)
  obtain ⟨front, back, hpiece, hfront, hback⟩ := exists_eq_append_trim piece
  rw [hpiece, depthAfter_append, depthAfter_blanks hfront, depthAfter_append, htrim,
    depthAfter_blanks hback]

/-- A text ends outside brackets if its tokens do. -/
theorem depthAfter_of_tokens {s : List Char} (h : ∀ token ∈ tokens s, depthAfter 0 token = 0) :
    depthAfter 0 s = 0 := by
  have hpieces := pieces_cut bracketFree_isSeparator 0 s
  have hjoin := join_cut isSeparator 0 s
  unfold tokens at h
  generalize cut isSeparator 0 s = k at h hpieces hjoin
  obtain ⟨head, tail⟩ := k
  rw [← hjoin]
  clear hjoin
  induction tail generalizing head with
  | nil =>
    have hhead := depthAfter_of_word fun token htoken => h token (by simpa [wordsOf] using htoken)
    rwa [Cut.join_nil]
  | cons pair rest ih =>
    obtain ⟨c, piece⟩ := pair
    obtain ⟨_, hdepth, hmark, hrest⟩ := hpieces
    have hmore := ih piece (fun token htoken => h token ?_) hrest
    · rw [Cut.join_cons, depthAfter_append, hdepth, depthAfter_cons,
        bracketFree_isSeparator c 0 hmark]
      exact hmore
    · simp only [wordsOf, List.flatMap_cons, List.cons_append, List.mem_append,
        List.mem_cons] at htoken ⊢
      exact .inr (.inr htoken)

/-- A formula that parses ends outside brackets. -/
theorem depthAfter_of_parse (hcatalog : Referable catalog) {formula : String} {root : Calculation}
    (h : parse catalog formula = .ok root) : depthAfter 0 formula.toList = 0 := by
  refine depthAfter_of_tokens fun token htoken => ?_
  have hpasses := (exists_parse_eq_ok_iff.1 ⟨root, h⟩).2 (String.ofList token)
    (List.mem_map_of_mem htoken)
  have hdepth := depthAfter_of_passes hcatalog hpasses
  rwa [String.toList_ofList] at hdepth

/-! ## Trees side by side -/

/-- A regular tree is closed if its text ends outside brackets. -/
theorem Regular.close {closed : Bool} {items : List Nesting} (h : Regular closed items)
    (hdepth : depthAfter 0 (Nesting.sourceAll items) = 0) : Regular true items := by
  induction h with
  | run htext _ =>
    rw [sourceAll_run] at hdepth
    exact .run htext fun _ => hdepth
  | group htext hend hcontents _ _ ihrest =>
    refine .group htext hend hcontents (ihrest ?_)
    rw [sourceAll_group, depthAfter_append, hend, depthAfter_cons, depthAfter_append] at hdepth
    rw [show bracketStep 0 '(' = 0 from rfl, depthAfter_sourceAll hcontents,
      depthAfter_cons] at hdepth
    exact hdepth

/-- A closed tree can stand before a group, and a regular one behind it. -/
theorem Regular.insert {closed : Bool} {before inner after : List Nesting}
    (hbefore : Regular true before) (hinner : Regular true inner) (hafter : Regular closed after) :
    Regular closed (before ++ .group inner :: after) := by
  generalize htrue : true = closedBefore at hbefore
  induction hbefore with
  | run htext hdepth => exact .group htext (hdepth htrue.symm) hinner hafter
  | group htext hdepth hcontents _ _ ihrest =>
    exact .group htext hdepth hcontents (ihrest htrue)

theorem fragments_append (items more : List Nesting) :
    Nesting.fragments (items ++ more) = Nesting.fragments items ++ Nesting.fragments more := by
  induction items with
  | nil => simp [Nesting.fragments]
  | cons item items ih => rw [List.cons_append, Nesting.fragments, Nesting.fragments, ih,
      List.append_assoc]

/-- Formulas that end outside brackets nest with a third one in parentheses between them. -/
theorem nest_insert {before inner after : List Char} {items contents more : List Nesting}
    (hbefore : nest before = .ok items) (hinner : nest inner = .ok contents)
    (hafter : nest after = .ok more) (hbeforeDepth : depthAfter 0 before = 0)
    (hinnerDepth : depthAfter 0 inner = 0) :
    nest (before ++ '(' :: (inner ++ ')' :: after)) = .ok (items ++ .group contents :: more) := by
  have hitems := (regular_of_nest hbefore).close (by rwa [sourceAll_of_nest hbefore])
  have hcontents := (regular_of_nest hinner).close (by rwa [sourceAll_of_nest hinner])
  have hregular := hitems.insert hcontents (regular_of_nest hafter)
  have hsource : Nesting.sourceAll (items ++ .group contents :: more) =
      before ++ '(' :: (inner ++ ')' :: after) := by
    rw [← sourceAll_of_nest hbefore, ← sourceAll_of_nest hinner, ← sourceAll_of_nest hafter]
    simp [Nesting.sourceAll_eq]
  rw [← hsource]
  exact nest_sourceAll hregular

/-- The tree of a formula is the sum of the elements of its stretches. -/
theorem parse_eq_ok_iff {formula : String} {root : Calculation} :
    parse catalog formula = .ok root ↔ ∃ items children, nest formula.toList = .ok items ∧
      Fragment.elements catalog (Nesting.fragments items) = .ok children ∧
      root = .of .add children := by
  constructor
  · intro h
    obtain ⟨entries, hentries, hmore⟩ := bind_eq_ok_iff.1 h
    obtain ⟨children, hchildren, hroot⟩ := bind_eq_ok_iff.1 hmore
    obtain ⟨items, hitems, rfl⟩ := exists_nest_of_fragments hentries
    cases hroot
    exact ⟨items, children, hitems, hchildren, rfl⟩
  · intro ⟨items, children, hitems, hchildren, hroot⟩
    simp [parse, fragments, hitems, Except.map, hchildren, hroot]

/-- A formula in parentheses between two others adds its tree to their fragments. -/
theorem parse_insert (hcatalog : Referable catalog) {before inner after : String}
    {first middle last : Calculation} (hbefore : parse catalog before = .ok first)
    (hinner : parse catalog inner = .ok middle) (hafter : parse catalog after = .ok last) :
    parse catalog (before ++ "(" ++ inner ++ ")" ++ after) =
      .ok (.of .add (first.children ++ middle.toElement :: last.children)) := by
  have hbeforeDepth := depthAfter_of_parse hcatalog hbefore
  have hinnerDepth := depthAfter_of_parse hcatalog hinner
  obtain ⟨items, children, hitems, hchildren, rfl⟩ := parse_eq_ok_iff.1 hbefore
  obtain ⟨contents, others, hcontents, hothers, rfl⟩ := parse_eq_ok_iff.1 hinner
  obtain ⟨rest, more, hrest, hmore, rfl⟩ := parse_eq_ok_iff.1 hafter
  refine parse_eq_ok_iff.2 ⟨items ++ .group contents :: rest, _, ?_, ?_, rfl⟩
  · have htext : (before ++ "(" ++ inner ++ ")" ++ after).toList =
        before.toList ++ '(' :: (inner.toList ++ ')' :: after.toList) := by simp
    rw [htext]
    exact nest_insert hitems hcontents hrest hbeforeDepth hinnerDepth
  · have hgroup : Fragment.elements catalog (Nesting.group contents).fragment =
        .ok [(Calculation.of .add others).toElement] := by
      rw [Nesting.fragment, elements_singleton, Fragment.calculation, hothers]
      rfl
    rw [fragments_append, Nesting.fragments, elements_append, elements_append, hchildren, hgroup,
      hmore]
    rfl

/-! ## Redundant parentheses -/

/-- A formula in a number of pairs of parentheses. -/
def wrapped : (pairs : Nat) → String → String
  | 0, formula => formula
  | pairs + 1, formula => "(" ++ wrapped pairs formula ++ ")"

/-- Pairs of parentheses around a formula do not change what it evaluates to. -/
theorem parse_wrapped (hcatalog : Referable catalog) {formula : String} {root : Calculation}
    (h : parse catalog formula = .ok root) (pairs : Nat) :
    ∃ tree, parse catalog (wrapped pairs formula) = .ok tree ∧
      ∀ arithmetic inputs,
        tree.evaluateWith arithmetic inputs = root.evaluateWith arithmetic inputs := by
  induction pairs with
  | zero => exact ⟨root, h, fun _ _ => rfl⟩
  | succ pairs ih =>
    obtain ⟨tree, htree, hvalue⟩ := ih
    have hempty : parse catalog "" = .ok (.of .add []) := rfl
    have houter := parse_insert hcatalog hempty htree hempty
    have htext : "" ++ "(" ++ wrapped pairs formula ++ ")" ++ "" = wrapped (pairs + 1) formula := by
      rw [String.append_empty, String.empty_append, wrapped]
    rw [htext] at houter
    refine ⟨_, houter, fun arithmetic inputs => ?_⟩
    rw [← hvalue arithmetic inputs]
    exact evaluateWith_node_singleton arithmetic inputs _ _ tree.toElement

/-- Over the catalog of some definitions, a formula in parentheses between two others parses: its
whole tree is one child between the children of the others. In any number of pairs of parentheses it
parses as well, to a tree of the same value or the same error for all inputs and in every
arithmetic. The same holds of the three formulas if there is more than one pair between them. -/
theorem parse_group_between {definitions : NameMap Definition}
    (hcatalog : catalogOf definitions = .ok catalog) {before inner after : String}
    {first middle last : Calculation} (hbefore : parse catalog before = .ok first)
    (hinner : parse catalog inner = .ok middle) (hafter : parse catalog after = .ok last) :
    ∃ root, parse catalog (before ++ "(" ++ inner ++ ")" ++ after) = .ok root ∧
      root = .of .add (first.children ++ middle.toElement :: last.children) ∧
      (∀ pairs, ∃ tree, parse catalog (wrapped pairs inner) = .ok tree ∧
        ∀ arithmetic inputs,
          tree.evaluateWith arithmetic inputs = middle.evaluateWith arithmetic inputs) ∧
      ∀ pairs, ∃ tree, parse catalog (before ++ wrapped (pairs + 1) inner ++ after) = .ok tree ∧
        ∀ arithmetic inputs,
          tree.evaluateWith arithmetic inputs = root.evaluateWith arithmetic inputs := by
  have hreferable := referable_of_catalogOf hcatalog
  refine ⟨_, parse_insert hreferable hbefore hinner hafter, rfl, parse_wrapped hreferable hinner,
    fun pairs => ?_⟩
  obtain ⟨tree, htree, hvalue⟩ := parse_wrapped hreferable hinner pairs
  refine ⟨.of .add (first.children ++ tree.toElement :: last.children), ?_,
    fun arithmetic inputs => ?_⟩
  · have htext : before ++ wrapped (pairs + 1) inner ++ after =
        before ++ "(" ++ wrapped pairs inner ++ ")" ++ after := by
      rw [wrapped, ← String.append_assoc, ← String.append_assoc]
    rw [htext]
    exact parse_insert hreferable hbefore htree hafter
  · have hchild : tree.toElement.evaluateWith arithmetic inputs =
        middle.toElement.evaluateWith arithmetic inputs := hvalue arithmetic inputs
    rw [evaluateWith_sum, evaluateWith_sum, List.map_append, List.map_append, List.map_cons,
      List.map_cons, hchild]

/-- A formula with an operator that lacks an operand, between two formulas of two fragments. -/
theorem parse_group_between_of_lacking :
    catalogOf (.ofList [("A", .range [0, 1])]) = .ok [.bounded "A" (some 0) (some 1)] ∧
      ∃ first middle last root,
        parse [.bounded "A" (some 0) (some 1)] "[A] * (2)" = .ok first ∧
        parse [.bounded "A" (some 0) (some 1)] "3 ^ [A] /" = .ok middle ∧
        parse [.bounded "A" (some 0) (some 1)] " - (+) " = .ok last ∧
        parse [.bounded "A" (some 0) (some 1)] "[A] * (2)(3 ^ [A] /) - (+) " = .ok root ∧
        root.children = first.children ++ middle.toElement :: last.children := by
  have hcatalog : catalogOf (.ofList [("A", .range [0, 1])]) =
      .ok [.bounded "A" (some 0) (some 1)] := rfl
  have hparses (formula : String)
      (h : (parse [.bounded "A" (some 0) (some 1)] formula).toOption.isSome = true) :
      ∃ root, parse [.bounded "A" (some 0) (some 1)] formula = .ok root := by
    obtain ⟨root, hroot⟩ := Option.isSome_iff_exists.1 h
    exact ⟨root, eq_ok_of_toOption hroot⟩
  obtain ⟨first, hfirst⟩ := hparses "[A] * (2)" (by decide +kernel)
  obtain ⟨middle, hmiddle⟩ := hparses "3 ^ [A] /" (by decide +kernel)
  obtain ⟨last, hlast⟩ := hparses " - (+) " (by decide +kernel)
  obtain ⟨root, hroot, hchildren, _⟩ := parse_group_between hcatalog hfirst hmiddle hlast
  exact ⟨hcatalog, first, middle, last, root, hfirst, hmiddle, hlast, hroot,
    congrArg Calculation.children hchildren⟩

end Formula

end Scorecard
