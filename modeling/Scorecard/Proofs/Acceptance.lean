import Scorecard.Formula.Parse
import Scorecard.Proofs.Attempt
import Scorecard.Proofs.Chains
import Scorecard.Proofs.Parentheses

/-!
# Which formulas parse

A formula parses exactly if its parentheses are balanced and each of its tokens passes: a token that
is no parenthesis has to be an operator, a reference to an element of the catalog or a finite
number. The parentheses are looked at first; then the first token that does not pass gives the
error. Main statement: `parse_outcome`.

The tokens are looked at run by run, in the tree of the formula. The runs from left to right have
the tokens of the formula without its parentheses (`runTokens_of_nest`), so that the fragments of
the formula fail where its tokens do (`sameFate_elements`).
-/

namespace Scorecard.Formula

open Attempt Text Element

/-! ## One token -/

theorem reference?_eq_some_iff {token name : List Char} :
    reference? token = some name ↔ token = '[' :: (name ++ [']']) := by
  constructor
  · intro h
    unfold reference? at h
    split at h
    · rename_i rest
      split at h
      · rename_i hlast
        cases h
        rw [List.dropLast_append_getLast? _ hlast]
      · cases h
    · cases h
  · intro heq
    subst heq
    simp [reference?]

/-- A token that stands for something: an operator, an element of the catalog by its name in square
brackets, or a finite number. -/
def Meaningful (catalog : List Element) (token : String) : Prop :=
  token ∈ ["+", "-", "*", "/", "^"] ∨
    (∃ element ∈ catalog, token = "[" ++ element.name ++ "]") ∨
    ∃ x, Number.read? token.toList = some x ∧ x.isFinite = true

/-- A token that does not keep a formula from parsing. -/
def Passes (catalog : List Element) (token : String) : Prop :=
  token = "(" ∨ token = ")" ∨ Meaningful catalog token

theorem mem_symbols_iff {token : String} :
    token ∈ ["+", "-", "*", "/", "^"] ↔
      ∃ operation, Operation.ofSymbol? token = some operation := by
  simp only [Operation.ofSymbol?_eq_some_iff]
  constructor
  · intro h
    simp only [List.mem_cons, List.not_mem_nil, or_false] at h
    rcases h with rfl | rfl | rfl | rfl | rfl
    · exact ⟨.add, rfl⟩
    · exact ⟨.subtract, rfl⟩
    · exact ⟨.multiply, rfl⟩
    · exact ⟨.divide, rfl⟩
    · exact ⟨.power, rfl⟩
  · intro heq
    obtain ⟨operation, rfl⟩ := heq
    cases operation <;> simp [Operation.symbol]

theorem readFinite?_eq_some_iff {s : List Char} {x : Float} :
    Number.readFinite? s = some x ↔ Number.read? s = some x ∧ x.isFinite = true := by
  simp [Number.readFinite?, Option.filter_eq_some_iff]

/-- No number starts with a square bracket. -/
theorem read?_bracket (s : List Char) : Number.read? ('[' :: s) = none := by
  have hdigit : ('[').isDigit = false := by decide
  have hdecimal : Number.decimal? ('[' :: s) = none := by
    simp [Number.decimal?, hdigit]
  have hword (w : String) (hw : w.toList.head? ≠ some '[') :
      ('[' :: s).map Char.toLower ≠ w.toList := by
    intro h
    rw [← h] at hw
    exact hw rfl
  have hmagnitude : Number.magnitude? ('[' :: s) = none := by
    unfold Number.magnitude?
    rw [if_neg, if_neg, hdecimal]
    · rfl
    · exact hword "nan" (by decide)
    · intro hcases
      rcases hcases with h | h
      · exact hword "inf" (by decide) h
      · exact hword "infinity" (by decide) h
  have hsign : Number.splitSign ('[' :: s) = (false, '[' :: s) := rfl
  simp only [Number.read?, hsign, hmagnitude, Option.map_none]

/-- The error of a token that does not pass: an unknown element for a reference, an invalid token
for any other. -/
def IsFault (token : String) (e : ParseError) : Prop :=
  (∀ name, token = "[" ++ name ++ "]" → e = .unknownElement name) ∧
    ((∀ name, token ≠ "[" ++ name ++ "]") → e = .invalidToken token)

theorem ofList_bracketed (name : List Char) :
    String.ofList ('[' :: (name ++ [']'])) = "[" ++ String.ofList name ++ "]" := by
  apply String.toList_inj.1
  simp

theorem classify_reference (catalog : List Element) (name : List Char) :
    classify catalog ('[' :: (name ++ [']'])) =
      match find? catalog (String.ofList name) with
      | some element => .ok element
      | none => .error (.unknownElement (String.ofList name)) := by
  have hreference : reference? ('[' :: (name ++ [']'])) = some name :=
    reference?_eq_some_iff.2 rfl
  cases hfind : find? catalog (String.ofList name) with
  | none => simp only [classify, hreference, hfind]
  | some element => simp only [classify, hreference, hfind]

theorem find?_eq_none_iff {catalog : List Element} {name : String} :
    find? catalog name = none ↔ ∀ element ∈ catalog, element.name ≠ name := by
  simp [find?, List.find?_eq_none]

/-- A reference names an element, so it is no operator and no number. -/
theorem not_meaningful_of_find?_eq_none {catalog : List Element} {name : String}
    (h : find? catalog name = none) : ¬Meaningful catalog ("[" ++ name ++ "]") := by
  rw [find?_eq_none_iff] at h
  have hcons : ("[" ++ name ++ "]").toList = '[' :: (name.toList ++ [']']) := by simp
  intro hcases
  rcases hcases with hsymbol | ⟨element, hmem, hname⟩ | ⟨x, hx, _⟩
  · simp only [List.mem_cons, List.not_mem_nil, or_false] at hsymbol
    rcases hsymbol with hs | hs | hs | hs | hs <;>
      · rw [hs] at hcons
        cases hcons
  · have hlist := congrArg String.toList hname
    simp only [String.toList_append, List.append_cancel_right_eq, List.append_cancel_left_eq,
      String.toList_inj] at hlist
    exact h element hmem hlist.symm
  · rw [hcons, read?_bracket] at hx
    cases hx

/-- A token stands for something exactly if it is meaningful, and otherwise it has its fault. -/
theorem classify_outcome (catalog : List Element) (token : List Char) :
    (Meaningful catalog (String.ofList token) ∧ ∃ element, classify catalog token = .ok element) ∨
      (¬Meaningful catalog (String.ofList token) ∧
        ∃ e, classify catalog token = .error e ∧ IsFault (String.ofList token) e) := by
  cases href : reference? token with
  | some name =>
    rw [reference?_eq_some_iff] at href
    subst href
    rw [classify_reference, ofList_bracketed]
    cases hfind : find? catalog (String.ofList name) with
    | some element =>
      refine .inl ⟨.inr (.inl ⟨element, List.mem_of_find?_eq_some hfind, ?_⟩), element, rfl⟩
      have hname := List.find?_some hfind
      rw [eq_of_beq hname]
    | none =>
      refine .inr ⟨not_meaningful_of_find?_eq_none hfind, _, rfl, ?_, ?_⟩
      · intro other hother
        have hlist := congrArg String.toList hother
        simp only [String.toList_append, List.append_cancel_right_eq, List.append_cancel_left_eq,
          String.toList_inj] at hlist
        rw [hlist]
      · intro hne
        exact absurd rfl (hne (String.ofList name))
  | none =>
    have hne : ∀ name, String.ofList token ≠ "[" ++ name ++ "]" := by
      intro name h
      have hlist := congrArg String.toList h
      simp only [String.toList_ofList, String.toList_append] at hlist
      rw [show token = '[' :: (name.toList ++ [']']) by simpa using hlist,
        reference?_eq_some_iff.2 rfl] at href
      cases href
    unfold classify
    rw [href]
    cases hsymbol : Operation.ofSymbol? (String.ofList token) with
    | some operation => exact .inl ⟨.inl (mem_symbols_iff.2 ⟨operation, hsymbol⟩), _, rfl⟩
    | none =>
      cases hnumber : Number.readFinite? token with
      | some x =>
        refine .inl ⟨.inr (.inr ⟨x, ?_⟩), _, rfl⟩
        rw [String.toList_ofList]
        exact readFinite?_eq_some_iff.1 hnumber
      | none =>
        refine .inr ⟨?_, _, rfl, fun name h => absurd h (hne name), fun _ => rfl⟩
        intro hcases
        rcases hcases with h | ⟨element, _, h⟩ | ⟨x, hx⟩
        · obtain ⟨operation, h⟩ := mem_symbols_iff.1 h
          rw [hsymbol] at h
          cases h
        · exact hne _ h
        · rw [String.toList_ofList] at hx
          rw [readFinite?_eq_some_iff.2 hx] at hnumber
          cases hnumber

theorem exists_classify_eq_ok_iff {catalog : List Element} {token : List Char} :
    (∃ element, classify catalog token = .ok element) ↔
      Meaningful catalog (String.ofList token) := by
  rcases classify_outcome catalog token with ⟨h, hok⟩ | ⟨h, e, he, _⟩
  · simp [h, hok]
  · simp [h, he]

/-! ## The tokens of the runs -/

namespace Nesting

/-- The tokens of the runs of several stretches, from left to right. -/
def runTokens (items : List Nesting) : List (List Char) :=
  writeAll tokens (fun _ => []) items

/-- The runs of several stretches, from left to right. -/
def runs (items : List Nesting) : List (List Char) :=
  writeAll (fun text => [text]) (fun _ => []) items

end Nesting

/-- A token that is no parenthesis. -/
def isProper (token : List Char) : Bool :=
  token != ['('] && token != [')']

theorem filter_isProper_tokens {run : List Char} (h : Unmarked isParenthesis 0 run) :
    (tokens run).filter isProper = tokens run := by
  rw [List.filter_eq_self]
  intro token htoken
  have hopen := ne_of_mem_tokens h htoken (c := '(') rfl
  have hclose := ne_of_mem_tokens h htoken (c := ')') rfl
  simp [isProper, hopen, hclose]

mutual

theorem filter_isProper_write : (item : Nesting) →
    (∀ run ∈ item.write (fun text => [text]) (fun _ => []), Unmarked isParenthesis 0 run) →
    (item.write tokens (fun c => [[c]])).filter isProper = item.write tokens fun _ => []
  | .run text, h => by
    simp only [Nesting.write_run]
    exact filter_isProper_tokens (h text (by simp))
  | .group contents, h => by
    have hcontents := filter_isProper_writeAll contents (by simpa [Nesting.runs] using h)
    rw [Nesting.runTokens] at hcontents
    simp [hcontents, isProper]

theorem filter_isProper_writeAll : (items : List Nesting) →
    (∀ run ∈ Nesting.runs items, Unmarked isParenthesis 0 run) →
    (Nesting.writeAll tokens (fun c => [[c]]) items).filter isProper = Nesting.runTokens items
  | [], _ => by simp [Nesting.runTokens]
  | item :: rest, h => by
    simp only [Nesting.runs, Nesting.writeAll_cons, List.mem_append] at h
    have hitem := filter_isProper_write item fun run hrun => h run (.inl hrun)
    have hrest := filter_isProper_writeAll rest fun run hrun => h run (.inr hrun)
    rw [Nesting.writeAll_cons, List.filter_append, hitem, hrest]
    simp [Nesting.runTokens]

end

/-- The runs of a formula have its tokens without the parentheses. -/
theorem runTokens_of_nest {formula : List Char} {items : List Nesting}
    (h : nest formula = .ok items) :
    Nesting.runTokens items = (tokens formula).filter isProper := by
  rw [← writeAll_tokens_of_nest h]
  exact (filter_isProper_writeAll items (unmarked_of_mem_runs h)).symm

/-! ## Fragments and tokens -/

/-- The children of a calculation look up what the elements of its tokens do, in the same order. -/
def SameLookups (children elements : List Element) : Prop :=
  lookupsAll children = lookupsAll elements

theorem elements_append (catalog : List Element) (first more : List Fragment) :
    Fragment.elements catalog (first ++ more) = do
      let children ← Fragment.elements catalog first
      let others ← Fragment.elements catalog more
      return children ++ others := by
  induction first with
  | nil =>
    rw [List.nil_append, Fragment.elements]
    cases Fragment.elements catalog more <;> rfl
  | cons fragment first ih =>
    rw [List.cons_append, Fragment.elements, Fragment.elements, ih]
    cases fragment.calculation catalog with
    | error e => rfl
    | ok calculation =>
      cases Fragment.elements catalog first with
      | error e => rfl
      | ok children => cases Fragment.elements catalog more <;> rfl

theorem elements_singleton (catalog : List Element) (fragment : Fragment) :
    Fragment.elements catalog [fragment] = do
      let calculation ← fragment.calculation catalog
      return [calculation.toElement] := by
  rw [Fragment.elements, Fragment.elements]
  cases fragment.calculation catalog <;> rfl

mutual

theorem sameFate_elements_fragment (catalog : List Element) : (item : Nesting) →
    SameFate SameLookups (Fragment.elements catalog item.fragment)
      (classifyAll catalog (item.write tokens fun _ => []))
  | .run text => by
    rw [Nesting.fragment, Nesting.write_run]
    cases tokens text with
    | nil =>
      rw [Fragment.elements]
      rfl
    | cons token rest =>
      simp only
      rw [elements_singleton, Fragment.calculation]
      cases classifyAll catalog (token :: rest) with
      | error e => rfl
      | ok elements =>
        have h : (chain elements).toElement.lookups = lookupsAll elements := lookups_chain elements
        simp [SameFate, SameLookups, h]
  | .group contents => by
    have hcontents := sameFate_elements catalog contents
    rw [Nesting.fragment, Nesting.write_group, elements_singleton, Fragment.calculation]
    simp only [List.nil_append, List.append_nil]
    rw [Nesting.runTokens] at hcontents
    cases hclassify : classifyAll catalog (Nesting.writeAll tokens (fun _ => []) contents) with
    | error e =>
      rw [hcontents.error hclassify]
      rfl
    | ok elements =>
      obtain ⟨children, hchildren, hlookups⟩ := hcontents.ok hclassify
      rw [hchildren]
      simpa [SameFate, SameLookups, Calculation.of, Calculation.toElement] using hlookups

/-- The fragments of a formula fail where the tokens of its runs do. -/
theorem sameFate_elements (catalog : List Element) : (items : List Nesting) →
    SameFate SameLookups (Fragment.elements catalog (Nesting.fragments items))
      (classifyAll catalog (Nesting.runTokens items))
  | [] => by
    rw [Nesting.fragments, Fragment.elements]
    rfl
  | item :: rest => by
    have hitem := sameFate_elements_fragment catalog item
    have hrest := sameFate_elements catalog rest
    rw [Nesting.fragments, elements_append, Nesting.runTokens, Nesting.writeAll_cons, classifyAll,
      List.mapM_append]
    refine hitem.bind fun children elements hlookups => ?_
    refine hrest.bind fun others more hmore => ?_
    simp only [SameLookups] at hlookups hmore
    simp [SameFate, SameLookups, hlookups, hmore]

end

/-! ## The outcome of parsing -/

/-- A formula that nests fails where its tokens do, parentheses apart. -/
theorem sameFate_parse (catalog : List Element) {formula : String} {items : List Nesting}
    (h : nest formula.toList = .ok items) :
    SameFate (fun root elements => root.lookups = lookupsAll elements) (parse catalog formula)
      (classifyAll catalog ((tokens formula.toList).filter isProper)) := by
  have helements := sameFate_elements catalog items
  rw [runTokens_of_nest h] at helements
  have hparse : parse catalog formula = do
      let children ← Fragment.elements catalog (Nesting.fragments items)
      return .of .add children := by
    simp [parse, fragments, h, Except.map]
  rw [hparse]
  cases hclassify : classifyAll catalog ((tokens formula.toList).filter isProper) with
  | error e =>
    rw [helements.error hclassify]
    rfl
  | ok elements =>
    obtain ⟨children, hchildren, hlookups⟩ := helements.ok hclassify
    rw [hchildren]
    exact hlookups

/-- Without balance no token is looked at. -/
theorem parse_of_not_balanced (catalog : List Element) {formula : String}
    (h : ¬Balanced (outerParentheses formula.toList)) :
    ∃ position, parse catalog formula = .error (.unbalancedParentheses position) := by
  obtain ⟨position, hposition⟩ := nest_of_not_balanced h
  exact ⟨position, by simp [parse, fragments, hposition, Except.map]⟩

/-- Either the parentheses of a formula are at fault, or it fails where its tokens do. -/
theorem parse_cases (catalog : List Element) (formula : String) :
    (¬Balanced (outerParentheses formula.toList) ∧
      ∃ position, parse catalog formula = .error (.unbalancedParentheses position)) ∨
    (Balanced (outerParentheses formula.toList) ∧
      SameFate (fun root elements => root.lookups = lookupsAll elements) (parse catalog formula)
        (classifyAll catalog ((tokens formula.toList).filter isProper))) := by
  by_cases h : Balanced (outerParentheses formula.toList)
  · obtain ⟨items, hitems⟩ := exists_nest_eq_ok_iff.2 h
    exact .inr ⟨h, sameFate_parse catalog hitems⟩
  · exact .inl ⟨h, parse_of_not_balanced catalog h⟩

theorem ofList_eq_parenthesis_iff {token : List Char} :
    String.ofList token = "(" ∨ String.ofList token = ")" ↔ isProper token = false := by
  have hopen : String.ofList token = "(" ↔ token = ['('] := by
    rw [← String.toList_inj, String.toList_ofList]
    rfl
  have hclose : String.ofList token = ")" ↔ token = [')'] := by
    rw [← String.toList_inj, String.toList_ofList]
    rfl
  rw [hopen, hclose]
  by_cases h : token = ['('] <;> by_cases h' : token = [')'] <;> simp [isProper, h, h']

theorem passes_ofList_iff {catalog : List Element} {token : List Char} :
    Passes catalog (String.ofList token) ↔
      isProper token = false ∨ Meaningful catalog (String.ofList token) := by
  rw [Passes, ← or_assoc, ofList_eq_parenthesis_iff]

/-- The tokens that are no parentheses stand for something if all tokens pass. -/
theorem exists_classifyAll_eq_ok_iff {catalog : List Element} {formula : String} :
    (∃ elements, classifyAll catalog ((tokens formula.toList).filter isProper) = .ok elements) ↔
      ∀ token ∈ tokenize formula, Passes catalog token := by
  rw [classifyAll, exists_mapM_eq_ok_iff]
  simp only [exists_classify_eq_ok_iff, List.mem_filter, tokenize, List.forall_mem_map,
    passes_ofList_iff]
  refine forall_congr' fun token => ?_
  cases isProper token <;> simp

/-- The first token that does not pass gives the error of all of them. -/
theorem classifyAll_of_first_fault {catalog : List Element} {formula : String}
    {before after : List String} {token : String}
    (htokens : tokenize formula = before ++ token :: after)
    (hbefore : ∀ other ∈ before, Passes catalog other) (htoken : ¬Passes catalog token) :
    ∃ e, IsFault token e ∧
      classifyAll catalog ((tokens formula.toList).filter isProper) = .error e := by
  rw [tokenize, List.map_eq_append_iff] at htokens
  obtain ⟨front, back, hsplit, rfl, hback⟩ := htokens
  obtain ⟨first, rest, rfl, rfl, rfl⟩ := List.map_eq_cons_iff.1 hback
  rw [passes_ofList_iff, not_or, Bool.not_eq_false] at htoken
  obtain ⟨hproper, hmeaning⟩ := htoken
  rcases classify_outcome catalog first with ⟨h, _⟩ | ⟨_, e, he, hfault⟩
  · exact absurd h hmeaning
  · refine ⟨e, hfault, mapM_eq_error_iff.2
      ⟨front.filter isProper, first, ⟨rest.filter isProper, ?_⟩, ?_, he⟩⟩
    · rw [hsplit, List.filter_append, List.filter_cons_of_pos hproper]
    · intro other hother
      obtain ⟨hmem, hother⟩ := List.mem_filter.1 hother
      have hpasses := hbefore _ (List.mem_map_of_mem hmem)
      rw [passes_ofList_iff, hother] at hpasses
      exact exists_classify_eq_ok_iff.2 (by simpa using hpasses)

/-- Either all members have a property, or there is a first one without it. -/
theorem forall_or_exists_first {α : Type} (p : α → Prop) (xs : List α) :
    (∀ x ∈ xs, p x) ∨ ∃ before x after, xs = before ++ x :: after ∧
      (∀ y ∈ before, p y) ∧ ¬p x := by
  induction xs with
  | nil => exact .inl (by simp)
  | cons x xs ih =>
    by_cases hx : p x
    · rcases ih with hall | ⟨before, first, after, rfl, hbefore, hfirst⟩
      · exact .inl (List.forall_mem_cons.2 ⟨hx, hall⟩)
      · exact .inr ⟨x :: before, first, after, rfl, List.forall_mem_cons.2 ⟨hx, hbefore⟩, hfirst⟩
    · exact .inr ⟨[], x, xs, rfl, by simp, hx⟩

/-- A formula parses, or its parentheses are at fault, or else its first token that does not
pass. -/
theorem parse_first_fault (catalog : List Element) (formula : String) :
    (Balanced (outerParentheses formula.toList) ∧
      (∀ token ∈ tokenize formula, Passes catalog token) ∧
      ∃ root, parse catalog formula = .ok root) ∨
    (¬Balanced (outerParentheses formula.toList) ∧
      ∃ position, parse catalog formula = .error (.unbalancedParentheses position)) ∨
    (Balanced (outerParentheses formula.toList) ∧
      ∃ before token after, tokenize formula = before ++ token :: after ∧
        (∀ other ∈ before, Passes catalog other) ∧ ¬Passes catalog token ∧
        ∃ e, IsFault token e ∧ parse catalog formula = .error e) := by
  rcases parse_cases catalog formula with hposition | ⟨hbalanced, hfate⟩
  · exact .inr (.inl hposition)
  rcases forall_or_exists_first (Passes catalog) (tokenize formula) with hall | hfirst
  · obtain ⟨elements, helements⟩ := exists_classifyAll_eq_ok_iff.2 hall
    obtain ⟨root, hroot, _⟩ := hfate.ok helements
    exact .inl ⟨hbalanced, hall, root, hroot⟩
  · obtain ⟨before, token, after, htokens, hbefore, htoken⟩ := hfirst
    obtain ⟨e, hfault, he⟩ := classifyAll_of_first_fault htokens hbefore htoken
    exact .inr (.inr ⟨hbalanced, before, token, after, htokens, hbefore, htoken, e, hfault,
      hfate.error he⟩)

theorem exists_parse_eq_ok_iff {catalog : List Element} {formula : String} :
    (∃ root, parse catalog formula = .ok root) ↔
      Balanced (outerParentheses formula.toList) ∧
        ∀ token ∈ tokenize formula, Passes catalog token := by
  rcases parse_first_fault catalog formula with ⟨hbalanced, hall, hroot⟩ | hrest
  · exact iff_of_true hroot ⟨hbalanced, hall⟩
  rcases hrest with ⟨hnot, position, he⟩ | ⟨_, before, token, after, htokens, _, htoken, e, _, he⟩
  · simp [hnot, he]
  · simp only [he, reduceCtorEq, exists_false, false_iff, not_and]
    intro _ hall
    exact htoken (hall token (by simp [htokens]))

/-- A formula parses exactly if its parentheses outside square brackets are balanced and every token
but the parentheses is an operator, a reference to an element of the catalog or a finite number.
Without balance the error is that of a parenthesis, whatever the tokens are; otherwise it is that of
the first token that does not pass. -/
theorem parse_outcome (catalog : List Element) (formula : String) :
    ((∃ root, parse catalog formula = .ok root) ↔
      Balanced (outerParentheses formula.toList) ∧
        ∀ token ∈ tokenize formula, Passes catalog token) ∧
    (¬Balanced (outerParentheses formula.toList) →
      ∃ position, parse catalog formula = .error (.unbalancedParentheses position)) ∧
    (Balanced (outerParentheses formula.toList) →
      ∀ before token after, tokenize formula = before ++ token :: after →
        (∀ other ∈ before, Passes catalog other) → ¬Passes catalog token →
        (∀ name, token = "[" ++ name ++ "]" →
          parse catalog formula = .error (.unknownElement name)) ∧
        ((∀ name, token ≠ "[" ++ name ++ "]") →
          parse catalog formula = .error (.invalidToken token))) := by
  rcases parse_cases catalog formula with ⟨hnot, position, herror⟩ | ⟨hbalanced, hfate⟩
  · refine ⟨?_, fun _ => ⟨position, herror⟩, fun h => absurd h hnot⟩
    simp [herror, hnot]
  refine ⟨?_, fun h => absurd hbalanced h, ?_⟩
  · rw [← exists_classifyAll_eq_ok_iff]
    constructor
    · intro ⟨root, hroot⟩
      obtain ⟨elements, helements, _⟩ := hfate.ok_left hroot
      exact ⟨hbalanced, elements, helements⟩
    · intro ⟨_, elements, helements⟩
      obtain ⟨root, hroot, _⟩ := hfate.ok helements
      exact ⟨root, hroot⟩
  · intro _ before token after htokens hbefore htoken
    obtain ⟨e, ⟨hreference, hother⟩, he⟩ := classifyAll_of_first_fault htokens hbefore htoken
    have hparse := hfate.error he
    refine ⟨fun name hname => ?_, fun hne => ?_⟩
    · rw [hparse, hreference name hname]
    · rw [hparse, hother hne]

end Scorecard.Formula
