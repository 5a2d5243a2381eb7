import Scorecard.Proofs.Compilation
import Scorecard.Proofs.Displays
import Scorecard.Proofs.TabLines
import Scorecard.Report.Tree

/-!
# Listings tell trees apart

A listing is read back from the front. The indentation of a line says whether it belongs to the node
above it. Behind it the first character tells a lookup from a constant or a symbol: a lookup starts
with a bracket, and as no name has brackets, the name ends at the next one, even if it has line
breaks; in a catalog the name determines the lookup and so the rest of its line. A constant or a
symbol has the whole line, and the display of a constant determines its value. So the listing of a
tree determines everything but how its constants are spelled: `tree_eq_iff`.
-/

namespace Scorecard

namespace Element

mutual

/-- A tree without the spelling of its constants. -/
def unspelled : Element → Element
  | constant _ value => constant "" value
  | banded name bands fallback => banded name bands fallback
  | bounded name lower upper => bounded name lower upper
  | node name operation children => node name operation (unspelledAll children)

/-- Several trees without the spelling of their constants. -/
def unspelledAll : List Element → List Element
  | [] => []
  | element :: rest => element.unspelled :: unspelledAll rest

end

/-- The elements right below an element. -/
def inner : Element → List Element
  | node _ _ children => children
  | constant .. => []
  | banded .. => []
  | bounded .. => []

end Element

namespace Report

open Element Number

/-! ## The lines of elements -/

/-- What stands in the line of an element behind the indentation. -/
def heading : Element → String
  | .constant _ value => display value
  | .banded name bands _ => s!"[{name}] interval ({bands.length} ranges)"
  | .bounded name lower upper =>
    let low := (lower.map display).getD "-inf"
    let high := (upper.map display).getD "inf"
    s!"[{name}] range [{low}, {high}]"
  | .node name _ _ => name

theorem elementLines_eq (depth : Nat) (element : Element) :
    elementLines depth element =
      indented depth (heading element) :: childLines (depth + 1) element.inner := by
  cases element <;> rw [elementLines] <;> rfl

/-- Lines with a line break behind each of them. -/
def ended (lines : List String) : List Char :=
  lines.flatMap fun line => line.toList ++ ['\n']

theorem ended_append (lines more : List String) :
    ended (lines ++ more) = ended lines ++ ended more :=
  List.flatMap_append

theorem joinLines_append_break {lines : List String} (h : lines ≠ []) :
    (joinLines lines).toList ++ ['\n'] = ended lines := by
  rw [toList_joinLines]
  induction lines with
  | nil => exact absurd rfl h
  | cons line rest ih =>
    by_cases hrest : rest = []
    · simp [hrest, ended, Text.join]
    · rw [List.map_cons, Text.join_cons (by simpa using hrest), List.append_assoc,
        List.cons_append, ih hrest]
      simp [ended]

/-- The lines of an element are its indentation, its heading, and the lines below it. -/
theorem ended_elementLines (depth : Nat) (element : Element) (rest : List Char) :
    ended (elementLines depth element) ++ rest =
      List.replicate (2 * depth) ' ' ++ ((heading element).toList ++
        '\n' :: (ended (childLines (depth + 1) element.inner) ++ rest)) := by
  simp [elementLines_eq, ended, indented]

/-! ## Headings -/

/-- A finite constant is displayed with a digit or a point in front, behind a minus at most. -/
theorem displayDigits_cons {x : Float} (h : x.isFinite = true) :
    ∃ c rest, (c.isDigit = true ∨ c = '.') ∧
      (displayDigits x = c :: rest ∨ displayDigits x = '-' :: c :: rest) := by
  obtain ⟨body, d, hdigits, hdecimal, _⟩ := displayDigits_eq h
  obtain ⟨c, rest, rfl, hc⟩ := hdecimal.exists_cons
  refine ⟨c, rest, hc, ?_⟩
  rw [hdigits]
  cases (exact x).negative
  · exact .inl rfl
  · exact .inr rfl

theorem exists_toList_symbol (operation : Operation) :
    ∃ c, operation.symbol.toList = [c] ∧ c ∈ ['+', '-', '*', '/', '^'] := by
  cases operation <;> exact ⟨_, rfl, by decide⟩

theorem display_ne_symbol {x : Float} (h : x.isFinite = true) (operation : Operation) :
    display x ≠ operation.symbol := by
  obtain ⟨c, rest, hc, hdigits⟩ := displayDigits_cons h
  obtain ⟨symbol, hsymbol, hmem⟩ := exists_toList_symbol operation
  intro heq
  have hlist : displayDigits x = [symbol] := by
    rw [← hsymbol, ← heq, display, String.toList_ofList]
  rw [hlist] at hdigits
  rcases hdigits with hdigits | hdigits
  · cases hdigits
    revert hc
    simp only [List.mem_cons, List.not_mem_nil, or_false] at hmem
    rcases hmem with rfl | rfl | rfl | rfl | rfl <;> decide
  · cases hdigits

variable {catalog : List Element}

/-- The heading of a lookup has its name in brackets in front. -/
theorem exists_heading_of_isLookup {element : Element} (h : element.isLookup = true) :
    ∃ back, (heading element).toList = '[' :: (element.name.toList ++ ']' :: back) := by
  cases element with
  | banded name bands fallback => exact ⟨_, by simp [heading, Element.name]; rfl⟩
  | bounded name lower upper => exact ⟨_, by simp [heading, Element.name]; rfl⟩
  | constant _ _ => cases h
  | node _ _ _ => cases h

/-- A heading without a bracket in front has no line break and so ends at the first one. -/
theorem heading_of_not_isLookup {element : Element} (h : MadeOf catalog element)
    (hlookup : element.isLookup = false) :
    '\n' ∉ (heading element).toList ∧
      ∃ c rest, (heading element).toList = c :: rest ∧ c ≠ '[' ∧ c ≠ ' ' := by
  cases h with
  | @constant name value hvalue =>
    have hdigits : (heading (.constant name value)).toList = displayDigits value :=
      String.toList_ofList
    rw [hdigits]
    refine ⟨(not_mem_displayDigits value).2, ?_⟩
    obtain ⟨c, rest, hc, hfront | hfront⟩ := displayDigits_cons hvalue
    · refine ⟨c, rest, hfront, ?_, ?_⟩ <;> rintro rfl <;> revert hc <;> decide
    · exact ⟨'-', c :: rest, hfront, by decide, by decide⟩
  | lookup hlookup' _ => exact absurd (hlookup.symm.trans hlookup') (by decide)
  | @node operation children _ =>
    obtain ⟨c, hsymbol, hc⟩ := exists_toList_symbol operation
    have hheading : (heading (.node operation.symbol operation children)).toList = [c] := hsymbol
    rw [hheading]
    refine ⟨?_, c, [], rfl, ?_, ?_⟩
    · rw [List.mem_singleton]
      rintro rfl
      exact absurd hc (by decide)
    · rintro rfl
      exact absurd hc (by decide)
    · rintro rfl
      exact absurd hc (by decide)

theorem exists_heading_cons {element : Element} (h : MadeOf catalog element) :
    ∃ c rest, (heading element).toList = c :: rest ∧ c ≠ ' ' := by
  cases hlookup : element.isLookup with
  | true =>
    obtain ⟨back, hback⟩ := exists_heading_of_isLookup hlookup
    exact ⟨'[', _, hback, by decide⟩
  | false =>
    obtain ⟨_, c, rest, hheading, _, hc⟩ := heading_of_not_isLookup h hlookup
    exact ⟨c, rest, hheading, hc⟩

/-- What two elements with the same heading have in common. -/
inductive SameHeading : Element → Element → Prop where
  | constant (name name' : String) (value : Float) :
      SameHeading (.constant name value) (.constant name' value)
  | lookup {element : Element} (h : element.isLookup = true) : SameHeading element element
  | node (operation : Operation) (children children' : List Element) :
      SameHeading (.node operation.symbol operation children)
        (.node operation.symbol operation children')

theorem symbol_inj {a b : Operation} (h : a.symbol = b.symbol) : a = b := by
  have hsome : some a = some b := by
    rw [← Operation.ofSymbol?_symbol a, ← Operation.ofSymbol?_symbol b, h]
  exact Option.some_inj.1 hsome

/-- The names of a catalog have no brackets, and each is that of one element. -/
structure Distinct (catalog : List Element) : Prop where
  bracketless : ∀ element ∈ catalog, ']' ∉ element.name.toList
  unique : ∀ a ∈ catalog, ∀ b ∈ catalog, a.name = b.name → a = b

theorem distinct_of_catalogOf {definitions : NameMap Definition}
    (h : catalogOf definitions = .ok catalog) : Distinct catalog where
  bracketless element hmem := by
    obtain ⟨⟨name, definition⟩, _, helement⟩ := Attempt.exists_of_mem_mapM h hmem
    rw [(isLookup_and_name_of_element helement).2]
    exact (isReferable_iff.1 (isReferable_of_element helement)).2
  unique a ha b hb hname := eq_of_name_eq (pairwise_name_of_catalogOf h) ha hb hname

/-- The heading of an element ends where its text says, and tells what the element is. -/
theorem sameHeading_of_eq (hcatalog : Distinct catalog) {a b : Element}
    (ha : MadeOf catalog a) (hb : MadeOf catalog b) {s t : List Char}
    (h : (heading a).toList ++ '\n' :: s = (heading b).toList ++ '\n' :: t) :
    SameHeading a b ∧ s = t := by
  have hmixed {a b : Element} (ha : a.isLookup = true) (hb : MadeOf catalog b)
      (hlookup : b.isLookup = false) {s t : List Char} :
      (heading a).toList ++ s ≠ (heading b).toList ++ t := by
    obtain ⟨back, hback⟩ := exists_heading_of_isLookup ha
    obtain ⟨_, c, rest, hheading, hc, _⟩ := heading_of_not_isLookup hb hlookup
    rw [hback, hheading]
    intro heq
    exact hc (List.cons.inj heq).1.symm
  cases haLookup : a.isLookup with
  | true =>
    cases hbLookup : b.isLookup with
    | false => exact absurd h (hmixed haLookup hb hbLookup)
    | true =>
      have haMem := ha.mem_of_isLookup haLookup
      have hbMem := hb.mem_of_isLookup hbLookup
      obtain ⟨aBack, haBack⟩ := exists_heading_of_isLookup haLookup
      obtain ⟨bBack, hbBack⟩ := exists_heading_of_isLookup hbLookup
      have hnames := h
      rw [haBack, hbBack, List.cons_append, List.cons_append, List.append_assoc,
        List.append_assoc, List.cons_append, List.cons_append] at hnames
      have hname : a.name.toList = b.name.toList :=
        (Text.append_cons_inj (hcatalog.bracketless a haMem) (hcatalog.bracketless b hbMem)
          (List.cons.inj hnames).2).1
      have hsame : a = b := hcatalog.unique a haMem b hbMem (String.toList_injective hname)
      subst hsame
      exact ⟨.lookup haLookup, (List.cons.inj (List.append_cancel_left h)).2⟩
  | false =>
    cases hbLookup : b.isLookup with
    | true => exact absurd h.symm (hmixed hbLookup ha haLookup)
    | false =>
      obtain ⟨haBreak, _⟩ := heading_of_not_isLookup ha haLookup
      obtain ⟨hbBreak, _⟩ := heading_of_not_isLookup hb hbLookup
      obtain ⟨hlist, hrest⟩ := Text.append_cons_inj haBreak hbBreak h
      have hheading : heading a = heading b := String.toList_injective hlist
      refine ⟨?_, hrest⟩
      cases ha with
      | lookup hlookup _ => exact absurd (haLookup.symm.trans hlookup) (by decide)
      | @constant name value hvalue =>
        cases hb with
        | lookup hlookup _ => exact absurd (hbLookup.symm.trans hlookup) (by decide)
        | @constant name' value' hvalue' =>
          have hsame : value = value' := eq_of_display_eq hvalue hvalue' hheading
          subst hsame
          exact .constant name name' value
        | @node operation _ _ => exact absurd hheading (display_ne_symbol hvalue operation)
      | @node operation children _ =>
        cases hb with
        | lookup hlookup _ => exact absurd (hbLookup.symm.trans hlookup) (by decide)
        | constant hvalue => exact absurd hheading.symm (display_ne_symbol hvalue operation)
        | @node operation' children' _ =>
          have hsame : operation = operation' := symbol_inj hheading
          subst hsame
          exact .node operation children children'

/-! ## Indentation -/

/-- The number of spaces at the start of a text. -/
def indent (s : List Char) : Nat :=
  (s.takeWhile (· == ' ')).length

theorem indent_of_head? {s : List Char} (h : s.head? ≠ some ' ') : indent s = 0 := by
  cases s with
  | nil => rfl
  | cons c s =>
    have hc : (c == ' ') = false := beq_eq_false_iff_ne.2 fun heq => h (congrArg some heq)
    simp [indent, hc]

theorem indent_spaces_append (count : Nat) (s : List Char) :
    indent (List.replicate count ' ' ++ s) = count + indent s := by
  unfold indent
  rw [List.takeWhile_append_of_pos (by simp +contextual), List.length_append,
    List.length_replicate]

/-- The lines of an element start at its depth. -/
theorem indent_elementLines {element : Element} (h : MadeOf catalog element) (depth : Nat)
    (rest : List Char) : indent (ended (elementLines depth element) ++ rest) = 2 * depth := by
  obtain ⟨c, back, hheading, hc⟩ := exists_heading_cons h
  rw [ended_elementLines, indent_spaces_append, indent_of_head?, Nat.add_zero]
  rw [hheading]
  exact fun heq => hc (Option.some_inj.1 heq)

/-- What follows the lines of an element starts no further in than these. -/
theorem indent_childLines_le {children : List Element}
    (h : ∀ child ∈ children, MadeOf catalog child) {depth : Nat} {rest : List Char}
    (hrest : indent rest ≤ 2 * depth) :
    indent (ended (childLines depth children) ++ rest) ≤ 2 * depth := by
  cases children with
  | nil => exact hrest
  | cons child others =>
    rw [childLines, ended_append, List.append_assoc,
      indent_elementLines (h child List.mem_cons_self)]

/-! ## Reading back -/

mutual

/-- The lines of an element determine it but for spelling, and end where what follows starts. -/
theorem unspelled_eq_of_lines (hcatalog : Distinct catalog) : (a b : Element) →
    MadeOf catalog a → MadeOf catalog b → (depth : Nat) → (s t : List Char) →
    indent s ≤ 2 * depth → indent t ≤ 2 * depth →
    ended (elementLines depth a) ++ s = ended (elementLines depth b) ++ t →
    a.unspelled = b.unspelled ∧ s = t
  | a, b, ha, hb, depth, s, t, hs, ht, h => by
    rw [ended_elementLines, ended_elementLines] at h
    obtain ⟨hsame, hrest⟩ := sameHeading_of_eq hcatalog ha hb (List.append_cancel_left h)
    cases hsame with
    | constant => exact ⟨rfl, hrest⟩
    | lookup hlookup => exact ⟨rfl, List.append_cancel_left hrest⟩
    | node operation children children' =>
      obtain ⟨hchildren, hrest⟩ := unspelledAll_eq_of_lines hcatalog children children'
        (madeOf_node_iff.1 ha).2 (madeOf_node_iff.1 hb).2 (depth + 1) s t (by omega) (by omega)
        hrest
      exact ⟨by rw [unspelled, unspelled, hchildren], hrest⟩

/-- The lines of several elements end where what follows is less far in. -/
theorem unspelledAll_eq_of_lines (hcatalog : Distinct catalog) : (as bs : List Element) →
    (∀ a ∈ as, MadeOf catalog a) → (∀ b ∈ bs, MadeOf catalog b) → (depth : Nat) →
    (s t : List Char) → indent s < 2 * depth → indent t < 2 * depth →
    ended (childLines depth as) ++ s = ended (childLines depth bs) ++ t →
    unspelledAll as = unspelledAll bs ∧ s = t
  | [], [], _, _, _, _, _, _, _, h => ⟨rfl, h⟩
  | [], b :: bs, _, hbs, depth, s, t, hs, _, h => by
    have hindent := indent_elementLines (hbs b List.mem_cons_self) depth
      (ended (childLines depth bs) ++ t)
    rw [← List.append_assoc, ← ended_append] at hindent
    change s = ended (elementLines depth b ++ childLines depth bs) ++ t at h
    rw [← h] at hindent
    omega
  | a :: as, [], has, _, depth, s, t, _, ht, h => by
    have hindent := indent_elementLines (has a List.mem_cons_self) depth
      (ended (childLines depth as) ++ s)
    rw [← List.append_assoc, ← ended_append] at hindent
    change ended (elementLines depth a ++ childLines depth as) ++ s = t at h
    rw [h] at hindent
    omega
  | a :: as, b :: bs, has, hbs, depth, s, t, hs, ht, h => by
    obtain ⟨ha, has⟩ := List.forall_mem_cons.1 has
    obtain ⟨hb, hbs⟩ := List.forall_mem_cons.1 hbs
    rw [childLines, childLines, ended_append, ended_append, List.append_assoc,
      List.append_assoc] at h
    obtain ⟨hfirst, hrest⟩ := unspelled_eq_of_lines hcatalog a b ha hb depth _ _
      (indent_childLines_le has hs.le) (indent_childLines_le hbs ht.le) h
    obtain ⟨hothers, hend⟩ := unspelledAll_eq_of_lines hcatalog as bs has hbs depth s t hs ht hrest
    exact ⟨by rw [unspelledAll, unspelledAll, hfirst, hothers], hend⟩

end

mutual

/-- No line shows how a constant is spelled. -/
theorem elementLines_unspelled (depth : Nat) : (element : Element) →
    elementLines depth element.unspelled = elementLines depth element
  | .constant _ _ => rfl
  | .banded _ _ _ => rfl
  | .bounded _ _ _ => rfl
  | .node name operation children => by
    rw [unspelled, elementLines, elementLines, childLines_unspelledAll]

theorem childLines_unspelledAll (depth : Nat) : (children : List Element) →
    childLines depth (unspelledAll children) = childLines depth children
  | [] => rfl
  | child :: rest => by
    rw [unspelledAll, childLines, childLines, elementLines_unspelled, childLines_unspelledAll]

end

/-- A calculation is the tree of a formula or of several. -/
def IsRootOf (catalog : List Element) (root : Calculation) : Prop :=
  (∃ formula, Formula.parse catalog formula = .ok root) ∨
    ∃ formulas, Formula.parseSum catalog formulas = .ok root

theorem IsRootOf.madeOf {definitions : NameMap Definition} {root : Calculation}
    (h : IsRootOf catalog root) (hcatalog : catalogOf definitions = .ok catalog) :
    MadeOf catalog root.toElement := by
  have hlookups := Formula.lookupsOnly_of_catalogOf hcatalog
  rcases h with ⟨formula, hparse⟩ | ⟨formulas, hparse⟩
  · exact Formula.madeOf_of_parse hlookups hparse
  · exact Formula.madeOf_of_parseSum hlookups hparse

/-- Over one catalog, the trees of two formulas or of two lists of formulas have the same listing
exactly if they are the same but for how their constants are spelled. -/
theorem tree_eq_iff {definitions : NameMap Definition}
    (hcatalog : catalogOf definitions = .ok catalog) {a b : Calculation}
    (ha : IsRootOf catalog a) (hb : IsRootOf catalog b) :
    tree a = tree b ↔ a.toElement.unspelled = b.toElement.unspelled := by
  have hlines (root : Calculation) : (tree root).toList ++ ['\n'] =
      ended (elementLines 0 root.toElement) :=
    joinLines_append_break (by rw [elementLines_eq]; exact List.cons_ne_nil _ _)
  constructor
  · intro h
    have hended : ended (elementLines 0 a.toElement) ++ [] =
        ended (elementLines 0 b.toElement) ++ [] := by
      rw [← hlines, ← hlines, h]
    exact (unspelled_eq_of_lines (distinct_of_catalogOf hcatalog) _ _ (ha.madeOf hcatalog)
      (hb.madeOf hcatalog) 0 [] [] (Nat.zero_le _) (Nat.zero_le _) hended).1
  · intro h
    unfold tree
    rw [← elementLines_unspelled, h, elementLines_unspelled]

/-- Two spellings of a constant, and a name that looks like a line of its own. -/
theorem tree_eq_of_spellings :
    let catalog : List Element := [.bounded "A\n  1.5" (some 0) (some 1)]
    catalogOf (.ofList [("A\n  1.5", .range [0, 1])]) = .ok catalog ∧
      ∃ a b, Formula.parse catalog "1.50 * [A\n  1.5]" = .ok a ∧
        Formula.parseSum catalog ["15e-1 * [A\n  1.5]"] = .ok b ∧
        tree a = "+\n  *\n    1.5\n    [A\n  1.5] range [0, 1]" ∧
        a.toElement.unspelled = b.toElement.unspelled := by
  intro catalog
  have hcatalog : catalogOf (.ofList [("A\n  1.5", .range [0, 1])]) = .ok catalog := rfl
  have hfirst : (Formula.parse catalog "1.50 * [A\n  1.5]").toOption.map tree =
      some "+\n  *\n    1.5\n    [A\n  1.5] range [0, 1]" := by decide +kernel
  have hsecond : (Formula.parseSum catalog ["15e-1 * [A\n  1.5]"]).toOption.map tree =
      some "+\n  *\n    1.5\n    [A\n  1.5] range [0, 1]" := by decide +kernel
  obtain ⟨a, ha, haTree⟩ := Attempt.exists_ok_of_map_toOption hfirst
  obtain ⟨b, hb, hbTree⟩ := Attempt.exists_ok_of_map_toOption hsecond
  exact ⟨hcatalog, a, b, ha, hb, haTree,
    (tree_eq_iff hcatalog (.inl ⟨_, ha⟩) (.inr ⟨_, hb⟩)).1 (haTree.trans hbTree.symm)⟩

end Report

end Scorecard
