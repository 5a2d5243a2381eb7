import Scorecard.CommandLine.Run
import Scorecard.Proofs.Composition
import Scorecard.Proofs.DepthFirst

/-!
# What validation promises

Validation looks at every definition and every formula, with a catalog that leaves the faulty
elements out, while compilation stops at the first error. Yet they agree: a configuration has no
problems exactly if it compiles, has a formula, and none of its formulas has a node without children
(`problems_eq_nil_iff`). The error of compilation is among the problems, and what has no problems
scores all inputs unless one that is referred to is missing (`score_of_problems_eq_nil`). The three
together are `validation_outcome`.
-/

namespace Scorecard.Config

open Attempt Element

variable {config : Config} {catalog : List Element}

/-! ## Definitions -/

theorem problem?_eq_none_iff {name : String} {definition : Definition} :
    definition.problem? name = none ↔ ∃ element, definition.element name = .ok element := by
  unfold Definition.problem?
  cases definition.element name <;> simp

theorem definitionProblems_eq_nil_iff :
    config.definitionProblems = [] ↔ ∃ catalog, catalogOf config.definitions = .ok catalog := by
  unfold definitionProblems catalogOf
  rw [exists_mapM_eq_ok_iff, List.filterMap_eq_nil_iff]
  simp only [problem?_eq_none_iff]

/-- If all definitions are sound, their elements are the catalog. -/
theorem soundElements_of_catalogOf (h : catalogOf config.definitions = .ok catalog) :
    config.soundElements = catalog := by
  have hpairs := forall₂_of_catalogOf h
  unfold soundElements
  generalize config.definitions.entries = entries at hpairs
  clear h
  induction hpairs with
  | nil => rfl
  | cons helement _ ih =>
    simp only [List.filterMap_cons, helement, ih]
    rfl

/-- Among the elements that entries give their names, a name has the one of its own entry. -/
theorem find?_filterMap {entries : List (String × Definition)}
    (h : entries.Pairwise fun a b => a.1 < b.1) {f : String × Definition → Option Element}
    (hf : ∀ entry element, f entry = some element → element.name = entry.1) (name : String) :
    Formula.find? (entries.filterMap f) name =
      (entries.lookup name).bind fun definition => f (name, definition) := by
  unfold Formula.find?
  induction entries with
  | nil => rfl
  | cons entry rest ih =>
    obtain ⟨key, definition⟩ := entry
    obtain ⟨hkey, hrest⟩ := List.pairwise_cons.1 h
    rw [NameMap.lookup_cons_eq]
    split
    · rename_i heq
      subst heq
      cases helement : f (name, definition) with
      | some element =>
        have hname : element.name = name := hf _ _ helement
        rw [List.filterMap_cons_some helement, List.find?_cons_of_pos (by simpa using hname)]
        exact helement.symm
      | none =>
        -- no later entry has the name of a faulty one
        have hnone : rest.lookup name = none := by
          rw [List.lookup_eq_none_iff]
          intro other hother
          rw [bne_iff_ne]
          intro hsame
          have hlt := hkey other hother
          rw [← hsame] at hlt
          exact String.lt_irrefl _ hlt
        rw [List.filterMap_cons_none helement, ih hrest, hnone]
        exact helement.symm
    · rename_i hne
      cases helement : f (key, definition) with
      | some element =>
        have hname : element.name = key := hf _ _ helement
        have hother : element.name ≠ name := by
          rw [hname]
          exact Ne.symm hne
        rw [List.filterMap_cons_some helement, List.find?_cons_of_neg (by simpa using hother)]
        exact ih hrest
      | none =>
        rw [List.filterMap_cons_none helement]
        exact ih hrest

/-- A sound element is that of an entry. -/
theorem exists_entry_of_mem_soundElements {element : Element}
    (h : element ∈ config.soundElements) :
    ∃ entry ∈ config.definitions.entries, entry.2.element entry.1 = .ok element := by
  obtain ⟨entry, hmem, helement⟩ := List.mem_filterMap.1 h
  exact ⟨entry, hmem, eq_ok_of_toOption helement⟩

/-- Of the sound elements a name has the one that its definition gives. -/
theorem find?_soundElements (config : Config) (name : String) :
    Formula.find? config.soundElements name =
      (config.definitions.get? name).bind fun definition =>
        (definition.element name).toOption :=
  find?_filterMap config.definitions.ascending
    (fun _ _ h => (isLookup_and_name_of_element (eq_ok_of_toOption h)).2) name

/-! ## Formulas -/

theorem find?_of_classify_eq_unknownElement {token : List Char} {name : String}
    (h : Formula.classify catalog token = .error (.unknownElement name)) :
    Formula.find? catalog name = none := by
  unfold Formula.classify at h
  split at h
  · split at h
    · cases h
    · rename_i hfind
      cases h
      exact hfind
  · split at h
    · cases h
    · split at h
      · cases h
      · cases h

/-- Only a name without an element gives an unknown element. -/
theorem find?_of_parse_eq_unknownElement {formula name : String}
    (h : Formula.parse catalog formula = .error (.unknownElement name)) :
    Formula.find? catalog name = none := by
  rcases Formula.parse_cases catalog formula with ⟨_, position, hposition⟩ | ⟨_, hfate⟩
  · rw [hposition] at h
    cases h
  · obtain ⟨_, token, _, _, htoken⟩ := mapM_eq_error_iff.1 (hfate.error_left h)
    exact find?_of_classify_eq_unknownElement htoken

/-- If the definitions are sound, the error of a formula is reported. -/
theorem formulaProblem?_of_parse_eq_error (hcatalog : catalogOf config.definitions = .ok catalog)
    {formula : String} {e : ParseError} (h : Formula.parse catalog formula = .error e)
    (index : Nat) :
    config.formulaProblem? index formula = some (.faultyFormula index formula e) := by
  unfold formulaProblem?
  rw [soundElements_of_catalogOf hcatalog, h]
  cases e with
  | unknownElement name =>
    -- the exception is made for defined names, and these all have an element
    have hdefined : config.definitions.contains name = false := by
      cases hcontains : config.definitions.contains name with
      | false => rfl
      | true =>
        obtain ⟨element, hmem, hname⟩ := exists_mem_catalog hcatalog hcontains
        have hnone := find?_of_parse_eq_unknownElement h
        exact absurd hname (Formula.find?_eq_none_iff.1 hnone element hmem)
    simp [hdefined]
  | _ => rfl

/-- A formula that gives a calculation with a child, and no node without children. -/
def WellFormed (catalog : List Element) (formula : String) : Prop :=
  ∃ root, Formula.parse catalog formula = .ok root ∧ root.children ≠ [] ∧ root.toElement.Populated

theorem formulaProblem?_eq_none_iff (hcatalog : catalogOf config.definitions = .ok catalog)
    {index : Nat} {formula : String} :
    config.formulaProblem? index formula = none ↔ WellFormed catalog formula := by
  rcases exists_ok_or_error (Formula.parse catalog formula) with ⟨root, hroot⟩ | ⟨e, he⟩
  · unfold formulaProblem? WellFormed
    rw [soundElements_of_catalogOf hcatalog, hroot]
    have hchildless : root.firstChildless = none ↔ root.toElement.Populated :=
      firstChildless_eq_none_iff root.toElement
    cases hchildren : root.children with
    | nil => simp [hchildren]
    | cons child rest => simp [hchildren, hchildless]
  · rw [formulaProblem?_of_parse_eq_error hcatalog he]
    simp [WellFormed, he]

theorem formulaProblems_eq_nil_iff (hcatalog : catalogOf config.definitions = .ok catalog) :
    config.formulaProblems = [] ↔ ∀ formula ∈ config.formulas, WellFormed catalog formula := by
  unfold formulaProblems
  rw [List.filterMap_eq_nil_iff]
  simp only [formulaProblem?_eq_none_iff hcatalog]
  constructor
  · intro h formula hmem
    obtain ⟨i, hi, rfl⟩ := List.getElem_of_mem hmem
    exact h (config.formulas[i], i) (List.mem_zipIdx_iff_getElem?.2 (List.getElem?_eq_getElem hi))
  · intro h pair hpair
    exact h pair.1 (List.fst_mem_of_mem_zipIdx hpair)

/-! ## Compilation -/

theorem compile_eq_ok_iff {scoring : Scoring} :
    Scoring.compile config = .ok scoring ↔
      catalogOf config.definitions = .ok scoring.catalog ∧
        ∃ roots, config.formulas.mapM (Formula.parse scoring.catalog) = .ok roots ∧
          scoring.root = .of .add (roots.flatMap Calculation.children) := by
  obtain ⟨root, catalog⟩ := scoring
  unfold Scoring.compile
  rw [bind_eq_ok_iff]
  constructor
  · intro ⟨catalog', hcatalog, hrest⟩
    obtain ⟨root', hroot, hscoring⟩ := bind_eq_ok_iff.1 hrest
    obtain ⟨roots, hroots, hsum⟩ := bind_eq_ok_iff.1 hroot
    cases hscoring
    cases hsum
    exact ⟨hcatalog, roots, hroots, rfl⟩
  · intro ⟨hcatalog, roots, hroots, hroot⟩
    refine ⟨catalog, hcatalog, bind_eq_ok_iff.2 ⟨root, ?_, rfl⟩⟩
    exact bind_eq_ok_iff.2 ⟨roots, hroots, congrArg Except.ok hroot.symm⟩

theorem problems_eq_nil_iff_all :
    config.problems = [] ↔
      config.formulas ≠ [] ∧ config.definitionProblems = [] ∧ config.formulaProblems = [] := by
  unfold problems
  cases config.formulas <;> simp

/-- A configuration has no problems exactly if it compiles, has a formula, and all formulas are
well-formed. -/
theorem problems_eq_nil_iff :
    config.problems = [] ↔
      ∃ scoring, Scoring.compile config = .ok scoring ∧ config.formulas ≠ [] ∧
        ∀ formula ∈ config.formulas, WellFormed scoring.catalog formula := by
  rw [problems_eq_nil_iff_all, definitionProblems_eq_nil_iff]
  constructor
  · intro ⟨hne, ⟨catalog, hcatalog⟩, hformulas⟩
    rw [formulaProblems_eq_nil_iff hcatalog] at hformulas
    obtain ⟨roots, hroots⟩ : ∃ roots, config.formulas.mapM (Formula.parse catalog) = .ok roots := by
      rw [exists_mapM_eq_ok_iff]
      intro formula hmem
      obtain ⟨root, hroot, _⟩ := hformulas formula hmem
      exact ⟨root, hroot⟩
    exact ⟨⟨_, catalog⟩, compile_eq_ok_iff.2 ⟨hcatalog, roots, hroots, rfl⟩, hne, hformulas⟩
  · intro ⟨scoring, hcompile, hne, hformulas⟩
    have hcatalog := (compile_eq_ok_iff.1 hcompile).1
    exact ⟨hne, ⟨_, hcatalog⟩, (formulaProblems_eq_nil_iff hcatalog).2 hformulas⟩

theorem mem_messages_of_element_eq_error {name : String} {definition : Definition}
    (hmem : (name, definition) ∈ config.definitions.entries) {e : ParseError}
    (h : definition.element name = .error e) :
    s!"elements.{name}: {e.message}" ∈
      config.problems.map Problem.message := by
  refine List.mem_map.2 ⟨.faultyElement name e, ?_, rfl⟩
  have hproblem : definition.problem? name = some (.faultyElement name e) := by
    unfold Definition.problem?
    rw [h]
  unfold problems definitionProblems
  simp only [List.mem_append, List.mem_filterMap]
  exact .inl (.inr ⟨(name, definition), hmem, hproblem⟩)

theorem mem_messages_of_parse_eq_error (hcatalog : catalogOf config.definitions = .ok catalog)
    {before after : List String} {formula : String}
    (hformulas : config.formulas = before ++ formula :: after) {e : ParseError}
    (h : Formula.parse catalog formula = .error e) :
    s!"expression[{before.length}]: invalid '{formula}' - {e.message}" ∈
      config.problems.map Problem.message := by
  refine List.mem_map.2 ⟨.faultyFormula before.length formula e, ?_, rfl⟩
  have hproblem := formulaProblem?_of_parse_eq_error hcatalog h before.length
  have hmem : (formula, before.length) ∈ config.formulas.zipIdx := by
    rw [List.mem_zipIdx_iff_getElem?, hformulas]
    simp
  unfold problems formulaProblems
  simp only [List.mem_append, List.mem_filterMap]
  exact .inr ⟨(formula, before.length), hmem, hproblem⟩

/-- The first error of compilation: that of the first faulty definition in name order, or of the
first formula that does not parse. -/
theorem compile_eq_error_cases {e : ParseError} (h : Scoring.compile config = .error e) :
    (∃ before name definition after,
      config.definitions.entries = before ++ (name, definition) :: after ∧
      (∀ entry ∈ before, ∃ element, entry.2.element entry.1 = .ok element) ∧
      definition.element name = .error e) ∨
    ∃ catalog, catalogOf config.definitions = .ok catalog ∧
      ∃ before formula after, config.formulas = before ++ formula :: after ∧
        (∀ other ∈ before, ∃ root, Formula.parse catalog other = .ok root) ∧
        Formula.parse catalog formula = .error e := by
  rcases bind_eq_error_iff.1 h with hcatalog | ⟨catalog, hcatalog, hrest⟩
  · obtain ⟨before, ⟨name, definition⟩, ⟨after, hentries⟩, hbefore, hfirst⟩ :=
      mapM_eq_error_iff.1 hcatalog
    exact .inl ⟨before, name, definition, after, hentries, hbefore, hfirst⟩
  · have hsum : Formula.parseSum catalog config.formulas = .error e := by
      rcases bind_eq_error_iff.1 hrest with hsum | ⟨_, _, hok⟩
      · exact hsum
      · cases hok
    have hroots : config.formulas.mapM (Formula.parse catalog) = .error e := by
      rcases bind_eq_error_iff.1 hsum with hroots | ⟨_, _, hok⟩
      · exact hroots
      · cases hok
    obtain ⟨before, formula, ⟨after, hformulas⟩, hbefore, hfirst⟩ := mapM_eq_error_iff.1 hroots
    exact .inr ⟨catalog, hcatalog, before, formula, after, hformulas, hbefore, hfirst⟩

/-! ## Scores -/

/-- The tree of a compiled configuration is made of what its catalog has. -/
theorem madeOf_of_compile {scoring : Scoring} (h : Scoring.compile config = .ok scoring) :
    MadeOf scoring.catalog scoring.root.toElement := by
  obtain ⟨hcatalog, roots, hroots, hroot⟩ := compile_eq_ok_iff.1 h
  rw [hroot]
  exact Formula.madeOf_of_parseSum (Formula.lookupsOnly_of_catalogOf hcatalog)
    (bind_eq_ok_iff.2 ⟨roots, hroots, rfl⟩)

/-- The lookups of a compiled configuration are elements that it refers to. -/
theorem mem_referenced {scoring : Scoring} (h : Scoring.compile config = .ok scoring)
    {lookup : Element} (hmem : lookup ∈ scoring.root.lookups) : lookup ∈ scoring.referenced := by
  have hlookups : scoring.root.toElement.lookups = scoring.root.lookups := lookups_node _ _ _
  obtain ⟨hwithin, hlookup⟩ := mem_lookups_iff.1 (hlookups ▸ hmem)
  have hcatalog := ((madeOf_of_compile h).within hwithin).mem_of_isLookup hlookup
  refine List.mem_filter.2 ⟨hcatalog, ?_⟩
  rw [List.contains_iff_mem]
  exact List.mem_map_of_mem hmem

theorem lacksInput_of_factor_eq_error {element : Element} (hlookup : element.isLookup = true)
    {inputs : Inputs} {e : EvaluationError} (h : Scoring.factor inputs element = .error e) :
    e = .missingInput element.name ∧ inputs.get? element.name = none := by
  rcases bind_eq_error_iff.1 h with hfetch | ⟨input, _, hrest⟩
  · exact mem_missing_iff.1 ((reports_fetch inputs element.name).error_mem hfetch)
  · rcases bind_eq_error_iff.1 hrest with hevaluate | ⟨_, _, hok⟩
    · obtain ⟨lookup, hmem, hmissing⟩ :=
        lacksInput_of_evaluateWith_eq_error Operation.apply inputs (populated_of_isLookup hlookup)
          hevaluate
      rw [lookups_of_isLookup hlookup, List.mem_singleton] at hmem
      subst hmem
      exact hmissing
    · cases hok

/-- The calculation of a configuration without problems has no node without children. -/
theorem populated_root {scoring : Scoring} (h : Scoring.compile config = .ok scoring)
    (hne : config.formulas ≠ [])
    (hformulas : ∀ formula ∈ config.formulas, WellFormed scoring.catalog formula) :
    scoring.root.toElement.Populated := by
  obtain ⟨_, roots, hroots, hroot⟩ := compile_eq_ok_iff.1 h
  have hpopulated : ∀ root ∈ roots, root.children ≠ [] ∧ root.toElement.Populated := by
    intro root hmem
    obtain ⟨formula, hformula, hparse⟩ := exists_of_mem_mapM hroots hmem
    obtain ⟨root', hroot', hwell⟩ := hformulas formula hformula
    rw [hroot'] at hparse
    cases hparse
    exact hwell
  rw [hroot]
  refine populated_node_iff.2 ⟨?_, fun child hchild => ?_⟩
  · intro hnil
    have hchildless : ∀ root ∈ roots, root.children = [] := List.flatMap_eq_nil_iff.1 hnil
    obtain ⟨formula, hformula⟩ := List.exists_mem_of_ne_nil _ hne
    obtain ⟨root, hmem, _⟩ := exists_mem_mapM hroots hformula
    exact (hpopulated root hmem).1 (hchildless root hmem)
  · obtain ⟨root, hmem, hchild⟩ := List.mem_flatMap.1 hchild
    exact (populated_node_iff.1 (hpopulated root hmem).2).2 child hchild

/-- What has no problems scores all inputs unless one that is referred to is missing. -/
theorem score_of_problems_eq_nil {scoring : Scoring} (h : Scoring.compile config = .ok scoring)
    (hproblems : config.problems = []) (inputs : Inputs) :
    (∃ score, scoring.score inputs = .ok score) ∨
      ∃ e, scoring.score inputs = .error e ∧ LacksInput inputs scoring.referenced e := by
  obtain ⟨scoring', hcompile, hne, hformulas⟩ := problems_eq_nil_iff.1 hproblems
  rw [h] at hcompile
  cases hcompile
  rcases exists_ok_or_error (scoring.score inputs) with hok | ⟨e, he⟩
  · exact .inl hok
  refine .inr ⟨e, he, ?_⟩
  -- the value comes before the breakdown, and either can lack an input
  rcases bind_eq_error_iff.1 he with hvalue | ⟨value, _, hrest⟩
  · have hpopulated := populated_root h hne hformulas
    obtain ⟨lookup, hmem, hmissing⟩ :=
      lacksInput_of_evaluateWith_eq_error Operation.apply inputs hpopulated hvalue
    rw [Calculation.toElement, lookups_node] at hmem
    exact ⟨lookup, mem_referenced h hmem, hmissing⟩
  · rcases bind_eq_error_iff.1 hrest with hfactors | ⟨_, _, hok⟩
    · obtain ⟨before, element, ⟨after, hreferenced⟩, _, hfactor⟩ := mapM_eq_error_iff.1 hfactors
      have hmem : element ∈ scoring.referenced := by
        rw [hreferenced]
        simp
      have hcatalog := (compile_eq_ok_iff.1 h).1
      have hlookup := isLookup_of_mem_catalog hcatalog (List.mem_of_mem_filter hmem)
      exact ⟨element, hmem, lacksInput_of_factor_eq_error hlookup hfactor⟩
    · cases hok

theorem compileSound_eq_ok {scoring : Scoring} (hproblems : config.problems = [])
    (h : Scoring.compile config = .ok scoring) : CommandLine.compileSound config = .ok scoring := by
  unfold CommandLine.compileSound
  rw [hproblems, h]

/-- Validation and compilation agree. A configuration has no problems exactly if it compiles, has a
formula, and each formula gives a calculation with a child and no node without children. Where
compilation fails, its error is that of the first faulty definition in name order, or else of the
first formula that does not parse, and validation reports it there. A configuration without problems
is compiled, and each score of it is a number or lacks an input that the calculation refers to. -/
theorem validation_outcome (config : Config) :
    (config.problems = [] ↔
      ∃ scoring, Scoring.compile config = .ok scoring ∧ config.formulas ≠ [] ∧
        ∀ formula ∈ config.formulas, ∃ root, Formula.parse scoring.catalog formula = .ok root ∧
          root.children ≠ [] ∧ ∀ name operation children,
            Within (.node name operation children) root.toElement → children ≠ []) ∧
    (∀ e, Scoring.compile config = .error e →
      (∃ before name definition after,
        config.definitions.entries = before ++ (name, definition) :: after ∧
        (∀ entry ∈ before, ∃ element, entry.2.element entry.1 = .ok element) ∧
        definition.element name = .error e ∧
        s!"elements.{name}: {e.message}" ∈ config.problems.map Problem.message) ∨
      ∃ catalog, catalogOf config.definitions = .ok catalog ∧
        ∃ before formula after, config.formulas = before ++ formula :: after ∧
          (∀ other ∈ before, ∃ root, Formula.parse catalog other = .ok root) ∧
          Formula.parse catalog formula = .error e ∧
          s!"expression[{before.length}]: invalid '{formula}' - {e.message}" ∈
            config.problems.map Problem.message) ∧
    (config.problems = [] →
      ∃ scoring, Scoring.compile config = .ok scoring ∧
        CommandLine.compileSound config = .ok scoring ∧
        ∀ inputs, (∃ score, scoring.score inputs = .ok score) ∨
          ∃ element ∈ scoring.referenced,
            scoring.score inputs = .error (.missingInput element.name) ∧
              inputs.get? element.name = none) := by
  refine ⟨problems_eq_nil_iff, fun e he => ?_, fun hproblems => ?_⟩
  · rcases compile_eq_error_cases he with hdefinition | hformula
    · obtain ⟨before, name, definition, after, hentries, hbefore, herror⟩ := hdefinition
      have hmem : (name, definition) ∈ config.definitions.entries := by
        rw [hentries]
        simp
      exact .inl ⟨before, name, definition, after, hentries, hbefore, herror,
        mem_messages_of_element_eq_error hmem herror⟩
    · obtain ⟨catalog, hcatalog, before, formula, after, hformulas, hbefore, herror⟩ := hformula
      exact .inr ⟨catalog, hcatalog, before, formula, after, hformulas, hbefore, herror,
        mem_messages_of_parse_eq_error hcatalog hformulas herror⟩
  · obtain ⟨scoring, hcompile, _⟩ := problems_eq_nil_iff.1 hproblems
    refine ⟨scoring, hcompile, compileSound_eq_ok hproblems hcompile, fun inputs => ?_⟩
    rcases score_of_problems_eq_nil hcompile hproblems inputs with hok | ⟨e, he, hlacks⟩
    · exact .inl hok
    · obtain ⟨element, hmem, rfl, hmissing⟩ := hlacks
      exact .inr ⟨element, hmem, he, hmissing⟩

end Scorecard.Config
