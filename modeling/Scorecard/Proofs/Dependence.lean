import Scorecard.Proofs.Breakdown
import Scorecard.Proofs.Grouping

/-!
# What a score depends on

A calculation depends on the elements that its formulas refer to and on the inputs of their names,
and on nothing else that is defined or given. So an element that no formula refers to can be added,
removed or defined anew without a change to any score, and so can an input. Main statement:
`score_eq_of_agree`.

Both halves go along the tree: `evaluateWith_congr` follows the evaluation from leaf to leaf, and
`parse_congr` the tokens of a formula, of which the references are all that a catalog decides.
-/

namespace Scorecard

open Attempt Element

/-! ## Inputs of a tree -/

namespace Element

variable {inputs inputs' : Inputs}

/-- Two maps have the same inputs for some lookups, or none. -/
def Agree (inputs inputs' : Inputs) (lookups : List Element) : Prop :=
  ∀ lookup ∈ lookups, inputs.get? lookup.name = inputs'.get? lookup.name

theorem fetch_congr {name : String} (h : inputs.get? name = inputs'.get? name) :
    inputs.fetch name = inputs'.fetch name := by
  unfold Inputs.fetch
  rw [h]

section

variable (arithmetic : Arithmetic)

mutual

/-- The value of a tree depends on the inputs of its lookups. -/
theorem evaluateWith_congr : (tree : Element) → Agree inputs inputs' tree.lookups →
    tree.evaluateWith arithmetic inputs = tree.evaluateWith arithmetic inputs'
  | .constant name value, _ => rfl
  | .banded name bands fallback, h => by
    have hname : inputs.get? name = inputs'.get? name := h _ (List.mem_singleton_self _)
    rw [evaluateWith, evaluateWith, fetch_congr hname]
  | .bounded name lower upper, h => by
    have hname : inputs.get? name = inputs'.get? name := h _ (List.mem_singleton_self _)
    rw [evaluateWith, evaluateWith, fetch_congr hname]
  | .node name operation [], _ => rfl
  | .node name operation (first :: rest), h => by
    obtain ⟨hfirst, hrest⟩ := List.forall_mem_append.1 h
    rw [evaluateWith, evaluateWith, evaluateWith_congr first hfirst]
    refine congrArg _ (funext fun value => ?_)
    exact foldWith_congr operation rest hrest value

theorem foldWith_congr (operation : Operation) : (trees : List Element) →
    Agree inputs inputs' (lookupsAll trees) → (value : Float) →
    foldWith arithmetic inputs operation value trees =
      foldWith arithmetic inputs' operation value trees
  | [], _, value => rfl
  | tree :: rest, h, value => by
    obtain ⟨htree, hrest⟩ := List.forall_mem_append.1 h
    rw [foldWith, foldWith, evaluateWith_congr tree htree]
    refine congrArg _ (funext fun next => ?_)
    exact foldWith_congr operation rest hrest (arithmetic operation value next)

end

end

end Element

/-! ## Elements of a formula -/

namespace Formula

variable {catalog catalog' : List Element}

/-- In a catalog a name has the element that its definition gives. -/
theorem find?_of_catalogOf {config : Config} (h : catalogOf config.definitions = .ok catalog)
    (name : String) :
    find? catalog name =
      (config.definitions.get? name).bind fun definition => (definition.element name).toOption := by
  rw [← Config.soundElements_of_catalogOf h]
  exact config.find?_soundElements name

/-- A catalog decides a token only if it is a reference, by the element of that name. -/
theorem classify_congr {token : List Char}
    (h : ∀ name, String.ofList token = "[" ++ name ++ "]" →
      find? catalog name = find? catalog' name) :
    classify catalog token = classify catalog' token := by
  unfold classify
  split
  · rename_i name href
    rw [reference?_eq_some_iff] at href
    rw [h (String.ofList name) (by rw [href, ofList_bracketed])]
  · rfl

mutual

theorem calculation_congr : (fragment : Fragment) →
    (∀ token ∈ fragment.write fun _ => [], classify catalog token = classify catalog' token) →
    fragment.calculation catalog = fragment.calculation catalog'
  | .run text tokens, h => by
    rw [Fragment.write] at h
    rw [Fragment.calculation, Fragment.calculation, classifyAll, classifyAll, mapM_congr h]
  | .group contents fragments, h => by
    have hfragments := elements_congr fragments (by simpa [Fragment.write] using h)
    rw [Fragment.calculation, Fragment.calculation, hfragments]

/-- Fragments give the same elements over two catalogs that decide their tokens alike. -/
theorem elements_congr : (fragments : List Fragment) →
    (∀ token ∈ Fragment.writeAll (fun _ => []) fragments,
      classify catalog token = classify catalog' token) →
    Fragment.elements catalog fragments = Fragment.elements catalog' fragments
  | [], _ => by rw [Fragment.elements, Fragment.elements]
  | fragment :: rest, h => by
    rw [Fragment.writeAll_cons, List.forall_mem_append] at h
    rw [Fragment.elements, Fragment.elements, calculation_congr fragment h.1,
      elements_congr rest h.2]

end

/-- A formula gives the same calculation over two catalogs that have the same elements, or none, for
its references. -/
theorem parse_congr {formula : String}
    (h : ∀ name, "[" ++ name ++ "]" ∈ tokenize formula →
      find? catalog name = find? catalog' name) :
    parse catalog formula = parse catalog' formula := by
  unfold parse
  cases hentries : fragments formula.toList with
  | error e => rfl
  | ok entries =>
    obtain ⟨items, hitems, rfl⟩ := exists_nest_of_fragments hentries
    rw [ok_bind, ok_bind, elements_congr]
    intro token htoken
    rw [writeAll_fragments, ← Nesting.runTokens, runTokens_of_nest hitems] at htoken
    refine classify_congr fun name hname => h name ?_
    rw [← hname]
    exact List.mem_map_of_mem (List.mem_of_mem_filter htoken)

end Formula

/-! ## Compiled configurations -/

/-- A formula of a configuration refers to a name. -/
def Config.RefersTo (config : Config) (name : String) : Prop :=
  ∃ formula ∈ config.formulas, "[" ++ name ++ "]" ∈ Formula.tokenize formula

theorem Config.refersTo_iff {config : Config} {name : String} :
    config.RefersTo name ↔
      name ∈ (config.formulas.flatMap Formula.tokenize).filterMap Formula.referenceName? := by
  rw [Formula.mem_filterMap_referenceName?_iff, List.mem_flatMap]
  rfl

namespace Scoring

variable {config config' : Config} {scoring scoring' : Scoring}

/-- The names of the lookups are those that the formulas refer to. -/
theorem mem_map_name_lookups_iff (h : compile config = .ok scoring) {name : String} :
    name ∈ scoring.root.lookups.map Element.name ↔ config.RefersTo name := by
  rw [names_of_compile h, Config.refersTo_iff]

theorem refersTo_of_mem_lookups (h : compile config = .ok scoring) {lookup : Element}
    (hmem : lookup ∈ scoring.root.lookups) : config.RefersTo lookup.name :=
  (mem_map_name_lookups_iff h).1 (List.mem_map_of_mem hmem)

theorem refersTo_of_mem_referenced (h : compile config = .ok scoring) {element : Element}
    (hmem : element ∈ scoring.referenced) : config.RefersTo element.name := by
  have hname := (mem_map_name_referenced_iff h).1 (List.mem_map_of_mem hmem)
  obtain ⟨lookup, hlookup, hsame⟩ := List.mem_map.1 hname
  exact hsame ▸ refersTo_of_mem_lookups h hlookup

/-- A configuration compiles to the same tree as another one with its formulas, if the catalogs have
the same elements for the names that these refer to. -/
theorem compile_of_find?_eq (h : compile config = .ok scoring)
    (hformulas : config'.formulas = config.formulas) {catalog : List Element}
    (hcatalog : catalogOf config'.definitions = .ok catalog)
    (hsame : ∀ name, config.RefersTo name →
      Formula.find? catalog name = Formula.find? scoring.catalog name) :
    compile config' = .ok ⟨scoring.root, catalog⟩ := by
  obtain ⟨_, roots, hroots, hroot⟩ := Config.compile_eq_ok_iff.1 h
  refine Config.compile_eq_ok_iff.2 ⟨hcatalog, roots, ?_, hroot⟩
  rw [hformulas, ← hroots]
  exact mapM_congr fun formula hmem =>
    Formula.parse_congr fun name htoken => hsame name ⟨formula, hmem, htoken⟩

/-- The breakdown has the same elements if the tree is the same and the catalogs have the same
elements for the names that it looks up. -/
theorem referenced_eq_of_find?_eq (h : compile config = .ok scoring)
    (h' : compile config' = .ok scoring') (hroot : scoring'.root = scoring.root)
    (hsame : ∀ name, config.RefersTo name →
      Formula.find? scoring'.catalog name = Formula.find? scoring.catalog name) :
    scoring'.referenced = scoring.referenced := by
  have hascending := pairwise_name_of_catalogOf (Config.compile_eq_ok_iff.1 h).1
  have hascending' := pairwise_name_of_catalogOf (Config.compile_eq_ok_iff.1 h').1
  have hsorted : scoring.referenced.Pairwise fun a b => a.name < b.name :=
    (List.pairwise_map.1 hascending).filter _
  have hsorted' : scoring'.referenced.Pairwise fun a b => a.name < b.name :=
    (List.pairwise_map.1 hascending').filter _
  have hne {a b : Element} (hab : a.name < b.name) : a ≠ b := by
    intro heq
    subst heq
    exact String.lt_irrefl _ hab
  -- either catalog has the element that it finds by its name
  have hmem (element : Element) : element ∈ scoring'.referenced ↔ element ∈ scoring.referenced := by
    unfold referenced
    rw [List.mem_filter, List.mem_filter, hroot]
    refine and_congr_left fun hcontains => ?_
    obtain ⟨lookup, hlookup, hname⟩ := List.mem_map.1 (List.contains_iff_mem.1 hcontains)
    have hfind := hsame element.name (hname ▸ refersTo_of_mem_lookups h hlookup)
    constructor
    · intro helement
      exact List.mem_of_find?_eq_some (hfind ▸ find?_of_mem hascending' helement)
    · intro helement
      exact List.mem_of_find?_eq_some (hfind.symm ▸ find?_of_mem hascending helement)
  have hperm : scoring'.referenced.Perm scoring.referenced :=
    (List.perm_ext_iff_of_nodup (hsorted'.imp hne) (hsorted.imp hne)).2 hmem
  exact hperm.eq_of_pairwise
    (fun a b _ _ hab hba => absurd (String.lt_trans hab hba) (String.lt_irrefl _)) hsorted' hsorted

/-- The score depends on the inputs that the formulas refer to. -/
theorem score_congr (h : compile config = .ok scoring) {inputs inputs' : Inputs}
    (hinputs : ∀ name, config.RefersTo name → inputs.get? name = inputs'.get? name) :
    scoring.score inputs = scoring.score inputs' := by
  have hcatalog := (Config.compile_eq_ok_iff.1 h).1
  have hvalue : scoring.evaluate inputs = scoring.evaluate inputs' := by
    refine evaluateWith_congr Operation.apply scoring.root.toElement fun lookup hlookup => ?_
    rw [Calculation.toElement, lookups_node] at hlookup
    exact hinputs _ (refersTo_of_mem_lookups h hlookup)
  have hfactors : scoring.referenced.mapM (factor inputs) =
      scoring.referenced.mapM (factor inputs') := by
    refine mapM_congr fun element hmem => ?_
    have hname := hinputs _ (refersTo_of_mem_referenced h hmem)
    have hlookup := isLookup_of_mem_catalog hcatalog (List.mem_of_mem_filter hmem)
    have houtput : element.evaluate inputs = element.evaluate inputs' := by
      refine evaluateWith_congr Operation.apply element fun lookup hlookups => ?_
      rw [lookups_of_isLookup hlookup, List.mem_singleton] at hlookups
      rwa [hlookups]
    unfold factor
    rw [fetch_congr hname, houtput]
  unfold score
  rw [hvalue, hfactors]

/-- A configuration that compiles keeps its tree and all its scores, with their breakdowns and
errors, when elements that its formulas do not refer to are added, removed or defined anew, as long
as each definition gives an element. And it scores two maps of inputs alike if they have the same
inputs, or none, for the names that its formulas refer to. -/
theorem score_eq_of_agree (h : compile config = .ok scoring) :
    (∀ config' : Config, config'.formulas = config.formulas →
      (∀ name, config.RefersTo name →
        config'.definitions.get? name = config.definitions.get? name) →
      (∀ entry ∈ config'.definitions.entries, ∃ element, entry.2.element entry.1 = .ok element) →
      ∃ scoring', compile config' = .ok scoring' ∧ scoring'.root = scoring.root ∧
        ∀ inputs, scoring'.score inputs = scoring.score inputs) ∧
    ∀ inputs inputs' : Inputs,
      (∀ name, config.RefersTo name → inputs.get? name = inputs'.get? name) →
      scoring.score inputs = scoring.score inputs' := by
  refine ⟨fun config' hformulas hdefinitions helements => ?_, fun inputs inputs' => score_congr h⟩
  have hcatalog := (Config.compile_eq_ok_iff.1 h).1
  obtain ⟨catalog, hcatalog'⟩ : ∃ catalog, catalogOf config'.definitions = .ok catalog :=
    exists_mapM_eq_ok_iff.2 helements
  have hsame : ∀ name, config.RefersTo name →
      Formula.find? catalog name = Formula.find? scoring.catalog name := by
    intro name hname
    rw [Formula.find?_of_catalogOf hcatalog', Formula.find?_of_catalogOf hcatalog,
      hdefinitions name hname]
  have hcompile := compile_of_find?_eq h hformulas hcatalog' hsame
  refine ⟨_, hcompile, rfl, fun inputs => ?_⟩
  have hreferenced := referenced_eq_of_find?_eq h hcompile rfl hsame
  unfold score
  rw [hreferenced]
  rfl

/-- Of the configuration's two elements the formula refers to one; the other is replaced. -/
theorem score_eq_of_agree_of_replaced :
    let config : Config := ⟨["[A] * 2"], .ofList [("A", .range [0, 10]), ("B", .range [0, 1])]⟩
    let config' : Config :=
      ⟨["[A] * 2"], .ofList [("A", .range [0, 10]), ("C", .interval ["< 5: 1"])]⟩
    ∃ scoring scoring', compile config = .ok scoring ∧ compile config' = .ok scoring' ∧
      scoring'.root = scoring.root ∧ (∀ inputs, scoring'.score inputs = scoring.score inputs) ∧
      scoring.score (.ofList [("A", 3), ("B", 9)]) = scoring.score (.ofList [("A", 3)]) := by
  intro config config'
  have hsome : (compile config).toOption.isSome = true := by decide +kernel
  have hsome' : (catalogOf config'.definitions).toOption.isSome = true := by decide +kernel
  have hreferences : (Formula.tokenize "[A] * 2").filterMap Formula.referenceName? = ["A"] := by
    decide +kernel
  have hrefers {name : String} (hname : config.RefersTo name) : name = "A" := by
    obtain ⟨formula, hmem, htoken⟩ := hname
    rw [List.mem_singleton.1 hmem, ← Formula.mem_filterMap_referenceName?_iff,
      hreferences] at htoken
    exact List.mem_singleton.1 htoken
  rcases exists_ok_or_error (compile config) with ⟨scoring, hscoring⟩ | ⟨e, he⟩
  · rcases exists_ok_or_error (catalogOf config'.definitions) with ⟨catalog, hcatalog⟩ | ⟨e, he⟩
    · obtain ⟨hconfig, hinputs⟩ := score_eq_of_agree hscoring
      obtain ⟨scoring', hscoring', hroot, hscores⟩ := hconfig config' rfl
        (fun name hname => by rw [hrefers hname, NameMap.get?_ofList, NameMap.get?_ofList]; rfl)
        (exists_mapM_eq_ok_iff.1 ⟨catalog, hcatalog⟩)
      refine ⟨scoring, scoring', hscoring, hscoring', hroot, hscores, hinputs _ _ ?_⟩
      intro name hname
      rw [hrefers hname, NameMap.get?_ofList, NameMap.get?_ofList]
      rfl
    · rw [he] at hsome'
      cases hsome'
  · rw [he] at hsome
    cases hsome

end Scoring

end Scorecard
