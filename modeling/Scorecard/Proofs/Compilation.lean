import Scorecard.Proofs.ByteOrder
import Scorecard.Proofs.ClosedBands
import Scorecard.Proofs.References
import Scorecard.Proofs.Soundness

/-!
# What compilation promises

A compiled configuration keeps what its parts guarantee. The catalog has one sound element for each
definition, in the order of the names' bytes; the tree is made of finite constants, elements of the
catalog and named operations; and it looks up what the formulas refer to, in their order. All of it
is `Scoring.WellFormed`. Main statement: `wellFormed_of_compile`.
-/

namespace Scorecard

open Attempt Element

/-! ## Elements of definitions -/

/-- What a definition makes of a name: a range with finite bounds in order, or an interval with one
band for each rule. -/
inductive Definition.Makes (name : String) : Definition → Element → Prop where
  | range {lower upper : Float} (hlower : lower.isFinite = true) (hupper : upper.isFinite = true)
      (hle : lower ≤ upper) :
      Makes name (.range [lower, upper]) (.bounded name (some lower) (some upper))
  | interval {rules : List String} {bands : List Band}
      (hbands : List.Forall₂ (Rule.Describes name) rules bands) :
      Makes name (.interval rules) (.banded name bands uncoveredScore)

theorem makes_of_element {name : String} {definition : Definition} {element : Element}
    (h : definition.element name = .ok element) : definition.Makes name element := by
  cases definition with
  | interval rules =>
    obtain ⟨bands, rfl, hbands⟩ := Rule.describes_of_interval h
    exact .interval hbands
  | range bounds =>
    unfold Definition.element at h
    split at h
    · rcases bounds with _ | ⟨lower, _ | ⟨upper, _ | ⟨more, rest⟩⟩⟩
      · cases h
      · cases h
      · simp only at h
        split at h
        · rename_i hsound
          cases h
          simp only [Bool.and_eq_true, decide_eq_true_eq] at hsound
          exact .range hsound.1.1 hsound.1.2 hsound.2
        · cases h
      · cases h
    · cases h
  | malformed kind =>
    unfold Definition.element at h
    split at h
    · cases kind <;> cases h
    · cases h

theorem isReferable_of_element {name : String} {definition : Definition} {element : Element}
    (h : definition.element name = .ok element) : isReferable name = true := by
  unfold Definition.element at h
  split at h
  · assumption
  · cases h

theorem isReferable_iff {name : String} :
    isReferable name = true ↔ '[' ∉ name.toList ∧ ']' ∉ name.toList := by
  simp only [isReferable, Bool.not_eq_true', List.any_eq_false, Bool.or_eq_true, beq_iff_eq]
  constructor
  · intro h
    exact ⟨fun hmem => h _ hmem (.inl rfl), fun hmem => h _ hmem (.inr rfl)⟩
  · intro ⟨hopen, hclose⟩ c hc heq
    rcases heq with rfl | rfl
    · exact hopen hc
    · exact hclose hc

/-! ## Catalogs -/

section

variable {definitions : NameMap Definition} {catalog : List Element}

theorem map_name_of_catalogOf (h : catalogOf definitions = .ok catalog) :
    catalog.map Element.name = definitions.entries.map Prod.fst := by
  have hpairs := forall₂_of_catalogOf h
  clear h
  generalize definitions.entries = entries at hpairs
  induction hpairs with
  | nil => rfl
  | cons helement _ ih =>
    rw [List.map_cons, List.map_cons, ih, (isLookup_and_name_of_element helement).2]

/-- The names of a catalog ascend, so no name comes twice. -/
theorem pairwise_name_of_catalogOf (h : catalogOf definitions = .ok catalog) :
    (catalog.map Element.name).Pairwise (· < ·) := by
  rw [map_name_of_catalogOf h, List.pairwise_map]
  exact definitions.ascending

theorem find?_of_mem (h : (catalog.map Element.name).Pairwise (· < ·)) {element : Element}
    (hmem : element ∈ catalog) : Formula.find? catalog element.name = some element := by
  induction catalog with
  | nil => cases hmem
  | cons first rest ih =>
    obtain ⟨hfirst, hrest⟩ := List.pairwise_cons.1 h
    unfold Formula.find? at ih ⊢
    rcases List.mem_cons.1 hmem with rfl | hmem
    · rw [List.find?_cons_of_pos (by simp)]
    · have hne : first.name ≠ element.name := by
        intro heq
        have hlt := hfirst element.name (List.mem_map_of_mem hmem)
        rw [heq] at hlt
        exact String.lt_irrefl _ hlt
      rw [List.find?_cons_of_neg (by simpa using hne)]
      exact ih hrest hmem

theorem eq_of_name_eq (h : (catalog.map Element.name).Pairwise (· < ·)) {a b : Element}
    (ha : a ∈ catalog) (hb : b ∈ catalog) (hname : a.name = b.name) : a = b := by
  have hfound := find?_of_mem h ha
  rw [hname, find?_of_mem h hb] at hfound
  exact (Option.some_inj.1 hfound).symm

end

/-! ## Compiled configurations -/

namespace Scoring

/-- What a compiled configuration guarantees. -/
structure WellFormed (config : Config) (scoring : Scoring) : Prop where
  /-- The catalog has the names of the definitions. -/
  names : scoring.catalog.map Element.name = config.definitions.entries.map Prod.fst
  /-- The names ascend by their bytes. -/
  ascending : (scoring.catalog.map Element.name).Pairwise fun a b => Text.bytes a < Text.bytes b
  /-- A reference can spell each name. -/
  referable : ∀ element ∈ scoring.catalog,
    '[' ∉ element.name.toList ∧ ']' ∉ element.name.toList
  /-- Each element is what its definition makes of its name. -/
  elements : List.Forall₂ (fun (entry : String × Definition) element =>
    entry.2.Makes entry.1 element) config.definitions.entries scoring.catalog
  /-- The root is a sum. -/
  root : scoring.root.operation = .add
  /-- An inner node is named by the symbol of its operation. -/
  symbols : ∀ name operation children,
    Within (.node name operation children) scoring.root.toElement → name = operation.symbol
  /-- A constant is finite. -/
  constants : ∀ name value,
    Within (.constant name value) scoring.root.toElement → value.isFinite = true
  /-- A lookup is the element of its name in the catalog. -/
  leaves : ∀ leaf, Within leaf scoring.root.toElement → leaf.isLookup = true →
    Formula.find? scoring.catalog leaf.name = some leaf
  /-- The lookups are the references of the formulas, in their order. -/
  references : scoring.root.lookups.map Element.name =
    (config.formulas.flatMap Formula.tokenize).filterMap Formula.referenceName?

variable {config : Config} {scoring : Scoring}

theorem lookupsAll_flatMap_children (roots : List Calculation) :
    lookupsAll (roots.flatMap Calculation.children) = roots.flatMap Calculation.lookups := by
  induction roots with
  | nil => simp
  | cons root rest ih =>
    rw [List.flatMap_cons, List.flatMap_cons, lookupsAll_append, ih]
    rfl

/-- A compiled configuration looks up what its formulas refer to. -/
theorem names_of_compile (h : compile config = .ok scoring) :
    scoring.root.lookups.map Element.name =
      (config.formulas.flatMap Formula.tokenize).filterMap Formula.referenceName? := by
  obtain ⟨hcatalog, roots, hroots, hroot⟩ := Config.compile_eq_ok_iff.1 h
  have hlookups : scoring.root.lookups = roots.flatMap Calculation.lookups := by
    rw [hroot]
    exact lookupsAll_flatMap_children roots
  have hpairs := mapM_eq_ok_iff.1 hroots
  rw [hlookups]
  clear hlookups hroot hroots h
  generalize config.formulas = formulas at hpairs
  induction hpairs with
  | nil => rfl
  | cons hparse _ ih =>
    rw [List.flatMap_cons, List.flatMap_cons, List.map_append, List.filterMap_append, ih,
      Formula.names_of_parse (Formula.lookupsOnly_of_catalogOf hcatalog) hparse]

/-- A configuration that compiles is well formed when compiled. -/
theorem wellFormed_of_compile (h : compile config = .ok scoring) : scoring.WellFormed config := by
  obtain ⟨hcatalog, roots, _, hroot⟩ := Config.compile_eq_ok_iff.1 h
  have hascending := pairwise_name_of_catalogOf hcatalog
  have hmade {element : Element} (hwithin : Within element scoring.root.toElement) :
      MadeOf scoring.catalog element :=
    (Config.madeOf_of_compile h).within hwithin
  refine
    { names := map_name_of_catalogOf hcatalog
      ascending := hascending.imp Text.bytes_lt_iff.2
      referable := fun element hmem => ?_
      elements := (forall₂_of_catalogOf hcatalog).imp fun _ _ => makes_of_element
      root := by rw [hroot]; rfl
      symbols := fun name operation children hwithin => (madeOf_node_iff.1 (hmade hwithin)).1
      constants := fun name value hwithin => ?_
      leaves := fun leaf hwithin hlookup => ?_
      references := names_of_compile h }
  · obtain ⟨⟨name, definition⟩, _, helement⟩ := exists_of_mem_mapM hcatalog hmem
    rw [(isLookup_and_name_of_element helement).2]
    exact isReferable_iff.1 (isReferable_of_element helement)
  · cases hmade hwithin with
    | constant hvalue => exact hvalue
    | lookup hlookup _ => cases hlookup
  · exact find?_of_mem hascending ((hmade hwithin).mem_of_isLookup hlookup)

/-- The configuration to start from is well formed when compiled. -/
theorem wellFormed_of_compile_starter :
    ∃ scoring, compile Config.starter = .ok scoring ∧ scoring.WellFormed Config.starter ∧
      scoring.root.lookups.map Element.name = ["Account Age", "Transactions", "Balance"] := by
  have hsome : (compile Config.starter).toOption.isSome = true := by decide +kernel
  have hnames : (Config.starter.formulas.flatMap Formula.tokenize).filterMap
      Formula.referenceName? = ["Account Age", "Transactions", "Balance"] := by decide +kernel
  rcases exists_ok_or_error (compile Config.starter) with ⟨scoring, hscoring⟩ | ⟨e, he⟩
  · have hwell := wellFormed_of_compile hscoring
    exact ⟨scoring, hscoring, hwell, hwell.references.trans hnames⟩
  · rw [he] at hsome
    cases hsome

end Scoring

end Scorecard
