import Scorecard.Proofs.Compilation
import Scorecard.Proofs.DepthFirst

/-!
# What a breakdown tells

A score is the value of its calculation, and its breakdown tells where it comes from. The breakdown
is computed beside the value: from the elements of the catalog, by the names that the tree looks up,
with the inputs read once more. Yet it cannot fail if there is a value, and its outputs are those of
the leaves, because a leaf is the one element of its name. Main statement: `score_outcome`.
-/

namespace Scorecard

open Attempt Element Number

/-! ## Spans -/

namespace Span

/-- A number lies in a span. -/
def Holds (span : Span) (x : Float) : Prop :=
  span.least ≤ x ∧ x ≤ span.greatest

theorem foldl_eq (xs : List Float) (span : Span) :
    xs.foldl (fun span x => ⟨smaller span.least x, greater span.greatest x⟩) span =
      ⟨xs.foldl smaller span.least, xs.foldl greater span.greatest⟩ := by
  induction xs generalizing span with
  | nil => rfl
  | cons x xs ih => rw [List.foldl_cons, List.foldl_cons, List.foldl_cons, ih]

/-- The span of numbers holds each of them. -/
theorem holds_ofList {xs : List Float} (hxs : ∀ x ∈ xs, x.isNaN = false) {x : Float}
    (hx : x ∈ xs) : (ofList xs).Holds x := by
  have hleast : ∀ y ∈ infinity :: xs, y.isNaN = false :=
    List.forall_mem_cons.2 ⟨by decide, hxs⟩
  have hgreatest : ∀ y ∈ negativeInfinity :: xs, y.isNaN = false :=
    List.forall_mem_cons.2 ⟨by decide, hxs⟩
  obtain ⟨hleastMem, hleastBound⟩ := keepsGreater_smaller.foldl hleast
  obtain ⟨hgreatestMem, hgreatestBound⟩ := keepsGreater_greater.foldl hgreatest
  rw [ofList, foldl_eq]
  constructor
  · exact le_iff_point.2 ⟨hleast _ hleastMem, hxs x hx,
      OrderDual.toDual_le_toDual.1 (hleastBound x (List.mem_cons_of_mem _ hx))⟩
  · exact le_iff_point.2 ⟨hxs x hx, hgreatest _ hgreatestMem,
      hgreatestBound x (List.mem_cons_of_mem _ hx)⟩

/-- What is held within bounds lies between them, unless it is NaN. -/
theorem holds_holdWithin {lower upper x : Float} (hle : lower ≤ upper) (hx : x.isNaN = false) :
    Holds ⟨lower, upper⟩ (holdWithin (some lower) (some upper) x) := by
  obtain ⟨hlower, hupper, hpoints⟩ := le_iff_point.1 hle
  have hraised : (greater x lower).isNaN = false ∧ point lower ≤ point (greater x lower) := by
    rcases keepsGreater_greater x lower hx hlower with ⟨heq, hkey⟩ | ⟨heq, _⟩
    · rw [heq]
      exact ⟨hx, hkey⟩
    · rw [heq]
      exact ⟨hlower, le_refl _⟩
  have hvalue : holdWithin (some lower) (some upper) x = smaller (greater x lower) upper := by
    rw [holdWithin, hx, if_neg Bool.false_ne_true]
  rw [hvalue]
  obtain ⟨hnan, hraised⟩ := hraised
  rcases keepsGreater_smaller _ upper hnan hupper with ⟨heq, hkey⟩ | ⟨heq, _⟩
  · rw [heq]
    exact ⟨le_iff_point.2 ⟨hlower, hnan, hraised⟩,
      le_iff_point.2 ⟨hnan, hupper, OrderDual.toDual_le_toDual.1 hkey⟩⟩
  · rw [heq]
    exact ⟨hle, le_iff_point.2 ⟨hupper, hupper, le_refl _⟩⟩

end Span

theorem Band.scoreAmong_mem (bands : List Band) (fallback x : Float) :
    scoreAmong bands fallback x ∈ bands.map Band.score ++ [fallback] := by
  unfold scoreAmong
  split
  · rename_i hfind
    exact List.mem_append_left _ (List.mem_map_of_mem (List.mem_of_find?_eq_some hfind))
  · simp

theorem isNaN_of_mem_scores {name : String} {rules : List String} {bands : List Band}
    (h : List.Forall₂ (Rule.Describes name) rules bands) :
    ∀ x ∈ bands.map Band.score ++ [uncoveredScore], x.isNaN = false := by
  have hbands : ∀ band ∈ bands, band.score.isNaN = false := by
    induction h with
    | nil => simp
    | cons hdescribes _ ih =>
      obtain ⟨_, _, _, hsound⟩ := hdescribes
      exact List.forall_mem_cons.2 ⟨isNaN_of_isFinite hsound.score_isFinite, ih⟩
  intro x hx
  rcases List.mem_append.1 hx with hx | hx
  · obtain ⟨band, hmem, rfl⟩ := List.mem_map.1 hx
    exact hbands band hmem
  · rw [List.mem_singleton.1 hx]
    decide

/-! ## Factors -/

theorem Inputs.fetch_eq_ok_iff {inputs : Inputs} {name : String} {x : Float} :
    inputs.fetch name = .ok x ↔ inputs.get? name = some x := by
  unfold Inputs.fetch
  cases inputs.get? name <;> simp

/-- The output of an element lies in its span, unless a range gets NaN. -/
theorem Definition.Makes.holds_span {name : String} {definition : Definition} {element : Element}
    (h : definition.Makes name element) {inputs : Inputs} {x output : Float}
    (hinput : inputs.get? name = some x) (houtput : element.evaluate inputs = .ok output)
    (hx : (∃ bounds, definition = .range bounds) → x.isNaN = false) :
    element.span.Holds output := by
  have hfetch := Inputs.fetch_eq_ok_iff.2 hinput
  cases h with
  | range _ _ hle =>
    obtain ⟨x', hx', hvalue⟩ := bind_eq_ok_iff.1 houtput
    rw [hfetch] at hx'
    cases hx'
    cases hvalue
    exact Span.holds_holdWithin hle (hx ⟨_, rfl⟩)
  | interval hbands =>
    obtain ⟨x', _, hvalue⟩ := bind_eq_ok_iff.1 houtput
    cases hvalue
    exact Span.holds_ofList (isNaN_of_mem_scores hbands) (Band.scoreAmong_mem _ _ _)

theorem holds_span_of_mem_catalog {definitions : NameMap Definition} {catalog : List Element}
    (h : catalogOf definitions = .ok catalog) {element : Element} (hmem : element ∈ catalog)
    {inputs : Inputs} {x output : Float} (hinput : inputs.get? element.name = some x)
    (houtput : element.evaluate inputs = .ok output)
    (hx : ¬((∃ bounds, definitions.get? element.name = some (.range bounds)) ∧ x.isNaN = true)) :
    element.span.Holds output := by
  obtain ⟨⟨name, definition⟩, hentry, hmade⟩ := exists_of_mem_mapM h hmem
  have hname : element.name = name := (isLookup_and_name_of_element hmade).2
  have hget : definitions.get? element.name = some definition :=
    hname ▸ NameMap.get?_eq_some_iff.2 hentry
  refine (makes_of_element hmade).holds_span (hname ▸ hinput) houtput fun ⟨bounds, hbounds⟩ => ?_
  rw [hbounds] at hget
  exact Bool.eq_false_iff.2 fun hnan => hx ⟨⟨bounds, hget⟩, hnan⟩

namespace Scoring

theorem of_factor_eq_ok {inputs : Inputs} {element : Element} {share : Factor}
    (h : factor inputs element = .ok share) :
    share.name = element.name ∧ share.span = element.span ∧
      inputs.get? element.name = some share.input ∧
      element.evaluate inputs = .ok share.output := by
  obtain ⟨input, hinput, hrest⟩ := bind_eq_ok_iff.1 h
  obtain ⟨output, houtput, hshare⟩ := bind_eq_ok_iff.1 hrest
  cases hshare
  exact ⟨rfl, rfl, Inputs.fetch_eq_ok_iff.1 hinput, houtput⟩

theorem exists_factor_eq_ok {inputs : Inputs} {element : Element} (h : element.isLookup = true)
    {x : Float} (hx : inputs.get? element.name = some x) :
    ∃ share, factor inputs element = .ok share := by
  rcases exists_ok_or_error (factor inputs element) with hok | ⟨e, he⟩
  · exact hok
  · have hnone := (Config.lacksInput_of_factor_eq_error h he).2
    rw [hx] at hnone
    cases hnone

/-! ## Breakdowns -/

/-- What a breakdown tells of the calculation of a compiled configuration. -/
structure Explains (config : Config) (scoring : Scoring) (inputs : Inputs) (factors : List Factor) :
    Prop where
  /-- The names ascend by their bytes, so no name comes twice. -/
  ascending : (factors.map Factor.name).Pairwise fun a b => Text.bytes a < Text.bytes b
  /-- The names are those that the formulas refer to. -/
  names : ∀ name, name ∈ factors.map Factor.name ↔
    ∃ formula ∈ config.formulas, "[" ++ name ++ "]" ∈ Formula.tokenize formula
  /-- The input of a factor is what is given for its name. -/
  input : ∀ share ∈ factors, inputs.get? share.name = some share.input
  /-- The output of a factor is the value of each leaf that looks its name up. -/
  output : ∀ share ∈ factors, ∀ leaf, Within leaf scoring.root.toElement →
    leaf.isLookup = true → leaf.name = share.name → leaf.evaluate inputs = .ok share.output
  /-- The output of a factor lies in its span, unless it is a range and its input NaN. -/
  span : ∀ share ∈ factors,
    ¬((∃ bounds, config.definitions.get? share.name = some (.range bounds)) ∧
      share.input.isNaN = true) →
    share.span.least ≤ share.output ∧ share.output ≤ share.span.greatest

variable {config : Config} {scoring : Scoring} {inputs : Inputs} {factors : List Factor}

theorem map_name_of_mapM_factor {elements : List Element}
    (h : elements.mapM (factor inputs) = .ok factors) :
    factors.map Factor.name = elements.map Element.name := by
  have hpairs := mapM_eq_ok_iff.1 h
  clear h
  induction hpairs with
  | nil => rfl
  | cons hshare _ ih => rw [List.map_cons, List.map_cons, ih, (of_factor_eq_ok hshare).1]

/-- The elements of a breakdown are those that the tree looks up. -/
theorem mem_map_name_referenced_iff (h : compile config = .ok scoring) {name : String} :
    name ∈ scoring.referenced.map Element.name ↔ name ∈ scoring.root.lookups.map Element.name := by
  constructor
  · intro hname
    obtain ⟨element, hmem, rfl⟩ := List.mem_map.1 hname
    exact List.contains_iff_mem.1 (List.mem_filter.1 hmem).2
  · intro hname
    obtain ⟨lookup, hmem, rfl⟩ := List.mem_map.1 hname
    exact List.mem_map_of_mem (Config.mem_referenced h hmem)

/-- The elements of a breakdown have inputs if the calculation has a value. -/
theorem present_referenced (h : compile config = .ok scoring) {value : Float}
    (hvalue : scoring.root.evaluate inputs = .ok value) : Present inputs scoring.referenced := by
  have hlookups : scoring.root.toElement.lookups = scoring.root.lookups := lookups_node _ _ _
  have hpresent : Present inputs scoring.root.lookups :=
    hlookups ▸ ((exists_evaluateWith_eq_ok_iff _ _ _).1 ⟨value, hvalue⟩).2
  intro element hmem
  have hname := (mem_map_name_referenced_iff h).1 (List.mem_map_of_mem hmem)
  obtain ⟨lookup, hlookup, hsame⟩ := List.mem_map.1 hname
  exact hsame ▸ hpresent lookup hlookup

theorem explains_of_mapM_factor (h : compile config = .ok scoring)
    (hfactors : scoring.referenced.mapM (factor inputs) = .ok factors) :
    scoring.Explains config inputs factors := by
  have hcatalog := (Config.compile_eq_ok_iff.1 h).1
  have hascending := pairwise_name_of_catalogOf hcatalog
  have hnames := map_name_of_mapM_factor hfactors
  have hshare : ∀ share ∈ factors, ∃ element ∈ scoring.catalog,
      factor inputs element = .ok share := by
    intro share hmem
    obtain ⟨element, helement, hok⟩ := exists_of_mem_mapM hfactors hmem
    exact ⟨element, List.mem_of_mem_filter helement, hok⟩
  refine
    { ascending := ?_
      names := fun name => ?_
      input := fun share hmem => ?_
      output := fun share hmem leaf hwithin hlookup hname => ?_
      span := fun share hmem hspan => ?_ }
  · rw [hnames, List.pairwise_map]
    exact ((List.pairwise_map.1 hascending).filter _).imp Text.bytes_lt_iff.2
  · rw [hnames, mem_map_name_referenced_iff h, names_of_compile h,
      Formula.mem_filterMap_referenceName?_iff, List.mem_flatMap]
  · obtain ⟨element, _, hok⟩ := hshare share hmem
    obtain ⟨hname, _, hinput, _⟩ := of_factor_eq_ok hok
    exact hname ▸ hinput
  · obtain ⟨element, helement, hok⟩ := hshare share hmem
    obtain ⟨hsame, _, _, houtput⟩ := of_factor_eq_ok hok
    -- both the leaf and the element of the factor are the element of that name
    have hleaf := ((Config.madeOf_of_compile h).within hwithin).mem_of_isLookup hlookup
    rw [eq_of_name_eq hascending hleaf helement (hname.trans hsame)]
    exact houtput
  · obtain ⟨element, helement, hok⟩ := hshare share hmem
    obtain ⟨hsame, hspans, hinput, houtput⟩ := of_factor_eq_ok hok
    rw [hspans]
    exact holds_span_of_mem_catalog hcatalog helement hinput houtput (hsame ▸ hspan)

/-- A score fails exactly as its calculation does. Otherwise it has the value of the calculation,
and its breakdown explains it. -/
theorem score_outcome (h : compile config = .ok scoring) (inputs : Inputs) :
    (∀ e, scoring.score inputs = .error e ↔ scoring.root.evaluate inputs = .error e) ∧
      ∀ value, scoring.root.evaluate inputs = .ok value →
        ∃ factors, scoring.score inputs = .ok ⟨value, factors⟩ ∧
          scoring.Explains config inputs factors := by
  have hcatalog := (Config.compile_eq_ok_iff.1 h).1
  have hbreakdown {value : Float} (hvalue : scoring.root.evaluate inputs = .ok value) :
      ∃ factors, scoring.referenced.mapM (factor inputs) = .ok factors := by
    refine exists_mapM_eq_ok_iff.2 fun element hmem => ?_
    obtain ⟨x, hx⟩ := present_referenced h hvalue element hmem
    exact exists_factor_eq_ok (isLookup_of_mem_catalog hcatalog (List.mem_of_mem_filter hmem)) hx
  refine ⟨fun e => ⟨fun herror => ?_, fun herror => ?_⟩, fun value hvalue => ?_⟩
  · rcases bind_eq_error_iff.1 herror with hvalue | ⟨value, hvalue, hrest⟩
    · exact hvalue
    · obtain ⟨factors, hfactors⟩ := hbreakdown hvalue
      rw [hfactors] at hrest
      cases hrest
  · exact bind_eq_error_iff.2 (.inl herror)
  · obtain ⟨factors, hfactors⟩ := hbreakdown hvalue
    refine ⟨factors, ?_, explains_of_mapM_factor h hfactors⟩
    exact bind_eq_ok_iff.2 ⟨value, hvalue, bind_eq_ok_iff.2 ⟨factors, hfactors, rfl⟩⟩

/-- The configuration to start from scores an account; the factors are in the order of the names. -/
theorem score_outcome_starter :
    let inputs := NameMap.ofList [("Account Age", 400), ("Transactions", 50), ("Balance", 1000)]
    ∃ scoring value factors, compile Config.starter = .ok scoring ∧
      scoring.score inputs = .ok ⟨value, factors⟩ ∧
      scoring.Explains Config.starter inputs factors ∧
      factors.map Factor.name = ["Account Age", "Balance", "Transactions"] := by
  intro inputs
  have hnames : ((compile Config.starter).toOption.bind fun scoring =>
      (scoring.score inputs).toOption.map fun score => score.factors.map Factor.name) =
      some ["Account Age", "Balance", "Transactions"] := by decide +kernel
  rcases exists_ok_or_error (compile Config.starter) with ⟨scoring, hscoring⟩ | ⟨e, he⟩
  · obtain ⟨herror, hok⟩ := score_outcome hscoring inputs
    rw [hscoring, Except.toOption, Option.bind_some] at hnames
    rcases exists_ok_or_error (scoring.root.evaluate inputs) with ⟨value, hvalue⟩ | ⟨e, he⟩
    · obtain ⟨factors, hscore, hexplains⟩ := hok value hvalue
      rw [hscore] at hnames
      exact ⟨scoring, value, factors, hscoring, hscore, hexplains, Option.some_inj.1 hnames⟩
    · rw [(herror e).2 he] at hnames
      cases hnames
  · rw [he] at hnames
    cases hnames

end Scoring

end Scorecard
