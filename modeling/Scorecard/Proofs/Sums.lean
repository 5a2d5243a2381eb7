import Scorecard.Proofs.Insertion
import Scorecard.Proofs.Interpretation

/-!
# Sums of several formulas

The sum of several formulas adds all their fragments from left to right. Written in parentheses one
behind the other, the formulas make one formula that adds their own values instead. Both trees have
the same faults, so they fail alike; but their values differ where addition does not associate,
unless every formula but the first is a single fragment. Main statement: `evaluateWith_parseSum`.
-/

namespace Scorecard

open Attempt Element

/-! ## Faults -/

namespace Element

theorem faultsAmong_eq_flatMap (inputs : Inputs) (trees : List Element) :
    faultsAmong inputs trees = trees.flatMap (faults inputs) := by
  induction trees with
  | nil => rfl
  | cons tree rest ih => rw [faultsAmong, ih, List.flatMap_cons]

/-- A calculation that has children has their faults. -/
theorem faults_toElement (inputs : Inputs) {calculation : Calculation}
    (h : calculation.children ≠ []) :
    calculation.toElement.faults inputs = calculation.children.flatMap (faults inputs) := by
  obtain ⟨name, operation, children⟩ := calculation
  cases children with
  | nil => exact absurd rfl h
  | cons child rest => exact faultsAmong_eq_flatMap inputs (child :: rest)

end Element

namespace Formula

/-! ## Sums of sums -/

section

variable (arithmetic : Arithmetic)

/-- A total with further values added from left to right. -/
def addAll (total : Float) (values : List (Except EvaluationError Float)) :
    Except EvaluationError Float :=
  values.foldlM (fun total value => do return arithmetic .add total (← value)) total

theorem sumValue_cons (first : Except EvaluationError Float)
    (rest : List (Except EvaluationError Float)) :
    sumValue arithmetic (first :: rest) = first >>= fun total => addAll arithmetic total rest := rfl

theorem addAll_cons (total : Float) (first : Except EvaluationError Float)
    (rest : List (Except EvaluationError Float)) :
    addAll arithmetic total (first :: rest) =
      first >>= fun value => addAll arithmetic (arithmetic .add total value) rest := by
  unfold addAll
  rw [List.foldlM_cons]
  cases first <;> rfl

theorem addAll_append (total : Float) (values more : List (Except EvaluationError Float)) :
    addAll arithmetic total (values ++ more) =
      addAll arithmetic total values >>= fun total => addAll arithmetic total more := by
  unfold addAll
  exact List.foldlM_append

theorem sumValue_append {values : List (Except EvaluationError Float)} (h : values ≠ [])
    (more : List (Except EvaluationError Float)) :
    sumValue arithmetic (values ++ more) =
      sumValue arithmetic values >>= fun total => addAll arithmetic total more := by
  cases values with
  | nil => exact absurd rfl h
  | cons first rest =>
    rw [List.cons_append, sumValue_cons, sumValue_cons, bind_assoc]
    simp only [addAll_append]

theorem sumValue_singleton (value : Except EvaluationError Float) :
    sumValue arithmetic [value] = value := by
  cases value <;> rfl

/-- Addition does not depend on how summands are grouped. -/
def AddsAssociatively : Prop :=
  ∀ x y z, arithmetic .add (arithmetic .add x y) z = arithmetic .add x (arithmetic .add y z)

variable {arithmetic}

/-- Values can be added to a total one by one or all at once. -/
theorem AddsAssociatively.addAll_eq (h : AddsAssociatively arithmetic) (total : Float)
    {values : List (Except EvaluationError Float)} (hne : values ≠ []) :
    addAll arithmetic total values =
      sumValue arithmetic values >>= fun sum => .ok (arithmetic .add total sum) := by
  cases values with
  | nil => exact absurd rfl hne
  | cons first rest =>
    rw [addAll_cons, sumValue_cons, bind_assoc]
    refine congrArg _ (funext fun value => ?_)
    clear hne
    induction rest generalizing value with
    | nil => rfl
    | cons next rest ih =>
      rw [addAll_cons, addAll_cons, bind_assoc]
      refine congrArg _ (funext fun other => ?_)
      rw [h, ih]

theorem AddsAssociatively.addAll_map_sumValue (h : AddsAssociatively arithmetic) (total : Float)
    {sums : List (List (Except EvaluationError Float))} (hne : ∀ values ∈ sums, values ≠ []) :
    addAll arithmetic total (sums.map (sumValue arithmetic)) =
      addAll arithmetic total sums.flatten := by
  induction sums generalizing total with
  | nil => rfl
  | cons values rest ih =>
    obtain ⟨hvalues, hrest⟩ := List.forall_mem_cons.1 hne
    rw [List.map_cons, List.flatten_cons, addAll_append, h.addAll_eq total hvalues, addAll_cons,
      bind_assoc]
    refine congrArg _ (funext fun sum => ?_)
    exact ih (arithmetic .add total sum) hrest

/-- Where addition associates, a sum of sums is the sum of all summands. -/
theorem AddsAssociatively.sumValue_map_sumValue (h : AddsAssociatively arithmetic)
    {sums : List (List (Except EvaluationError Float))} (hne : ∀ values ∈ sums, values ≠ []) :
    sumValue arithmetic (sums.map (sumValue arithmetic)) = sumValue arithmetic sums.flatten := by
  cases sums with
  | nil => rfl
  | cons values rest =>
    obtain ⟨hvalues, hrest⟩ := List.forall_mem_cons.1 hne
    rw [List.map_cons, List.flatten_cons, sumValue_append _ hvalues, sumValue_cons]
    refine congrArg _ (funext fun sum => ?_)
    exact h.addAll_map_sumValue sum hrest

variable (arithmetic)

/-- If all but the first have one summand, a sum of sums is the sum of all summands. -/
theorem sumValue_map_sumValue_of_singletons {sums : List (List (Except EvaluationError Float))}
    (hne : ∀ values ∈ sums, values ≠ []) (hone : ∀ values ∈ sums.tail, values.length = 1) :
    sumValue arithmetic (sums.map (sumValue arithmetic)) = sumValue arithmetic sums.flatten := by
  cases sums with
  | nil => rfl
  | cons values rest =>
    have hrest : rest.map (sumValue arithmetic) = rest.flatten := by
      rw [List.tail_cons] at hone
      clear hne
      induction rest with
      | nil => rfl
      | cons others rest ih =>
        obtain ⟨hothers, hmore⟩ := List.forall_mem_cons.1 hone
        obtain ⟨value, rfl⟩ := List.length_eq_one_iff.1 hothers
        rw [List.map_cons, List.flatten_cons, sumValue_singleton, ih hmore]
        rfl
    rw [List.map_cons, List.flatten_cons, sumValue_append _ (hne values List.mem_cons_self),
      sumValue_cons, hrest]

end

/-! ## Formulas one behind the other -/

/-- The formulas in parentheses, one behind the other. -/
def juxtapose (formulas : List String) : String :=
  String.join (formulas.map fun formula => "(" ++ formula ++ ")")

theorem juxtapose_cons (formula : String) (rest : List String) :
    juxtapose (formula :: rest) = "" ++ "(" ++ formula ++ ")" ++ juxtapose rest := by
  apply String.toList_inj.1
  simp [juxtapose, String.toList_join]

variable {catalog : List Element}

/-- Formulas in parentheses make one formula that has their trees as its summands. -/
theorem parse_juxtapose (hcatalog : Referable catalog) {formulas : List String}
    {roots : List Calculation}
    (hroots : List.Forall₂ (fun formula root => parse catalog formula = .ok root) formulas roots) :
    parse catalog (juxtapose formulas) = .ok (.of .add (roots.map Calculation.toElement)) := by
  have hempty : parse catalog "" = .ok (.of .add []) := rfl
  induction hroots with
  | nil => exact hempty
  | cons hparse _ ih =>
    rw [juxtapose_cons]
    exact parse_insert hcatalog hempty hparse ih

/-- The fragments of several formulas make one sum. -/
theorem parseSum_eq_ok {formulas : List String} {roots : List Calculation}
    (hroots : List.Forall₂ (fun formula root => parse catalog formula = .ok root) formulas roots) :
    parseSum catalog formulas = .ok (.of .add (roots.flatMap Calculation.children)) :=
  bind_eq_ok_iff.2 ⟨roots, mapM_eq_ok_iff.2 hroots, rfl⟩

/-- The values of a formula's fragments. -/
def fragmentValues (arithmetic : Arithmetic) (inputs : Inputs) (root : Calculation) :
    List (Except EvaluationError Float) :=
  root.children.map (Element.evaluateWith arithmetic inputs)

theorem evaluateWith_of_parse {formula : String} {root : Calculation}
    (h : parse catalog formula = .ok root) (arithmetic : Arithmetic) (inputs : Inputs) :
    root.evaluateWith arithmetic inputs =
      sumValue arithmetic (fragmentValues arithmetic inputs root) := by
  obtain ⟨_, children, _, _, rfl⟩ := parse_eq_ok_iff.1 h
  exact evaluateWith_sum arithmetic inputs children

/-- The sum of all fragments has the faults that the sum of the formulas has. -/
theorem faults_flatMap_children (inputs : Inputs) {roots : List Calculation}
    (hne : ∀ root ∈ roots, root.children ≠ []) :
    (Calculation.of .add (roots.flatMap Calculation.children)).toElement.faults inputs =
      (Calculation.of .add (roots.map Calculation.toElement)).toElement.faults inputs := by
  cases roots with
  | nil => rfl
  | cons root rest =>
    have hroot := hne root List.mem_cons_self
    have hflat : (Calculation.of .add
        ((root :: rest).flatMap Calculation.children)).children ≠ [] := by
      simp [Calculation.of, hroot]
    have hmap : (Calculation.of .add ((root :: rest).map Calculation.toElement)).children ≠ [] := by
      simp [Calculation.of]
    rw [faults_toElement inputs hflat, faults_toElement inputs hmap, Calculation.of, Calculation.of,
      List.flatMap_assoc, List.flatMap_map]
    refine List.flatMap_congr fun other hother => ?_
    exact (faults_toElement inputs (hne other hother)).symm

/-- The formulas have the sums of their fragments' values. -/
theorem map_evaluateWith_roots {formulas : List String} {roots : List Calculation}
    (hroots : List.Forall₂ (fun formula root => parse catalog formula = .ok root) formulas roots)
    (arithmetic : Arithmetic) (inputs : Inputs) :
    roots.map (Calculation.evaluateWith arithmetic inputs) =
      (roots.map (fragmentValues arithmetic inputs)).map (sumValue arithmetic) := by
  rw [List.map_map]
  refine List.map_congr_left fun root hmem => ?_
  obtain ⟨formula, _, hparse⟩ := exists_of_mem_mapM (mapM_eq_ok_iff.2 hroots) hmem
  exact evaluateWith_of_parse hparse arithmetic inputs

/-- Formulas that have fragments, parsed over the catalog of some definitions: they can be added
together, and written in parentheses one behind the other. The first sum adds the values of all
fragments from left to right, the other one the formulas' own values. Both have the same first
error, for all inputs and in every arithmetic, and they have the same value if each formula but the
first has a single fragment or if addition associates. -/
theorem evaluateWith_parseSum {definitions : NameMap Definition}
    (hcatalog : catalogOf definitions = .ok catalog) {formulas : List String}
    {roots : List Calculation}
    (hroots : List.Forall₂ (fun formula root => parse catalog formula = .ok root) formulas roots)
    (hne : ∀ root ∈ roots, root.children ≠ []) :
    ∃ sum wrapped, parseSum catalog formulas = .ok sum ∧
      parse catalog (juxtapose formulas) = .ok wrapped ∧
      ∀ arithmetic inputs,
        sum.evaluateWith arithmetic inputs =
          sumValue arithmetic (roots.flatMap (fragmentValues arithmetic inputs)) ∧
        wrapped.evaluateWith arithmetic inputs =
          sumValue arithmetic (roots.map (Calculation.evaluateWith arithmetic inputs)) ∧
        (∀ e, sum.evaluateWith arithmetic inputs = .error e ↔
          wrapped.evaluateWith arithmetic inputs = .error e) ∧
        ((∀ root ∈ roots.tail, root.children.length = 1) ∨ AddsAssociatively arithmetic →
          sum.evaluateWith arithmetic inputs = wrapped.evaluateWith arithmetic inputs) := by
  refine ⟨_, _, parseSum_eq_ok hroots, parse_juxtapose (referable_of_catalogOf hcatalog) hroots,
    fun arithmetic inputs => ?_⟩
  have hsum : (Calculation.of .add (roots.flatMap Calculation.children)).evaluateWith arithmetic
      inputs = sumValue arithmetic (roots.flatMap (fragmentValues arithmetic inputs)) := by
    rw [evaluateWith_sum, List.map_flatMap]
    rfl
  have hwrapped : (Calculation.of .add (roots.map Calculation.toElement)).evaluateWith arithmetic
      inputs = sumValue arithmetic (roots.map (Calculation.evaluateWith arithmetic inputs)) := by
    rw [evaluateWith_sum, List.map_map]
    rfl
  refine ⟨hsum, hwrapped, fun e => ?_, fun hcases => ?_⟩
  · have hfaults := faults_flatMap_children inputs hne
    rw [Calculation.evaluateWith, (reports_evaluateWith arithmetic inputs _).eq_error_iff, hfaults,
      Calculation.evaluateWith, (reports_evaluateWith arithmetic inputs _).eq_error_iff]
  · have hvalues : ∀ values ∈ roots.map (fragmentValues arithmetic inputs), values ≠ [] := by
      simpa [fragmentValues] using hne
    rw [hsum, hwrapped, map_evaluateWith_roots hroots, List.flatMap_def]
    rcases hcases with hone | hassociative
    · refine (sumValue_map_sumValue_of_singletons arithmetic hvalues ?_).symm
      intro values hmem
      rw [← List.map_tail] at hmem
      obtain ⟨root, hroot, rfl⟩ := List.mem_map.1 hmem
      rw [fragmentValues, List.length_map]
      exact hone root hroot
    · exact (hassociative.sumValue_map_sumValue hvalues).symm

/-- A formula of two fragments and one of a single fragment: their sum is that of their values. -/
theorem evaluateWith_parseSum_of_single :
    catalogOf (.ofList [("A", .range [0, 1])]) = .ok [.bounded "A" (some 0) (some 1)] ∧
      ∃ sum wrapped,
        parseSum [.bounded "A" (some 0) (some 1)] ["(1e16) (-1e16)", "[A]"] = .ok sum ∧
        parse [.bounded "A" (some 0) (some 1)] (juxtapose ["(1e16) (-1e16)", "[A]"]) =
          .ok wrapped ∧
        ∀ inputs, sum.evaluate inputs = wrapped.evaluate inputs := by
  have hcatalog : catalogOf (.ofList [("A", .range [0, 1])]) =
      .ok [.bounded "A" (some 0) (some 1)] := rfl
  have htwo : (parse [.bounded "A" (some 0) (some 1)] "(1e16) (-1e16)").toOption.map
      (·.children.length) = some 2 := by decide +kernel
  have hone : (parse [.bounded "A" (some 0) (some 1)] "[A]").toOption.map
      (·.children.length) = some 1 := by decide +kernel
  obtain ⟨first, hfirst, hfirstLength⟩ := exists_ok_of_map_toOption htwo
  obtain ⟨second, hsecond, hsecondLength⟩ := exists_ok_of_map_toOption hone
  obtain ⟨sum, wrapped, hsum, hwrapped, hvalues⟩ :=
    evaluateWith_parseSum hcatalog (.cons hfirst (.cons hsecond .nil)) (by
      intro root hroot
      simp only [List.mem_cons, List.not_mem_nil, or_false] at hroot
      rcases hroot with rfl | rfl
      · exact List.ne_nil_of_length_pos (by omega)
      · exact List.ne_nil_of_length_pos (by omega))
  refine ⟨hcatalog, sum, wrapped, hsum, hwrapped, fun inputs => ?_⟩
  obtain ⟨_, _, _, hsame⟩ := hvalues Operation.apply inputs
  exact hsame (.inl (by simpa using hsecondLength))

/-- Grouped by formulas the sum is 1, over all fragments from left to right it is 0. -/
theorem parseSum_ne_juxtapose :
    catalogOf .empty = .ok [] ∧
      (∀ formula ∈ ["1", "(1e16) (-1e16)"], ∃ root, parse [] formula = .ok root ∧
        root.children ≠ []) ∧
      ∃ sum wrapped, parseSum [] ["1", "(1e16) (-1e16)"] = .ok sum ∧
        parse [] (juxtapose ["1", "(1e16) (-1e16)"]) = .ok wrapped ∧
        sum.evaluate .empty = .ok 0 ∧ wrapped.evaluate .empty = .ok 1 ∧ (0 : Float) ≠ 1 := by
  have hone : (parse [] "1").toOption.map (·.children.length) = some 1 := by decide +kernel
  have htwo : (parse [] "(1e16) (-1e16)").toOption.map (·.children.length) = some 2 := by
    decide +kernel
  have hflat : (parseSum [] ["1", "(1e16) (-1e16)"]).toOption.map
      (fun sum => (sum.evaluate .empty).toOption) = some (some 0) := by decide +kernel
  have hgrouped : (parse [] (juxtapose ["1", "(1e16) (-1e16)"])).toOption.map
      (fun wrapped => (wrapped.evaluate .empty).toOption) = some (some 1) := by decide +kernel
  obtain ⟨first, hfirst, hfirstLength⟩ := exists_ok_of_map_toOption hone
  obtain ⟨second, hsecond, hsecondLength⟩ := exists_ok_of_map_toOption htwo
  obtain ⟨sum, hsum, hzero⟩ := exists_ok_of_map_toOption hflat
  obtain ⟨wrapped, hwrapped, hunit⟩ := exists_ok_of_map_toOption hgrouped
  refine ⟨rfl, ?_, sum, wrapped, hsum, hwrapped, eq_ok_of_toOption hzero, eq_ok_of_toOption hunit,
    by decide +kernel⟩
  intro formula hmem
  simp only [List.mem_cons, List.not_mem_nil, or_false] at hmem
  rcases hmem with rfl | rfl
  · exact ⟨first, hfirst, List.ne_nil_of_length_pos (by omega)⟩
  · exact ⟨second, hsecond, List.ne_nil_of_length_pos (by omega)⟩

end Formula

end Scorecard
