import Scorecard.Proofs.Shapes
import Scorecard.Proofs.Soundness

/-!
# Which formulas validation reports

A formula can have flaws that no element could mend: parentheses without partners, a token that
means nothing, a reference that names no definition, no fragment, or an operator or group without
operands. Validation stops at the first fault of a formula, and keeps silent about one that is a
reference to a faulty element. So a flawed formula is reported unless such a reference is the first
thing that is wrong with it. Main statement: `hasEntry_iff_flawed`.
-/

namespace Scorecard

open Attempt Element

namespace Formula

/-! ## Tokens that pass and fragments -/

/-- A reference passes if the catalog has its name. -/
theorem passes_reference_iff {catalog : List Element} {name : String} :
    Passes catalog ("[" ++ name ++ "]") ↔ find? catalog name ≠ none := by
  constructor
  · intro hpasses hnone
    rcases hpasses with h | h | h
    · have hlist := congrArg String.toList h
      simp at hlist
    · have hlist := congrArg String.toList h
      simp at hlist
    · exact not_meaningful_of_find?_eq_none hnone h
  · intro hsome
    obtain ⟨element, hfind⟩ := Option.ne_none_iff_exists'.1 hsome
    have hname := List.find?_some hfind
    rw [beq_iff_eq] at hname
    exact .inr (.inr (.inr (.inl ⟨element, List.mem_of_find?_eq_some hfind, by rw [hname]⟩)))

theorem Passes.mono {catalog catalog' : List Element}
    (hnames : ∀ element ∈ catalog, ∃ other ∈ catalog', other.name = element.name) {token : String}
    (h : Passes catalog token) : Passes catalog' token := by
  rcases h with h | h | h | ⟨element, hmem, h⟩ | h
  · exact .inl h
  · exact .inr (.inl h)
  · exact .inr (.inr (.inl h))
  · obtain ⟨other, hother, hname⟩ := hnames element hmem
    exact .inr (.inr (.inr (.inl ⟨other, hother, hname ▸ h⟩)))
  · exact .inr (.inr (.inr (.inr h)))

/-- A formula has no summand exactly if it has no fragment. -/
theorem children_eq_nil_iff {catalog : List Element} {formula : String} {root : Calculation}
    (h : parse catalog formula = .ok root) :
    root.children = [] ↔ fragments formula.toList = .ok [] := by
  obtain ⟨entries, hentries, hmore⟩ := bind_eq_ok_iff.1 h
  obtain ⟨children, hchildren, hroot⟩ := bind_eq_ok_iff.1 hmore
  cases hroot
  rw [hentries]
  cases entries with
  | nil =>
    rw [Fragment.elements] at hchildren
    cases hchildren
    simp [Calculation.of]
  | cons fragment rest =>
    rw [Fragment.elements] at hchildren
    obtain ⟨calculation, _, hmore⟩ := bind_eq_ok_iff.1 hchildren
    obtain ⟨others, _, hothers⟩ := bind_eq_ok_iff.1 hmore
    cases hothers
    simp [Calculation.of]

end Formula

/-! ## The places of problems -/

namespace Problem

/-- The place of the formula that a problem is about. -/
def index? : Problem → Option Nat
  | noFormula => none
  | faultyElement _ _ => none
  | emptyFormula index => some index
  | idleOperator index _ _ => some index
  | faultyFormula index _ _ => some index

/-- A number can be told from a bracket behind its digits. -/
theorem index_inj {index other : Nat} {rest more : List Char}
    (h : Nat.toDigits 10 index ++ ']' :: rest = Nat.toDigits 10 other ++ ']' :: more) :
    index = other := by
  have hdigits (n : Nat) : ∀ c ∈ Nat.toDigits 10 n, (c != ']') = true := by
    intro c hc
    have hdigit := Nat.isDigit_of_mem_toDigits (by omega) (by omega) hc
    rw [bne_iff_ne]
    intro heq
    subst heq
    exact absurd hdigit (by decide)
  have htake := congrArg (List.takeWhile (· != ']')) h
  rw [List.takeWhile_append_of_pos (hdigits index),
    List.takeWhile_append_of_pos (hdigits other)] at htake
  have hsame : Nat.toDigits 10 index = Nat.toDigits 10 other := by simpa using htake
  have hread := congrArg (Nat.ofDigitChars 10 · 0) hsame
  simpa only [Nat.ofDigitChars_ten_toDigits] using hread

/-- The characters of a text about a formula. -/
theorem toList_heading (index : Nat) (rest : String) :
    (s!"expression[{index}]: {rest}").toList =
      "expression[".toList ++ (Nat.toDigits 10 index ++ ("]: ".toList ++ rest.toList)) := by
  show ("expression[" ++ Nat.repr index ++ "]: " ++ rest).toList = _
  simp [Nat.repr_eq_ofList_toDigits]

/-- The text of a problem starts with the place of its formula. -/
theorem exists_message_eq {problem : Problem} {index : Nat} (h : problem.index? = some index) :
    ∃ rest : String, problem.message = s!"expression[{index}]: {rest}" := by
  cases problem with
  | noFormula => cases h
  | faultyElement name error => cases h
  | emptyFormula other =>
    cases h
    refine ⟨"formula is empty", String.toList_inj.1 ?_⟩
    rw [toList_heading]
    show ("expression[" ++ Nat.repr index ++ "]: formula is empty").toList = _
    simp [Nat.repr_eq_ofList_toDigits]
  | idleOperator other formula operation =>
    cases h
    refine ⟨s!"invalid '{formula}' - operator '{operation}' has no operands",
      String.toList_inj.1 ?_⟩
    rw [toList_heading]
    show ("expression[" ++ Nat.repr index ++ "]: invalid '" ++ formula ++ "' - operator '" ++
      operation ++ "' has no operands").toList = _
    simp [Nat.repr_eq_ofList_toDigits, toString]
  | faultyFormula other formula error =>
    cases h
    refine ⟨s!"invalid '{formula}' - {error.message}", String.toList_inj.1 ?_⟩
    rw [toList_heading]
    show ("expression[" ++ Nat.repr index ++ "]: invalid '" ++ formula ++ "' - " ++
      error.message).toList = _
    simp [Nat.repr_eq_ofList_toDigits, toString]

/-- Only the problems of a formula start with its place. -/
theorem exists_message_eq_iff {problem : Problem} {index : Nat} :
    (∃ rest : String, problem.message = s!"expression[{index}]: {rest}") ↔
      problem.index? = some index := by
  refine ⟨fun ⟨rest, h⟩ => ?_, exists_message_eq⟩
  have hlist := congrArg String.toList h
  rw [toList_heading] at hlist
  cases hindex : problem.index? with
  | some other =>
    obtain ⟨more, hmore⟩ := exists_message_eq hindex
    rw [hmore, toList_heading, List.append_cancel_left_eq] at hlist
    exact congrArg some (index_inj hlist)
  | none =>
    cases problem with
    | noFormula =>
      have hmessage : noFormula.message = "expression: at least one formula is required" := rfl
      rw [hmessage] at hlist
      simp at hlist
    | faultyElement name error =>
      have hmessage : (faultyElement name error).message =
          "elements." ++ name ++ ": " ++ error.message := rfl
      rw [hmessage] at hlist
      simp at hlist
    | _ => cases hindex

end Problem

namespace Config

open Formula

variable {config : Config} {formula : String}

/-! ## Flaws -/

/-- An element for each defined name, whatever its definition. -/
def placeholders (config : Config) : List Element :=
  config.definitions.entries.map fun entry => .bounded entry.1 none none

/-- A formula is wrong whatever the definitions of the names say. -/
inductive Flawed (config : Config) (formula : String) : Prop where
  /-- Its parentheses do not close each other. -/
  | unbalanced (h : ¬Balanced (outerParentheses formula.toList))
  /-- A token is no parenthesis, no operator, no reference and no finite number. -/
  | meaningless {token : String} (hmem : token ∈ tokenize formula)
      (hmark : token ∉ ["(", ")", "+", "-", "*", "/", "^"])
      (hreference : ∀ name, token ≠ "[" ++ name ++ "]")
      (hnumber : ¬∃ x, Number.read? token.toList = some x ∧ x.isFinite = true)
  /-- A reference names no definition. -/
  | undefined {name : String} (hmem : "[" ++ name ++ "]" ∈ tokenize formula)
      (hname : config.definitions.contains name = false)
  /-- There is no fragment. -/
  | empty (h : fragments formula.toList = .ok [])
  /-- An operator or a group of the tree has no operands. -/
  | idle {root : Calculation} (hroot : parse config.placeholders formula = .ok root)
      (h : ¬root.toElement.Populated)

/-- The first thing that is wrong with a formula is a reference to a faulty definition. -/
def Excused (config : Config) (formula : String) : Prop :=
  Balanced (outerParentheses formula.toList) ∧
    ∃ before name after, tokenize formula = before ++ ("[" ++ name ++ "]") :: after ∧
      (∀ other ∈ before, Passes config.soundElements other) ∧
      ∃ definition e, config.definitions.get? name = some definition ∧
        definition.element name = .error e

theorem lookupsOnly_soundElements (config : Config) : LookupsOnly config.soundElements := by
  intro element hmem
  obtain ⟨entry, _, hok⟩ := exists_entry_of_mem_soundElements hmem
  exact (isLookup_and_name_of_element hok).1

theorem lookupsOnly_placeholders (config : Config) : LookupsOnly config.placeholders := by
  intro element hmem
  obtain ⟨entry, _, rfl⟩ := List.mem_map.1 hmem
  rfl

theorem exists_placeholder {element : Element} (h : element ∈ config.soundElements) :
    ∃ other ∈ config.placeholders, other.name = element.name := by
  obtain ⟨entry, hmem, hok⟩ := exists_entry_of_mem_soundElements h
  exact ⟨_, List.mem_map_of_mem hmem, (isLookup_and_name_of_element hok).2.symm⟩

/-- What parses over the sound elements parses over all names, and its operators have operands
there if they do here. -/
theorem populated_placeholders_iff {root : Calculation}
    (h : parse config.soundElements formula = .ok root) :
    (∃ other, parse config.placeholders formula = .ok other ∧ ¬other.toElement.Populated) ↔
      ¬root.toElement.Populated := by
  obtain ⟨hbalanced, hall⟩ := exists_parse_eq_ok_iff.1 ⟨root, h⟩
  obtain ⟨other, hother⟩ := exists_parse_eq_ok_iff.2 ⟨hbalanced, fun token hmem =>
    (hall token hmem).mono (fun _ => exists_placeholder)⟩
  have hsame := populated_iff_of_parse (lookupsOnly_placeholders config)
    (lookupsOnly_soundElements config) hother h
  simp [hother, hsame]

theorem contains_of_passes {name : String}
    (h : Passes config.soundElements ("[" ++ name ++ "]")) :
    config.definitions.contains name = true := by
  rw [passes_reference_iff, find?_soundElements] at h
  unfold NameMap.contains
  cases hget : config.definitions.get? name with
  | none => simp [hget] at h
  | some definition => rfl

/-- A defined name that does not pass has a faulty definition. -/
theorem exists_error_of_not_passes {name : String}
    (hcontains : config.definitions.contains name = true)
    (h : ¬Passes config.soundElements ("[" ++ name ++ "]")) :
    ∃ definition e, config.definitions.get? name = some definition ∧
      definition.element name = .error e := by
  rw [passes_reference_iff, not_not, find?_soundElements] at h
  obtain ⟨definition, hget⟩ := Option.isSome_iff_exists.1 hcontains
  rw [hget, Option.bind_some] at h
  rcases exists_ok_or_error (definition.element name) with ⟨element, hok⟩ | ⟨e, he⟩
  · rw [hok] at h
    cases h
  · exact ⟨definition, e, hget, he⟩

/-- A formula that parses is flawed if a node of its tree has no children. -/
theorem flawed_iff_of_parse_eq_ok {root : Calculation}
    (h : parse config.soundElements formula = .ok root) :
    config.Flawed formula ↔ ¬root.toElement.Populated := by
  obtain ⟨hbalanced, hall⟩ := exists_parse_eq_ok_iff.1 ⟨root, h⟩
  constructor
  · intro hflawed
    cases hflawed with
    | unbalanced hnot => exact absurd hbalanced hnot
    | meaningless hmem hmark hreference hnumber =>
      rcases hall _ hmem with hopen | hclose | hoperator | ⟨element, _, hname⟩ | hfinite
      · exact absurd (by simp [hopen]) hmark
      · exact absurd (by simp [hclose]) hmark
      · exact absurd (List.mem_cons_of_mem _ (List.mem_cons_of_mem _ hoperator)) hmark
      · exact absurd hname (hreference element.name)
      · exact absurd hfinite hnumber
    | undefined hmem hname =>
      rw [contains_of_passes (hall _ hmem)] at hname
      cases hname
    | empty hnil =>
      intro hpopulated
      exact (populated_node_iff.1 hpopulated).1 ((children_eq_nil_iff h).2 hnil)
    | idle hroot hidle => exact (populated_placeholders_iff h).1 ⟨_, hroot, hidle⟩
  · intro hidle
    obtain ⟨other, hother, hnot⟩ := (populated_placeholders_iff h).2 hidle
    exact .idle hother hnot

theorem formulaProblem?_of_parse_eq_ok {root : Calculation}
    (h : parse config.soundElements formula = .ok root) (index : Nat) :
    config.formulaProblem? index formula = none ↔ root.toElement.Populated := by
  unfold formulaProblem?
  rw [h]
  have hchildless : root.firstChildless = none ↔ root.toElement.Populated :=
    firstChildless_eq_none_iff root.toElement
  cases hchildren : root.children with
  | nil =>
    have hnot : ¬root.toElement.Populated := fun hpopulated =>
      (populated_node_iff.1 hpopulated).1 hchildren
    simp [hchildren, hnot]
  | cons child rest => simp [hchildren, hchildless]

/-- What is excused is not reported. -/
theorem formulaProblem?_of_excused (h : config.Excused formula) (index : Nat) :
    config.formulaProblem? index formula = none := by
  obtain ⟨hbalanced, before, name, after, htokens, hbefore, definition, e, hget, he⟩ := h
  have hfind : find? config.soundElements name = none := by
    rw [find?_soundElements, hget, Option.bind_some, he]
    rfl
  have htoken : ¬Passes config.soundElements ("[" ++ name ++ "]") := fun hpasses =>
    passes_reference_iff.1 hpasses hfind
  have hcontains : config.definitions.contains name = true := by
    simp [NameMap.contains, hget]
  rcases parse_cases config.soundElements formula with ⟨hnot, _⟩ | ⟨_, hfate⟩
  · exact absurd hbalanced hnot
  · obtain ⟨fault, hfault, hclassify⟩ := classifyAll_of_first_fault htokens hbefore htoken
    unfold formulaProblem?
    rw [hfate.error hclassify, hfault.1 name rfl]
    simp [hcontains]

/-- What is not reported has no flaw, or is excused. -/
theorem excused_of_flawed (hflawed : config.Flawed formula) {index : Nat}
    (h : config.formulaProblem? index formula = none) : config.Excused formula := by
  rcases parse_first_fault config.soundElements formula with ⟨_, _, root, hroot⟩ | hrest
  · have hpopulated := (formulaProblem?_of_parse_eq_ok hroot index).1 h
    exact absurd hpopulated ((flawed_iff_of_parse_eq_ok hroot).1 hflawed)
  unfold formulaProblem? at h
  rcases hrest with ⟨_, position, he⟩ | ⟨hbalanced, before, token, after, hfirst⟩
  · rw [he] at h
    cases h
  obtain ⟨htokens, hbefore, htoken, e, hfault, he⟩ := hfirst
  rw [he] at h
  by_cases hreference : ∃ name, token = "[" ++ name ++ "]"
  · obtain ⟨name, rfl⟩ := hreference
    rw [hfault.1 name rfl] at h
    have hcontains : config.definitions.contains name = true := by
      by_contra hnot
      simp [hnot] at h
    have hfaulty := exists_error_of_not_passes hcontains htoken
    exact ⟨hbalanced, before, name, after, htokens, hbefore, hfaulty⟩
  · rw [hfault.2 fun name hname => hreference ⟨name, hname⟩] at h
    cases h

/-- What is reported has a flaw. -/
theorem flawed_of_formulaProblem?_ne_none {index : Nat}
    (h : config.formulaProblem? index formula ≠ none) : config.Flawed formula := by
  rcases parse_first_fault config.soundElements formula with ⟨_, _, root, hroot⟩ | hrest
  · exact (flawed_iff_of_parse_eq_ok hroot).2 fun hpopulated =>
      h ((formulaProblem?_of_parse_eq_ok hroot index).2 hpopulated)
  rcases hrest with ⟨hnot, _⟩ | ⟨hbalanced, before, token, after, hfirst⟩
  · exact .unbalanced hnot
  obtain ⟨htokens, hbefore, htoken, _⟩ := hfirst
  have hmem : token ∈ tokenize formula := by simp [htokens]
  by_cases hreference : ∃ name, token = "[" ++ name ++ "]"
  · obtain ⟨name, rfl⟩ := hreference
    cases hcontains : config.definitions.contains name with
    | false => exact .undefined hmem hcontains
    | true =>
      have hfaulty := exists_error_of_not_passes hcontains htoken
      exact absurd (formulaProblem?_of_excused
        ⟨hbalanced, before, name, after, htokens, hbefore, hfaulty⟩ index) h
  · refine .meaningless hmem (fun hmark => htoken ?_)
      (fun name hname => hreference ⟨name, hname⟩)
      (fun hnumber => htoken (.inr (.inr (.inr (.inr hnumber)))))
    rcases List.mem_cons.1 hmark with hopen | hmark
    · exact .inl hopen
    rcases List.mem_cons.1 hmark with hclose | hoperator
    · exact .inr (.inl hclose)
    · exact .inr (.inr (.inl hoperator))

theorem formulaProblem?_ne_none_iff {index : Nat} :
    config.formulaProblem? index formula ≠ none ↔
      config.Flawed formula ∧ ¬config.Excused formula :=
  ⟨fun h => ⟨flawed_of_formulaProblem?_ne_none h,
      fun hexcused => h (formulaProblem?_of_excused hexcused index)⟩,
    fun ⟨hflawed, hnot⟩ hnone => hnot (excused_of_flawed hflawed hnone)⟩

/-! ## The list of problems -/

theorem index?_of_formulaProblem? {index : Nat} {problem : Problem}
    (h : config.formulaProblem? index formula = some problem) : problem.index? = some index := by
  unfold formulaProblem? at h
  split at h
  · split at h
    · cases h
      rfl
    · obtain ⟨operation, _, rfl⟩ := Option.map_eq_some_iff.1 h
      rfl
  · split at h
    · split at h
      · cases h
      · cases h
        rfl
    · cases h
      rfl

theorem index?_of_mem_definitionProblems {problem : Problem}
    (h : problem ∈ config.definitionProblems) : problem.index? = none := by
  obtain ⟨⟨name, definition⟩, _, hproblem⟩ := List.mem_filterMap.1 h
  have hproblem : definition.problem? name = some problem := hproblem
  unfold Definition.problem? at hproblem
  split at hproblem
  · cases hproblem
  · cases hproblem
    rfl

theorem mem_formulaProblems_of_index? {problem : Problem} {index : Nat}
    (hmem : problem ∈ config.problems) (hindex : problem.index? = some index) :
    problem ∈ config.formulaProblems := by
  unfold problems at hmem
  rcases List.mem_append.1 hmem with hmem | hmem
  · rcases List.mem_append.1 hmem with hmem | hmem
    · split at hmem
      · rw [List.mem_singleton.1 hmem] at hindex
        cases hindex
      · cases hmem
    · rw [index?_of_mem_definitionProblems hmem] at hindex
      cases hindex
  · exact hmem

/-- The problems about a formula are those that it has itself. -/
theorem exists_mem_problems_iff {index : Nat} :
    (∃ problem ∈ config.problems, problem.index? = some index) ↔
      ∃ formula, config.formulas[index]? = some formula ∧
        config.formulaProblem? index formula ≠ none := by
  constructor
  · intro ⟨problem, hmem, hindex⟩
    obtain ⟨⟨formula, place⟩, hformula, hproblem⟩ :=
      List.mem_filterMap.1 (mem_formulaProblems_of_index? hmem hindex)
    have hplace := index?_of_formulaProblem? hproblem
    rw [hindex, Option.some_inj] at hplace
    subst hplace
    exact ⟨formula, List.mem_zipIdx_iff_getElem?.1 hformula, by simp [hproblem]⟩
  · intro ⟨formula, hformula, hproblem⟩
    obtain ⟨problem, hsome⟩ := Option.ne_none_iff_exists'.1 hproblem
    refine ⟨problem, ?_, index?_of_formulaProblem? hsome⟩
    unfold problems
    exact List.mem_append_right _ (List.mem_filterMap.2
      ⟨(formula, index), List.mem_zipIdx_iff_getElem?.2 hformula, hsome⟩)

/-- One of the texts that validation lists is about the formula at a place. -/
def HasEntry (config : Config) (index : Nat) : Prop :=
  ∃ rest : String, s!"expression[{index}]: {rest}" ∈ config.problems.map Problem.message

theorem hasEntry_iff {index : Nat} :
    config.HasEntry index ↔ ∃ problem ∈ config.problems, problem.index? = some index := by
  unfold HasEntry
  simp only [List.mem_map, ← Problem.exists_message_eq_iff]
  exact ⟨fun ⟨rest, problem, hmem, h⟩ => ⟨problem, hmem, rest, h⟩,
    fun ⟨problem, hmem, rest, h⟩ => ⟨rest, problem, hmem, h⟩⟩

/-- Validation has an entry for a formula exactly if the formula has a flaw and is not excused. A
flaw is something that is wrong whatever the definitions say; the formula is excused if the first
thing that is wrong with it is a reference to a faulty definition, even if there are other flaws
behind it. -/
theorem hasEntry_iff_flawed (config : Config) (index : Nat) :
    config.HasEntry index ↔
      ∃ formula, config.formulas[index]? = some formula ∧ config.Flawed formula ∧
        ¬config.Excused formula := by
  calc config.HasEntry index
    _ ↔ ∃ problem ∈ config.problems, problem.index? = some index := hasEntry_iff
    _ ↔ ∃ formula, config.formulas[index]? = some formula ∧
          config.formulaProblem? index formula ≠ none := exists_mem_problems_iff
    _ ↔ ∃ formula, config.formulas[index]? = some formula ∧ config.Flawed formula ∧
          ¬config.Excused formula := by simp only [formulaProblem?_ne_none_iff]

/-- A flaw behind a reference to a faulty definition is not reported. -/
theorem not_hasEntry_of_faulty_reference :
    let config : Config := ⟨["[A] + abc"], .ofList [("A", .range [1])]⟩
    config.Flawed "[A] + abc" ∧
      config.problems.map Problem.message =
        ["elements.A: invalid range config for 'A': expected [min, max]"] ∧
      ¬config.HasEntry 0 := by
  intro config
  have hproblems : config.problems = [.faultyElement "A" (.invalidRange "A")] := by decide +kernel
  refine ⟨?_, ?_, ?_⟩
  · have hmem : "abc" ∈ tokenize "[A] + abc" := by decide +kernel
    refine .meaningless hmem (by decide) (fun name h => ?_) ?_
    · have hlist := congrArg String.toList h
      simp at hlist
    · have hnone : Number.read? "abc".toList = none := by decide +kernel
      rintro ⟨x, hx, _⟩
      rw [hnone] at hx
      cases hx
  · rw [hproblems]
    rfl
  · rw [hasEntry_iff, hproblems]
    intro ⟨problem, hmem, hindex⟩
    rw [List.mem_singleton.1 hmem] at hindex
    cases hindex

end Config

end Scorecard
