import Scorecard.Config.Document
import Scorecard.Proofs.JsonValues
import Scorecard.Proofs.Reporting
import Scorecard.Proofs.RuleTexts

/-!
# The bodies of definitions

Any JSON value can stand as the body of an `Interval` or a `Range`, and the configuration around it
is read nevertheless (`ofDocument?_of_writtenAs`). A body that is no list of texts, or of numbers,
makes the definition malformed, and a list of the right kind is judged when the element is made. So
the element is there exactly if its kind accepts the body (`exists_element_ofBody_iff`); otherwise
it is faulty, and validation reports it once, among the other faulty elements in name order and in
front of all formulas. Main statement: `problems_of_body`.
-/

namespace Scorecard

open Attempt

/-! ## Definitions of bodies -/

section

open Rule

/-- A kind accepts a body: an interval some texts each of which says something as a rule, a range
two finite numbers in their order. -/
inductive Kind.Accepts : Kind → Document → Prop where
  | interval {rules : List String} (hne : rules ≠ [])
      (hrules : ∀ rule ∈ rules, ∃ reading, Says rule reading) :
      Accepts .interval (.list (rules.map .text))
  | range {lower upper : Float} (hlower : lower.isFinite = true) (hupper : upper.isFinite = true)
      (hle : lower ≤ upper) : Accepts .range (.list [.number lower, .number upper])

/-- A body of an interval is a list of texts, and the first one that says nothing has an operator
that there is not. -/
inductive Kind.Misspells : Kind → Document → String → Prop where
  | rule {before after : List String} {rule operator : String}
      (hbefore : ∀ other ∈ before, ∃ reading, Says other reading)
      (hrule : HasUnsupported rule operator) :
      Misspells .interval (.list ((before ++ rule :: after).map .text)) operator

/-- The error of a definition that is of no use for its kind. -/
def Kind.error (name : String) : Kind → ParseError
  | .interval => .invalidInterval name
  | .range => .invalidRange name

variable {body : Document} {name : String}

theorem ofBody_texts (rules : List String) :
    Definition.ofBody .interval (.list (rules.map .text)) = .interval rules := by
  have hjson : ∀ item ∈ rules.map Document.text, item.IsJson := by
    intro item hitem
    obtain ⟨rule, _, rfl⟩ := List.mem_map.1 hitem
    exact .text rule
  rw [Definition.ofBody, (Document.mapM_text?_eq_some_iff hjson).2 rfl]

theorem ofBody_numbers {bounds : List Float} (hbounds : ∀ bound ∈ bounds, bound.isFinite = true) :
    Definition.ofBody .range (.list (bounds.map .number)) = .range bounds := by
  have hjson : ∀ item ∈ bounds.map Document.number, item.IsJson := by
    intro item hitem
    obtain ⟨bound, _, rfl⟩ := List.mem_map.1 hitem
    exact .number bound
  rw [Definition.ofBody, (Document.mapM_number?_eq_some_iff hjson).2 ⟨rfl, hbounds⟩]

/-- The definition of a JSON body has its texts, or its numbers, or is malformed. -/
theorem ofBody_cases (h : body.IsJson) (kind : Kind) :
    (∃ rules, kind = .interval ∧ body = .list (rules.map .text) ∧
      Definition.ofBody kind body = .interval rules) ∨
    (∃ bounds, kind = .range ∧ body = .list (bounds.map .number) ∧
      Definition.ofBody kind body = .range bounds) ∨
    Definition.ofBody kind body = .malformed kind := by
  cases h with
  | @list items hitems =>
    cases kind with
    | interval =>
      rw [Definition.ofBody]
      cases hread : items.mapM Document.text? with
      | none => exact .inr (.inr rfl)
      | some rules =>
        obtain rfl := (Document.mapM_text?_eq_some_iff hitems).1 hread
        exact .inl ⟨rules, rfl, rfl, rfl⟩
    | range =>
      rw [Definition.ofBody]
      cases hread : items.mapM fun item => item.number?.filter Float.isFinite with
      | none => exact .inr (.inr rfl)
      | some bounds =>
        obtain ⟨rfl, _⟩ := (Document.mapM_number?_eq_some_iff hitems).1 hread
        exact .inr (.inl ⟨bounds, rfl, rfl, rfl⟩)
  | _ => cases kind <;> exact .inr (.inr rfl)

/-! ## Elements of bodies -/

theorem element_malformed (hname : isReferable name = true) (kind : Kind) :
    (Definition.malformed kind).element name = .error (kind.error name) := by
  cases kind with
  | interval => rw [Definition.element, if_pos hname, Kind.error]
  | range => rw [Definition.element, if_pos hname, Kind.error]

theorem element_range_cases (hname : isReferable name = true) (bounds : List Float) :
    (∃ lower upper, bounds = [lower, upper] ∧ lower.isFinite = true ∧ upper.isFinite = true ∧
      lower ≤ upper) ∨
    (Definition.range bounds).element name = .error (.invalidRange name) := by
  rcases bounds with _ | ⟨lower, _ | ⟨upper, _ | ⟨more, rest⟩⟩⟩
  · exact .inr (by rw [Definition.element, if_pos hname]; simp)
  · exact .inr (by rw [Definition.element, if_pos hname]; simp)
  · rw [Definition.element, if_pos hname]
    split
    · rename_i hsound
      simp only [Bool.and_eq_true, decide_eq_true_eq] at hsound
      exact .inl ⟨lower, upper, rfl, hsound.1.1, hsound.1.2, hsound.2⟩
    · exact .inr rfl
  · exact .inr (by rw [Definition.element, if_pos hname]; simp)

theorem element_interval_cases (hname : isReferable name = true) (rules : List String) :
    (rules ≠ [] ∧ ∀ rule ∈ rules, ∃ reading, Says rule reading) ∨
    (∃ before rule after operator, rules = before ++ rule :: after ∧
      (∀ other ∈ before, ∃ reading, Says other reading) ∧ HasUnsupported rule operator) ∨
    (Definition.interval rules).element name = .error (.invalidInterval name) := by
  by_cases hne : rules = []
  · exact .inr (.inr (by rw [hne, Definition.element, if_pos hname]))
  rcases Formula.forall_or_exists_first (fun rule => ∃ reading, Says rule reading) rules with
    hall | ⟨before, rule, after, hrules, hbefore, hsilent⟩
  · exact .inl ⟨hne, hall⟩
  rcases band_cases name rule with hok | ⟨operator, hoperator⟩ | hinvalid
  · exact absurd (exists_band_eq_ok_iff.1 hok) hsilent
  · exact .inr (.inl ⟨before, rule, after, operator, hrules, hbefore,
      band_eq_unsupportedOperator_iff.1 hoperator⟩)
  · exact .inr (.inr (element_of_first_fault hname hrules hbefore hinvalid))

/-- A body is accepted, or it is misspelled, or it is of no use for its kind. -/
theorem element_ofBody_cases (h : body.IsJson) (hname : isReferable name = true) (kind : Kind) :
    kind.Accepts body ∨ (∃ operator, kind.Misspells body operator) ∨
      (Definition.ofBody kind body).element name = .error (kind.error name) := by
  rcases ofBody_cases h kind with
    ⟨rules, rfl, rfl, hrules⟩ | ⟨bounds, rfl, rfl, hbounds⟩ | hmalformed
  · rw [hrules]
    rcases element_interval_cases hname rules with ⟨hne, hall⟩ | hfirst | hinvalid
    · exact .inl (.interval hne hall)
    · obtain ⟨before, rule, after, operator, rfl, hbefore, hrule⟩ := hfirst
      exact .inr (.inl ⟨operator, .rule hbefore hrule⟩)
    · exact .inr (.inr hinvalid)
  · rw [hbounds]
    rcases element_range_cases hname bounds with
      ⟨lower, upper, rfl, hlower, hupper, hle⟩ | hinvalid
    · exact .inl (.range hlower hupper hle)
    · exact .inr (.inr hinvalid)
  · rw [hmalformed]
    exact .inr (.inr (element_malformed hname kind))

theorem exists_element_of_accepts (hname : isReferable name = true) {kind : Kind}
    (h : kind.Accepts body) :
    ∃ element, (Definition.ofBody kind body).element name = .ok element := by
  cases h with
  | interval hne hrules =>
    rw [ofBody_texts]
    exact exists_element_eq_ok_iff.2 ⟨hname, hne, hrules⟩
  | @range lower upper hlower hupper hle =>
    have hfinite : ∀ bound ∈ [lower, upper], bound.isFinite = true := by simp [hlower, hupper]
    have hbounds := ofBody_numbers hfinite
    rw [List.map_cons, List.map_singleton] at hbounds
    rw [hbounds, Definition.element, if_pos hname, if_pos (by simp [hlower, hupper, hle])]
    exact ⟨_, rfl⟩

theorem element_of_misspells (hname : isReferable name = true) {kind : Kind} {operator : String}
    (h : kind.Misspells body operator) :
    (Definition.ofBody kind body).element name = .error (.unsupportedOperator operator) := by
  cases h with
  | rule hbefore hrule =>
    rw [ofBody_texts]
    exact element_of_first_fault hname rfl hbefore (band_eq_unsupportedOperator_iff.2 hrule)

/-- A JSON body gives an element exactly if its kind accepts it. -/
theorem exists_element_ofBody_iff (h : body.IsJson) (hname : isReferable name = true)
    {kind : Kind} :
    (∃ element, (Definition.ofBody kind body).element name = .ok element) ↔ kind.Accepts body := by
  refine ⟨fun ⟨element, hok⟩ => ?_, exists_element_of_accepts hname⟩
  rcases element_ofBody_cases h hname kind with haccepts | ⟨operator, hmisspells⟩ | herror
  · exact haccepts
  · rw [element_of_misspells hname hmisspells] at hok
    cases hok
  · rw [herror] at hok
    cases hok

theorem Kind.error_ne_unsupportedOperator (kind : Kind) (name operator : String) :
    kind.error name ≠ .unsupportedOperator operator := by
  cases kind <;> simp [Kind.error]

/-- A faulty body has an unsupported operator exactly if it is misspelled, and else the error of its
kind. -/
theorem error_of_ofBody (h : body.IsJson) (hname : isReferable name = true) {kind : Kind}
    {e : ParseError} (he : (Definition.ofBody kind body).element name = .error e) :
    (∀ operator, e = .unsupportedOperator operator ↔ kind.Misspells body operator) ∧
      ((¬∃ operator, kind.Misspells body operator) → e = kind.error name) := by
  have hmisspelled {operator : String} (hmisspells : kind.Misspells body operator) :
      e = .unsupportedOperator operator :=
    Except.error.inj (he.symm.trans (element_of_misspells hname hmisspells))
  rcases element_ofBody_cases h hname kind with haccepts | ⟨operator, hmisspells⟩ | herror
  · obtain ⟨element, hok⟩ := exists_element_of_accepts hname haccepts
    rw [hok] at he
    cases he
  · refine ⟨fun other => ⟨fun heq => ?_, hmisspelled⟩,
      fun hnone => absurd ⟨operator, hmisspells⟩ hnone⟩
    cases (hmisspelled hmisspells).symm.trans heq
    exact hmisspells
  · obtain rfl : kind.error name = e := Except.error.inj (herror.symm.trans he)
    exact ⟨fun operator => ⟨fun heq => absurd heq (kind.error_ne_unsupportedOperator name operator),
      hmisspelled⟩, fun _ => rfl⟩

end

namespace Config

/-! ## Configurations that are read -/

/-- An element as it stands in a configuration: its name, and a body under the name of its kind. -/
structure Entry where
  name : String
  kind : Kind
  body : Document

/-- An entry as a field of the elements. -/
def Entry.field (entry : Entry) : Word × Document :=
  (.text entry.name, .record [(.text entry.kind.name, entry.body)])

/-- The definition of an entry's body by its name. -/
def Entry.definition (entry : Entry) : String × Definition :=
  (entry.name, .ofBody entry.kind entry.body)

/-- A document has formulas and entries: as a record of them in either order, or as a list. -/
inductive WrittenAs (formulas : List String) (entries : List Entry) : Document → Prop where
  | record : WrittenAs formulas entries
      (.record [(.text "expression", .list (formulas.map .text)),
        (.text "elements", .record (entries.map Entry.field))])
  | reversed : WrittenAs formulas entries
      (.record [(.text "elements", .record (entries.map Entry.field)),
        (.text "expression", .list (formulas.map .text))])
  | list : WrittenAs formulas entries
      (.list [.list (formulas.map .text), .record (entries.map Entry.field)])

variable {formulas : List String} {entries : List Entry} {document : Document}

theorem ofDocument?_field {entry : Entry} (h : entry.body.IsJson) :
    Definition.ofDocument? entry.field.2 = some entry.definition.2 := by
  obtain ⟨name, kind, body⟩ := entry
  have hkind : Kind.ofName? kind.name = some kind := by cases kind <;> rfl
  simp [Entry.field, Entry.definition, Definition.ofDocument?, hkind, h.hasNames]

/-- What is written one by one is read as a list. -/
theorem mapM_map_eq_some {α β γ : Type} {f : β → Option γ} {write : α → β} {g : α → γ}
    {list : List α} (h : ∀ a ∈ list, f (write a) = some (g a)) :
    (list.map write).mapM f = some (list.map g) := by
  induction list with
  | nil => rfl
  | cons a rest ih =>
    obtain ⟨ha, hrest⟩ := List.forall_mem_cons.1 h
    rw [List.map_cons, List.mapM_cons, ha, ih hrest]
    rfl

theorem formulas?_texts (formulas : List String) :
    formulas? (.list (formulas.map .text)) = some formulas := by
  have hread : (formulas.map Document.text).mapM Document.spelling? = some (formulas.map id) :=
    mapM_map_eq_some fun _ _ => rfl
  rw [List.map_id] at hread
  exact hread

theorem definitions?_fields (hjson : ∀ entry ∈ entries, entry.body.IsJson) :
    definitions? (.record (entries.map Entry.field)) =
      some (.ofList (entries.map Entry.definition)) := by
  simp only [definitions?, Document.fields?, Option.bind_eq_bind, Option.bind_some]
  rw [mapM_map_eq_some (g := Entry.definition) fun entry hentry => ?_]
  · rfl
  · have hdefinition := ofDocument?_field (hjson entry hentry)
    simp only [Entry.field] at hdefinition ⊢
    rw [hdefinition]
    rfl

/-- A configuration with JSON values as bodies is read. -/
theorem ofDocument?_of_writtenAs (h : WrittenAs formulas entries document)
    (hjson : ∀ entry ∈ entries, entry.body.IsJson) :
    ofDocument? document = some ⟨formulas, .ofList (entries.map Entry.definition)⟩ := by
  have hparts : ofParts? (.list (formulas.map .text)) (some (.record (entries.map Entry.field))) =
      some ⟨formulas, .ofList (entries.map Entry.definition)⟩ := by
    simp [ofParts?, formulas?_texts, definitions?_fields hjson]
  cases h with
  | record => exact hparts
  | reversed => exact hparts
  | list => exact hparts

/-- The last entry of a name gives its definition. -/
theorem get?_definitions {before after : List Entry} {entry : Entry}
    (hafter : ∀ other ∈ after, other.name ≠ entry.name) :
    (NameMap.ofList ((before ++ entry :: after).map Entry.definition)).get? entry.name =
      some (.ofBody entry.kind entry.body) := by
  have hnone : (after.map Entry.definition).reverse.lookup entry.name = none := by
    rw [List.lookup_eq_none_iff]
    intro pair hpair
    obtain ⟨other, hother, rfl⟩ := List.mem_map.1 (List.mem_reverse.1 hpair)
    exact bne_iff_ne.2 (Ne.symm (hafter other hother))
  rw [NameMap.get?_ofList, List.map_append, List.map_cons, List.reverse_append, List.reverse_cons,
    List.append_assoc, List.lookup_append, hnone, Option.none_or, List.singleton_append,
    Entry.definition, NameMap.lookup_cons_eq, if_pos rfl]

/-! ## Faulty definitions -/

variable {config : Config} {name : String} {e : ParseError}

/-- The names whose definitions give no element, with the errors, in name order. -/
def faults (config : Config) : List (String × ParseError) :=
  config.definitions.entries.filterMap fun entry =>
    match entry.2.element entry.1 with
    | .ok _ => none
    | .error e => some (entry.1, e)

theorem mem_faults_iff :
    (name, e) ∈ config.faults ↔
      ∃ definition, config.definitions.get? name = some definition ∧
        definition.element name = .error e := by
  unfold faults
  simp only [List.mem_filterMap, NameMap.get?_eq_some_iff]
  constructor
  · rintro ⟨⟨other, definition⟩, hmem, h⟩
    split at h
    · cases h
    · rename_i herror
      cases h
      exact ⟨definition, hmem, herror⟩
  · rintro ⟨definition, hmem, herror⟩
    exact ⟨(name, definition), hmem, by simp only [herror]⟩

theorem definitionProblems_eq_map (config : Config) :
    config.definitionProblems =
      config.faults.map fun fault => .faultyElement fault.1 fault.2 := by
  unfold definitionProblems faults
  rw [List.map_filterMap]
  refine List.filterMap_congr fun entry _ => ?_
  simp only [Definition.problem?]
  cases entry.2.element entry.1 <;> rfl

theorem pairwise_faults (config : Config) : config.faults.Pairwise fun a b => a.1 < b.1 := by
  unfold faults
  refine List.pairwise_filterMap.2 (config.definitions.ascending.imp fun {a b} hlt => ?_)
  intro fault hfault other hother
  split at hfault
  · cases hfault
  · cases hfault
    split at hother
    · cases hother
    · cases hother
      exact hlt

/-- A name has at most one fault. -/
theorem filter_faults_of_mem (h : (name, e) ∈ config.faults) :
    config.faults.filter (fun fault => fault.1 = name) = [(name, e)] := by
  have hascending := pairwise_faults config
  generalize config.faults = faults at h hascending
  induction faults with
  | nil => cases h
  | cons first rest ih =>
    obtain ⟨hfirst, hrest⟩ := List.pairwise_cons.1 hascending
    rcases List.mem_cons.1 h with rfl | hmem
    · have hnone : rest.filter (fun fault => fault.1 = name) = [] := by
        rw [List.filter_eq_nil_iff]
        intro fault hfault heq
        have hlt := hfirst fault hfault
        rw [of_decide_eq_true heq] at hlt
        exact String.lt_irrefl name hlt
      rw [List.filter_cons_of_pos (by simp), hnone]
    · have hne : first.1 ≠ name := fun heq =>
        String.lt_irrefl name (heq ▸ hfirst (name, e) hmem)
      rw [List.filter_cons_of_neg (by simpa using hne), ih hmem hrest]

/-- The texts of all problems: that of a missing formula, those of the faulty definitions and those
of the formulas. -/
theorem messages_eq (config : Config) :
    config.problems.map Problem.message =
      (if config.formulas.isEmpty then [Problem.noFormula.message] else []) ++
        config.faults.map (fun fault => s!"elements.{fault.1}: {fault.2.message}") ++
        config.formulaProblems.map Problem.message := by
  unfold problems
  rw [List.map_append, List.map_append, definitionProblems_eq_map, List.map_map]
  cases config.formulas.isEmpty <;> rfl

theorem exists_heading_of_mem_formulaProblems {problem : Problem}
    (h : problem ∈ config.formulaProblems) :
    ∃ (index : Nat) (rest : String), problem.message = s!"expression[{index}]: {rest}" := by
  obtain ⟨⟨formula, index⟩, _, hproblem⟩ := List.mem_filterMap.1 h
  obtain ⟨rest, hrest⟩ := Problem.exists_message_eq (index?_of_formulaProblem? hproblem)
  exact ⟨index, rest, hrest⟩

/-- Whatever JSON values stand as the bodies of a configuration, it is read. The last entry of a
name gives the name its definition, and a name without brackets has an element exactly if the kind
of the entry accepts its body. Otherwise the name has one fault: an unsupported operator if the body
is a list of texts and the first one that says nothing has that operator, and else the error of the
kind. The texts of the problems are that of a missing formula, one for each fault in the order of
the names' bytes, and then those about formulas. -/
theorem problems_of_body {formulas : List String} {before after : List Entry} {entry : Entry}
    {document : Document} (hdocument : WrittenAs formulas (before ++ entry :: after) document)
    (hjson : ∀ other ∈ before ++ entry :: after, other.body.IsJson)
    (hafter : ∀ other ∈ after, other.name ≠ entry.name)
    (hname : '[' ∉ entry.name.toList ∧ ']' ∉ entry.name.toList) :
    ∃ config, ofDocument? document = some config ∧ config.formulas = formulas ∧
      config.definitions.get? entry.name = some (.ofBody entry.kind entry.body) ∧
      ((∃ element, (Definition.ofBody entry.kind entry.body).element entry.name = .ok element) ↔
        entry.kind.Accepts entry.body) ∧
      (entry.kind.Accepts entry.body →
        config.faults.filter (fun fault => fault.1 = entry.name) = []) ∧
      (¬entry.kind.Accepts entry.body →
        ∃ e, config.faults.filter (fun fault => fault.1 = entry.name) = [(entry.name, e)] ∧
          (Definition.ofBody entry.kind entry.body).element entry.name = .error e ∧
          (∀ operator, e = .unsupportedOperator operator ↔
            entry.kind.Misspells entry.body operator) ∧
          ((¬∃ operator, entry.kind.Misspells entry.body operator) →
            e = entry.kind.error entry.name)) ∧
      config.problems.map Problem.message =
        (if formulas.isEmpty then [Problem.noFormula.message] else []) ++
          config.faults.map (fun fault => s!"elements.{fault.1}: {fault.2.message}") ++
          config.formulaProblems.map Problem.message ∧
      (config.faults.map Prod.fst).Pairwise (fun a b => Text.bytes a < Text.bytes b) ∧
      ∀ message ∈ config.formulaProblems.map Problem.message,
        ∃ (index : Nat) (rest : String), message = s!"expression[{index}]: {rest}" := by
  have hreferable := isReferable_iff.2 hname
  have hbody : entry.body.IsJson := hjson entry (by simp)
  have hread := ofDocument?_of_writtenAs hdocument hjson
  generalize hconfig : (⟨formulas, _⟩ : Config) = config at hread
  have hget : config.definitions.get? entry.name = some (.ofBody entry.kind entry.body) := by
    rw [← hconfig]
    exact get?_definitions hafter
  have hfault {e : ParseError} : (entry.name, e) ∈ config.faults ↔
      (Definition.ofBody entry.kind entry.body).element entry.name = .error e := by
    simp [mem_faults_iff, hget]
  refine ⟨config, hread, by rw [← hconfig], hget, exists_element_ofBody_iff hbody hreferable,
    fun haccepts => ?_, fun hrefused => ?_, ?_, ?_, ?_⟩
  · obtain ⟨element, hok⟩ := exists_element_of_accepts hreferable haccepts
    rw [List.filter_eq_nil_iff]
    rintro ⟨other, e⟩ hmem heq
    obtain rfl : other = entry.name := of_decide_eq_true heq
    rw [hfault, hok] at hmem
    cases hmem
  · rcases exists_ok_or_error ((Definition.ofBody entry.kind entry.body).element entry.name) with
      hok | ⟨e, he⟩
    · exact absurd ((exists_element_ofBody_iff hbody hreferable).1 hok) hrefused
    · obtain ⟨hoperator, helse⟩ := error_of_ofBody hbody hreferable he
      exact ⟨e, filter_faults_of_mem (hfault.2 he), he, hoperator, helse⟩
  · rw [messages_eq, ← hconfig]
  · rw [List.pairwise_map]
    exact (pairwise_faults config).imp Text.bytes_lt_iff.2
  · intro message hmessage
    obtain ⟨problem, hproblem, rfl⟩ := List.mem_map.1 hmessage
    exact exists_heading_of_mem_formulaProblems hproblem

/-- An interval of a rule and a number, behind a range of the same name and in front of a range
without bounds. -/
theorem problems_of_half_right_body :
    let entry : Entry := ⟨"A", .interval, .list [.text "< 5: 1", .number 5]⟩
    let document := Document.list [.list [.text "[A]"],
      .record [(⟨"A", .range, .list [.number 0, .number 1]⟩ : Entry).field, entry.field,
        (⟨"B", .range, .null⟩ : Entry).field]]
    ∃ config, ofDocument? document = some config ∧
      config.faults.filter (fun fault => fault.1 = "A") = [("A", .invalidInterval "A")] := by
  intro entry document
  have hdocument : WrittenAs ["[A]"] ([⟨"A", .range, .list [.number 0, .number 1]⟩] ++
      entry :: [⟨"B", .range, .null⟩]) document := .list
  have hjson : ∀ other ∈ [⟨"A", .range, .list [.number 0, .number 1]⟩] ++
      entry :: [⟨"B", .range, .null⟩], other.body.IsJson := by
    simp only [List.cons_append, List.nil_append, List.forall_mem_cons, entry]
    refine ⟨.list ?_, .list ?_, .null, by simp⟩
    · simp [Document.IsJson.number]
    · simp [Document.IsJson.number, Document.IsJson.text]
  obtain ⟨config, hread, _, _, haccepts, _, hrefused, _⟩ :=
    problems_of_body hdocument hjson (by simp [entry]) (by decide)
  have herror : (Definition.ofBody entry.kind entry.body).element entry.name =
      .error (.invalidInterval "A") := by
    have hdefinition : Definition.ofBody entry.kind entry.body = .malformed .interval := rfl
    rw [hdefinition]
    exact element_malformed (by decide) .interval
  have hnot : ¬entry.kind.Accepts entry.body := by
    rw [← haccepts, herror]
    simp
  obtain ⟨e, hfaults, he, _⟩ := hrefused hnot
  cases herror.symm.trans he
  exact ⟨config, hread, hfaults⟩

end Config

end Scorecard
