import Mathlib.Data.List.Perm.Basic
import Scorecard.Proofs.Requests

/-!
# Subjects of a ranking

A ranking looks at each subject by itself: what becomes of a subject is what scoring its inputs
alone gives, so it is either one row or one diagnostic, whatever the other subjects are. The rows
move when they are ranked, the diagnostics stay in the order of the file. The text of a row is that
of the score alone, with a tabulator and the name behind it, or a line of a table. Main statement:
`rank_accounts_for_subjects`.
-/

namespace Scorecard.CommandLine

open Attempt FileSystem

/-- What scoring the inputs of a subject alone prints or reports. -/
def scoreAlone (scoring : Scoring) (subject : Subject) : Outcome :=
  scoreInputs scoring subject.inputs false false

/-- A row has the name of a subject and the score that is printed for its inputs. -/
def IsRowOf (scoring : Scoring) (subject : Subject) (row : Ranked) : Prop :=
  row.subject = subject.name ∧
    scoreAlone scoring subject =
      { exit := .success, output := Number.display row.score ++ "\n", diagnostics := [] }

/-- A diagnostic has the name of a subject and the error that is reported for its inputs. -/
def IsFailureOf (scoring : Scoring) (subject : Subject) (diagnostic : Diagnostic) : Prop :=
  ∃ e : String,
    scoreAlone scoring subject =
      { exit := .evaluation
        output := ""
        diagnostics := [.line ("Evaluation error: " ++ e)] } ∧
    diagnostic = .line ("Evaluation error for " ++ subject.name ++ ": " ++ e)

/-- The line of a table for a row: its place, its score in short and its name. -/
def tableLine (row : Ranked) (index : Nat) : String :=
  Report.padStart 2 (toString (index + 1)) ++ ". " ++
    Report.padStart 7 (Report.amount row.score) ++ "  " ++ row.subject

/-- The subjects whose inputs have a score. -/
def scored (scoring : Scoring) (subjects : List Subject) : List Subject :=
  subjects.filter fun subject => (scoreAlone scoring subject).exit = .success

/-- The subjects whose inputs have none. -/
def unscored (scoring : Scoring) (subjects : List Subject) : List Subject :=
  subjects.filter fun subject => (scoreAlone scoring subject).exit ≠ .success

/-- A map with gaps relates the members that have a value to their values, one by one. -/
theorem forall₂_filter_filterMap {α β : Type} {p : α → Bool} {f : α → Option β}
    {R : α → β → Prop}
    (h : ∀ a, (p a = true ∧ ∃ b, f a = some b ∧ R a b) ∨ (p a = false ∧ f a = none))
    (l : List α) : List.Forall₂ R (l.filter p) (l.filterMap f) := by
  induction l with
  | nil => exact .nil
  | cons a rest ih =>
    rcases h a with ⟨hp, b, hf, hR⟩ | ⟨hp, hf⟩
    · rw [List.filter_cons_of_pos hp, List.filterMap_cons_some hf]
      exact .cons hR ih
    · rw [List.filter_cons_of_neg (by simp [hp]), List.filterMap_cons_none hf]
      exact ih

/-- The table of ranked rows; it says so if there are none. -/
def tableText (rows : List Ranked) : String :=
  if rows = [] then "No subjects to score."
  else "\n".intercalate (rows.zipIdx.map fun (row, index) => tableLine row index)

theorem table_eq_tableText (rows : List Ranked) : Report.table false rows = tableText rows := by
  have hpoint : ". " = "." ++ " " := rfl
  have hrow (row : Ranked) (index : Nat) : Report.row false row index = tableLine row index := by
    show Report.padStart 2 (toString (index + 1)) ++ "." ++ " " ++
      Report.padStart 7 (Report.amount row.score) ++ "  " ++ row.subject = _
    simp only [tableLine, hpoint, String.append_assoc]
  simp only [Report.table, List.isEmpty_iff, hrow]
  rfl

section

variable {config : Config} {scoring : Scoring} (h : Scoring.compile config = .ok scoring)

include h

theorem scoreAlone_of_evaluate_eq_ok {subject : Subject} {value : Float}
    (hvalue : scoring.evaluate subject.inputs = .ok value) :
    scoreAlone scoring subject =
      { exit := .success, output := Number.display value ++ "\n", diagnostics := [] } := by
  obtain ⟨_, _, _, houtcome⟩ :=
    (showsScore_scoreInputs h subject.inputs false false).value value hvalue
  exact houtcome

theorem scoreAlone_of_evaluate_eq_error {subject : Subject} {e : EvaluationError}
    (he : scoring.evaluate subject.inputs = .error e) :
    scoreAlone scoring subject =
      { exit := .evaluation
        output := ""
        diagnostics := [.line ("Evaluation error: " ++ e.message)] } :=
  (showsScore_scoreInputs h subject.inputs false false).error e he

/-- The rows before they are ranked are those of the scored subjects, one by one. -/
theorem forall₂_isRowOf (subjects : List Subject) :
    List.Forall₂ (IsRowOf scoring) (scored scoring subjects)
      (subjects.filterMap (ranked? scoring)) := by
  refine forall₂_filter_filterMap (fun subject => ?_) subjects
  rcases exists_ok_or_error (scoring.evaluate subject.inputs) with ⟨value, hvalue⟩ | ⟨e, he⟩
  · have halone := scoreAlone_of_evaluate_eq_ok h hvalue
    have hrow : ranked? scoring subject = some ⟨subject.name, value⟩ := by rw [ranked?, hvalue]
    exact .inl ⟨by simp [halone], _, hrow, rfl, halone⟩
  · have halone := scoreAlone_of_evaluate_eq_error h he
    exact .inr ⟨by simp [halone], by rw [ranked?, he]⟩

/-- The diagnostics are those of the other subjects, one by one. -/
theorem forall₂_isFailureOf (subjects : List Subject) :
    List.Forall₂ (IsFailureOf scoring) (unscored scoring subjects)
      (subjects.filterMap (failure? scoring)) := by
  refine forall₂_filter_filterMap (fun subject => ?_) subjects
  rcases exists_ok_or_error (scoring.evaluate subject.inputs) with ⟨value, hvalue⟩ | ⟨e, he⟩
  · have halone := scoreAlone_of_evaluate_eq_ok h hvalue
    exact .inr ⟨by simp [halone], by rw [failure?, hvalue]⟩
  · have halone := scoreAlone_of_evaluate_eq_error h he
    have hfailure : failure? scoring subject =
        some (.line ("Evaluation error for " ++ subject.name ++ ": " ++ e.message)) := by
      rw [failure?, he]
      rfl
    exact .inl ⟨by simp [halone], _, hfailure, e.message, halone, rfl⟩

/-- What a ranking prints are the rows of the scored subjects in a new order. -/
theorem exists_rows (subjects : List Subject) (tabs : Bool) :
    ∃ order rows, order.Perm (scored scoring subjects) ∧
      List.Forall₂ (IsRowOf scoring) order rows ∧
      (rankSubjects scoring subjects tabs).output =
        (if tabs then
            "\n".intercalate (rows.map fun row => Number.display row.score ++ "\t" ++ row.subject)
          else tableText rows) ++ "\n" := by
  have hperm := Ranked.rank_perm (subjects.filterMap (ranked? scoring))
  obtain ⟨order, horder, hrows⟩ :=
    List.perm_comp_forall₂ hperm (forall₂_isRowOf h subjects).flip
  refine ⟨order, _, hrows, horder.flip, ?_⟩
  rw [← table_eq_tableText]
  rfl

end

/-- Arguments ask for the plain score of inputs that are those of a subject for all names that the
formulas refer to, wherever the inputs come from. -/
def AsksForScore (codec : Codec) (config : Config) (subject : Subject) (home : Option String)
    (store : Store) (arguments : List String) : Prop :=
  ∃ request inputs? assignments file, parseArguments arguments = .ok request ∧
    request.command = .score inputs? assignments false false ∧
    store.Configures codec home request config ∧ store.Supplies codec inputs? file ∧
    ∀ name, config.RefersTo name →
      (assignments.reverse.lookup name <|> file.get? name) = subject.inputs.get? name

section

variable {codec : Codec} {config : Config} {home : Option String} {store : Store}
  {arguments : List String} (hproblems : config.problems = [])

include hproblems

theorem answer_eq_scoreAlone {scoring : Scoring} (h : Scoring.compile config = .ok scoring)
    {subject : Subject} (hasks : AsksForScore codec config subject home store arguments) :
    Store.system.answer codec home store arguments = (scoreAlone scoring subject, store) := by
  obtain ⟨request, inputs?, assignments, file, hrequest, hcommand, hconfig, hfile, hinputs⟩ := hasks
  have hscore : scoring.score (file.insertMany assignments) = scoring.score subject.inputs := by
    refine Scoring.score_congr h fun name hname => ?_
    rw [NameMap.get?_insertMany]
    exact hinputs name hname
  have hnotInit (force : Bool) : request.command ≠ .init force :=
    fun hinit => nomatch hcommand.symm.trans hinit
  rw [answer_of_parseArguments hrequest, run_of_sound lawful_system hnotInit hconfig hproblems h,
    hcommand, run_score_of_supplies lawful_system hfile]
  unfold scoreAlone scoreInputs
  rw [hscore]

/-- A ranking of the subjects in a file with a sound configuration. What scoring the inputs of a
subject alone prints or reports decides what becomes of the subject. Each one that scores is one
row, with the number that is printed alone; each other one is one diagnostic, with the error that is
reported alone, in the order of the file. A row with tabulators is the number, a tabulator and the
name. The exit is 1 exactly if there is such a diagnostic. -/
theorem rank_accounts_for_subjects {request : Request} {path : String} {tabs : Bool}
    {subjects : List Subject} (hrequest : parseArguments arguments = .ok request)
    (hcommand : request.command = .rank path tabs)
    (hconfig : store.Configures codec home request config)
    (hholds : store.Holds codec path subjects) :
    ∃ scoring outcome, Scoring.compile config = .ok scoring ∧
      Store.system.answer codec home store arguments = (outcome, store) ∧
      (∃ order rows, order.Perm (scored scoring subjects) ∧
        List.Forall₂ (IsRowOf scoring) order rows ∧
        outcome.output =
          (if tabs then
              "\n".intercalate
                (rows.map fun row => Number.display row.score ++ "\t" ++ row.subject)
            else tableText rows) ++ "\n") ∧
      List.Forall₂ (IsFailureOf scoring) (unscored scoring subjects) outcome.diagnostics ∧
      (outcome.exit.code = 1 ↔ unscored scoring subjects ≠ []) ∧
      (outcome.exit.code = 0 ↔ unscored scoring subjects = []) ∧
      ∀ codec' subject home' store' arguments',
        AsksForScore codec' config subject home' store' arguments' →
          Store.system.answer codec' home' store' arguments' =
            (scoreAlone scoring subject, store') := by
  obtain ⟨scoring, hcompile, _⟩ := Config.problems_eq_nil_iff.1 hproblems
  have hnotInit (force : Bool) : request.command ≠ .init force :=
    fun hinit => nomatch hcommand.symm.trans hinit
  have hanswer : Store.system.answer codec home store arguments =
      (rankSubjects scoring subjects tabs, store) := by
    rw [answer_of_parseArguments hrequest,
      run_of_sound lawful_system hnotInit hconfig hproblems hcompile, hcommand,
      run_rank_of_holds lawful_system hholds]
  have hfailures := forall₂_isFailureOf hcompile subjects
  have hexit : (rankSubjects scoring subjects tabs).exit =
      if unscored scoring subjects = [] then .success else .evaluation := by
    show (if (subjects.filterMap (failure? scoring)).isEmpty = true then Exit.success else _) = _
    simp only [List.isEmpty_iff, ← List.length_eq_zero_iff, hfailures.length_eq]
  refine ⟨scoring, _, hcompile, hanswer, exists_rows hcompile subjects tabs, hfailures, ?_, ?_,
    fun _ _ _ _ _ => answer_eq_scoreAlone hproblems hcompile⟩
  · rw [hexit]
    split <;> simp [Exit.code, *]
  · rw [hexit]
    split <;> simp [Exit.code, *]

end

/-- Two of three subjects have the same name; the third lacks its input. -/
theorem rank_accounts_for_repeated_names :
    let configText := "expression: ['[A]']\nelements: \x7bA: \x7bRange: [0, 10]\x7d\x7d\n"
    let inputsText := "[[\"a\", \x7b\"A\": 1\x7d], [\"b\", \x7b\x7d], [\"a\", \x7b\"A\": 2\x7d]]"
    let store := ((Store.ofDirectories [] []).put ["c.yaml"] (.file configText)).put ["in.json"]
      (.file inputsText)
    ∃ scoring subjects outcome order rows, store.Holds .standard "in.json" subjects ∧
      subjects.map Subject.name = ["a", "b", "a"] ∧
      Store.system.answer .standard none store
          ["-c", "c.yaml", "rank", "-i", "in.json", "--tsv"] = (outcome, store) ∧
      order.Perm (scored scoring subjects) ∧ List.Forall₂ (IsRowOf scoring) order rows ∧
      outcome.output =
        "\n".intercalate (rows.map fun row => Number.display row.score ++ "\t" ++ row.subject) ++
          "\n" ∧
      outcome.diagnostics = [.line "Evaluation error for b: missing input value for 'A'"] ∧
      outcome.exit.code = 1 := by
  intro configText inputsText store
  have hrequest : parseArguments ["-c", "c.yaml", "rank", "-i", "in.json", "--tsv"] =
      .ok ⟨some "c.yaml", .rank "in.json" true⟩ := rfl
  have hread : (Codec.standard.config? configText).any (·.problems.isEmpty) = true := by
    decide +kernel
  have hsubjects : (Codec.standard.subjects "in.json" inputsText).toOption.map
      (·.map Subject.name) = some ["a", "b", "a"] := by decide +kernel
  have hdiagnostics : (Store.system.answer .standard none store
      ["-c", "c.yaml", "rank", "-i", "in.json", "--tsv"]).1.diagnostics =
        [.line "Evaluation error for b: missing input value for 'A'"] := by decide +kernel
  rw [Option.any_eq_true] at hread
  obtain ⟨config, hconfig, hsound⟩ := hread
  obtain ⟨subjects, hfile, hnames⟩ := exists_ok_of_map_toOption hsubjects
  have hholds : store.Holds .standard "in.json" subjects :=
    ⟨inputsText, by decide +kernel, subjects_eq_ok_iff.1 hfile⟩
  obtain ⟨scoring, outcome, _, hanswer, ⟨order, rows, hperm, hrows, houtput⟩, hfailures, hexit,
    _⟩ := rank_accounts_for_subjects (List.isEmpty_iff.1 hsound) hrequest rfl
      ⟨"c.yaml", configText, rfl, by decide +kernel, hconfig⟩ hholds
  rw [hanswer] at hdiagnostics
  refine ⟨scoring, subjects, outcome, order, rows, hholds, hnames, hanswer, hperm, hrows, houtput,
    hdiagnostics, hexit.2 fun hnil => ?_⟩
  rw [hnil, hdiagnostics] at hfailures
  cases hfailures

end Scorecard.CommandLine
