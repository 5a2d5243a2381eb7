import Scorecard.Codec.Standard
import Scorecard.Proofs.Dependence
import Scorecard.Proofs.Stores

/-!
# How requests end

A request for a command other than `init` needs a configuration that is there, can be read and has
no problems. With one, only missing inputs can keep it from a score: validation leaves no other
error, and a breakdown cannot fail once the score is there. So the exit code tells the state of the
files, and what is printed is empty where it tells of a failure other than that of a single subject
in a list. All this goes for any codec: a text of which it makes nothing cannot be read. Main
statement: `exit_of_request`.
-/

namespace Scorecard

/-! ## Scores of sound configurations -/

namespace Config

variable {config : Config} {scoring : Scoring} {inputs : Inputs}

/-- Each name that the formulas refer to has an input. -/
def Provided (config : Config) (inputs : Inputs) : Prop :=
  ∀ name, config.RefersTo name → (inputs.get? name).isSome = true

theorem present_lookups_iff (h : Scoring.compile config = .ok scoring) :
    Element.Present inputs scoring.root.lookups ↔ config.Provided inputs := by
  unfold Element.Present Provided
  simp only [← Scoring.mem_map_name_lookups_iff h, List.forall_mem_map, Option.isSome_iff_exists]

/-- A configuration without problems scores inputs exactly if all that it refers to are there. -/
theorem exists_evaluate_eq_ok_iff (h : Scoring.compile config = .ok scoring)
    (hproblems : config.problems = []) :
    (∃ value, scoring.evaluate inputs = .ok value) ↔ config.Provided inputs := by
  obtain ⟨scoring', hcompile, hne, hformulas⟩ := problems_eq_nil_iff.1 hproblems
  rw [h] at hcompile
  cases hcompile
  have hlookups : scoring.root.toElement.lookups = scoring.root.lookups :=
    Element.lookups_node _ _ _
  rw [← present_lookups_iff h, ← hlookups]
  exact (Element.exists_evaluateWith_eq_ok_iff _ _ _).trans
    (and_iff_right (populated_root h hne hformulas))

end Config

namespace CommandLine

open FileSystem

/-- An outcome shows what inputs score. -/
structure ShowsScore (scoring : Scoring) (inputs : Inputs) (breakdown json : Bool)
    (outcome : Outcome) : Prop where
  /-- An error is reported, and nothing is printed. -/
  error : ∀ e, scoring.evaluate inputs = .error e →
    outcome =
      { exit := .evaluation
        output := ""
        diagnostics := [.line ("Evaluation error: " ++ e.message)] }
  /-- A value is printed on a line of its own, unless its breakdown or JSON is asked for. -/
  value : ∀ x, scoring.evaluate inputs = .ok x → ∃ score : Score,
    scoring.score inputs = .ok score ∧ score.value = x ∧
      outcome =
        { exit := .success
          output :=
            (if json then Document.Json.pretty (Report.scoreDocument score)
              else if breakdown then Report.breakdown false score
              else Number.display x) ++ "\n"
          diagnostics := [] }

theorem showsScore_scoreInputs {config : Config} {scoring : Scoring}
    (h : Scoring.compile config = .ok scoring) (inputs : Inputs) (breakdown json : Bool) :
    ShowsScore scoring inputs breakdown json (scoreInputs scoring inputs breakdown json) := by
  obtain ⟨herror, hok⟩ := Scoring.score_outcome h inputs
  constructor
  · intro e he
    rw [scoreInputs, (herror e).2 he]
    rfl
  · intro x hx
    obtain ⟨factors, hscore, _⟩ := hok x hx
    refine ⟨⟨x, factors⟩, hscore, rfl, ?_⟩
    rw [scoreInputs, hscore]
    rfl

section

variable {config : Config} {scoring : Scoring} (h : Scoring.compile config = .ok scoring)
  (hproblems : config.problems = [])

include h hproblems

/-- A score with its breakdown is printed exactly if all inputs are there. -/
theorem exit_scoreInputs (inputs : Inputs) (breakdown json : Bool) :
    (config.Provided inputs → (scoreInputs scoring inputs breakdown json).exit = .success) ∧
      (¬config.Provided inputs →
        (scoreInputs scoring inputs breakdown json).exit = .evaluation ∧
          (scoreInputs scoring inputs breakdown json).output = "") := by
  rw [← Config.exists_evaluate_eq_ok_iff h hproblems]
  have hshows := showsScore_scoreInputs h inputs breakdown json
  constructor
  · rintro ⟨value, hvalue⟩
    obtain ⟨_, _, _, houtcome⟩ := hshows.value value hvalue
    rw [houtcome]
  · intro hnone
    rcases Attempt.exists_ok_or_error (scoring.evaluate inputs) with hvalue | ⟨e, he⟩
    · exact absurd hvalue hnone
    · rw [hshows.error e he]
      exact ⟨rfl, rfl⟩

/-- A ranking fails exactly if a subject lacks an input. -/
theorem exit_rankSubjects (subjects : List Subject) (tabs : Bool) :
    ((∀ subject ∈ subjects, config.Provided subject.inputs) →
        (rankSubjects scoring subjects tabs).exit = .success) ∧
      ((¬∀ subject ∈ subjects, config.Provided subject.inputs) →
        (rankSubjects scoring subjects tabs).exit = .evaluation) := by
  have hfailures : (subjects.filterMap (failure? scoring)).isEmpty = true ↔
      ∀ subject ∈ subjects, config.Provided subject.inputs := by
    rw [List.isEmpty_iff, List.filterMap_eq_nil_iff]
    refine forall₂_congr fun subject _ => ?_
    rw [← Config.exists_evaluate_eq_ok_iff h hproblems]
    unfold failure?
    cases scoring.evaluate subject.inputs <;> simp
  rw [← hfailures]
  exact ⟨fun hempty => if_pos hempty, fun hempty => if_neg hempty⟩

end

/-! ## What files hold -/

namespace Store

/-- The file of the configuration that a request works on holds a configuration. -/
def Configures (codec : Codec) (store : Store) (home : Option String) (request : Request)
    (config : Config) : Prop :=
  ∃ path text, request.config.or (defaultConfig? home) = some path ∧
    store.text? path = some text ∧ codec.config? text = some config

/-- The file of a path holds subjects: a list of them, or the inputs of one that is called
`input`. -/
def Holds (codec : Codec) (store : Store) (path : String) (subjects : List Subject) : Prop :=
  ∃ text, store.text? path = some text ∧
    (codec.inputs? (Format.ofPath path) text = some (.subjects subjects) ∨
      ∃ inputs, codec.inputs? (Format.ofPath path) text = some (.single inputs) ∧
        subjects = [⟨"input", inputs⟩])

/-- The inputs that come from a file, if one is given: those of its only subject. -/
def Supplies (codec : Codec) (store : Store) : Option String → Inputs → Prop
  | none, inputs => inputs = .empty
  | some path, inputs => ∃ subject, store.Holds codec path [subject] ∧ inputs = subject.inputs

end Store

/-! ## Reading files -/

theorem subjects_eq_ok_iff {codec : Codec} {path text : String} {subjects : List Subject} :
    codec.subjects path text = .ok subjects ↔
      codec.inputs? (Format.ofPath path) text = some (.subjects subjects) ∨
        ∃ inputs, codec.inputs? (Format.ofPath path) text = some (.single inputs) ∧
          subjects = [⟨"input", inputs⟩] := by
  cases hread : codec.inputs? (Format.ofPath path) text with
  | none => simp [Codec.subjects, hread]
  | some file =>
    cases file with
    | subjects all => simp [Codec.subjects, hread, InputsFile.toSubjects]
    | single inputs => simp [Codec.subjects, hread, InputsFile.toSubjects, eq_comm]

theorem Store.find?_of_text? {store : Store} {path text : String}
    (h : store.text? path = some text) :
    store.find? path = some (.file text) := by
  unfold Store.text? at h
  split at h
  · rename_i hfind
    cases h
    exact hfind
  · cases h

section

variable {codec : Codec} {σ : Type} {files : FileSystem (StateM σ)} {view : σ → Store}
  (hfiles : files.Lawful view) {state : σ} {path text : String}

include hfiles

theorem run_compileFile_of_text? (h : (view state).text? path = some text) :
    (compileFile codec files path).run state = (compileText codec path text, state) := by
  simp only [compileFile, StateT.run_bind, hfiles.exists?, hfiles.read?, pure_bind,
    Store.find?_of_text? h, h, Option.isSome_some, if_true]
  rfl

theorem run_compileFile_of_no_text (h : (view state).text? path = none) :
    ∃ diagnostic, (compileFile codec files path).run state =
      (.error (.fail .config diagnostic), state) := by
  simp only [compileFile, StateT.run_bind, hfiles.exists?, pure_bind]
  split
  · simp only [StateT.run_bind, hfiles.read?, pure_bind, h]
    exact ⟨_, rfl⟩
  · exact ⟨_, rfl⟩

theorem run_readSubjects_of_holds {subjects : List Subject}
    (h : (view state).Holds codec path subjects) :
    (readSubjects codec files path).run state = (.ok subjects, state) := by
  obtain ⟨text, htext, hfile⟩ := h
  simp only [readSubjects, StateT.run_bind, hfiles.read?, pure_bind, htext,
    subjects_eq_ok_iff.2 hfile]
  rfl

theorem run_readSubjects_of_not_holds (h : ∀ subjects, ¬(view state).Holds codec path subjects) :
    ∃ diagnostic, (readSubjects codec files path).run state =
      (.error (.fail .input diagnostic), state) := by
  simp only [readSubjects, StateT.run_bind, hfiles.read?, pure_bind]
  cases htext : (view state).text? path with
  | none => exact ⟨_, rfl⟩
  | some text =>
    cases hsubjects : codec.subjects path text with
    | ok subjects => exact absurd ⟨text, htext, subjects_eq_ok_iff.1 hsubjects⟩ (h subjects)
    | error format =>
      simp only [hsubjects]
      exact ⟨_, rfl⟩

end

/-! ## Running commands -/

section

variable {codec : Codec} {σ : Type} {files : FileSystem (StateM σ)} {state : σ}
  {home : Option String} {request : Request} {config : Config} {scoring : Scoring}

theorem answer_of_parseArguments {arguments : List String}
    (hrequest : parseArguments arguments = .ok request) :
    files.answer codec home state arguments = (run codec files home request).run state := by
  simp only [FileSystem.answer, respond, hrequest]

variable {view : σ → Store} (hfiles : files.Lawful view)

include hfiles

/-- With a sound configuration a request runs its command on what it compiles to. -/
theorem run_of_sound (hcommand : ∀ force, request.command ≠ .init force)
    (hconfig : (view state).Configures codec home request config) (hproblems : config.problems = [])
    (h : Scoring.compile config = .ok scoring) :
    (run codec files home request).run state =
      (runOn codec files scoring request.command).run state := by
  obtain ⟨path, text, hpath, htext, hread⟩ := hconfig
  have hcompile : compileText codec path text = .ok scoring := by
    simp only [compileText, hread]
    exact Config.compileSound_eq_ok hproblems h
  have hfile : (compileFile codec files path).run state = (.ok scoring, state) := by
    rw [run_compileFile_of_text? hfiles htext, hcompile]
  simp only [run, hpath]
  cases hrequest : request.command with
  | init force => exact absurd hrequest (hcommand force)
  | _ => simp only [StateT.run_bind, hfile]; rfl

/-- Without one it fails, and prints nothing. -/
theorem run_of_unsound (hcommand : ∀ force, request.command ≠ .init force)
    (h : ∀ config, (view state).Configures codec home request config → config.problems ≠ []) :
    ∃ diagnostics, (run codec files home request).run state =
      ({ exit := .config, diagnostics }, state) := by
  cases hpath : request.config.or (defaultConfig? home) with
  | none =>
    simp only [run, hpath]
    exact ⟨_, rfl⟩
  | some path =>
    have hfile : ∃ diagnostics, (compileFile codec files path).run state =
        (.error { exit := .config, diagnostics }, state) := by
      cases htext : (view state).text? path with
      | none =>
        obtain ⟨diagnostic, hfile⟩ := run_compileFile_of_no_text hfiles htext
        exact ⟨[diagnostic], hfile⟩
      | some text =>
        rw [run_compileFile_of_text? hfiles htext, compileText]
        cases hread : codec.config? text with
        | none => exact ⟨_, rfl⟩
        | some config =>
          have hproblems := h config ⟨path, text, hpath, htext, hread⟩
          simp only [compileSound]
          cases hlist : config.problems with
          | nil => exact absurd hlist hproblems
          | cons problem rest => exact ⟨_, rfl⟩
    obtain ⟨diagnostics, hfile⟩ := hfile
    refine ⟨diagnostics, ?_⟩
    simp only [run, hpath]
    cases hrequest : request.command with
    | init force => exact absurd hrequest (hcommand force)
    | _ => simp only [StateT.run_bind, hfile]; rfl

theorem run_score_of_supplies {inputs? : Option String} {inputs : Inputs}
    (h : (view state).Supplies codec inputs? inputs) (assignments : List (String × Float))
    (breakdown json : Bool) :
    (runOn codec files scoring (.score inputs? assignments breakdown json)).run state =
      (scoreInputs scoring (inputs.insertMany assignments) breakdown json, state) := by
  cases inputs? with
  | none =>
    subst h
    rfl
  | some path =>
    obtain ⟨subject, hholds, rfl⟩ := h
    simp only [runOn, StateT.run_bind, run_readSubjects_of_holds hfiles hholds]
    rfl

theorem run_score_of_not_supplies {inputs? : Option String}
    (h : ∀ inputs, ¬(view state).Supplies codec inputs? inputs)
    (assignments : List (String × Float)) (breakdown json : Bool) :
    ∃ diagnostic,
      (runOn codec files scoring (.score inputs? assignments breakdown json)).run state =
        (.fail .input diagnostic, state) := by
  cases inputs? with
  | none => exact absurd rfl (h .empty)
  | some path =>
    by_cases hholds : ∃ subjects, (view state).Holds codec path subjects
    · obtain ⟨subjects, hholds⟩ := hholds
      have hnotOne (subject : Subject) : subjects ≠ [subject] := by
        rintro rfl
        exact h subject.inputs ⟨subject, hholds, rfl⟩
      simp only [runOn, StateT.run_bind, run_readSubjects_of_holds hfiles hholds]
      match subjects, hnotOne with
      | [], _ => exact ⟨_, rfl⟩
      | [subject], hnotOne => exact absurd rfl (hnotOne subject)
      | _ :: _ :: _, _ => exact ⟨_, rfl⟩
    · obtain ⟨diagnostic, hread⟩ := run_readSubjects_of_not_holds hfiles (not_exists.1 hholds)
      simp only [runOn, StateT.run_bind, hread]
      exact ⟨diagnostic, rfl⟩

theorem run_rank_of_holds {path : String} {subjects : List Subject}
    (h : (view state).Holds codec path subjects) (tabs : Bool) :
    (runOn codec files scoring (.rank path tabs)).run state =
      (rankSubjects scoring subjects tabs, state) := by
  simp only [runOn, StateT.run_bind, run_readSubjects_of_holds hfiles h]
  rfl

theorem run_rank_of_not_holds {path : String}
    (h : ∀ subjects, ¬(view state).Holds codec path subjects) (tabs : Bool) :
    ∃ diagnostic, (runOn codec files scoring (.rank path tabs)).run state =
      (.fail .input diagnostic, state) := by
  obtain ⟨diagnostic, hread⟩ := run_readSubjects_of_not_holds hfiles h
  simp only [runOn, StateT.run_bind, hread]
  exact ⟨diagnostic, rfl⟩

/-- A command on a compiled configuration finds nothing wrong with it, and changes no file. -/
theorem run_runOn (scoring : Scoring) (state : σ) (command : Command) :
    ∃ outcome, (runOn codec files scoring command).run state = (outcome, state) ∧
      outcome.exit ≠ .config := by
  have hscore (inputs : Inputs) (breakdown json : Bool) :
      (scoreInputs scoring inputs breakdown json).exit ≠ .config := by
    unfold scoreInputs
    cases scoring.score inputs <;> exact nofun
  cases command with
  | check => exact ⟨_, rfl, nofun⟩
  | tree json => exact ⟨_, rfl, nofun⟩
  | init force => exact ⟨_, rfl, nofun⟩
  | score inputs? assignments breakdown json =>
    by_cases hfile : ∃ file, (view state).Supplies codec inputs? file
    · obtain ⟨file, hfile⟩ := hfile
      exact ⟨_, run_score_of_supplies hfiles hfile assignments breakdown json, hscore _ _ _⟩
    · obtain ⟨diagnostic, hrun⟩ :=
        run_score_of_not_supplies hfiles (not_exists.1 hfile) assignments breakdown json
      exact ⟨_, hrun, nofun⟩
  | rank path tabs =>
    by_cases hfile : ∃ subjects, (view state).Holds codec path subjects
    · obtain ⟨subjects, hholds⟩ := hfile
      refine ⟨_, run_rank_of_holds hfiles hholds tabs, ?_⟩
      show (if _ then Exit.success else Exit.evaluation) ≠ .config
      split <;> exact nofun
    · obtain ⟨diagnostic, hrun⟩ := run_rank_of_not_holds hfiles (not_exists.1 hfile) tabs
      exact ⟨_, hrun, nofun⟩

/-- A request for a command other than `init` changes no file. -/
theorem exists_run_of_command (hcommand : ∀ force, request.command ≠ .init force) :
    ∃ outcome, (run codec files home request).run state = (outcome, state) := by
  by_cases hsound : ∃ config, (view state).Configures codec home request config ∧
      config.problems = []
  · obtain ⟨config, hconfig, hproblems⟩ := hsound
    obtain ⟨scoring, hcompile, _⟩ := Config.problems_eq_nil_iff.1 hproblems
    obtain ⟨outcome, hrun, _⟩ := run_runOn hfiles scoring state request.command
    exact ⟨outcome, (run_of_sound hfiles hcommand hconfig hproblems hcompile).trans hrun⟩
  · obtain ⟨diagnostics, hrun⟩ := run_of_unsound hfiles hcommand fun config hconfig hproblems =>
      hsound ⟨config, hconfig, hproblems⟩
    exact ⟨_, hrun⟩

end

/-! ## Exit codes -/

theorem lookup_isSome_iff {pairs : List (String × Float)} {name : String} :
    (pairs.reverse.lookup name).isSome = true ↔ name ∈ pairs.map Prod.fst := by
  rw [← not_iff_not, Bool.not_eq_true, Option.isSome_eq_false_iff, Option.isNone_iff_eq_none,
    List.lookup_eq_none_iff, List.mem_map]
  constructor
  · rintro hnone ⟨pair, hmem, rfl⟩
    exact absurd (hnone pair (List.mem_reverse.2 hmem)) (by simp)
  · intro hnone pair hmem
    exact bne_iff_ne.2 fun heq => hnone ⟨pair, List.mem_reverse.1 hmem, heq.symm⟩

section

variable {codec : Codec} {config : Config} {scoring : Scoring} {store : Store} {outcome : Outcome}

/-- Assignments provide what a file lacks. -/
theorem provided_insertMany_iff {file : Inputs} {assignments : List (String × Float)} :
    config.Provided (file.insertMany assignments) ↔
      ∀ name, config.RefersTo name →
        (file.get? name).isSome = true ∨ name ∈ assignments.map Prod.fst := by
  unfold Config.Provided
  refine forall₂_congr fun name _ => ?_
  rw [NameMap.get?_insertMany, ← lookup_isSome_iff]
  cases assignments.reverse.lookup name <;> simp

/-- How scoring ends, by the inputs that a file supplies and by those that are assigned. -/
structure ScoreEnds (codec : Codec) (config : Config) (scoring : Scoring) (store : Store)
    (inputs? : Option String) (assignments : List (String × Float)) (breakdown json : Bool)
    (outcome : Outcome) : Prop where
  /-- The file does not load, or holds another number of subjects than one. -/
  input : outcome.exit.code = 2 ↔ ∀ file, ¬store.Supplies codec inputs? file
  /-- A name that a formula refers to is neither in the file nor assigned. -/
  evaluation : ∀ file, store.Supplies codec inputs? file → (outcome.exit.code = 1 ↔
    ∃ name, config.RefersTo name ∧ (file.get? name).isSome = false ∧
      name ∉ assignments.map Prod.fst)
  success : ∀ file, store.Supplies codec inputs? file → (outcome.exit.code = 0 ↔
    ∀ name, config.RefersTo name →
      (file.get? name).isSome = true ∨ name ∈ assignments.map Prod.fst)
  /-- The last assignment of a name counts, else the file. What these inputs score is shown. -/
  value : ∀ file, store.Supplies codec inputs? file → ∃ inputs : Inputs,
    (∀ name, inputs.get? name = (assignments.reverse.lookup name <|> file.get? name)) ∧
      ShowsScore scoring inputs breakdown json outcome
  output : outcome.exit.code ≠ 0 → outcome.output = ""

/-- How ranking ends, by the subjects that a file holds. -/
structure RankEnds (codec : Codec) (config : Config) (store : Store) (path : String)
    (outcome : Outcome) : Prop where
  /-- The file does not load. -/
  input : outcome.exit.code = 2 ↔ ∀ subjects, ¬store.Holds codec path subjects
  /-- A subject lacks a name that a formula refers to. -/
  evaluation : ∀ subjects, store.Holds codec path subjects → (outcome.exit.code = 1 ↔
    ∃ subject ∈ subjects, ∃ name, config.RefersTo name ∧
      (subject.inputs.get? name).isSome = false)
  success : ∀ subjects, store.Holds codec path subjects → (outcome.exit.code = 0 ↔
    ∀ subject ∈ subjects, ∀ name, config.RefersTo name →
      (subject.inputs.get? name).isSome = true)
  output : outcome.exit.code = 2 → outcome.output = ""

variable {σ : Type} {files : FileSystem (StateM σ)} {view : σ → Store} {state : σ}

theorem scoreEnds_of_run (hfiles : files.Lawful view) (h : Scoring.compile config = .ok scoring)
    (hproblems : config.problems = []) {inputs? : Option String}
    {assignments : List (String × Float)} {breakdown json : Bool}
    (hrun : (runOn codec files scoring (.score inputs? assignments breakdown json)).run state =
      (outcome, state)) :
    ScoreEnds codec config scoring (view state) inputs? assignments breakdown json outcome := by
  have hvalue {file : Inputs} (hfile : (view state).Supplies codec inputs? file) :
      outcome = scoreInputs scoring (file.insertMany assignments) breakdown json := by
    rw [run_score_of_supplies hfiles hfile] at hrun
    exact (Prod.mk.inj hrun).1.symm
  have hexit {file : Inputs} (hfile : (view state).Supplies codec inputs? file) :=
    hvalue hfile ▸
      exit_scoreInputs h hproblems (file.insertMany assignments) breakdown json
  have hcode {file : Inputs} (hfile : (view state).Supplies codec inputs? file) :
      (outcome.exit.code = 1 ↔ ¬config.Provided (file.insertMany assignments)) ∧
        (outcome.exit.code = 0 ↔ config.Provided (file.insertMany assignments)) ∧
        (outcome.exit.code ≠ 0 → outcome.output = "") ∧ outcome.exit.code ≠ 2 := by
    obtain ⟨hsuccess, hfailure⟩ := hexit hfile
    by_cases hprovided : config.Provided (file.insertMany assignments)
    · simp [hsuccess hprovided, hprovided, Exit.code]
    · obtain ⟨hevaluation, houtput⟩ := hfailure hprovided
      simp [hevaluation, houtput, hprovided, Exit.code]
  have hnone (hfile : ∀ file, ¬(view state).Supplies codec inputs? file) :
      outcome.exit = .input ∧ outcome.output = "" := by
    obtain ⟨diagnostic, hfail⟩ :=
      run_score_of_not_supplies hfiles hfile assignments breakdown json
    rw [hfail] at hrun
    rw [← (Prod.mk.inj hrun).1]
    exact ⟨rfl, rfl⟩
  exact
    { input := ⟨fun htwo file hfile => (hcode hfile).2.2.2 htwo,
        fun hfile => by rw [(hnone hfile).1]; rfl⟩
      evaluation := fun file hfile => by
        rw [(hcode hfile).1, provided_insertMany_iff]
        simp only [not_forall, not_or, Bool.not_eq_true, exists_prop]
      success := fun file hfile => by rw [(hcode hfile).2.1, provided_insertMany_iff]
      value := fun file hfile => ⟨_, NameMap.get?_insertMany file assignments,
        hvalue hfile ▸ showsScore_scoreInputs h _ breakdown json⟩
      output := fun hne => by
        by_cases hfile : ∃ file, (view state).Supplies codec inputs? file
        · obtain ⟨file, hfile⟩ := hfile
          exact (hcode hfile).2.2.1 hne
        · exact (hnone (not_exists.1 hfile)).2 }

theorem rankEnds_of_run (hfiles : files.Lawful view) (h : Scoring.compile config = .ok scoring)
    (hproblems : config.problems = []) {path : String} {tabs : Bool}
    (hrun : (runOn codec files scoring (.rank path tabs)).run state = (outcome, state)) :
    RankEnds codec config (view state) path outcome := by
  have hcode {subjects : List Subject} (hholds : (view state).Holds codec path subjects) :
      (outcome.exit.code = 1 ↔ ¬∀ subject ∈ subjects, config.Provided subject.inputs) ∧
        (outcome.exit.code = 0 ↔ ∀ subject ∈ subjects, config.Provided subject.inputs) ∧
        outcome.exit.code ≠ 2 := by
    rw [run_rank_of_holds hfiles hholds] at hrun
    obtain ⟨hsuccess, hfailure⟩ := exit_rankSubjects h hproblems subjects tabs
    rw [(Prod.mk.inj hrun).1] at hsuccess hfailure
    by_cases hprovided : ∀ subject ∈ subjects, config.Provided subject.inputs
    · rw [hsuccess hprovided]
      exact ⟨iff_of_false (by decide) (not_not.2 hprovided), iff_of_true rfl hprovided, by decide⟩
    · rw [hfailure hprovided]
      exact ⟨iff_of_true rfl hprovided, iff_of_false (by decide) hprovided, by decide⟩
  have hnone (hfile : ∀ subjects, ¬(view state).Holds codec path subjects) :
      outcome.exit = .input ∧ outcome.output = "" := by
    obtain ⟨diagnostic, hfail⟩ := run_rank_of_not_holds hfiles hfile tabs
    rw [hfail] at hrun
    rw [← (Prod.mk.inj hrun).1]
    exact ⟨rfl, rfl⟩
  exact
    { input := ⟨fun htwo subjects hholds => (hcode hholds).2.2 htwo,
        fun hfile => by rw [(hnone hfile).1]; rfl⟩
      evaluation := fun subjects hholds => by
        rw [(hcode hholds).1]
        simp only [Config.Provided, not_forall, Bool.not_eq_true, exists_prop]
      success := fun subjects hholds => (hcode hholds).2.1
      output := fun htwo => by
        by_cases hfile : ∃ subjects, (view state).Holds codec path subjects
        · obtain ⟨subjects, hholds⟩ := hfile
          exact absurd htwo (hcode hholds).2.2
        · exact (hnone (not_exists.1 hfile)).2 }

/-- How a command on a compiled configuration ends. -/
theorem ends_of_run (hfiles : files.Lawful view) (h : Scoring.compile config = .ok scoring)
    (hproblems : config.problems = []) (command : Command) :
    (∀ force, command ≠ .init force) →
    (runOn codec files scoring command).run state = (outcome, state) →
    match command with
    | .check => outcome.exit.code = 0
    | .tree _ => outcome.exit.code = 0
    | .score inputs? assignments breakdown json =>
      ScoreEnds codec config scoring (view state) inputs? assignments breakdown json outcome
    | .rank path _ => RankEnds codec config (view state) path outcome
    | .init _ => False := by
  intro hcommand hrun
  cases command with
  | check =>
    cases hrun
    rfl
  | tree json =>
    cases hrun
    rfl
  | score inputs? assignments breakdown json => exact scoreEnds_of_run hfiles h hproblems hrun
  | rank path tabs => exact rankEnds_of_run hfiles h hproblems hrun
  | init force => exact hcommand force rfl

/-- A request for a command other than `init`. It exits with 4 exactly if its configuration is not
there, cannot be read or has problems, and then prints nothing. Otherwise checks and listings exit
with 0, and the exit of a score or a ranking tells what its inputs lack; a score that has a value
prints it. No file changes. -/
theorem exit_of_request (codec : Codec) (home : Option String) {arguments : List String}
    {request : Request} (hrequest : parseArguments arguments = .ok request)
    (hcommand : ∀ force, request.command ≠ .init force) (store : Store) :
    ∃ outcome, Store.system.answer codec home store arguments = (outcome, store) ∧
      (outcome.exit.code = 4 ↔
        ∀ config, store.Configures codec home request config → config.problems ≠ []) ∧
      (outcome.exit.code = 4 → outcome.output = "") ∧
      ∀ config, store.Configures codec home request config → config.problems = [] →
        ∃ scoring, Scoring.compile config = .ok scoring ∧
          match request.command with
          | .check => outcome.exit.code = 0
          | .tree _ => outcome.exit.code = 0
          | .score inputs? assignments breakdown json =>
            ScoreEnds codec config scoring store inputs? assignments breakdown json outcome
          | .rank path _ => RankEnds codec config store path outcome
          | .init _ => False := by
  rw [answer_of_parseArguments hrequest]
  by_cases hsound : ∃ config, store.Configures codec home request config ∧ config.problems = []
  · obtain ⟨config, hconfig, hproblems⟩ := hsound
    obtain ⟨scoring, hcompile, _⟩ := Config.problems_eq_nil_iff.1 hproblems
    obtain ⟨outcome, hrun, hexit⟩ := run_runOn lawful_system scoring store request.command
    rw [← run_of_sound lawful_system hcommand hconfig hproblems hcompile] at hrun
    have hcode : outcome.exit.code ≠ 4 := by
      cases hkind : outcome.exit <;> first | exact absurd hkind hexit | exact nofun
    refine ⟨outcome, hrun, iff_of_false hcode fun hall => hall config hconfig hproblems,
      fun hfour => absurd hfour hcode, fun config hconfig hproblems => ?_⟩
    obtain ⟨scoring, hcompile, _⟩ := Config.problems_eq_nil_iff.1 hproblems
    rw [run_of_sound lawful_system hcommand hconfig hproblems hcompile] at hrun
    exact ⟨scoring, hcompile, ends_of_run lawful_system hcompile hproblems _ hcommand hrun⟩
  · have hunsound : ∀ config, store.Configures codec home request config → config.problems ≠ [] :=
      fun config hconfig hproblems => hsound ⟨config, hconfig, hproblems⟩
    obtain ⟨diagnostics, hrun⟩ := run_of_unsound lawful_system hcommand hunsound
    exact ⟨_, hrun, iff_of_true rfl hunsound, fun _ => rfl,
      fun config hconfig hproblems => absurd hproblems (hunsound config hconfig)⟩

/-- A score of assigned inputs: the last assignment of a name counts. -/
theorem exit_of_request_of_assignments :
    let text := "expression: ['[A]']\nelements: \x7bA: \x7bRange: [0, 10]\x7d\x7d\n"
    let store := (Store.ofDirectories [] []).put ["c.yaml"] (.file text)
    (∃ config, Codec.standard.config? text = some config ∧ config.problems = [] ∧
      config.RefersTo "A") ∧
    ∃ outcome, Store.system.answer .standard none store
        ["-c", "c.yaml", "score", "-s", "A=1", "-s", "A=2"] = (outcome, store) ∧
      outcome.exit.code = 0 ∧ outcome.output = "2\n" := by
  intro text store
  have hrequest : parseArguments ["-c", "c.yaml", "score", "-s", "A=1", "-s", "A=2"] =
      .ok ⟨some "c.yaml", .score none [("A", 1), ("A", 2)] false false⟩ := rfl
  have hread : (Codec.standard.config? text).any
      (fun config => config.problems.isEmpty && config.formulas == ["[A]"]) = true := by
    decide +kernel
  rw [Option.any_eq_true] at hread
  obtain ⟨config, hconfig, hsound⟩ := hread
  rw [Bool.and_eq_true, List.isEmpty_iff, beq_iff_eq] at hsound
  obtain ⟨hproblems, hformulas⟩ := hsound
  have hconfigures : store.Configures .standard none
      ⟨some "c.yaml", .score none [("A", 1), ("A", 2)] false false⟩ config :=
    ⟨"c.yaml", text, rfl, by decide +kernel, hconfig⟩
  have hreferences : (["[A]"].flatMap Formula.tokenize).filterMap Formula.referenceName? =
      ["A"] := by decide +kernel
  have hrefers {name : String} : config.RefersTo name ↔ name = "A" := by
    rw [Config.refersTo_iff, hformulas, hreferences, List.mem_singleton]
  obtain ⟨outcome, hanswer, _, _, hends⟩ := exit_of_request .standard none hrequest nofun store
  obtain ⟨scoring, hcompile, hscore⟩ := hends config hconfigures hproblems
  have hcode : outcome.exit.code = 0 := (hscore.success .empty rfl).2 fun name hname => .inr <| by
    rw [hrefers.1 hname]
    decide
  have houtput : (Store.system.answer .standard none store
      ["-c", "c.yaml", "score", "-s", "A=1", "-s", "A=2"]).1.output = "2\n" := by
    decide +kernel
  rw [hanswer] at houtput
  exact ⟨⟨config, hconfig, hproblems, hrefers.2 rfl⟩, outcome, hanswer, hcode, houtput⟩

end

end CommandLine

end Scorecard
