import Scorecard.Codec.Standard
import Scorecard.Proofs.Requests

/-!
# What a session does to files

Only `init` writes, and what it writes is always the same text, so a session of any length leaves
two kinds of files: those that were there and those that hold the starter configuration. Each run is
one of three kinds (`effect_of_answer`): it spares all files, it fails after making directories, or
it puts the starter configuration at the bare path it was given. That such a file loads later takes
a codec that reads the starter configuration back from its own text, as the standard one does. Main
statement: `files_of_session`.

The path that is tested for an existing file and read afterwards is the given one, not the bare one.
A given path with a slash at its end never names a file, so such a file is replaced unasked, and is
not found afterwards.
-/

namespace Scorecard.CommandLine

/-- Arguments ask for a command with the configuration file at a path. -/
def Asks (home : Option String) (arguments : List String) (path : String) (command : Command) :
    Prop :=
  ∃ request, parseArguments arguments = .ok request ∧ request.command = command ∧
    request.config.or (defaultConfig? home) = some path

theorem Asks.unique {home : Option String} {arguments : List String} {path other : String}
    {command otherCommand : Command} (h : Asks home arguments path command)
    (h' : Asks home arguments other otherCommand) : path = other ∧ command = otherCommand := by
  obtain ⟨request, hrequest, hcommand, hpath⟩ := h
  obtain ⟨request', hrequest', hcommand', hpath'⟩ := h'
  rw [hrequest] at hrequest'
  cases hrequest'
  exact ⟨Option.some_inj.1 (hpath.symm.trans hpath'), hcommand.symm.trans hcommand'⟩

open Store FileSystem

/-- There is the starter configuration, as a codec writes it, at a location. -/
def HoldsStarter (codec : Codec) (store : Store) (location : Location) : Prop :=
  ∃ text, codec.configText? Config.starter = some text ∧
    store.fileAt? location = some (.file text)

/-- What a run does to a file system. -/
inductive Effect (codec : Codec) (home : Option String) (store : Store)
    (arguments : List String) : Outcome → Store → Prop where
  /-- A run that is not asked to write changes nothing. -/
  | spares {outcome : Outcome} (hasks : ∀ path force, ¬Asks home arguments path (.init force)) :
    Effect codec home store arguments outcome store
  /-- A run that fails to write can have made directories, but not if it finds a file. -/
  | fails {path : String} {force : Bool} {made : Store} {diagnostic : Diagnostic}
    (hasks : Asks home arguments path (.init force)) (hmade : AddsDirectories store made)
    (hnew : made ≠ store → force = false → store.find? path = none) :
    Effect codec home store arguments (.fail .config diagnostic) made
  /-- A run writes the starter configuration at the bare path. -/
  | writes {path text : String} {force : Bool} {made : Store} {location : Location}
    (hasks : Asks home arguments path (.init force)) (hmade : AddsDirectories store made)
    (hnew : force = false → store.find? path = none)
    (htext : codec.configText? Config.starter = some text)
    (hlocation : made.locate? (Path.bare path) = some location)
    (hfile : made.contents location ≠ some .directory) :
    Effect codec home store arguments (.print s!"Wrote starter config to {path}")
      (made.put location (.file text))

namespace Effect

variable {codec : Codec} {home : Option String} {store after : Store} {arguments : List String}
  {outcome : Outcome} (h : Effect codec home store arguments outcome after)

include h

theorem keepsDirectories : KeepsDirectories store after := by
  cases h with
  | spares => exact .refl _
  | fails hasks hmade => exact hmade.keepsDirectories
  | writes hasks hmade hnew htext hlocation hfile =>
    exact hmade.keepsDirectories.trans (keepsDirectories_put _ hfile)

/-- Only a file at the bare path of a run that succeeds can change. -/
theorem fileAt? (location : Location) :
    after.fileAt? location = store.fileAt? location ∨
      (∃ path, (∃ force, Asks home arguments path (.init force)) ∧ outcome.exit = .success ∧
        after.locate? (Path.bare path) = some location) ∧ HoldsStarter codec after location := by
  cases h with
  | spares => exact .inl rfl
  | fails hasks hmade => exact .inl (hmade.fileAt? location)
  | @writes path text force made target hasks hmade hnew htext htarget hfile =>
    by_cases heq : location = target
    · subst heq
      have hwritten : HoldsStarter codec (made.put location (.file text)) location :=
        ⟨text, htext, by simp [Store.fileAt?]⟩
      exact .inr ⟨⟨path, ⟨force, hasks⟩, rfl, (keepsDirectories_put _ hfile).locate? htarget⟩,
        hwritten⟩
    · refine .inl (Eq.trans ?_ (hmade.fileAt? location))
      simp [Store.fileAt?, heq]

/-- A run that succeeds leaves the starter configuration at its bare path. -/
theorem fileAt?_bare {path : String} {force : Bool} {location : Location}
    (hasks : Asks home arguments path (.init force)) (hexit : outcome.exit = .success)
    (hlocation : after.locate? (Path.bare path) = some location) :
    HoldsStarter codec after location := by
  cases h with
  | spares hnone => exact absurd hasks (hnone path force)
  | fails => cases hexit
  | @writes _ text _ _ _ hasks' hmade hnew htext htarget hfile =>
    obtain ⟨rfl, _⟩ := hasks.unique hasks'
    have hkept := (keepsDirectories_put (.file text) hfile).locate? htarget
    cases hkept.symm.trans hlocation
    exact ⟨text, htext, by simp [Store.fileAt?]⟩

theorem eq_of_not_asks (hnone : ∀ path force, ¬Asks home arguments path (.init force)) :
    after = store := by
  cases h with
  | spares => rfl
  | fails hasks => exact absurd hasks (hnone _ _)
  | writes hasks => exact absurd hasks (hnone _ _)

theorem eq_of_found {path : String} (hasks : Asks home arguments path (.init false))
    (hfound : (store.find? path).isSome = true) : outcome.exit.code = 4 ∧ after = store := by
  cases h with
  | spares hnone => exact absurd hasks (hnone path false)
  | fails hasks' hmade hnew =>
    obtain ⟨rfl, hcommand⟩ := hasks.unique hasks'
    cases hcommand
    refine ⟨rfl, ?_⟩
    by_contra hne
    rw [hnew hne rfl] at hfound
    cases hfound
  | writes hasks' hmade hnew =>
    obtain ⟨rfl, hcommand⟩ := hasks.unique hasks'
    cases hcommand
    rw [hnew rfl] at hfound
    cases hfound

end Effect

section

variable {codec : Codec} {σ : Type} {files : FileSystem (StateM σ)} {view : σ → Store}
  (hfiles : files.Lawful view) {home : Option String} {state made : σ} {arguments : List String}
  {path : String} {force : Bool}

include hfiles

theorem effect_of_writeStarter (hasks : Asks home arguments path (.init force))
    (hmade : AddsDirectories (view state) (view made))
    (hnew : force = false → (view state).find? path = none) :
    Effect codec home (view state) arguments ((writeStarter codec files path).run made).1
      (view ((writeStarter codec files path).run made).2) := by
  unfold writeStarter
  cases htext : codec.configText? Config.starter with
  | none => exact .fails hasks hmade fun _ => hnew
  | some text =>
    have hreplace := hfiles.replace path text made
    simp only [StateT.run_bind]
    generalize (files.replace path text).run made = answer at hreplace ⊢
    obtain ⟨replacement, after⟩ := answer
    rcases hreplace with ⟨rfl, location, hlocation, hfile, hafter⟩ | ⟨hne, hafter⟩
    · show Effect codec home (view state) arguments _ (view after)
      rw [hafter]
      exact .writes hasks hmade hnew htext hlocation hfile
    · have hmade : AddsDirectories (view state) (view after) := hafter ▸ hmade
      cases replacement with
      | done => exact absurd rfl hne
      | notOpened => exact .fails hasks hmade fun _ => hnew
      | isDirectory => exact .fails hasks hmade fun _ => hnew

theorem effect_of_initStarter (hasks : Asks home arguments path (.init force)) :
    Effect codec home (view state) arguments ((initStarter codec files path force).run state).1
      (view ((initStarter codec files path force).run state).2) := by
  simp only [initStarter, StateT.run_bind, hfiles.exists?, pure_bind]
  split
  · exact .fails hasks (.refl _) fun hne => absurd rfl hne
  · rename_i hgoes
    have hnew (hforce : force = false) : (view state).find? path = none := by
      simpa [hforce] using hgoes
    split
    · exact effect_of_writeStarter hfiles hasks (.refl _) hnew
    · rename_i parent hparent
      simp only [StateT.run_bind, hfiles.exists?, pure_bind]
      split
      · exact effect_of_writeStarter hfiles hasks (.refl _) hnew
      · have hmade := hfiles.makeDirectories parent state
        simp only [StateT.run_bind]
        generalize (files.makeDirectories parent).run state = answer at hmade ⊢
        obtain ⟨goes, made⟩ := answer
        cases goes with
        | true => exact effect_of_writeStarter hfiles hasks hmade hnew
        | false => exact .fails hasks hmade fun _ => hnew

theorem effect_of_answer (home : Option String) (state : σ) (arguments : List String) :
    Effect codec home (view state) arguments (files.answer codec home state arguments).1
      (view (files.answer codec home state arguments).2) := by
  cases hparse : parseArguments arguments with
  | error stop =>
    have hasks (path : String) (force : Bool) : ¬Asks home arguments path (.init force) := by
      rintro ⟨request, hrequest, _⟩
      rw [hparse] at hrequest
      cases hrequest
    have hkept : (files.answer codec home state arguments).2 = state := by
      simp only [answer, respond, hparse]
      cases stop <;> rfl
    rw [hkept]
    exact .spares hasks
  | ok request =>
    rw [answer_of_parseArguments hparse]
    by_cases hinit : ∃ path force, Asks home arguments path (.init force)
    · obtain ⟨path, force, hinit⟩ := hinit
      obtain ⟨_, hrequest, hcommand, hpath⟩ := id hinit
      rw [hparse] at hrequest
      cases hrequest
      simp only [run, hpath, hcommand]
      exact effect_of_initStarter hfiles hinit
    · have hkept : ((run codec files home request).run state).2 = state := by
        by_cases hcommand : ∀ force, request.command ≠ .init force
        · obtain ⟨outcome, hrun⟩ := exists_run_of_command hfiles hcommand
          rw [hrun]
        · obtain ⟨force, hforce⟩ := not_forall_not.1 hcommand
          cases hpath : request.config.or (defaultConfig? home) with
          | none =>
            simp only [run, hpath]
            rfl
          | some path => exact absurd ⟨path, force, request, hparse, hforce, hpath⟩ hinit
      rw [hkept]
      exact .spares fun path force h => hinit ⟨path, force, h⟩

end

/-! ## One run -/

section

variable {σ : Type} (codec : Codec) (files : FileSystem (StateM σ)) (view : σ → Store)
  (home : Option String)

/-- A run writes the starter configuration at a location. -/
def WritesStarter (state : σ) (arguments : List String) (path : String) (location : Location) :
    Prop :=
  (∃ force, Asks home arguments path (.init force)) ∧
    (files.answer codec home state arguments).1.exit = .success ∧
    (view (files.answer codec home state arguments).2).locate? (Path.bare path) = some location

/-- What a run does to the files of a file system. -/
structure RunEffect (state : σ) (arguments : List String) : Prop where
  /-- A file changes only if the run writes the starter configuration there. -/
  changes : ∀ location,
    (view (files.answer codec home state arguments).2).fileAt? location ≠
        (view state).fileAt? location →
      (∃ path, WritesStarter codec files view home state arguments path location) ∧
        HoldsStarter codec (view (files.answer codec home state arguments).2) location
  /-- Other commands change nothing. -/
  commands : (∀ path force, ¬Asks home arguments path (.init force)) →
    view (files.answer codec home state arguments).2 = view state
  /-- Without force, nothing changes if the path that is given is found. -/
  existing : ∀ path, Asks home arguments path (.init false) →
    ((view state).find? path).isSome = true →
      (files.answer codec home state arguments).1.exit.code = 4 ∧
        view (files.answer codec home state arguments).2 = view state
  /-- A run that fails changes no file. -/
  failing : (files.answer codec home state arguments).1.exit.code ≠ 0 →
    ∀ location, (view (files.answer codec home state arguments).2).fileAt? location =
      (view state).fileAt? location

end

section

variable {codec : Codec} {σ : Type} {files : FileSystem (StateM σ)} {view : σ → Store}
  (hfiles : files.Lawful view) {home : Option String}

include hfiles

theorem runEffect (state : σ) (arguments : List String) :
    RunEffect codec files view home state arguments where
  changes location hne :=
    ((effect_of_answer hfiles home state arguments).fileAt? location).resolve_left hne
  commands hnone := (effect_of_answer hfiles home state arguments).eq_of_not_asks hnone
  existing path hasks hfound :=
    (effect_of_answer hfiles home state arguments).eq_of_found hasks hfound
  failing hcode location := by
    rcases (effect_of_answer hfiles home state arguments).fileAt? location with
      hsame | ⟨⟨path, _, hexit, _⟩, _⟩
    · exact hsame
    · rw [hexit] at hcode
      exact absurd rfl hcode

end

/-! ## Sessions -/

theorem answerAll_append {σ : Type} (codec : Codec) (files : FileSystem (StateM σ))
    (home : Option String) (state : σ) (before rest : List (List String)) :
    (files.answerAll codec home state (before ++ rest)).2 =
      (files.answerAll codec home (files.answerAll codec home state before).2 rest).2 := by
  induction before generalizing state with
  | nil => rfl
  | cons arguments before ih => exact ih (files.answer codec home state arguments).2

section

variable {codec : Codec} {σ : Type} {files : FileSystem (StateM σ)} {view : σ → Store}
  (hfiles : files.Lawful view) {home : Option String} {state : σ}

include hfiles

theorem keepsDirectories_answerAll (state : σ) (steps : List (List String)) :
    KeepsDirectories (view state) (view (files.answerAll codec home state steps).2) := by
  induction steps generalizing state with
  | nil => exact .refl _
  | cons arguments rest ih =>
    exact (effect_of_answer hfiles home state arguments).keepsDirectories.trans
      (ih (files.answer codec home state arguments).2)

/-- A session changes a file only by writing the starter configuration there in one of its runs. -/
theorem fileAt?_answerAll (state : σ) (steps : List (List String)) (location : Location) :
    (view (files.answerAll codec home state steps).2).fileAt? location =
        (view state).fileAt? location ∨
      (∃ before arguments rest path, steps = before ++ arguments :: rest ∧
        WritesStarter codec files view home (files.answerAll codec home state before).2 arguments
          path location) ∧
      HoldsStarter codec (view (files.answerAll codec home state steps).2) location := by
  induction steps generalizing state with
  | nil => exact .inl rfl
  | cons arguments rest ih =>
    rcases ih (files.answer codec home state arguments).2 with hsame | ⟨hwritten, hstarter⟩
    · rcases (effect_of_answer hfiles home state arguments).fileAt? location with
        hkept | ⟨⟨path, hwrites⟩, hstarter⟩
      · exact .inl (hsame.trans hkept)
      · obtain ⟨text, htext, hstarter⟩ := hstarter
        exact .inr ⟨⟨[], arguments, rest, path, rfl, hwrites⟩, text, htext, hsame.trans hstarter⟩
    · obtain ⟨before, later, rest', path, rfl, hwrites⟩ := hwritten
      exact .inr ⟨⟨arguments :: before, later, rest', path, rfl, hwrites⟩, hstarter⟩

/-- What a run has written stays for the rest of the session. -/
theorem text?_of_writesStarter {before : List (List String)} {arguments : List String}
    {path : String} {location : Location}
    (h : WritesStarter codec files view home (files.answerAll codec home state before).2 arguments
      path location) (rest : List (List String)) :
    ∃ text, codec.configText? Config.starter = some text ∧
      (view (files.answerAll codec home state (before ++ arguments :: rest)).2).locate?
        (Path.bare path) = some location ∧
      (view (files.answerAll codec home state (before ++ arguments :: rest)).2).contents location =
        some (.file text) := by
  obtain ⟨⟨force, hasks⟩, hexit, hlocation⟩ := h
  obtain ⟨text, htext, hwritten⟩ := (effect_of_answer hfiles home
    (files.answerAll codec home state before).2 arguments).fileAt?_bare hasks hexit hlocation
  rw [answerAll_append]
  refine ⟨text, htext, (keepsDirectories_answerAll hfiles _ rest).locate? hlocation, ?_⟩
  rcases fileAt?_answerAll hfiles
      (files.answer codec home (files.answerAll codec home state before).2 arguments).2 rest
      location with hsame | ⟨_, text', htext', hstarter⟩
  · exact contents_of_fileAt? (hsame.trans hwritten)
  · rw [htext] at htext'
    cases htext'
    exact contents_of_fileAt? hstarter

end

/-! ## The starter configuration -/

/-- The starter configuration has no problems. -/
theorem problems_starter : Config.starter.problems = [] := by
  decide +kernel

/-- A codec reads the starter configuration back from the text that it writes for it. -/
def KeepsStarter (codec : Codec) : Prop :=
  ∀ text, codec.configText? Config.starter = some text → codec.config? text = some Config.starter

theorem configText?_standard : Codec.standard.configText? Config.starter = some (
    "expression:\n" ++
    "  - 1000 * [Account Age] * [Transactions]\n" ++
    "  - \"[Balance]\"\n" ++
    "elements:\n" ++
    "  Account Age:\n" ++
    "    Interval:\n" ++
    "      - \"< 30: 0.1\"\n" ++
    "      - \"< 365: 0.5\"\n" ++
    "      - \"/> 365: 1\"\n" ++
    "  Balance:\n" ++
    "    Range:\n" ++
    "      - -400.0\n" ++
    "      - 400.0\n" ++
    "  Transactions:\n" ++
    "    Interval:\n" ++
    "      - \"< 10: 0.2\"\n" ++
    "      - \"< 100: 0.6\"\n" ++
    "      - \"/> 100: 1\"\n") := by
  decide +kernel

theorem keepsStarter_standard : KeepsStarter .standard := by
  intro text htext
  rw [configText?_standard] at htext
  rw [← Option.some_inj.1 htext]
  -- the characters are taken line by line: to decode a long text is slow
  simp only [Codec.standard, Format.read?, Document.Yaml.read?, String.toList_append]
  decide +kernel

section

variable {codec : Codec} {σ : Type} {files : FileSystem (StateM σ)} {view : σ → Store}
  (hfiles : files.Lawful view) {home : Option String} {state : σ} {arguments : List String}
  {path : String} (hasks : Asks home arguments path .check)

include hfiles hasks

/-- Checking a file that reads as the starter configuration succeeds. -/
theorem code_of_check_starter {text : String} (htext : (view state).text? path = some text)
    (hread : codec.config? text = some Config.starter) :
    (files.answer codec home state arguments).1.exit.code = 0 := by
  obtain ⟨request, hrequest, hcommand, hpath⟩ := hasks
  obtain ⟨scoring, hcompile, _⟩ := Config.problems_eq_nil_iff.1 problems_starter
  have hnotInit (force : Bool) : request.command ≠ .init force :=
    fun hinit => nomatch hcommand.symm.trans hinit
  rw [answer_of_parseArguments hrequest, run_of_sound hfiles hnotInit
    ⟨path, text, hpath, htext, hread⟩ problems_starter hcompile, hcommand]
  rfl

/-- Checking a file that is not there fails. -/
theorem code_of_check_missing (hmissing : (view state).text? path = none) :
    (files.answer codec home state arguments).1.exit.code = 4 := by
  obtain ⟨request, hrequest, hcommand, hpath⟩ := hasks
  have hnotInit (force : Bool) : request.command ≠ .init force :=
    fun hinit => nomatch hcommand.symm.trans hinit
  have hunsound (config : Config) (hconfig : (view state).Configures codec home request config) :
      config.problems ≠ [] := by
    obtain ⟨path', text, hpath', htext, _⟩ := hconfig
    rw [hpath] at hpath'
    cases hpath'
    rw [hmissing] at htext
    cases htext
  obtain ⟨diagnostics, hrun⟩ := run_of_unsound hfiles hnotInit hunsound
  rw [answer_of_parseArguments hrequest, hrun]
  rfl

end

/-! ## What stays true of files -/

/-- In a session each run changes files only by writing the starter configuration, and only if it
succeeds. What a session changes it has written in one of its runs. And where one of its runs wrote
the starter configuration to a path, the bare path names it when the session ends. With a codec that
reads back what it writes, the path itself does so if it is bare, and then checking it succeeds;
otherwise checking it fails. -/
theorem files_of_session {codec : Codec} (hcodec : KeepsStarter codec) {σ : Type}
    {files : FileSystem (StateM σ)} {view : σ → Store} (hfiles : files.Lawful view)
    (home : Option String) (state : σ) (steps : List (List String)) :
    (∀ before arguments rest, steps = before ++ arguments :: rest →
      RunEffect codec files view home (files.answerAll codec home state before).2 arguments) ∧
    (∀ location,
      (view (files.answerAll codec home state steps).2).fileAt? location ≠
          (view state).fileAt? location →
        (∃ before arguments rest path, steps = before ++ arguments :: rest ∧
          WritesStarter codec files view home (files.answerAll codec home state before).2 arguments
            path location) ∧
        HoldsStarter codec (view (files.answerAll codec home state steps).2) location) ∧
    ∀ before arguments rest path location, steps = before ++ arguments :: rest →
      WritesStarter codec files view home (files.answerAll codec home state before).2 arguments path
          location →
        (∃ text, codec.configText? Config.starter = some text ∧
          (view (files.answerAll codec home state steps).2).text? (Path.bare path) = some text ∧
          (Path.bare path = path →
            (view (files.answerAll codec home state steps).2).text? path = some text) ∧
          codec.config? text = some Config.starter ∧ Config.starter.problems = []) ∧
        ∀ checking, Asks home checking path .check →
          (files.answer codec home (files.answerAll codec home state steps).2
            checking).1.exit.code = if Path.bare path = path then 0 else 4 := by
  refine ⟨fun before arguments rest _ => runEffect hfiles _ arguments,
    fun location hne => (fileAt?_answerAll hfiles state steps location).resolve_left hne, ?_⟩
  rintro before arguments rest path location rfl hwrites
  obtain ⟨text, hwritten, hlocation, hcontents⟩ := text?_of_writesStarter hfiles hwrites rest
  have htext : (view (files.answerAll codec home state (before ++ arguments :: rest)).2).text?
      (Path.bare path) = some text := by
    simp [Store.text?, Store.find?, hlocation, hcontents]
  have hread := hcodec text hwritten
  refine ⟨⟨text, hwritten, htext, fun hbare => hbare ▸ htext, hread, problems_starter⟩,
    fun checking hasks => ?_⟩
  split
  · rename_i hbare
    exact code_of_check_starter hfiles hasks (hbare ▸ htext) hread
  · rename_i hbare
    have hmissing := find?_eq_none_of_bare_ne hbare hlocation (by simp [hcontents])
    exact code_of_check_missing hfiles hasks (by simp [Store.text?, hmissing])

/-- A new configuration, written by a session of one run. -/
theorem files_of_session_of_new_file :
    KeepsStarter .standard ∧ FileSystem.Lawful Store.system id ∧
      (Store.system.answer .standard none
        (Store.system.answerAll .standard none (.ofDirectories [] [])
          [["init", "-c", "new.yaml"]]).2
        ["check", "-c", "new.yaml"]).1.exit.code = 0 := by
  have hasks : Asks none ["init", "-c", "new.yaml"] "new.yaml" (.init false) :=
    ⟨⟨some "new.yaml", .init false⟩, rfl, rfl, rfl⟩
  have hchecks : Asks none ["check", "-c", "new.yaml"] "new.yaml" .check :=
    ⟨⟨some "new.yaml", .check⟩, rfl, rfl, rfl⟩
  have hwrites : WritesStarter .standard Store.system id none (.ofDirectories [] [])
      ["init", "-c", "new.yaml"] "new.yaml" ["new.yaml"] :=
    ⟨⟨false, hasks⟩, by decide +kernel, by decide +kernel⟩
  have hbare : Path.bare "new.yaml" = "new.yaml" := by decide +kernel
  have hcode := ((files_of_session keepsStarter_standard lawful_system none (.ofDirectories [] [])
    [["init", "-c", "new.yaml"]]).2.2 [] _ [] _ _ rfl hwrites).2 _ hchecks
  rw [if_pos hbare] at hcode
  exact ⟨keepsStarter_standard, lawful_system, hcode⟩

/-- With a slash at the end of its path, a file that `init` wrote is not found, and one that is
there already is replaced without force. -/
theorem files_of_trailing_slash :
    (Store.system.answerAll .standard none (.ofDirectories [] [])
        [["init", "-c", "new.yaml/"], ["check", "-c", "new.yaml/"]]).1.map (·.exit.code) = [0, 4] ∧
      (Store.system.answer .standard none
        ((Store.ofDirectories [] []).put ["old.yaml"] (.file "kept"))
        ["init", "-c", "old.yaml/"]).2.text? "old.yaml" =
          some (Document.Yaml.write Config.starter.toDocument) := by
  decide +kernel

end Scorecard.CommandLine
