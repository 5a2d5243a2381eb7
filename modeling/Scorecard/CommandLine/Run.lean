import Scorecard.Band.Partition
import Scorecard.CommandLine.Arguments
import Scorecard.CommandLine.Files
import Scorecard.Codec
import Scorecard.Document.Json.Writer
import Scorecard.Report.Breakdown
import Scorecard.Report.Listing
import Scorecard.Report.Table
import Scorecard.Report.Tree
import Scorecard.Validation

/-!
# Running requests

A request works on a configuration that must be there and sound; all its problems are reported
otherwise. What is printed and what is reported as a diagnostic are separate, and the exit says what
went wrong. Only `init` writes a file.
-/

namespace Scorecard.CommandLine

/-- How a run ends. -/
inductive Exit where
  | success
  /-- A score has no value. -/
  | evaluation
  /-- The arguments or the inputs cannot be used. -/
  | input
  /-- The configuration cannot be used. -/
  | config
  deriving Repr, DecidableEq

/-- The exit code. -/
def Exit.code : Exit → Nat
  | success => 0
  | evaluation => 1
  | input => 2
  | config => 4

/-- A line that reports a failure or a warning. -/
inductive Diagnostic where
  /-- The line is complete. -/
  | line (text : String)
  /-- The line names what failed; the cause that the system gives would follow. -/
  | caused (text : String)
  deriving Repr, DecidableEq

/-- The text of a diagnostic. -/
def Diagnostic.text : Diagnostic → String
  | line text => text
  | caused text => text

/-- What a run prints and reports. -/
structure Outcome where
  exit : Exit
  output : String := ""
  diagnostics : List Diagnostic := []
  deriving Repr, DecidableEq

namespace Outcome

/-- Prints a text and a line break. -/
def print (text : String) : Outcome :=
  { exit := .success, output := text ++ "\n" }

/-- Reports one line and fails. -/
def fail (exit : Exit) (diagnostic : Diagnostic) : Outcome :=
  { exit, diagnostics := [diagnostic] }

end Outcome

/-- What the program says of its version. -/
def versionText : String :=
  "cred-score 0.1.0\n"

/-- What the program says of its commands and options. -/
def helpText : String :=
  "Credibility score calculator\n\n" ++
  "Usage: cred-score [OPTIONS] [COMMAND]\n\n" ++
  "Commands:\n" ++
  "  check  Validate the scoring config (default if no subcommand)\n" ++
  "  score  Score a single subject\n" ++
  "  rank   Score a list of subjects and print them ranked by score\n" ++
  "  tree   Print the compiled calculation tree\n" ++
  "  init   Write a starter config file\n" ++
  "  help   Print this message or the help of the given subcommand(s)\n\n" ++
  "Options:\n" ++
  "  -v, --verbose          Enable verbose logging\n" ++
  "  -c, --config <CONFIG>  Path to config file\n" ++
  "  -h, --help             Print help\n" ++
  "  -V, --version          Print version\n"

/-! ## The configuration -/

/-- The configuration file where none is given. -/
def defaultConfig? (home : Option String) : Option String :=
  home.map (· ++ "/.config/cred-score/config.yaml")

/-- Compiles a sound configuration; reports the problems of every other. -/
def compileSound (config : Config) : Except Outcome Scoring :=
  match config.problems with
  | [] =>
    match Scoring.compile config with
    | .ok scoring => .ok scoring
    | .error error => .error (.fail .config (.line s!"Scoring config error: {error.message}"))
  | problems =>
    .error
      { exit := .config
        diagnostics := .line "Scoring config errors:" ::
          problems.map fun problem => .line s!"  - {problem.message}" }

/-- Compiles the text of the configuration file at a path. -/
def compileText (codec : Codec) (path text : String) : Except Outcome Scoring :=
  match codec.config? text with
  | some config => compileSound config
  | none =>
    .error (.fail .config
      (.caused s!"Config error: Failed to parse config: invalid YAML in {path}"))

section

variable {m : Type → Type} [Monad m] (codec : Codec) (files : FileSystem m)

/-- Compiles the configuration file at a path. -/
def compileFile (path : String) : m (Except Outcome Scoring) := do
  if ← files.exists? path then
    match ← files.read? path with
    | some text => return compileText codec path text
    | none =>
      return .error (.fail .config
        (.caused s!"Config error: Failed to read config file at {path}"))
  else
    return .error (.fail .config (.line
      s!"Config error: Config file not found at {path}. Run `cred-score init` to create one"))

/-! ## Commands -/

/-- The subjects of the inputs file at a path. -/
def readSubjects (path : String) : m (Except Outcome (List Subject)) := do
  match ← files.read? path with
  | none =>
    return .error (.fail .input (.caused s!"Input error: Failed to read inputs file at {path}"))
  | some text =>
    match codec.subjects path text with
    | .ok subjects => return .ok subjects
    | .error format =>
      return .error (.fail .input (.caused s!"Input error: {format.failure} in {path}"))

end

/-- The warnings about the elements of a catalog. -/
def catalogWarnings (catalog : List Element) : List String :=
  catalog.flatMap fun
    | .banded name bands _ => (Band.partitionWarnings bands).map (·.message name)
    | _ => []

/-- Reports the warnings about a configuration, and how much of it is used. -/
def check (scoring : Scoring) : Outcome :=
  let fragments := scoring.root.children.length
  let referenced := scoring.referenced.length
  let elements := scoring.catalog.length
  { exit := .success
    output := s!"Config OK: {fragments} fragment(s), " ++
      s!"{referenced} of {elements} element(s) referenced\n"
    diagnostics := (catalogWarnings scoring.catalog).map fun warning =>
      .line s!"Warning: {warning}" }

/-- Shows a calculation. -/
def showTree (scoring : Scoring) (json : Bool) : Outcome :=
  .print <|
    if json then Document.Json.pretty (Report.calculationDocument scoring.root)
    else Report.tree scoring.root

/-- Scores given inputs. -/
def scoreInputs (scoring : Scoring) (inputs : Inputs) (breakdown json : Bool) : Outcome :=
  match scoring.score inputs with
  | .error error => .fail .evaluation (.line s!"Evaluation error: {error.message}")
  | .ok score =>
    .print <|
      if json then Document.Json.pretty (Report.scoreDocument score)
      else if breakdown then Report.breakdown false score
      else Number.display score.value

/-- Scores the one subject of a file, with assignments in place of its inputs. -/
def scoreSubjects (scoring : Scoring) (path : String) (subjects : List Subject)
    (assignments : List (String × Float)) (breakdown json : Bool) : Outcome :=
  match subjects with
  | [subject] => scoreInputs scoring (subject.inputs.insertMany assignments) breakdown json
  | _ =>
    .fail .input (.line (s!"{path} contains {subjects.length} subjects. " ++
      "Use `cred-score rank` to score several at once."))

/-- A subject that has a score. -/
def ranked? (scoring : Scoring) (subject : Subject) : Option Ranked :=
  match scoring.evaluate subject.inputs with
  | .ok score => some ⟨subject.name, score⟩
  | .error _ => none

/-- Why a subject has no score. -/
def failure? (scoring : Scoring) (subject : Subject) : Option Diagnostic :=
  match scoring.evaluate subject.inputs with
  | .ok _ => none
  | .error error => some (.line s!"Evaluation error for {subject.name}: {error.message}")

/-- Ranks subjects; reports those without a score in their order. -/
def rankSubjects (scoring : Scoring) (subjects : List Subject) (tabs : Bool) : Outcome :=
  let failures := subjects.filterMap (failure? scoring)
  let ranked := Ranked.rank (subjects.filterMap (ranked? scoring))
  { exit := if failures.isEmpty then .success else .evaluation
    output := (if tabs then Report.tabLines ranked else Report.table false ranked) ++ "\n"
    diagnostics := failures }

section

variable {m : Type → Type} [Monad m] (codec : Codec) (files : FileSystem m)

/-- Puts the starter configuration at a path whose directory is there. -/
def writeStarter (path : String) : m Outcome := do
  match codec.configText? Config.starter with
  | none => return .fail .config (.caused "Config error: Failed to serialize default config")
  | some text =>
    match ← files.replace path text with
    | .done => return .print s!"Wrote starter config to {path}"
    | .notOpened =>
      return .fail .config
        (.caused s!"Config error: Failed to open atomic write file at {path}")
    | .isDirectory =>
      return .fail .config
        (.line "Config error: Failed to save config: Is a directory (os error 21)")

/-- Writes the starter configuration to a path and makes the directories above it. An existing file
is kept unless forced. -/
def initStarter (path : String) (force : Bool) : m Outcome := do
  if (← files.exists? path) && !force then
    return .fail .config
      (.line s!"Config error: Config file already exists at {path}. Use --force to overwrite")
  else match Path.parent? path with
    | none => writeStarter codec files path
    | some parent =>
      if parent = "" || (← files.exists? parent) then writeStarter codec files path
      else if ← files.makeDirectories parent then writeStarter codec files path
      else
        return .fail .config
          (.caused s!"Config error: Failed to create config directory at {parent}")

/-- Runs a command on a compiled configuration. -/
def runOn (scoring : Scoring) : Command → m Outcome
  | .check => return check scoring
  | .tree json => return showTree scoring json
  | .score none assignments breakdown json =>
    return scoreInputs scoring (.ofList assignments) breakdown json
  | .score (some path) assignments breakdown json => do
    match ← readSubjects codec files path with
    | .ok subjects => return scoreSubjects scoring path subjects assignments breakdown json
    | .error outcome => return outcome
  | .rank path tabs => do
    match ← readSubjects codec files path with
    | .ok subjects => return rankSubjects scoring subjects tabs
    | .error outcome => return outcome
  | .init _ => return { exit := .success }

/-- Runs a request. Without a configuration path it works on the one in the home directory. -/
def run (home : Option String) (request : Request) : m Outcome := do
  match request.config.or (defaultConfig? home) with
  | none =>
    return .fail .config (.line "Config error: Could not determine home directory")
  | some path =>
    match request.command with
    | .init force => initStarter codec files path force
    | command =>
      match ← compileFile codec files path with
      | .ok scoring => runOn codec files scoring command
      | .error outcome => return outcome

/-- Answers arguments: runs the request that they make, prints what they ask of the program itself,
or reports that they cannot be used. -/
def respond (home : Option String) (arguments : List String) : m Outcome :=
  match parseArguments arguments with
  | .ok request => run codec files home request
  | .error .help => return { exit := .success, output := helpText }
  | .error .version => return { exit := .success, output := versionText }
  | .error (.usage error) => return .fail .input (.line error.message)

end

/-! ## Sessions -/

namespace FileSystem

variable {σ : Type} (files : FileSystem (StateM σ)) (codec : Codec) (home : Option String)

/-- What arguments are answered with on files in a state, and the state after that. -/
def answer (state : σ) (arguments : List String) : Outcome × σ :=
  (respond codec files home arguments).run state

/-- The answers to arguments one after the other, and the state after the last of them. -/
def answerAll (state : σ) : List (List String) → List Outcome × σ
  | [] => ([], state)
  | arguments :: rest =>
    let (outcome, state) := files.answer codec home state arguments
    let (outcomes, state) := answerAll state rest
    (outcome :: outcomes, state)

end FileSystem

end Scorecard.CommandLine
