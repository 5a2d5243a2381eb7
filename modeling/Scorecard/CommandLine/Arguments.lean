import Scorecard.Number.Spelling
import Scorecard.Text.Blank

/-!
# Arguments

The arguments are options of the program, then the name of a command with options of its own.
An option has a long name behind two dashes, or a letter behind one; letters without values can
share a dash. A value follows as the next argument, or attached. The configuration and verbosity can
be given on both levels, and every option once on each, apart from `--set`.

A value is looked at when the next option or the end is reached, so that an argument which fits
nowhere comes before a faulty value in front of it.
-/

namespace Scorecard.CommandLine

/-! ## Requests -/

/-- What the program is asked to do. -/
inductive Command where
  /-- Checks the configuration. -/
  | check
  /-- Scores one subject: from a file, with further inputs, as a breakdown or as JSON. -/
  | score (inputs : Option String) (assignments : List (String × Float)) (breakdown json : Bool)
  /-- Ranks the subjects of a file, as a table or as lines with tabulators. -/
  | rank (inputs : String) (tabs : Bool)
  /-- Shows the calculation, as a listing or as JSON. -/
  | tree (json : Bool)
  /-- Writes a configuration to start from, over an existing one if forced. -/
  | init (force : Bool)

/-- A command with the configuration it works on. -/
structure Request where
  config : Option String
  command : Command

/-! ## Assignments -/

/-- Why a text is no assignment. -/
inductive AssignmentError where
  /-- There is no equals sign. -/
  | noSign (assignment : String)
  /-- What follows the sign is no number. -/
  | noNumber (value name : String)
  deriving Repr, DecidableEq

/-- The text of an error. -/
def AssignmentError.message : AssignmentError → String
  | noSign assignment => s!"expected NAME=VALUE, got '{assignment}'"
  | noNumber value name => s!"invalid number '{value}' for '{name}'"

/-- Reads an assignment: a name, the last equals sign and a number, with blanks around both. -/
def parseAssignment (assignment : String) : Except AssignmentError (String × Float) :=
  let backwards := assignment.toList.reverse
  match backwards.dropWhile (· != '=') with
  | [] => .error (.noSign assignment)
  | _ :: front =>
    let name := Text.trim front.reverse
    let value := Text.trim (backwards.takeWhile (· != '=')).reverse
    match Number.read? value with
    | some x => .ok (String.ofList name, x)
    | none => .error (.noNumber (String.ofList value) (String.ofList name))

/-! ## Options -/

/-- The options of all commands. -/
inductive Opt where
  | verbose
  | config
  | help
  | version
  | inputs
  | assignment
  | breakdown
  | json
  | tabs
  | force
  deriving Repr, DecidableEq

namespace Opt

/-- The long name of an option. -/
def long : Opt → String
  | verbose => "verbose"
  | config => "config"
  | help => "help"
  | version => "version"
  | inputs => "inputs"
  | assignment => "set"
  | breakdown => "breakdown"
  | json => "json"
  | tabs => "tsv"
  | force => "force"

/-- The letter of an option. -/
def letter? : Opt → Option Char
  | verbose => some 'v'
  | config => some 'c'
  | help => some 'h'
  | version => some 'V'
  | inputs => some 'i'
  | assignment => some 's'
  | breakdown => some 'b'
  | json => none
  | tabs => none
  | force => none

/-- Whether an option takes a value. -/
def takesValue : Opt → Bool
  | config => true
  | inputs => true
  | assignment => true
  | _ => false

end Opt

/-- The names of the commands. -/
inductive CommandName where
  | check
  | score
  | rank
  | tree
  | init
  deriving Repr, DecidableEq

namespace CommandName

/-- The command of a name. -/
def ofText? : String → Option CommandName
  | "check" => some check
  | "score" => some score
  | "rank" => some rank
  | "tree" => some tree
  | "init" => some init
  | _ => none

/-- The options that a command has of its own. -/
def ownOptions : CommandName → List Opt
  | check => []
  | score => [.inputs, .assignment, .breakdown, .json]
  | rank => [.inputs, .tabs]
  | tree => [.json]
  | init => [.force]

end CommandName

/-- The options before the name of a command, or behind it. -/
def optionsOf : Option CommandName → List Opt
  | none => [.verbose, .config, .help, .version]
  | some name => name.ownOptions ++ [.verbose, .config, .help]

/-! ## Reading -/

/-- Why arguments make no request. -/
inductive UsageError where
  /-- An argument is no option or command that can stand here. -/
  | unexpected (argument : String)
  /-- An option has no value. -/
  | missingValue (option : Opt)
  /-- An option that takes none has a value. -/
  | unneededValue (option : Opt)
  /-- An option stands twice. -/
  | repeated (option : Opt)
  /-- A command lacks an option that it needs. -/
  | missingOption (option : Opt)
  /-- The value of `--set` is no assignment. -/
  | badAssignment (value : String) (error : AssignmentError)
  deriving Repr, DecidableEq

/-- The text of an error. -/
def UsageError.message : UsageError → String
  | unexpected argument => s!"error: unexpected argument '{argument}' found"
  | missingValue option =>
    s!"error: a value is required for '--{option.long}' but none was supplied"
  | unneededValue option => s!"error: no value expected for '--{option.long}'"
  | repeated option => s!"error: the argument '--{option.long}' cannot be used multiple times"
  | missingOption option => s!"error: the required argument '--{option.long}' was not provided"
  | badAssignment value error =>
    s!"error: invalid value '{value}' for '--set <NAME=VALUE>': {error.message}"

/-- Why reading the arguments ends without a request. -/
inductive Stop where
  | usage (error : UsageError)
  | help
  | version

/-- What is given on one level. -/
structure Given where
  seen : List Opt := []
  config : Option String := none
  inputs : Option String := none
  assignments : List (String × Float) := []

namespace Given

/-- Whether an option is given. -/
def has (given : Given) (option : Opt) : Bool :=
  given.seen.contains option

/-- Takes an option with its value. -/
def accept (given : Given) (option : Opt) (value : String) : Except Stop Given :=
  if given.has option && option != .assignment then .error (.usage (.repeated option))
  else
    let given := { given with seen := option :: given.seen }
    match option with
    | .help => .error .help
    | .version => .error .version
    | .config => .ok { given with config := some value }
    | .inputs =>
      if value = "" then .error (.usage (.missingValue option))
      else .ok { given with inputs := some value }
    | .assignment =>
      match parseAssignment value with
      | .ok assignment => .ok { given with assignments := given.assignments ++ [assignment] }
      | .error error => .error (.usage (.badAssignment value error))
    | _ => .ok given

end Given

/-- An option whose value is expected next, or has been read and not looked at. -/
structure Pending where
  option : Opt
  value : Option String

/-- How far the arguments of one level have been read. -/
structure Reading where
  given : Given := {}
  pending : Option Pending := none
  /-- Two dashes alone have been read. -/
  onlyOperands : Bool := false

namespace Reading

/-- Looks at a value that has been read. -/
def settle (reading : Reading) : Except Stop Reading :=
  match reading.pending with
  | none => .ok reading
  | some ⟨option, none⟩ => .error (.usage (.missingValue option))
  | some ⟨option, some value⟩ => do
    let given ← reading.given.accept option value
    return { reading with given, pending := none }

/-- Whether the next argument is the value of an option. -/
def awaits? (reading : Reading) : Option Opt :=
  match reading.pending with
  | some ⟨option, none⟩ => some option
  | _ => none

/-- Takes an option without a value, or with an attached one. -/
def take (reading : Reading) (option : Opt) (value : String) : Except Stop Reading := do
  let reading ← reading.settle
  let given ← reading.given.accept option value
  return { reading with given }

/-- Takes an option whose value comes next. -/
def expect (reading : Reading) (option : Opt) : Except Stop Reading := do
  let reading ← reading.settle
  return { reading with pending := some ⟨option, none⟩ }

/-- Reads an argument behind two dashes. -/
def long (options : List Opt) (reading : Reading) (argument : String) : Except Stop Reading :=
  let body := argument.toList.drop 2
  let name := String.ofList (body.takeWhile (· != '='))
  let attached := body.dropWhile (· != '=')
  match options.find? (·.long == name) with
  | none => .error (.usage (.unexpected argument))
  | some option =>
    match option.takesValue, attached with
    | true, [] => reading.expect option
    | true, _ :: value => reading.take option (String.ofList value)
    | false, [] => reading.take option ""
    | false, _ :: _ => .error (.usage (.unneededValue option))

/-- Reads letters behind one dash. -/
def letters (options : List Opt) (argument : String) (reading : Reading) :
    List Char → Except Stop Reading
  | [] => .ok reading
  | letter :: rest =>
    match options.find? (·.letter? == some letter) with
    | none => .error (.usage (.unexpected argument))
    | some option =>
      if option.takesValue then
        match rest with
        | [] => reading.expect option
        | '=' :: value => reading.take option (String.ofList value)
        | value => reading.take option (String.ofList value)
      else do
        let reading ← reading.take option ""
        reading.letters options argument rest

/-- Reads an argument that is no name of a command. -/
def argument (options : List Opt) (reading : Reading) (argument : String) :
    Except Stop Reading :=
  if reading.onlyOperands then .error (.usage (.unexpected argument))
  else match argument.toList with
    | ['-', '-'] => .ok { reading with onlyOperands := true }
    | '-' :: '-' :: _ => reading.long options argument
    | '-' :: letter :: rest => reading.letters options argument (letter :: rest)
    | _ =>
      match reading.awaits? with
      | some option => .ok { reading with pending := some ⟨option, some argument⟩ }
      | none => .error (.usage (.unexpected argument))

end Reading

/-- Reads the arguments behind the name of a command. -/
def readOwn (name : CommandName) (reading : Reading) : List String → Except Stop Given
  | [] => do
    let reading ← reading.settle
    return reading.given
  | argument :: rest => do
    let reading ← reading.argument (optionsOf (some name)) argument
    readOwn name reading rest

/-- The command of a name with what is given for it. -/
def CommandName.command (name : CommandName) (given : Given) : Except Stop Command :=
  match name with
  | .check => .ok .check
  | .score =>
    .ok (.score given.inputs given.assignments (given.has .breakdown) (given.has .json))
  | .rank =>
    match given.inputs with
    | some inputs => .ok (.rank inputs (given.has .tabs))
    | none => .error (.usage (.missingOption .inputs))
  | .tree => .ok (.tree (given.has .json))
  | .init => .ok (.init (given.has .force))

/-- Reads all arguments from where the options of the program are read. Without a command the
configuration is checked. A configuration given behind the command comes first. -/
def readAll (reading : Reading) : List String → Except Stop Request
  | [] => do
    let reading ← reading.settle
    return ⟨reading.given.config, .check⟩
  | argument :: rest =>
    match reading.onlyOperands || reading.awaits?.isSome, CommandName.ofText? argument with
    | false, some name => do
      let reading ← reading.settle
      let given ← readOwn name {} rest
      let command ← name.command given
      return ⟨given.config.or reading.given.config, command⟩
    | true, _ => do
      let reading ← reading.argument (optionsOf none) argument
      readAll reading rest
    | false, none =>
      if argument = "help" then
        match rest with
        | [] => .error .help
        | topic :: _ =>
          if topic = "help" || (CommandName.ofText? topic).isSome then .error .help
          else .error (.usage (.unexpected topic))
      else do
        let reading ← reading.argument (optionsOf none) argument
        readAll reading rest

/-- The request that arguments make. -/
def parseArguments (arguments : List String) : Except Stop Request :=
  readAll {} arguments

end Scorecard.CommandLine
