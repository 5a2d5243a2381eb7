import Scorecard.Config
import Scorecard.Path
import Scorecard.Subjects

/-!
# Codecs

Configurations and inputs are kept as texts in files. A `Codec` says what the texts hold: it reads
configurations and inputs, and writes a configuration. All that is run works with any codec; the
format of an inputs file goes by its name.
-/

namespace Scorecard

/-- The format of a data file. -/
inductive Format where
  | json
  | yaml
  deriving Repr, DecidableEq

namespace Format

/-- The name of a format. -/
def name : Format → String
  | json => "JSON"
  | yaml => "YAML"

/-- The format of a file by its path: a file whose name has the extension `json`, in any case, holds
JSON; every other one holds YAML. -/
def ofPath (path : String) : Format :=
  match Path.extension? path with
  | some ending => if ending.map Char.toLower = "json".toList then json else yaml
  | none => yaml

/-- What is said of a text that does not follow a format. -/
def failure (format : Format) : String :=
  s!"Failed to parse inputs: invalid {format.name}"

end Format

/-- The readers and writers of data files. Each gives none where it fails. -/
structure Codec where
  /-- The configuration in a text of YAML. -/
  config? : (text : String) → Option Config
  /-- What an inputs file of a format holds. -/
  inputs? : (format : Format) → (text : String) → Option InputsFile
  /-- A configuration as a text of YAML. -/
  configText? : (config : Config) → Option String

namespace Codec

/-- The subjects in the text of a file with a path. An error names the format that the text does not
follow. -/
def subjects (codec : Codec) (path text : String) : Except Format (List Subject) :=
  let format := Format.ofPath path
  match codec.inputs? format text with
  | some file => .ok file.toSubjects
  | none => .error format

end Codec

end Scorecard
