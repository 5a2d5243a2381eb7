import Scorecard.Document.Json.Writer
import Scorecard.Document.Yaml.Reader

/-!
# Writing YAML

A document in blocks with two columns for each level, lists further in than their key. A text is
written plain if it reads back as itself, and else in double quotes.
-/

namespace Scorecard.Document.Yaml

/-- Whether a text stands for itself where it is written plain: it reads as one word of its own
characters, which looks like a text. -/
def isPlainText (s : String) : Bool :=
  match read? s with
  | some (.plain spelling) => spelling == s && (Word.plain s).text? == some s
  | _ => false

/-- A text as a scalar. -/
def textScalar (s : String) : String :=
  if isPlainText s then s else String.ofList (Json.quoted s)

/-- A line at a depth. -/
def lineAt (depth : Nat) (s : String) : String :=
  String.ofList (List.replicate (2 * depth) ' ') ++ s ++ "\n"

/-- A word as it stands in a file. -/
def wordText : Word → String
  | .text content => textScalar content
  | .plain spelling => spelling

/-- A document without items and fields on one line. -/
def scalarText : Document → String
  | .null => "null"
  | .bool value => if value then "true" else "false"
  | .number value => String.ofList (Json.numberDigits value)
  | .word w => wordText w
  | .list _ => "[]"
  | .record _ => "\x7b\x7d"

mutual

/-- The lines of a document behind a dash or a key at a depth. -/
def entryText (depth : Nat) (lead : String) : Document → String
  | .list (item :: rest) =>
    lineAt depth lead ++ entryText (depth + 1) "-" item ++ itemTexts (depth + 1) rest
  | .record ((key, value) :: rest) =>
    lineAt depth lead ++ entryText (depth + 1) (wordText key ++ ":") value ++
      fieldTexts (depth + 1) rest
  | document => lineAt depth (lead ++ " " ++ scalarText document)

/-- The lines of items at a depth. -/
def itemTexts (depth : Nat) : List Document → String
  | [] => ""
  | item :: rest => entryText depth "-" item ++ itemTexts depth rest

/-- The lines of fields at a depth. -/
def fieldTexts (depth : Nat) : List (Word × Document) → String
  | [] => ""
  | (key, value) :: rest =>
    entryText depth (wordText key ++ ":") value ++ fieldTexts depth rest

end

/-- A document as YAML text. -/
def write : Document → String
  | .list (item :: rest) => itemTexts 0 (item :: rest)
  | .record (field :: rest) => fieldTexts 0 (field :: rest)
  | document => lineAt 0 (scalarText document)

end Scorecard.Document.Yaml
