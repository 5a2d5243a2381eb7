import Scorecard.Document
import Scorecard.Document.Json.Number
import Scorecard.Document.Json.Text

/-!
# Writing JSON

A document as JSON text with a line for each item and two columns for each level. Empty lists and
records stay on one line.
-/

namespace Scorecard.Document.Json

/-- The end of a line, and the columns of the next one at a depth. -/
def lineBreak (depth : Nat) : String :=
  "\n" ++ String.ofList (List.replicate (2 * depth) ' ')

mutual

/-- The text of a document at a depth. -/
def write (depth : Nat) : Document → String
  | .null => "null"
  | .bool value => if value then "true" else "false"
  | .number value => String.ofList (numberDigits value)
  | .word w => String.ofList (quoted w.content)
  | .list [] => "[]"
  | .list (item :: rest) =>
    "[" ++ lineBreak (depth + 1) ++ write (depth + 1) item ++ writeItems (depth + 1) rest ++
      lineBreak depth ++ "]"
  | .record [] => "\x7b\x7d"
  | .record ((key, value) :: rest) =>
    "\x7b" ++ lineBreak (depth + 1) ++ String.ofList (quoted key.content) ++ ": " ++
      write (depth + 1) value ++ writeFields (depth + 1) rest ++ lineBreak depth ++ "\x7d"

/-- The text of further items, each with a comma in front. -/
def writeItems (depth : Nat) : List Document → String
  | [] => ""
  | item :: rest => "," ++ lineBreak depth ++ write depth item ++ writeItems depth rest

/-- The text of further fields, each with a comma in front. -/
def writeFields (depth : Nat) : List (Word × Document) → String
  | [] => ""
  | (key, value) :: rest =>
    "," ++ lineBreak depth ++ String.ofList (quoted key.content) ++ ": " ++ write depth value ++
      writeFields depth rest

end

/-- A document with a line for each item. -/
def pretty (document : Document) : String :=
  write 0 document

end Scorecard.Document.Json
