import Scorecard.Document.Yaml.Composition
import Scorecard.Document.Yaml.Tokens

/-!
# Reading YAML

`read?` takes one document of block and flow lists and records, and of scalars of every kind, with
anchors, aliases and tags. Directives are refused. What follows the document is left aside, as long
as it begins like YAML and is no document of its own.
-/

namespace Scorecard.Document.Yaml

/-- A text with every line end written as `\n`. -/
def lineEnds : List Char → List Char
  | [] => []
  | '\r' :: '\n' :: rest => '\n' :: lineEnds rest
  | '\r' :: rest => '\n' :: lineEnds rest
  | c :: rest => c :: lineEnds rest

/-- The characters of a text behind a mark of its byte order, up to the first NUL. -/
def characters (s : List Char) : List Char :=
  let s := if s.head? == some '\ufeff' then s.tail else s
  s.takeWhile (· != '\x00')

/-- The document of a YAML text; null if it holds nothing. -/
def read? (s : String) : Option Document :=
  document? (tokens (lineEnds (characters s.toList)))

end Scorecard.Document.Yaml
