import Scorecard.Document.Yaml.Cursor
import Scorecard.Document.Yaml.Indentation
import Scorecard.Text.Split

/-!
# Block scalars in YAML

A block scalar begins with a bar or an angle. Its lines follow, further in than the block around it,
up to the first one that is not. Behind a bar line breaks stay as they are; behind an angle they are
folded between lines that begin with text: a line break is a space, and each further one a line
break. An indicator says what becomes of the line breaks at the end, another one how much further in
the lines are; without it the first line with text says so.
-/

namespace Scorecard.Document.Yaml

/-! ## Indicators -/

/-- What becomes of the line breaks at the end of a block scalar. -/
inductive Chomping where
  /-- One of them stays. -/
  | clip
  /-- None of them stays. -/
  | strip
  /-- All of them stay. -/
  | keep
  deriving Repr, DecidableEq

/-- The number of line breaks that stay, of one and some further ones. -/
def Chomping.breaks (chomping : Chomping) (one further : Nat) : Nat :=
  match chomping with
  | clip => one
  | strip => 0
  | keep => one + further

/-- Splits off the indicator of a chomping, if there is one. -/
def splitChomping : List Char → Chomping × List Char
  | '-' :: rest => (.strip, rest)
  | '+' :: rest => (.keep, rest)
  | rest => (.clip, rest)

/-- Splits off the indicator of an indentation; zero if there is none. -/
def splitIncrement? : List Char → Option (Nat × List Char)
  | [] => some (0, [])
  | c :: rest =>
    if c == '0' then none
    else if c.isDigit then some (c.toNat - '0'.toNat, rest)
    else some (0, c :: rest)

/-- Splits off the indicators behind the mark of a block scalar, in any order. -/
def splitIndicators? (s : List Char) : Option ((Chomping × Nat) × List Char) := do
  let (early, rest) := splitChomping s
  let (increment, rest) ← splitIncrement? rest
  let (chomping, rest) := if early == .clip then splitChomping rest else (early, rest)
  return ((chomping, increment), rest)

/-! ## Lines -/

/-- The number of spaces at the start of a line. -/
def indentOf (line : List Char) : Nat :=
  (line.takeWhile (· == ' ')).length

/-- The column in which lines start: that of the first one with text, unless `margin` or an empty
line before it is further in. -/
def textColumn (margin : Nat) : List (List Char) → Nat
  | [] => margin
  | line :: rest =>
    let column := max margin (indentOf line)
    if indentOf line < line.length then column else textColumn column rest

/-- Whether a line belongs to a block scalar whose lines start in a column. -/
def isOwnLine (column : Nat) (line : List Char) : Bool :=
  (line.take column).all (· == ' ') && !(column == 0 && atDocumentMark line)

/-- Line breaks in front of a line that begins with `c`, where `empty` lines stand before it. Before
them stands another line; `previous` says whether that one begins with a blank. -/
def breaksBefore (folded : Bool) (previous : Option Bool) (empty : Nat) (c : Char) : List Char :=
  match previous with
  | none => List.replicate empty '\n'
  | some isSpaced =>
    if folded && !isSpaced && !isSpace c then foldedBreaks (empty + 1)
    else List.replicate (empty + 1) '\n'

/-- The text of lines without the line breaks at the end, and the number of empty lines there. -/
def joinBlock (folded : Bool) :
    (previous : Option Bool) → (empty : Nat) → List (List Char) → List Char × Nat
  | _, empty, [] => ([], empty)
  | previous, empty, [] :: rest => joinBlock folded previous (empty + 1) rest
  | previous, empty, (c :: line) :: rest =>
    let (behind, last) := joinBlock folded (some (isSpace c)) 0 rest
    (breaksBefore folded previous empty c ++ c :: line ++ behind, last)

/-- The text of the lines that belong to a block scalar. Where the whole text ends with them, the
last one has no line break: it is no line if it has no characters, but then its spaces count as one
more line break if it is as far in as the others. -/
def linesText (folded : Bool) (chomping : Chomping) (column : Nat) (lines : List (List Char))
    (isLast : Bool) : List Char :=
  let last := lines.getLast?.getD []
  let isOpen := isLast && column < last.length
  let ended := (if isLast && !isOpen then lines.dropLast else lines).map (·.drop column)
  let spaces := if isLast && !isOpen && max column 1 ≤ last.length then 1 else 0
  let (body, empty) := joinBlock folded none 0 ended
  let breaks :=
    if !body.isEmpty then chomping.breaks (1 + spaces) empty
    else if isLast then chomping.breaks 1 (empty - 1)
    else chomping.breaks 0 empty
  body ++ List.replicate breaks '\n'

/-- Splits off a block scalar from its mark on. -/
def blockScalar? (folded : Bool) (levels : Levels) (cursor : Cursor) :
    Option (String × Cursor) := do
  let behind := cursor.advance
  let ((chomping, increment), rest) ← splitIndicators? behind.rest
  let next ← (behind.upTo rest).skipInLine?
  match next.rest with
  | [] => return ("", next)
  | c :: rest =>
    if c != '\n' || rest.head? == some '\t' then none
    let lines := Text.split '\n' rest
    let column :=
      if increment = 0 then textColumn levels.margin lines else levels.column + increment
    let own := lines.takeWhile (isOwnLine column)
    let others := lines.drop own.length
    let isMisplaced := others.head?.any fun line =>
      levels.margin ≤ indentOf line && indentOf line < column
    if isMisplaced && own.all (·.length ≤ column) then none
    let body := linesText folded chomping column own others.isEmpty
    return (String.ofList body, next.upTo (Text.join '\n' others))

end Scorecard.Document.Yaml
