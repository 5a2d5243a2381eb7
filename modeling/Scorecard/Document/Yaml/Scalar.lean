import Scorecard.Document
import Scorecard.Document.Json.Text
import Scorecard.Document.Yaml.Cursor

/-!
# Scalars on lines in YAML

A scalar stands between double quotes with escapes, between single quotes with the quote written
twice, or plain.

A quoted scalar can go on in the next lines. Blanks around a line break do not belong to it; a line
break is a space, and each further one a line break. Between double quotes a backslash in front of a
line break takes the space away.

A plain scalar is made of words. A word ends before a gap and before a colon that has a gap behind
it; in a flow it also ends before the characters that structure the flow. Blanks between words
belong to the scalar. It can go on in the next lines as long as they are far enough in, where line
breaks become what they do between quotes. A comment ends it.
-/

namespace Scorecard.Document.Yaml

/-! ## Quoted scalars -/

/-- The character of an escape by a single letter. -/
def letterEscape? : Char → Option Char
  | '0' => some '\x00'
  | 'a' => some '\x07'
  | 'v' => some '\x0b'
  | 'e' => some '\x1b'
  | ' ' => some ' '
  | '\t' => some '\t'
  | 'N' => some '\u0085'
  | '_' => some '\u00a0'
  | 'L' => some '\u2028'
  | 'P' => some '\u2029'
  | c => Json.letterEscape? c

/-- The texts of YAML between double quotes: a code has two, four or eight digits. -/
def dialect : Quoted.Dialect where
  letter? := letterEscape?
  furtherDigits? c :=
    if c == 'x' then some 1 else if c == 'u' then some 3 else if c == 'U' then some 7 else none
  admits _ := true

/-- What stands before a place in a quoted scalar. -/
inductive Before where
  /-- A character and some blanks, the last of them first. -/
  | blanks (passed : List Char)
  /-- A character that makes the next one stand for itself. -/
  | escape
  /-- Some line breaks, with blanks around them. -/
  | breaks (count : Nat)
  /-- An escaped line break and some further ones, with blanks around them. -/
  | escapedBreak (further : Nat)

namespace Before

/-- Whether the place is on a new line. -/
def isNewLine : Before → Bool
  | breaks _ => true
  | escapedBreak _ => true
  | _ => false

/-- What stands before the place behind a blank. -/
def pass (c : Char) : Before → Before
  | blanks passed => blanks (c :: passed)
  | before => before

/-- What stands before the place behind a line break. -/
def passBreak : Before → Before
  | breaks count => breaks (count + 1)
  | escapedBreak further => escapedBreak (further + 1)
  | _ => breaks 1

/-- The text of what stands before a place. -/
def text : Before → List Char
  | blanks passed => passed.reverse
  | escape => []
  | breaks count => foldedBreaks count
  | escapedBreak further => List.replicate further '\n'

end Before

/-- A line break as it is written between quotes. -/
def writtenBreak (quote c : Char) : List Char :=
  if quote == '"' && c == '\n' then ['\\', 'n'] else [c]

/-- Puts a text in front of what is split off, with its line breaks as they are written. -/
def prepend (quote : Char) (text : List Char) (split : Option (List Char × List Char)) :
    Option (List Char × List Char) :=
  split.map fun (body, rest) => (text.flatMap (writtenBreak quote) ++ body, rest)

/-- Splits off a quoted scalar up to its closing quote, and puts it on one line. Escapes stay as
they are between double quotes. Further lines start at column `margin` or behind it. -/
def unfolded? (quote : Char) (margin : Nat) :
    Before → (column : Nat) → List Char → Option (List Char × List Char)
  | _, _, [] => none
  | .escape, column, c :: rest =>
    if quote != '"' then
      prepend quote [c] (unfolded? quote margin (.blanks []) (column + 1) rest)
    else if c == '\n' then unfolded? quote margin (.escapedBreak 0) 0 rest
    else prepend quote ['\\', c] (unfolded? quote margin (.blanks []) (column + 1) rest)
  | before, column, c :: rest =>
    if c == '\n' then unfolded? quote margin before.passBreak 0 rest
    else if isSpace c then
      if c == '\t' && before.isNewLine && column < margin then none
      else unfolded? quote margin (before.pass c) (column + 1) rest
    else if column < margin || (column == 0 && atDocumentMark (c :: rest)) then none
    else
      let isTwice := quote == '\'' && rest.head? == some quote
      if c == quote && !isTwice then prepend quote before.text (some ([], rest))
      else if c == quote || (quote == '"' && c == '\\') then
        prepend quote before.text (unfolded? quote margin .escape (column + 1) rest)
      else
        prepend quote (before.text ++ [c]) (unfolded? quote margin (.blanks []) (column + 1) rest)

/-- Splits off a quoted scalar whose opening quote is gone. -/
def quoted? (quote : Char) (margin column : Nat) (s : List Char) : Option (String × List Char) := do
  let (body, rest) ← unfolded? quote margin (.blanks []) column s
  if quote == '"' then
    let (content, _) ← Quoted.text? dialect (body ++ ['"'])
    return (content, rest)
  else return (String.ofList body, rest)

/-! ## Plain scalars -/

/-- Whether a text begins with a colon that ends a word. -/
def atColon (inFlow : Bool) : List Char → Bool
  | ':' :: rest => atGap rest || (inFlow && atFlowMark rest)
  | _ => false

/-- The word at the start of a text; there may be none. -/
def word (inFlow : Bool) : List Char → List Char
  | [] => []
  | c :: rest =>
    if atGap (c :: rest) || atColon inFlow (c :: rest) || (inFlow && flowMarks.contains c) then []
    else c :: word inFlow rest

/-- What stands in a scalar for the gap between two places: the blanks themselves if it lies on one
line, and else what stands for the line breaks. -/
def gapText (before behind : Cursor) : List Char :=
  match behind.line - before.line with
  | 0 => before.blanks
  | breaks => foldedBreaks breaks

/-- Whether words stop at a place. -/
def endsWords (cursor : Cursor) : Bool :=
  (cursor.column == 0 && atDocumentMark cursor.rest) || cursor.rest.head? == some '#'

/-- Splits off the words of a plain scalar and the gaps behind them. Further lines start at column
`margin` or behind it. The fuel bounds the number of words. -/
def words? (inFlow : Bool) (margin : Nat) (fuel : Nat) (cursor : Cursor) :
    Option (List Char × Cursor) :=
  match fuel with
  | 0 => none
  | fuel + 1 =>
    if endsWords cursor then some ([], cursor)
    else if inFlow && cursor.rest.head? == some '-' && atFlowMark cursor.rest.tail then none
    else
      let word := word inFlow cursor.rest
      let behind := cursor.drop word.length
      if behind.rest.isEmpty || !atGap behind.rest then some (word, behind)
      else do
        let next ← behind.skipGap? margin false false false
        if !inFlow && next.column < margin then return (word, next)
        let (words, last) ← words? inFlow margin fuel next
        return (if words.isEmpty then word else word ++ gapText behind next ++ words, last)

/-- Splits off a plain scalar with the gaps behind it. In a flow its first line, too, starts at
column `margin` or behind it. -/
def plain? (inFlow : Bool) (margin : Nat) (cursor : Cursor) : Option (String × Cursor) := do
  if inFlow && cursor.column < margin then none
  let (words, next) ← words? inFlow margin (cursor.rest.length + 1) cursor
  if words.isEmpty then none
  return (String.ofList words, next)

end Scorecard.Document.Yaml
