/-!
# Cursors

A cursor is a place in a text that is read from its start: what is left of the text, and how far
down and across the place is. Lines end with `\n`.

Blanks here are spaces and tabulators, and a gap is anything that parts words: a blank, the end of a
line or the end of the text. Main statement: `length_rest_advance`, every step leaves less to read.
-/

namespace Scorecard.Document.Yaml

/-! ## Classes of characters -/

/-- Whether a character is a space or a tabulator. -/
def isSpace (c : Char) : Bool :=
  c == ' ' || c == '\t'

/-- Whether a text begins with a gap. -/
def atGap : List Char → Bool
  | [] => true
  | c :: _ => isSpace c || c == '\n'

/-- The characters that structure a flow. -/
def flowMarks : List Char :=
  [',', '[', ']', '\x7b', '\x7d']

/-- Whether a text begins with a character that structures a flow. -/
def atFlowMark : List Char → Bool
  | [] => false
  | c :: _ => flowMarks.contains c

/-- Whether a text begins with the mark of a document's start or end. -/
def atDocumentMark : List Char → Bool
  | '-' :: '-' :: '-' :: rest => atGap rest
  | '.' :: '.' :: '.' :: rest => atGap rest
  | _ => false

/-- What line breaks are folded to: a space for one, and else a line break for each one after the
first. -/
def foldedBreaks : Nat → List Char
  | 1 => [' ']
  | breaks => List.replicate (breaks - 1) '\n'

/-! ## Cursors -/

/-- A place in a text. -/
structure Cursor where
  /-- What is left of the text. -/
  rest : List Char
  /-- The number of characters before. -/
  index : Nat
  /-- The number of lines before. -/
  line : Nat
  /-- The number of characters before on the line. -/
  column : Nat
  /-- Whether nothing but blanks stands before on the line. -/
  fresh : Bool
  deriving Repr, DecidableEq

namespace Cursor

/-- The start of a text. -/
def start (s : List Char) : Cursor :=
  ⟨s, 0, 0, 0, true⟩

/-- The place behind the next character. -/
def advance (cursor : Cursor) : Cursor :=
  match cursor.rest with
  | [] => cursor
  | c :: rest =>
    if c == '\n' then ⟨rest, cursor.index + 1, cursor.line + 1, 0, true⟩
    else ⟨rest, cursor.index + 1, cursor.line, cursor.column + 1, cursor.fresh && isSpace c⟩

@[simp] theorem rest_advance (cursor : Cursor) : cursor.advance.rest = cursor.rest.tail := by
  unfold advance
  split
  · simp [*]
  · split <;> simp [*]

theorem length_rest_advance {cursor : Cursor} {c : Char} {rest : List Char}
    (h : cursor.rest = c :: rest) : cursor.advance.rest.length < cursor.rest.length := by
  simp [h]

/-- The place behind some characters. -/
def drop : Nat → Cursor → Cursor
  | 0, cursor => cursor
  | n + 1, cursor => drop n cursor.advance

/-- The place from which on a rest of the text is left. -/
def upTo (rest : List Char) (cursor : Cursor) : Cursor :=
  cursor.drop (cursor.rest.length - rest.length)

/-- The blanks that follow. -/
def blanks (cursor : Cursor) : List Char :=
  cursor.rest.takeWhile isSpace

/-- The place behind the blanks that follow. -/
def skipBlanks (cursor : Cursor) : Cursor :=
  cursor.drop cursor.blanks.length

/-- The place behind the blanks and the comment that follow on the line. A comment has a blank
before it. -/
def skipInLine? (cursor : Cursor) : Option Cursor :=
  let next := cursor.skipBlanks
  match next.rest with
  | '#' :: _ =>
    if cursor.blanks.isEmpty then none
    else some (next.drop (next.rest.takeWhile (· != '\n')).length)
  | _ => some next

/-- Passes blanks, line ends and comments. A tabulator before column `margin` at the start of a line
is no indentation: such a line can hold a comment, and else must be blank. The flag `comments` says
whether other lines can hold one. -/
def skipGap? (margin : Nat) (comments : Bool) (tabbed inComment : Bool) (cursor : Cursor) :
    Option Cursor :=
  match h : cursor.rest with
  | [] => some cursor
  | c :: _ =>
    have := length_rest_advance h
    if c == '\n' then skipGap? margin comments false false cursor.advance
    else if inComment then skipGap? margin comments tabbed true cursor.advance
    else if isSpace c then
      let shallow := c == '\t' && cursor.fresh && cursor.column < margin
      skipGap? margin comments (tabbed || shallow) false cursor.advance
    else if c == '#' && (comments || tabbed) then
      skipGap? margin comments tabbed true cursor.advance
    else if tabbed then none
    else some cursor
termination_by cursor.rest.length

end Cursor

end Scorecard.Document.Yaml
