import Scorecard.Document.Yaml.Cursor
import Scorecard.Document.Yaml.Indentation
import Scorecard.Document.Yaml.Token

/-!
# Lexers

A lexer is what is known of a text up to a place: the tokens before it, the levels and flows that
are open there, and whether a key can start.

A scalar or a flow is known to be a key only when a colon follows it, so the lexer keeps it as a
candidate, and puts the start of the key, and of a block that begins with it, in front of it later.
Outside of flows a key ends within 1024 characters and on the line on which it starts. The tokens in
front of the first candidate are settled.
-/

namespace Scorecard.Document.Yaml

/-- A place that turns out to start a key if a colon follows. -/
structure Candidate where
  index : Nat
  line : Nat
  column : Nat
  /-- The number of tokens before. -/
  position : Nat
  /-- Whether nothing but a key can stand there. -/
  required : Bool
  deriving Repr, DecidableEq

/-- Whether a place lies too far behind a candidate for its colon. -/
def Candidate.isStale (candidate : Candidate) (cursor : Cursor) : Bool :=
  candidate.line < cursor.line || candidate.index + 1024 < cursor.index

/-- How far a text is read. -/
structure Lexer where
  cursor : Cursor
  levels : Levels
  /-- The open flows from the innermost out, each with the candidate around it. -/
  flows : List (Shape × Option Candidate)
  /-- The candidate in the innermost flow. -/
  candidate : Option Candidate
  /-- Whether a key can start at the place. -/
  keyAllowed : Bool
  /-- Where a colon needs no gap behind it: behind a quoted scalar or a flow. -/
  adjacent : Nat
  tokens : Array Token

namespace Lexer

/-- The lexer at the start of a text. -/
def start (s : List Char) : Lexer :=
  ⟨.start s, [], [], none, true, 0, #[]⟩

/-- Whether a flow is open. -/
def inFlow (lexer : Lexer) : Bool :=
  !lexer.flows.isEmpty

/-! ## Tokens -/

/-- Adds a token. -/
def push (token : Token) (lexer : Lexer) : Lexer :=
  { lexer with tokens := lexer.tokens.push token }

/-- Adds a token behind some others. -/
def insert (position : Nat) (token : Token) (lexer : Lexer) : Lexer :=
  { lexer with tokens := lexer.tokens.insertIdxIfInBounds position token }

/-- The candidates that are open, from the innermost out. -/
def candidates (lexer : Lexer) : List Candidate :=
  lexer.candidate.toList ++ lexer.flows.filterMap Prod.snd

/-- The tokens that no candidate can change. -/
def settled (lexer : Lexer) : List Token :=
  let positions := lexer.candidates.map Candidate.position
  lexer.tokens.toList.take (positions.foldl min lexer.tokens.size)

/-! ## Keys -/

/-- Makes the place a candidate if a key can start at it. -/
def saveKey (lexer : Lexer) : Lexer :=
  if lexer.keyAllowed then
    let place := lexer.cursor
    let required := !lexer.inFlow && lexer.levels.isBlockAt place.column
    { lexer with
      candidate := some ⟨place.index, place.line, place.column, lexer.tokens.size, required⟩ }
  else lexer

/-- Gives the candidate up; none if it has to be a key. -/
def dropKey? (lexer : Lexer) : Option Lexer :=
  if lexer.candidate.any (·.required) then none else some { lexer with candidate := none }

/-- Gives a candidate up that lies too far back. In a flow none does. -/
def dropStale? (lexer : Lexer) : Option Lexer :=
  if !lexer.inFlow && lexer.candidate.any (·.isStale lexer.cursor) then lexer.dropKey?
  else some lexer

/-! ## Indentation -/

/-- Starts a block at a column, with its token behind some others. There are no blocks in flows. -/
def enter (shape : Shape) (column position : Nat) (lexer : Lexer) : Lexer :=
  if lexer.inFlow then lexer
  else match lexer.levels.enter? column with
    | some levels => { lexer.insert position (.blockStart shape) with levels := levels }
    | none => lexer

/-- Makes room for a value behind the column of the innermost block. -/
def makeRoom (lexer : Lexer) : Lexer :=
  if lexer.inFlow then lexer else { lexer with levels := lexer.levels.makeRoom }

/-- Ends the blocks that start behind the place. -/
def leave (lexer : Lexer) : Lexer :=
  if lexer.inFlow then lexer
  else
    let (ended, levels) := lexer.levels.leave lexer.cursor.column
    { lexer with
      levels := levels
      tokens := lexer.tokens ++ Array.replicate ended .blockEnd }

/-- Ends all blocks. -/
def leaveAll (lexer : Lexer) : Lexer :=
  if lexer.inFlow then lexer
  else
    { lexer with
      levels := []
      tokens := lexer.tokens ++ Array.replicate lexer.levels.blocks .blockEnd }

/-! ## Gaps -/

/-- Passes a gap. Outside of flows a key can start on a new line. -/
def skipGap? (lexer : Lexer) : Option Lexer := do
  let next ← lexer.cursor.skipGap? lexer.levels.column true false false
  let isNewLine := !lexer.inFlow && lexer.cursor.line < next.line
  return { lexer with cursor := next, keyAllowed := lexer.keyAllowed || isNewLine }

/-- Passes the next character and what may follow it on the line. -/
def skipMark? (lexer : Lexer) : Option Lexer :=
  lexer.cursor.advance.skipInLine?.map fun next => { lexer with cursor := next }

end Lexer

end Scorecard.Document.Yaml
