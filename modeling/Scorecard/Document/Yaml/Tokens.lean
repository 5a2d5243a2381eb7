import Scorecard.Document.Yaml.BlockScalar
import Scorecard.Document.Yaml.Lexer
import Scorecard.Document.Yaml.Scalar

/-!
# From a text to tokens

`tokens` reads a text token by token. The dash of an item, the question mark of a key and the colon
of a value have a gap behind them. In a flow the colon needs none in front of the marks of the flow,
nor behind a quoted scalar or another flow.

Where a text has a fault, its tokens end with the last one that was settled before.
-/

namespace Scorecard.Document.Yaml

namespace Lexer

/-! ## One token -/

/-- Whether a line is over. -/
def atLineEnd (s : List Char) : Bool :=
  s.isEmpty || s.head? == some '\n'

/-- Reads the mark of a document's start or end. Nothing else stands on the line of the latter. -/
def documentMark? (lexer : Lexer) : Option Lexer := do
  let isStart := lexer.cursor.rest.head? == some '-'
  let behind := lexer.cursor.drop 3
  let lexer ← lexer.leaveAll.dropKey?
  let lexer := { lexer with keyAllowed := false }
  if isStart then return { lexer with cursor := behind }.push .documentStart
  let next ← behind.skipInLine?
  if atLineEnd next.rest then return { lexer with cursor := next }.push .documentEnd
  none

/-- The most flows that can be open. -/
def maxFlows : Nat :=
  255

/-- Reads the bracket that opens a flow. -/
def opening? (shape : Shape) (lexer : Lexer) : Option Lexer := do
  if lexer.flows.length = maxFlows then none
  let lexer := lexer.saveKey.makeRoom
  let lexer ← lexer.skipMark?
  let lexer :=
    { lexer with
      flows := (shape, lexer.candidate) :: lexer.flows
      candidate := none
      keyAllowed := true }
  return lexer.push (.opening shape)

/-- Reads the bracket that closes a flow. -/
def closing? (shape : Shape) (lexer : Lexer) : Option Lexer :=
  match lexer.flows with
  | [] => none
  | (_, candidate) :: flows => do
    let lexer ← lexer.skipMark?
    let lexer :=
      { lexer with
        flows := flows
        candidate := candidate
        keyAllowed := false
        adjacent := lexer.cursor.index }
    return lexer.push (.closing shape)

/-- Reads a comma. -/
def comma? (lexer : Lexer) : Option Lexer := do
  let lexer ← lexer.dropKey?
  let lexer ← lexer.skipMark?
  return { lexer with keyAllowed := true }.push .comma

/-- Reads the dash of an item. Another dash behind it on the line is indented by spaces. -/
def item? (lexer : Lexer) : Option Lexer := do
  if lexer.inFlow || !lexer.keyAllowed then none
  let behind := lexer.cursor.advance
  let lexer := lexer.enter .list lexer.cursor.column lexer.tokens.size
  let lexer ← lexer.skipMark?
  let rest := lexer.cursor.rest
  if behind.blanks.contains '\t' && rest.head? == some '-' && atGap rest.tail then none
  let lexer := if rest.head? == some '\n' || atFlowMark rest then lexer.makeRoom else lexer
  let lexer ← lexer.dropKey?
  return { lexer with keyAllowed := true }.push .item

/-- Reads the mark of a key. Spaces or the end of a line follow it. -/
def key? (lexer : Lexer) : Option Lexer := do
  let behind := lexer.cursor.advance
  if behind.rest.isEmpty || behind.blanks.contains '\t' then none
  if !lexer.inFlow && !lexer.keyAllowed then none
  let lexer := lexer.enter .record lexer.cursor.column lexer.tokens.size
  let lexer ← lexer.dropKey?
  return { lexer with cursor := behind, keyAllowed := !lexer.inFlow }.push .key

/-- Whether a text begins like a word of letters and digits, or with a dash. -/
def atLetter : List Char → Bool
  | [] => false
  | c :: _ => c.isAlphanum || c == '_' || c == '-'

/-- Passes the colon of a value. Where a tabulator follows it, a word of letters and digits needs a
space as well. -/
def skipColon? (cursor : Cursor) : Option Cursor :=
  let behind := cursor.advance
  if behind.rest.head? == some '\t' then
    behind.skipInLine?.filter fun next => behind.blanks.contains ' ' || !atLetter next.rest
  else some behind

/-- Reads the colon of a value. In a list the key before it stands on the same line. -/
def value? (lexer : Lexer) : Option Lexer := do
  let behind ← skipColon? lexer.cursor
  match lexer.candidate with
  | some key =>
    let inList := lexer.flows.head?.any fun flow => flow.1 == .list
    if inList && key.line < lexer.cursor.line then none
    let lexer := lexer.insert key.position .key
    let lexer := (lexer.enter .record key.column key.position).makeRoom
    return { lexer with cursor := behind, candidate := none, keyAllowed := false }.push .value
  | none =>
    if !lexer.inFlow && !lexer.keyAllowed then none
    let lexer := (lexer.enter .record lexer.cursor.column lexer.tokens.size).makeRoom
    return { lexer with cursor := behind, keyAllowed := !lexer.inFlow }.push .value

/-- The marks of a flow behind an item or a field. -/
def flowEnds : List Char :=
  [',', ']', '\x7d']

/-- Reads a quoted scalar. The line ends behind it, or a colon or the rest of a flow follows.
Outside of flows a colon follows only a scalar on one line. -/
def quoted? (quote : Char) (lexer : Lexer) : Option Lexer := do
  let place := lexer.cursor.advance
  let (content, rest) ← Yaml.quoted? quote lexer.levels.column place.column place.rest
  let next ← (lexer.cursor.upTo rest).skipInLine?
  let isKey := next.rest.head? == some ':' && (lexer.inFlow || next.line == place.line)
  let isInFlow := lexer.inFlow && next.rest.head?.any flowEnds.contains
  if !(atLineEnd next.rest || isKey || isInFlow) then none
  let lexer ← { lexer.saveKey with cursor := next, keyAllowed := false }.skipGap?
  return { lexer with adjacent := lexer.cursor.index }.push (.word (.text content))

/-- Reads a plain scalar. A key can start behind it on a new line. -/
def plain? (lexer : Lexer) : Option Lexer := do
  let levels := lexer.levels.dropRoom
  let (spelling, next) ← Yaml.plain? lexer.inFlow levels.margin lexer.cursor
  let lexer := { lexer.saveKey with cursor := next, levels := levels, keyAllowed := next.fresh }
  return lexer.push (.word (.plain spelling))

/-- Reads a block scalar. A key can start behind it. -/
def blockScalar? (folded : Bool) (lexer : Lexer) : Option Lexer := do
  let levels := lexer.levels.dropRoom
  let (content, next) ← Yaml.blockScalar? folded levels lexer.cursor
  let lexer := { lexer.saveKey with cursor := next, levels := levels, keyAllowed := true }
  return lexer.push (.word (.text content))

/-- The name at the start of a text. -/
def name (s : List Char) : List Char :=
  s.takeWhile fun c => !isSpace c && c != '\n' && !flowMarks.contains c

/-- Reads an anchor or an alias. -/
def reference? (token : String → Token) (lexer : Lexer) : Option Lexer := do
  let name := name lexer.cursor.rest.tail
  if name.isEmpty then none
  let next := lexer.cursor.drop (name.length + 1)
  let lexer := { lexer.saveKey with cursor := next, keyAllowed := false }
  return lexer.push (token (String.ofList name))

/-- The name of a tag: in angles, or without a second mark of a tag but at its start. -/
def tagName? (s : List Char) : Option (List Char) :=
  if s.head? == some '<' then
    let body := s.takeWhile fun c => c != '>' && !isSpace c && c != '\n'
    if (s.drop body.length).head? == some '>' then some (body ++ ['>']) else none
  else
    let name := name s
    if name.tail.contains '!' then none else some name

/-- The names of the tags that mark a scalar as text. -/
def textTags : List String :=
  ["", "!str", "<tag:yaml.org,2002:str>"]

/-- Reads a tag. A gap follows it, or a mark of the flow. -/
def tag? (lexer : Lexer) : Option Lexer := do
  let name ← tagName? lexer.cursor.rest.tail
  let next := lexer.cursor.drop (name.length + 1)
  if !atGap next.rest && !(lexer.inFlow && atFlowMark next.rest) then none
  let isText := textTags.contains (String.ofList name)
  return { lexer.saveKey with cursor := next, keyAllowed := false }.push (.tag isText)

/-- The characters that start nothing. -/
def reserved : List Char :=
  ['%', '@', '\x60']

/-- Whether a colon in front of a text ends a key although there is no gap. -/
def isFlowColon (rest : List Char) (lexer : Lexer) : Bool :=
  lexer.inFlow && (atFlowMark rest || lexer.cursor.index == lexer.adjacent)

/-- Reads a token that is neither the end of the text nor the mark of a document. There are no block
scalars in flows. -/
def mark? (c : Char) (rest : List Char) (lexer : Lexer) : Option Lexer :=
  match c with
  | '[' => lexer.opening? .list
  | '\x7b' => lexer.opening? .record
  | ']' => lexer.closing? .list
  | '\x7d' => lexer.closing? .record
  | ',' => lexer.comma?
  | '"' => lexer.quoted? '"'
  | '\'' => lexer.quoted? '\''
  | '&' => lexer.reference? .anchor
  | '*' => lexer.reference? .alias
  | '!' => lexer.tag?
  | _ =>
    if c == '-' && atGap rest then lexer.item?
    else if c == '?' && atGap rest then lexer.key?
    else if c == ':' && atGap rest then lexer.value?
    else if c == ':' && lexer.isFlowColon rest then
      let isOpening := rest.head? == some '[' || rest.head? == some '\x7b'
      if isOpening && lexer.cursor.index != lexer.adjacent then none else lexer.value?
    else if !lexer.inFlow && (c == '|' || c == '>') then lexer.blockScalar? (c == '>')
    else if reserved.contains c then none
    else lexer.plain?

/-- Reads a token. In a flow nothing but its brackets and commas stands before the innermost
level. -/
def token? (lexer : Lexer) : Option Lexer :=
  match lexer.cursor.rest with
  | [] => none
  | c :: rest =>
    if lexer.cursor.column == 0 && atDocumentMark (c :: rest) then lexer.documentMark?
    else if lexer.cursor.column < lexer.levels.column && !flowEnds.contains c then none
    else lexer.mark? c rest

/-! ## All tokens -/

/-- Goes on to the next token. -/
def approach? (lexer : Lexer) : Option Lexer := do
  let lexer ← lexer.skipGap?
  let lexer ← lexer.dropStale?
  return lexer.leave

/-- The tokens of a text that is over. -/
def finish? (lexer : Lexer) : Option (List Token) :=
  if lexer.candidates.any (·.required) then none
  else some (lexer.leaveAll.push .finish).tokens.toList

/-- The tokens of a text from a place on, up to its first fault. The fuel bounds their number. -/
def run (fuel : Nat) (lexer : Lexer) : List Token :=
  match fuel with
  | 0 => lexer.settled
  | fuel + 1 =>
    match lexer.approach? with
    | none => lexer.settled
    | some next =>
      if next.cursor.rest.isEmpty then next.finish?.getD lexer.settled
      else match next.token?.bind dropStale? with
        | some next => run fuel next
        | none => lexer.settled

end Lexer

/-- The tokens of a text up to its first fault. Without one, the last is the end of the text. -/
def tokens (s : List Char) : List Token :=
  Lexer.run (s.length + 1) (.start s)

end Scorecard.Document.Yaml
