import Scorecard.Document.Word

/-!
# Tokens of YAML

What a YAML text is made of once its indentation is understood: the starts and ends of blocks, the
marks of items, keys and values, the brackets and commas of flows, and words.
-/

namespace Scorecard.Document.Yaml

/-- What a block or a flow holds. -/
inductive Shape where
  /-- Items, in a flow between square brackets. -/
  | list
  /-- Fields, in a flow between braces. -/
  | record
  deriving Repr, DecidableEq

/-- A part of a YAML text. -/
inductive Token where
  /-- The mark of a document's start. -/
  | documentStart
  /-- The mark of a document's end. -/
  | documentEnd
  /-- The start of a block. -/
  | blockStart (shape : Shape)
  /-- The end of the innermost block. -/
  | blockEnd
  /-- The start of an item of a block. -/
  | item
  /-- The start of a key. -/
  | key
  /-- The start of a value. -/
  | value
  /-- The bracket that opens a flow. -/
  | opening (shape : Shape)
  /-- The bracket that closes a flow. -/
  | closing (shape : Shape)
  /-- A comma in a flow. -/
  | comma
  /-- A scalar. -/
  | word (word : Word)
  /-- A name for the node that follows. -/
  | anchor (name : String)
  /-- A node of a name. -/
  | alias (name : String)
  /-- A tag of the node that follows. It may mark a scalar as text. -/
  | tag (isText : Bool)
  /-- The end of the text. -/
  | finish
  deriving Repr, DecidableEq

/-- Whether a token cannot start a node of a block, so that a node in front of it is missing. -/
def Token.endsBlockNode : Token → Bool
  | key => true
  | value => true
  | item => true
  | blockEnd => true
  | _ => false

/-- Whether a token cannot start a node of a flow. -/
def Token.endsFlowNode : Token → Bool
  | value => true
  | comma => true
  | closing _ => true
  | _ => false

end Scorecard.Document.Yaml
