import Scorecard.Document.Yaml.Token

/-!
# From tokens to nodes

A node is a word, a flow, a block or an alias. Where a node is missing, a plain word without
characters stands for it. A node can have properties in front of it, an anchor and a tag. A tag that
marks a scalar as text does so; every other tag is passed over.
-/

namespace Scorecard.Document.Yaml

/-- What is written in a YAML text. -/
inductive Node where
  | word (word : Word)
  | list (items : List Node)
  | record (fields : List (Node × Node))
  /-- A node that gets a name. -/
  | anchored (name : String) (node : Node)
  /-- The node of a name. -/
  | alias (name : String)
  deriving Inhabited

/-- The node that stands for a missing one. -/
def missing : Node :=
  .word (.plain "")

/-! ## Properties -/

/-- The properties of a node. -/
structure Properties where
  anchor : Option String
  /-- Whether there is a tag. -/
  isTagged : Bool
  /-- Whether the tag marks a scalar as text. -/
  isText : Bool

/-- Splits off the properties in front of a node, at most one of each. -/
def splitProperties : List Token → Properties × List Token
  | .anchor name :: .tag isText :: rest => (⟨some name, true, isText⟩, rest)
  | .tag isText :: .anchor name :: rest => (⟨some name, true, isText⟩, rest)
  | .anchor name :: rest => (⟨some name, false, false⟩, rest)
  | .tag isText :: rest => (⟨none, true, isText⟩, rest)
  | rest => (⟨none, false, false⟩, rest)

/-- Whether there are no properties. -/
def Properties.isEmpty (properties : Properties) : Bool :=
  properties.anchor.isNone && !properties.isTagged

/-- A node with properties. -/
def Properties.apply (properties : Properties) (node : Node) : Node :=
  let node := match node with
    | .word w => .word (if properties.isText then .text w.content else w)
    | node => node
  match properties.anchor with
  | some name => .anchored name node
  | none => node

/-- Whether tokens begin with the content of a node. The flag `bare` admits a list that has no block
of its own: its items stand as far in as its key. -/
def startsContent (bare : Bool) : List Token → Bool
  | .word _ :: _ => true
  | .opening _ :: _ => true
  | .blockStart _ :: _ => true
  | .item :: _ => bare
  | _ => false

/-! ## Nodes -/

mutual

/-- Splits off a node. The fuel bounds the number of tokens. The flag `bare` admits a list that has
no block of its own. -/
def node? (fuel : Nat) (bare : Bool) (tokens : List Token) : Option (Node × List Token) :=
  match fuel, tokens with
  | 0, _ => none
  | _, .alias name :: rest => some (.alias name, rest)
  | fuel + 1, tokens =>
    let (properties, rest) := splitProperties tokens
    if startsContent bare rest then
      (content? fuel rest).map fun (node, rest) => (properties.apply node, rest)
    else if properties.isEmpty then none
    else some (properties.apply missing, rest)

/-- Splits off a node without properties. -/
def content? (fuel : Nat) (tokens : List Token) : Option (Node × List Token) :=
  match fuel, tokens with
  | 0, _ => none
  | _, .word w :: rest => some (.word w, rest)
  | fuel + 1, .opening .list :: rest =>
    (flowItems? fuel rest).map fun (items, rest) => (.list items, rest)
  | fuel + 1, .opening .record :: rest =>
    (flowFields? fuel rest).map fun (fields, rest) => (.record fields, rest)
  | fuel + 1, .blockStart .list :: rest =>
    (items? fuel rest).map fun (items, rest) => (.list items, rest)
  | fuel + 1, .blockStart .record :: rest =>
    (fields? fuel rest).map fun (fields, rest) => (.record fields, rest)
  | fuel + 1, .item :: rest =>
    (bareItems? fuel (.item :: rest)).map fun (items, rest) => (.list items, rest)
  | _, _ => none

/-- Splits off a node where it can be missing. -/
def nodeOrNone? (fuel : Nat) (bare : Bool) (endsNode : Token → Bool) (tokens : List Token) :
    Option (Node × List Token) :=
  match fuel, tokens with
  | 0, _ => none
  | _, [] => none
  | fuel + 1, token :: rest =>
    if endsNode token then some (missing, token :: rest) else node? fuel bare (token :: rest)

/-- Splits off the items of a block and its end. -/
def items? (fuel : Nat) (tokens : List Token) : Option (List Node × List Token) :=
  match fuel, tokens with
  | 0, _ => none
  | _, .blockEnd :: rest => some ([], rest)
  | fuel + 1, .item :: rest => do
    let (item, rest) ← nodeOrNone? fuel false Token.endsBlockNode rest
    let (items, rest) ← items? fuel rest
    return (item :: items, rest)
  | _, _ => none

/-- Splits off the items of a list that has no block of its own. -/
def bareItems? (fuel : Nat) (tokens : List Token) : Option (List Node × List Token) :=
  match fuel, tokens with
  | 0, _ => none
  | _, [] => none
  | fuel + 1, .item :: rest => do
    let (item, rest) ← nodeOrNone? fuel false Token.endsBlockNode rest
    let (items, rest) ← bareItems? fuel rest
    return (item :: items, rest)
  | _, rest => some ([], rest)

/-- Splits off the value of a field of a block. -/
def fieldValue? (fuel : Nat) (tokens : List Token) : Option (Node × List Token) :=
  match fuel, tokens with
  | 0, _ => none
  | _, [] => none
  | fuel + 1, .value :: rest => nodeOrNone? fuel true (fun t => t.endsBlockNode && t != .item) rest
  | _, rest => some (missing, rest)

/-- Splits off the fields of a block and its end. -/
def fields? (fuel : Nat) (tokens : List Token) : Option (List (Node × Node) × List Token) :=
  match fuel, tokens with
  | 0, _ => none
  | _, .blockEnd :: rest => some ([], rest)
  | fuel + 1, .key :: rest => do
    let (key, rest) ← nodeOrNone? fuel false Token.endsBlockNode rest
    let (value, rest) ← fieldValue? fuel rest
    let (fields, rest) ← fields? fuel rest
    return ((key, value) :: fields, rest)
  | fuel + 1, .value :: rest => do
    let (value, rest) ← fieldValue? fuel (.value :: rest)
    let (fields, rest) ← fields? fuel rest
    return ((missing, value) :: fields, rest)
  | _, _ => none

/-- Splits off a key of a flow and its value. -/
def flowField? (fuel : Nat) (tokens : List Token) : Option ((Node × Node) × List Token) :=
  match fuel with
  | 0 => none
  | fuel + 1 => do
    let (key, rest) ← nodeOrNone? fuel false Token.endsFlowNode tokens
    match rest with
    | .value :: rest =>
      let (value, rest) ← nodeOrNone? fuel false Token.endsFlowNode rest
      return ((key, value), rest)
    | rest => return ((key, missing), rest)

/-- Splits off a record of one field in a list. -/
def flowPair? (fuel : Nat) (tokens : List Token) : Option (Node × List Token) :=
  match fuel with
  | 0 => none
  | fuel + 1 => (flowField? fuel tokens).map fun (field, rest) => (.record [field], rest)

/-- Splits off the items of a flow and its end. A field among them is a record of its own. -/
def flowItems? (fuel : Nat) (tokens : List Token) : Option (List Node × List Token) :=
  match fuel, tokens with
  | 0, _ => none
  | _, .closing .list :: rest => some ([], rest)
  | fuel + 1, tokens => do
    let (item, rest) ← match tokens with
      | .key :: rest => flowPair? fuel rest
      | .value :: _ => flowPair? fuel tokens
      | tokens => node? fuel false tokens
    match rest with
    | .comma :: rest =>
      let (items, rest) ← flowItems? fuel rest
      return (item :: items, rest)
    | .closing .list :: rest => return ([item], rest)
    | _ => none

/-- Splits off the fields of a flow and its end. A node alone is a key without a value. -/
def flowFields? (fuel : Nat) (tokens : List Token) : Option (List (Node × Node) × List Token) :=
  match fuel, tokens with
  | 0, _ => none
  | _, .closing .record :: rest => some ([], rest)
  | fuel + 1, tokens => do
    let (field, rest) ← match tokens with
      | .key :: rest => flowField? fuel rest
      | .value :: _ => flowField? fuel tokens
      | tokens => (node? fuel false tokens).map fun (key, rest) => ((key, missing), rest)
    match rest with
    | .comma :: rest =>
      let (fields, rest) ← flowFields? fuel rest
      return (field :: fields, rest)
    | .closing .record :: rest => return ([field], rest)
    | _ => none

end

/-! ## Documents -/

/-- Splits off the node of a document, behind the mark of its start if there is one. -/
def root? (tokens : List Token) : Option (Node × List Token) :=
  let fuel := 5 * tokens.length + 5
  match tokens with
  | .documentStart :: .documentStart :: rest => some (missing, .documentStart :: rest)
  | .documentStart :: .documentEnd :: rest => some (missing, .documentEnd :: rest)
  | .documentStart :: .finish :: rest => some (missing, .finish :: rest)
  | .documentStart :: rest => node? fuel false rest
  | .finish :: rest => some (missing, .finish :: rest)
  | tokens => node? fuel false tokens

/-- Whether the tokens behind a document belong to it. Behind the mark of its end nothing follows;
without one, what follows is left aside unless it is another document. -/
def endsDocument : List Token → Bool
  | [] => false
  | .documentStart :: _ => false
  | .documentEnd :: rest => (rest.filter (· != .documentEnd)).all (· == .finish)
  | _ => true

/-- The node of the only document of tokens. -/
def onlyRoot? (tokens : List Token) : Option Node :=
  match root? (tokens.dropWhile (· == .documentEnd)) with
  | some (node, rest) => if endsDocument rest then some node else none
  | none => none

end Scorecard.Document.Yaml
