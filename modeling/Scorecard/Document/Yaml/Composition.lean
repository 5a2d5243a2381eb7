import Scorecard.Document
import Scorecard.Document.Yaml.Node

/-!
# From nodes to documents

The nodes of a text are put together from its start on. An alias is the document of the node that
had its name last, if that one is over; an alias in its own node is refused.

The keys of a record are words, each different from the others; other keys are refused, as no use of
a document takes them. The key `<<` names records to take further fields from; a record's own fields
go before them.
-/

namespace Scorecard.Document.Yaml

/-! ## Records -/

/-- Whether the keys of fields differ from each other. -/
def distinctKeys (fields : List (Word × Document)) : Bool :=
  (fields.map fun field => field.1.content).Nodup

/-- The key whose value is no field, but a record to take fields from. -/
def mergeKey : Word :=
  .plain "<<"

/-- The fields to take from a document: those of a record or of the records in a list. -/
def fieldsToMerge? : Document → Option (List (Word × Document))
  | .list items => do
    let records ← items.mapM fun item => match item with
      | .record fields => some fields
      | _ => none
    return records.flatten
  | document => document.fields?

/-- Adds the fields whose keys are new. -/
def merge (own taken : List (Word × Document)) : List (Word × Document) :=
  taken.foldl
    (fun fields field =>
      if fields.any fun other => other.1.content == field.1.content then fields
      else fields ++ [field])
    own

/-- A record whose own keys differ from each other. -/
def record? (fields : List (Word × Document)) : Option Document := do
  let (merged, own) := fields.partition fun field => field.1 == mergeKey
  if !distinctKeys own then none
  let taken ← merged.mapM fun field => fieldsToMerge? field.2
  return .record (merge own taken.flatten)

/-! ## Nodes -/

/-- The documents of names, the last one first; none while its node is not over. -/
abbrev Anchors := List (String × Option Document)

/-- The document of an alias. -/
def Anchors.find? (anchors : Anchors) (name : String) : Option Document :=
  (anchors.lookup name).join

mutual

/-- Puts a node together, with the anchors before it, and adds its own. -/
def compose? (anchors : Anchors) : Node → Option (Document × Anchors)
  | .word w => some (.word w, anchors)
  | .alias name => (anchors.find? name).map fun document => (document, anchors)
  | .anchored name node => do
    let (document, anchors) ← compose? ((name, none) :: anchors) node
    return (document, (name, some document) :: anchors)
  | .list items => do
    let (items, anchors) ← composeItems? anchors items
    return (.list items, anchors)
  | .record fields => do
    let (fields, anchors) ← composeFields? anchors fields
    let document ← record? fields
    return (document, anchors)

/-- Puts the items of a list together. -/
def composeItems? (anchors : Anchors) : List Node → Option (List Document × Anchors)
  | [] => some ([], anchors)
  | node :: rest => do
    let (item, anchors) ← compose? anchors node
    let (items, anchors) ← composeItems? anchors rest
    return (item :: items, anchors)

/-- Puts the fields of a record together. -/
def composeFields? (anchors : Anchors) :
    List (Node × Node) → Option (List (Word × Document) × Anchors)
  | [] => some ([], anchors)
  | (key, value) :: rest => do
    let (key, anchors) ← compose? anchors key
    let .word key := key | none
    let (value, anchors) ← compose? anchors value
    let (fields, anchors) ← composeFields? anchors rest
    return ((key, value) :: fields, anchors)

end

/-- The only document of tokens. -/
def document? (tokens : List Token) : Option Document := do
  let node ← onlyRoot? tokens
  let (document, _) ← compose? [] node
  return document

end Scorecard.Document.Yaml
