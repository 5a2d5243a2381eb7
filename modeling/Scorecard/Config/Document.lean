import Scorecard.Config
import Scorecard.Document

/-!
# Configurations as documents

A configuration is a record of `expression`, a list of formulas, and of `elements`, a record of
definitions, which may be missing. Other fields are refused. A definition is a record of one field
named for its kind; a body that is no list of texts, or of finite numbers, makes it malformed.
-/

namespace Scorecard

/-! ## Reading -/

/-- The definition of a kind with a body. -/
def Definition.ofBody (kind : Kind) (body : Document) : Definition :=
  match kind, body with
  | .interval, .list items =>
    match items.mapM Document.text? with
    | some rules => .interval rules
    | none => .malformed .interval
  | .range, .list items =>
    match items.mapM fun item => item.number?.filter Float.isFinite with
    | some bounds => .range bounds
    | none => .malformed .range
  | kind, _ => .malformed kind

/-- The kind of a name. -/
def Kind.ofName? : String → Option Kind
  | "Interval" => some .interval
  | "Range" => some .range
  | _ => none

/-- The name of a kind. -/
def Kind.name : Kind → String
  | .interval => "Interval"
  | .range => "Range"

/-- The definition in a document. Whatever its body is, the keys in it are texts. -/
def Definition.ofDocument? : Document → Option Definition
  | .record [(key, body)] => do
    let name ← key.spelling?
    let kind ← Kind.ofName? name
    if body.hasNames then some (.ofBody kind body) else none
  | _ => none

namespace Config

/-- The formulas in a document. -/
def formulas? (document : Document) : Option (List String) := do
  let items ← document.items?
  items.mapM Document.spelling?

/-- The definitions in a document. -/
def definitions? (document : Document) : Option (NameMap Definition) := do
  let fields ← document.fields?
  let definitions ← fields.mapM fun (key, body) => do
    let name ← key.spelling?
    let definition ← Definition.ofDocument? body
    return (name, definition)
  return .ofList definitions

/-- The configuration of its two parts; the second may be missing. -/
def ofParts? (expression : Document) (elements : Option Document) : Option Config := do
  let formulas ← formulas? expression
  let definitions ← match elements with
    | none => some .empty
    | some elements => definitions? elements
  return ⟨formulas, definitions⟩

/-- Whether a key names a field. -/
def isNamed (name : String) (key : Word) : Bool :=
  key.spelling? == some name

/-- The configuration in a record. Each field stands at most once. -/
def ofRecord? : Document → Option Config
  | .record fields =>
    if fields.all fun field => isNamed "expression" field.1 || isNamed "elements" field.1 then
      let expression := Document.field? (isNamed "expression") fields
      match fields.countP (isNamed "elements" ·.1), expression with
      | 0, some expression => ofParts? expression none
      | _, some expression => do
        let elements ← Document.field? (isNamed "elements") fields
        ofParts? expression (some elements)
      | _, none => none
    else none
  | _ => none

/-- The configuration in a record, or in a list of its parts in their order. -/
def ofDocument? : Document → Option Config
  | .list [expression] => ofParts? expression none
  | .list [expression, elements] => ofParts? expression (some elements)
  | document => ofRecord? document

/-! ## Writing -/

/-- A definition as a document. A malformed one has no body to write. -/
def definitionDocument : Definition → Document
  | .interval rules => .record [(Kind.interval.name, .list (rules.map .text))]
  | .range bounds => .record [(Kind.range.name, .list (bounds.map .number))]
  | .malformed kind => .record [(kind.name, .null)]

/-- A configuration as a document. -/
def toDocument (config : Config) : Document :=
  .record
    [("expression", .list (config.formulas.map .text)),
     ("elements", .record (config.definitions.entries.map fun (name, definition) =>
       (.text name, definitionDocument definition)))]

end Config

end Scorecard
