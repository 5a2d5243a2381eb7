import Scorecard.Document.Word

/-!
# Documents

What a data file holds, whatever its format: scalars, lists and records. A record keeps its fields
in the order of the file, repeats included, and their keys are words.
-/

namespace Scorecard

/-- The contents of a data file. -/
inductive Document where
  | null
  | bool (value : Bool)
  | number (value : Float)
  | word (word : Word)
  | list (items : List Document)
  | record (fields : List (Word × Document))
  deriving Inhabited

namespace Document

/-- A word that is marked as text. -/
@[match_pattern] abbrev text (content : String) : Document :=
  .word (.text content)

/-- A plain word. -/
@[match_pattern] abbrev plain (spelling : String) : Document :=
  .word (.plain spelling)

/-! ## What a document can be read as -/

/-- The number that a document is. -/
def number? : Document → Option Float
  | number value => some value
  | word w => w.number?
  | _ => none

/-- The text that a document is. -/
def text? : Document → Option String
  | word w => w.text?
  | _ => none

/-- The text that a document is where nothing but text is asked for. -/
def spelling? : Document → Option String
  | word w => w.spelling?
  | _ => none

/-- The items of a document where a list is asked for; a word that is null has none. -/
def items? : Document → Option (List Document)
  | list items => some items
  | word w => if w.isNull then some [] else none
  | _ => none

/-- The fields of a document where a record is asked for; a word that is null has none. -/
def fields? : Document → Option (List (Word × Document))
  | record fields => some fields
  | word w => if w.isNull then some [] else none
  | _ => none

/-- The value of a field that a record has exactly once. The predicate tells its key. -/
def field? (isKey : Word → Bool) (fields : List (Word × Document)) : Option Document :=
  match fields.filter fun field => isKey field.1 with
  | [(_, document)] => some document
  | _ => none

mutual

/-- Whether every key of a document can be taken as text, at any depth. -/
def hasNames : Document → Bool
  | list items => allHaveNames items
  | record fields => fieldsHaveNames fields
  | _ => true

/-- Whether every key in a list of documents can be taken as text. -/
def allHaveNames : List Document → Bool
  | [] => true
  | item :: rest => item.hasNames && allHaveNames rest

/-- Whether every key of fields and in their values can be taken as text. -/
def fieldsHaveNames : List (Word × Document) → Bool
  | [] => true
  | (key, value) :: rest => key.spelling?.isSome && value.hasNames && fieldsHaveNames rest

end

end Document

end Scorecard
