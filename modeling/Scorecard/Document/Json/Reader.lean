import Scorecard.Document
import Scorecard.Document.Json.Number
import Scorecard.Document.Json.Text

/-!
# Reading JSON

`read?` takes exactly the texts of the JSON grammar: one value with nothing but white space around
it. Numbers beyond the range and surrogates without a partner are refused as well.
-/

namespace Scorecard.Document.Json

/-- Drops white space. -/
def skipSpace (s : List Char) : List Char :=
  s.dropWhile fun c => c == ' ' || c == '\n' || c == '\r' || c == '\t'

/-- Splits off a colon with white space around it. -/
def colon? (s : List Char) : Option (List Char) :=
  match skipSpace s with
  | ':' :: rest => some rest
  | _ => none

/-- Splits off the name of a field and its colon. -/
def fieldName? (s : List Char) : Option (String × List Char) :=
  match skipSpace s with
  | '"' :: rest => do
    let (name, rest) ← text? rest
    let rest ← colon? rest
    return (name, rest)
  | _ => none

mutual

/-- Splits off a value. The fuel bounds the depth and the length of what is read. -/
def value? (fuel : Nat) (s : List Char) : Option (Document × List Char) :=
  match fuel with
  | 0 => none
  | fuel + 1 =>
    match skipSpace s with
    | '\x7b' :: rest =>
      match skipSpace rest with
      | '\x7d' :: rest => some (.record [], rest)
      | _ => (fields? fuel rest).map fun (fields, rest) => (.record fields, rest)
    | '[' :: rest =>
      match skipSpace rest with
      | ']' :: rest => some (.list [], rest)
      | _ => (items? fuel rest).map fun (items, rest) => (.list items, rest)
    | '"' :: rest => (text? rest).map fun (content, rest) => (.text content, rest)
    | 't' :: 'r' :: 'u' :: 'e' :: rest => some (.bool true, rest)
    | 'f' :: 'a' :: 'l' :: 's' :: 'e' :: rest => some (.bool false, rest)
    | 'n' :: 'u' :: 'l' :: 'l' :: rest => some (.null, rest)
    | rest => (number? rest).map fun (x, rest) => (.number x, rest)

/-- Splits off the items of a list and its end. -/
def items? (fuel : Nat) (s : List Char) : Option (List Document × List Char) :=
  match fuel with
  | 0 => none
  | fuel + 1 => do
    let (item, rest) ← value? fuel s
    match skipSpace rest with
    | ',' :: rest =>
      let (items, rest) ← items? fuel rest
      return (item :: items, rest)
    | ']' :: rest => return ([item], rest)
    | _ => none

/-- Splits off the fields of a record and its end. -/
def fields? (fuel : Nat) (s : List Char) : Option (List (Word × Document) × List Char) :=
  match fuel with
  | 0 => none
  | fuel + 1 => do
    let (name, rest) ← fieldName? s
    let (value, rest) ← value? fuel rest
    match skipSpace rest with
    | ',' :: rest =>
      let (fields, rest) ← fields? fuel rest
      return ((.text name, value) :: fields, rest)
    | '\x7d' :: rest => return ([(.text name, value)], rest)
    | _ => none

end

/-- The document of a JSON text. -/
def read? (s : String) : Option Document :=
  let s := s.toList
  match value? (s.length + 1) s with
  | some (document, rest) => if skipSpace rest = [] then some document else none
  | none => none

end Scorecard.Document.Json
