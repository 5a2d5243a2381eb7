import Scorecard.Element
import Scorecard.Number.Spelling
import Scorecard.ParseError

/-!
# What a token stands for

A token in square brackets refers to the element of exactly that name, an operator's symbol stands
for an operation without operands yet, and any other token must spell a finite number.
-/

namespace Scorecard.Formula

/-- The name in a token that starts with `[` and ends with another character, a `]`. -/
def reference? : List Char → Option (List Char)
  | '[' :: rest => if rest.getLast? = some ']' then some rest.dropLast else none
  | _ => none

/-- The first element of a name. -/
def find? (catalog : List Element) (name : String) : Option Element :=
  catalog.find? fun element => element.name == name

/-- The element that a token stands for. -/
def classify (catalog : List Element) (token : List Char) : Except ParseError Element :=
  match reference? token with
  | some name =>
    match find? catalog (String.ofList name) with
    | some element => .ok element
    | none => .error (.unknownElement (String.ofList name))
  | none =>
    match Operation.ofSymbol? (String.ofList token) with
    | some operation => .ok (Calculation.of operation []).toElement
    | none =>
      match Number.readFinite? token with
      | some value => .ok (.constant (String.ofList token) value)
      | none => .error (.invalidToken (String.ofList token))

/-- The elements that tokens stand for; the first faulty token gives the error. -/
def classifyAll (catalog : List Element) (tokens : List (List Char)) :
    Except ParseError (List Element) :=
  tokens.mapM (classify catalog)

end Scorecard.Formula
