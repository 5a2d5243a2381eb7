import Scorecard.Document
import Scorecard.Evaluation

/-!
# Subjects and their inputs

An inputs file holds a list of subjects with their inputs, or the inputs of one subject alone, which
is then called `input`. A subject is a record of `subject` and `inputs`, or a list of the two. Names
are what looks like a text, and values what looks like a number.
-/

namespace Scorecard

/-- A subject with its inputs. -/
structure Subject where
  name : String
  inputs : Inputs

namespace Subject

/-- The inputs in a document. -/
def inputs? : Document → Option Inputs
  | .record fields => do
    let pairs ← fields.mapM fun (key, value) => do
      let name ← key.text?
      let x ← value.number?
      return (name, x)
    return .ofList pairs
  | _ => none

/-- The subject of a name and inputs. -/
def ofParts? (name inputs : Document) : Option Subject := do
  let name ← name.text?
  let inputs ← inputs? inputs
  return ⟨name, inputs⟩

/-- Whether a key says which field of a subject it is, by a name or by a position. -/
def isKey (name : String) (position : Nat) (key : Word) : Bool :=
  key.text? == some name || key.position? == some position

/-- The subject in a document. -/
def ofDocument? : Document → Option Subject
  | .record fields =>
    if fields.length = 2 then do
      let name ← Document.field? (isKey "subject" 0) fields
      let inputs ← Document.field? (isKey "inputs" 1) fields
      ofParts? name inputs
    else none
  | .list [name, inputs] => ofParts? name inputs
  | _ => none

end Subject

/-- What an inputs file holds. -/
inductive InputsFile where
  /-- Subjects with their inputs. -/
  | subjects (all : List Subject)
  /-- The inputs of one subject alone. -/
  | single (inputs : Inputs)

namespace InputsFile

/-- The subjects of an inputs file. The one whose name is not given is called `input`. -/
def toSubjects : InputsFile → List Subject
  | subjects all => all
  | single inputs => [⟨"input", inputs⟩]

/-- The inputs file in a document. -/
def ofDocument? (document : Document) : Option InputsFile :=
  match document with
  | .list items => (items.mapM Subject.ofDocument?).map subjects
  | _ => (Subject.inputs? document).map single

end InputsFile

end Scorecard
