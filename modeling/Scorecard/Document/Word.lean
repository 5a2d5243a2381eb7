import Scorecard.Document.Quoted
import Scorecard.Number.Spelling
import Scorecard.Text.Blank

/-!
# Words

A word is a scalar as it stands in a data file: marked as text, or plain. A plain word is taken as
what it looks like, null, a truth value, a number or a text. Where text is asked for by name, it is
taken as it is spelled, whatever it looks like; only null is no text.

Blanks around a plain word do not change what it looks like, but they make null a text. A number
beyond the range and one that is none look like a text, each with one spelling.
-/

namespace Scorecard

/-- A scalar as it stands in a file. -/
inductive Word where
  /-- A scalar that is marked as text. -/
  | text (content : String)
  /-- An unmarked scalar, as it is spelled. -/
  | plain (spelling : String)
  deriving Repr, DecidableEq, Inhabited

/-- What a word looks like. -/
inductive Look where
  | null
  | bool (value : Bool)
  | number (value : Float)
  | text (content : String)

namespace Word

/-- The characters of a word. -/
def content : Word → String
  | text content => content
  | plain spelling => spelling

/-! ## What plain words look like -/

/-- The spellings of null, in lower case. -/
def nullWords : List String :=
  ["", "~", "null"]

/-- The spellings of true, in lower case. -/
def trueWords : List String :=
  ["true", "yes", "on", "y"]

/-- The spellings of false, in lower case. -/
def falseWords : List String :=
  ["false", "no", "off", "n"]

/-- The number that digits of a base spell, with any underscores between or around them. -/
def baseDigits? (base : Nat) (digits : List Char) : Option Nat :=
  let value? (c : Char) : Option Nat :=
    (Document.Quoted.hexDigit? c).filter (· < base)
  match digits.filter (· != '_') with
  | [] => none
  | digits => digits.foldlM (fun value c => (value? c).map (base * value + ·)) 0

/-- The base that a letter behind a zero marks. -/
def markedBase? (letter : Char) : Option Nat :=
  match letter.toLower with
  | 'x' => some 16
  | 'o' => some 8
  | 'b' => some 2
  | _ => none

/-- The number that a text without a sign spells, decimal or behind the mark of a base. -/
def unsigned? : List Char → Option Nat
  | '0' :: letter :: digits =>
    match markedBase? letter with
    | some base => baseDigits? base digits
    | none => baseDigits? 10 ('0' :: letter :: digits)
  | digits => baseDigits? 10 digits

/-- The whole number that a text spells. It has 64 bits, one of them for the sign if there is a
minus. -/
def wholeNumber? (s : List Char) : Option Int :=
  let (negative, digits) := Number.splitSign s
  (unsigned? digits).bind fun n =>
    if negative then if n ≤ Nat.pow 2 63 then some (-n) else none
    else if n < Nat.pow 2 64 then some n else none

/-- The number that a text spells with a point or an exponent, or in words. Infinities and NaN may
have a point in front. -/
def realNumber? (s : List Char) : Option Float :=
  let word := String.ofList (s.map Char.toLower)
  if word ∈ [".inf", "+.inf"] then some Number.infinity
  else if word = "-.inf" then some Number.negativeInfinity
  else if word ∈ [".nan", "+.nan", "-.nan"] then some (0 / 0)
  else Number.read? s

/-- What a number looks like. Infinities and NaN are texts. -/
def numberLook (x : Float) : Look :=
  if x.isFinite then .number x
  else if x.isNaN then .text ".nan"
  else if 0 < x then .text ".inf"
  else .text "-.inf"

/-- What a plain word that is not null looks like. -/
def plainLook (spelling : String) : Look :=
  let s := Text.trim spelling.toList
  let word := String.ofList (s.map Char.toLower)
  if word ∈ trueWords then .bool true
  else if word ∈ falseWords then .bool false
  else match wholeNumber? s with
    | some n => .number (Float.ofInt n)
    | none =>
      match realNumber? s with
      | some x => numberLook x
      | none => .text spelling

/-- Whether a word is null. -/
def isNull : Word → Bool
  | text _ => false
  | plain spelling => spelling.toLower ∈ nullWords

/-- What a word looks like. -/
def look : Word → Look
  | text content => .text content
  | plain spelling => if (plain spelling).isNull then .null else plainLook spelling

/-! ## What a word can be read as -/

/-- The number that a word looks like. -/
def number? (word : Word) : Option Float :=
  match word.look with
  | .number value => some value
  | _ => none

/-- The text that a word looks like. -/
def text? (word : Word) : Option String :=
  match word.look with
  | .text content => some content
  | _ => none

/-- The text of a word where nothing but text is asked for. -/
def spelling? (word : Word) : Option String :=
  if word.isNull then none else some word.content

/-- The place in an order that a plain word gives, from zero on. It has no minus, not even in front
of a zero. -/
def position? : Word → Option Nat
  | text _ => none
  | plain spelling =>
    let s := Text.trim spelling.toList
    if s.head? == some '-' then none else (wholeNumber? s).map Int.toNat

/-- A word that is marked as text looks like it. -/
@[simp] theorem text?_text (content : String) : (Word.text content).text? = some content := rfl

/-- A word that is marked as text can stand wherever text is asked for. -/
@[simp] theorem spelling?_text (content : String) :
    (Word.text content).spelling? = some content := rfl

end Word

instance : Coe String Word := ⟨.text⟩

end Scorecard
