import Scorecard.Document.Quoted

/-!
# Texts in JSON

A text stands between double quotes; the quote, the backslash and the control characters below
`U+0020` are escaped.
-/

namespace Scorecard.Document.Json

/-! ## Reading -/

/-- The character of an escape by a single letter. -/
def letterEscape? : Char → Option Char
  | '"' => some '"'
  | '\\' => some '\\'
  | '/' => some '/'
  | 'b' => some '\x08'
  | 'f' => some '\x0c'
  | 'n' => some '\n'
  | 'r' => some '\r'
  | 't' => some '\t'
  | _ => none

/-- The texts of JSON: a code has four digits behind a `u`, and a control character needs an
escape. -/
def dialect : Quoted.Dialect where
  letter? := letterEscape?
  furtherDigits? c := if c == 'u' then some 3 else none
  admits c := 0x20 ≤ c.toNat

/-- Splits off a text whose opening quote is gone. -/
def text? (s : List Char) : Option (String × List Char) :=
  Quoted.text? dialect s

/-! ## Writing -/

/-- The hexadecimal digits of a number below 256, in lower case. -/
def hexPair (n : Nat) : List Char :=
  [Nat.digitChar (n / 16), Nat.digitChar (n % 16)]

/-- A character as it stands in a text. -/
def escaped (c : Char) : List Char :=
  match c with
  | '"' => ['\\', '"']
  | '\\' => ['\\', '\\']
  | '\x08' => ['\\', 'b']
  | '\x0c' => ['\\', 'f']
  | '\n' => ['\\', 'n']
  | '\r' => ['\\', 'r']
  | '\t' => ['\\', 't']
  | c => if c.toNat < 0x20 then ['\\', 'u', '0', '0'] ++ hexPair c.toNat else [c]

/-- A text in quotes. -/
def quoted (s : String) : List Char :=
  '"' :: (s.toList.flatMap escaped ++ ['"'])

end Scorecard.Document.Json
