/-!
# Texts in double quotes

A text in double quotes can hold escapes: a backslash and a letter for one character, or a
backslash, a letter and hexadecimal digits for a code. A code is a code point, or half of a pair of
surrogates that spell a character beyond the basic plane together; a surrogate without its partner
is refused. Each format says which letters it knows and which characters it admits as they are.
-/

namespace Scorecard.Document.Quoted

/-- What a format admits in a text. -/
structure Dialect where
  /-- The character of a letter behind a backslash. -/
  letter? : Char → Option Char
  /-- The number of digits of the code behind a letter, less one. -/
  furtherDigits? : Char → Option Nat
  /-- Whether a character can stand as it is. -/
  admits : Char → Bool

/-- A part of a text: a character, or the code of an escape. -/
inductive Piece where
  | char (c : Char)
  | code (n : Nat)
  deriving Repr, DecidableEq

/-- Where in a text reading is: between pieces, behind a backslash, or in a code that has some
value and lacks one digit more than it says. -/
inductive State where
  | between
  | escape
  | code (further value : Nat)

/-- The value of a hexadecimal digit. -/
def hexDigit? (c : Char) : Option Nat :=
  if c.isDigit then some (c.toNat - '0'.toNat)
  else if 'a' ≤ c && c ≤ 'f' then some (c.toNat - 'a'.toNat + 10)
  else if 'A' ≤ c && c ≤ 'F' then some (c.toNat - 'A'.toNat + 10)
  else none

/-- Puts a piece in front of what is split off. -/
def push (piece : Piece) (split : Option (List Piece × List Char)) :
    Option (List Piece × List Char) :=
  split.map fun (pieces, rest) => (piece :: pieces, rest)

/-- Splits off the pieces of a text up to the quote that closes it. -/
def pieces? (dialect : Dialect) : State → List Char → Option (List Piece × List Char)
  | _, [] => none
  | .between, c :: rest =>
    if c == '"' then some ([], rest)
    else if c == '\\' then pieces? dialect .escape rest
    else if dialect.admits c then push (.char c) (pieces? dialect .between rest)
    else none
  | .escape, c :: rest =>
    match dialect.furtherDigits? c with
    | some further => pieces? dialect (.code further 0) rest
    | none =>
      match dialect.letter? c with
      | some character => push (.char character) (pieces? dialect .between rest)
      | none => none
  | .code further value, c :: rest =>
    match hexDigit? c, further with
    | none, _ => none
    | some digit, 0 => push (.code (16 * value + digit)) (pieces? dialect .between rest)
    | some digit, further + 1 => pieces? dialect (.code further (16 * value + digit)) rest

/-- Whether a code is the first half of a pair of surrogates. -/
def isHigh (n : Nat) : Bool :=
  0xd800 ≤ n && n < 0xdc00

/-- Whether a code is the second half of a pair of surrogates. -/
def isLow (n : Nat) : Bool :=
  0xdc00 ≤ n && n < 0xe000

/-- The character of a code point that is no surrogate. -/
def charOf? (n : Nat) : Option Char :=
  if n.isValidChar then some (Char.ofNat n) else none

/-- The characters of pieces. -/
def characters? : List Piece → Option (List Char)
  | [] => some []
  | .char c :: rest => (characters? rest).map (c :: ·)
  | .code n :: rest =>
    if isHigh n then
      match rest with
      | .code low :: rest =>
        if isLow low then do
          let c ← charOf? (0x10000 + (n - 0xd800) * 0x400 + (low - 0xdc00))
          let characters ← characters? rest
          return c :: characters
        else none
      | _ => none
    else do
      let c ← charOf? n
      let characters ← characters? rest
      return c :: characters

/-- Splits off a text whose opening quote is gone. -/
def text? (dialect : Dialect) (s : List Char) : Option (String × List Char) := do
  let (pieces, rest) ← pieces? dialect .between s
  let characters ← characters? pieces
  return (String.ofList characters, rest)

end Scorecard.Document.Quoted
