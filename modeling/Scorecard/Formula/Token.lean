import Scorecard.Text.Blank
import Scorecard.Text.Cut

/-!
# Tokens

A formula is cut into tokens at the characters `+ * / ^ ( )` outside square brackets. Each of these
is a token; what stands between two of them is one token without the blanks at its ends, or none if
it is blank. The minus is no such character, so that `-2` stays one token.
-/

namespace Scorecard.Formula

open Text

/-- Whether a character is a token of its own. -/
def isSeparator (c : Char) : Bool :=
  c ∈ ['+', '*', '/', '^', '(', ')']

/-- The token in a stretch between two separators, if it is not blank. -/
def word (piece : List Char) : List (List Char) :=
  match trim piece with
  | [] => []
  | token => [token]

/-- The tokens of a cut formula. -/
def wordsOf (k : Cut) : List (List Char) :=
  word k.head ++ k.tail.flatMap fun (separator, piece) => [separator] :: word piece

/-- The tokens of a formula. -/
def tokens (s : List Char) : List (List Char) :=
  wordsOf (cut isSeparator 0 s)

/-- The tokens of a formula as texts. -/
def tokenize (formula : String) : List String :=
  (tokens formula.toList).map String.ofList

end Scorecard.Formula
