import Scorecard.Formula.Token
import Scorecard.ParseError

/-!
# Parentheses

The parentheses of a formula outside square brackets nest it: `nest` gives the tree of its runs and
groups, or the position of a parenthesis without a partner. Nothing of the text is lost in the
tree. `fragments` then drops the blank runs and cuts the others into tokens.
-/

namespace Scorecard.Formula

open Text

/-- A stretch of a formula: a run without parentheses, or what stands in a pair of them. -/
inductive Nesting where
  | run (text : List Char)
  | group (contents : List Nesting)
  deriving Inhabited

namespace Nesting

mutual

/-- The text of a stretch in front of another text. -/
def sourceBefore (after : List Char) : Nesting → List Char
  | run text => text ++ after
  | group contents => '(' :: sourceAllBefore (')' :: after) contents

/-- The text of several stretches in front of another text. -/
def sourceAllBefore (after : List Char) : List Nesting → List Char
  | [] => after
  | item :: rest => item.sourceBefore (sourceAllBefore after rest)

end

/-- The text of a stretch. -/
def source (item : Nesting) : List Char :=
  item.sourceBefore []

/-- The text of several stretches. -/
def sourceAll (items : List Nesting) : List Char :=
  sourceAllBefore [] items

end Nesting

/-- Whether a character is a parenthesis. -/
def isParenthesis (c : Char) : Bool :=
  c == '(' || c == ')'

/-- An open parenthesis: where it stands and what comes before it in its group, last first. -/
structure OpenGroup where
  position : Nat
  before : List Nesting

/-- Nests what follows a position. The stretches of the innermost open group that are complete
come last first, and so do the open groups. A closing parenthesis needs an open group; of the groups
that stay open at the end the outermost is at fault. -/
def nestFrom (position : Nat) (done : List Nesting) (outer : List OpenGroup) :
    List (Char × List Char) → Except ParseError (List Nesting)
  | [] =>
    match outer.getLast? with
    | none => .ok done.reverse
    | some group => .error (.unbalancedParentheses group.position)
  | (mark, piece) :: rest =>
    let next := position + mark.utf8Size + byteLength piece
    if mark == '(' then nestFrom next [.run piece] (⟨position, done⟩ :: outer) rest
    else match outer with
      | [] => .error (.unbalancedParentheses position)
      | group :: outer =>
        nestFrom next (.run piece :: .group done.reverse :: group.before) outer rest

/-- The tree of a formula's runs and groups. -/
def nest (formula : List Char) : Except ParseError (List Nesting) :=
  let pieces := cut isParenthesis 0 formula
  nestFrom (byteLength pieces.head) [.run pieces.head] [] pieces.tail

/-- A part of a formula that counts: a run with its tokens, or a group with its fragments and what
they were found in. -/
inductive Fragment where
  | run (text : List Char) (tokens : List (List Char))
  | group (contents : List Nesting) (fragments : List Fragment)
  deriving Inhabited

/-- The text of a fragment. Parentheses belong to it. -/
def Fragment.text : Fragment → List Char
  | run text _ => text
  | group contents _ => (Nesting.group contents).source

mutual

/-- The fragment of a stretch, none if it is a blank run. -/
def Nesting.fragment : Nesting → List Fragment
  | .run text =>
    match tokens text with
    | [] => []
    | token :: rest => [.run text (token :: rest)]
  | .group contents => [.group contents (Nesting.fragments contents)]

/-- The fragments of several stretches. -/
def Nesting.fragments : List Nesting → List Fragment
  | [] => []
  | item :: rest => item.fragment ++ Nesting.fragments rest

end

/-- The fragments of a formula. -/
def fragments (formula : List Char) : Except ParseError (List Fragment) :=
  (nest formula).map Nesting.fragments

end Scorecard.Formula
