/-!
# Cutting a text at marks outside square brackets

`cut` divides a text at every mark that stands outside square brackets. The bracket depth is
counted from left to right and never falls below zero, so a `]` without a partner changes nothing.
Main statement: `join_cut`, nothing of the text is lost.
-/

namespace Scorecard.Text

/-- The bracket depth after a character. -/
def bracketStep (depth : Nat) : Char → Nat
  | '[' => depth + 1
  | ']' => depth - 1
  | _ => depth

/-- A text cut at its marks: what stands before the first mark, then each mark with what follows
it up to the next one. -/
structure Cut where
  head : List Char
  tail : List (Char × List Char)
  deriving Repr, DecidableEq

namespace Cut

/-- Puts a character in front of a cut text. -/
def push (c : Char) (k : Cut) : Cut :=
  { k with head := c :: k.head }

/-- Puts a mark in front of a cut text. -/
def mark (c : Char) (k : Cut) : Cut :=
  { head := [], tail := (c, k.head) :: k.tail }

/-- Writes the pieces one after the other. -/
def join (k : Cut) : List Char :=
  k.head ++ k.tail.flatMap fun (c, piece) => c :: piece

@[simp] theorem join_push (c : Char) (k : Cut) : (k.push c).join = c :: k.join := rfl

@[simp] theorem join_mark (c : Char) (k : Cut) : (k.mark c).join = c :: k.join := rfl

end Cut

/-- Cuts a text that starts at the given bracket depth. -/
def cut (isMark : Char → Bool) : (depth : Nat) → List Char → Cut
  | _, [] => ⟨[], []⟩
  | depth, c :: s =>
    let rest := cut isMark (bracketStep depth c) s
    if depth == 0 && isMark c then rest.mark c else rest.push c

@[simp] theorem join_cut (isMark : Char → Bool) (depth : Nat) (s : List Char) :
    (cut isMark depth s).join = s := by
  induction s generalizing depth with
  | nil => rfl
  | cons c s ih =>
    rw [cut]
    split <;> simp [ih]

end Scorecard.Text
