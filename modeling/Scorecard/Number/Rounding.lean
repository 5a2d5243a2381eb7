/-!
# Rounding quotients

The two natural numbers around a quotient, and the rule that picks the nearer one. A quotient half
way between them is a tie; each format says which way its ties go.
-/

namespace Scorecard.Number

/-- Where a number half way between two neighbours goes. -/
inductive Tie where
  /-- To the greater neighbour. -/
  | up
  /-- To the even neighbour. -/
  | even
  deriving Repr, DecidableEq

/-- Whether a quotient with this floor and remainder is nearer to the number above the floor. -/
def Tie.roundsUp (tie : Tie) (floor remainder denominator : Nat) : Bool :=
  match compare (2 * remainder) denominator, tie with
  | .lt, _ => false
  | .gt, _ => true
  | .eq, .up => true
  | .eq, .even => floor % 2 == 1

/-- The natural number nearest to `numerator / denominator`. -/
def roundQuotient (tie : Tie) (numerator denominator : Nat) : Nat :=
  let floor := numerator / denominator
  if tie.roundsUp floor (numerator % denominator) denominator then floor + 1 else floor

/-- A quotient is rounded by at most one. -/
theorem roundQuotient_bounds (tie : Tie) (numerator denominator : Nat) :
    numerator / denominator ≤ roundQuotient tie numerator denominator ∧
      roundQuotient tie numerator denominator ≤ numerator / denominator + 1 := by
  simp only [roundQuotient]
  split <;> omega

end Scorecard.Number
