import Scorecard.Ranking
import Scorecard.Report.Amount
import Scorecard.Report.Style

/-!
# Tables of ranked subjects

Ranked subjects as a table for people, with an index and compact scores, or as lines of a score in
full, a tabulator and the subject.
-/

namespace Scorecard.Report

/-- The row of a subject; indices start at one. -/
def row (colors : Bool) (ranked : Ranked) (index : Nat) : String :=
  let place := paint colors .faint (padStart 2 (toString (index + 1)) ++ ".")
  let score := paint colors .strong (padStart 7 (amount ranked.score))
  s!"{place} {score}  {ranked.subject}"

/-- The table of ranked subjects. -/
def table (colors : Bool) (subjects : List Ranked) : String :=
  if subjects.isEmpty then "No subjects to score."
  else joinLines (subjects.zipIdx.map fun (ranked, index) => row colors ranked index)

/-- The line of a subject with tabulators. -/
def tabLine (ranked : Ranked) : String :=
  Number.display ranked.score ++ "\t" ++ ranked.subject

/-- The lines of ranked subjects with tabulators. -/
def tabLines (subjects : List Ranked) : String :=
  joinLines (subjects.map tabLine)

end Scorecard.Report
