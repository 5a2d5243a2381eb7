import Scorecard.Report.Amount
import Scorecard.Report.Style
import Scorecard.Scoring

/-!
# Breakdowns

A score with a line for each factor: its name, input, output and span. The names fill one column.
-/

namespace Scorecard.Report

/-- A span in brackets. -/
def spanText (span : Span) : String :=
  s!"[{Number.display span.least}, {Number.display span.greatest}]"

/-- The line of a factor. -/
def factorLine (colors : Bool) (width : Nat) (factor : Factor) : String :=
  let name := paint colors .name (padEnd width factor.name)
  let input := Number.display factor.input
  let output := paint colors .strong (Number.display factor.output)
  let span := paint colors .faint (spanText factor.span)
  s!"  {name}  {input} -> {output}  {span}"

/-- The lines of all factors, then the score. -/
def breakdown (colors : Bool) (score : Score) : String :=
  let width := (score.factors.map (·.name.length)).foldl max 0
  let total := paint colors .strong (amount score.value)
  joinLines (score.factors.map (factorLine colors width) ++ [s!"Score: {total}"])

end Scorecard.Report
