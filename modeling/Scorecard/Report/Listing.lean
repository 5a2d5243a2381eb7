import Scorecard.Document
import Scorecard.Scoring

/-!
# Calculations and scores as documents

The documents that show a calculation tree or a score with its breakdown to other programs. An
element says its type first; the root of a tree is known to be a calculation and does not.
-/

namespace Scorecard.Report

/-- A bound as a document; an open side is null. -/
def boundDocument : Option Float → Document
  | some x => .number x
  | none => .null

/-- A band as a document. -/
def bandDocument (band : Band) : Document :=
  .record
    [("start", boundDocument band.start), ("end", boundDocument band.stop),
     ("score", .number band.score)]

mutual

/-- An element as a document. -/
def elementDocument : Element → Document
  | .constant name value =>
    .record [("type", .text "Constant"), ("name", .text name), ("value", .number value)]
  | .banded name bands fallback =>
    .record
      [("type", .text "LookupInterval"), ("name", .text name),
       ("ranges", .list (bands.map bandDocument)), ("out_of_range_score", .number fallback)]
  | .bounded name lower upper =>
    .record
      [("type", .text "LookupNumber"), ("name", .text name),
       ("range", .record [("min", boundDocument lower), ("max", boundDocument upper)])]
  | .node name operation children =>
    .record
      [("type", .text "Calculation"), ("name", .text name), ("operation", .text operation.label),
       ("children", .list (elementDocuments children))]

/-- Several elements as documents. -/
def elementDocuments : List Element → List Document
  | [] => []
  | element :: rest => elementDocument element :: elementDocuments rest

end

/-- A calculation as a document. -/
def calculationDocument (calculation : Calculation) : Document :=
  .record
    [("name", .text calculation.name), ("operation", .text calculation.operation.label),
     ("children", .list (elementDocuments calculation.children))]

/-- A span as a document. -/
def spanDocument (span : Span) : Document :=
  .record [("min", .number span.least), ("max", .number span.greatest)]

/-- A factor as a document. -/
def factorDocument (factor : Factor) : Document :=
  .record
    [("name", .text factor.name), ("range", spanDocument factor.span),
     ("value", .number factor.input), ("weighted", .number factor.output)]

/-- A score as a document. -/
def scoreDocument (score : Score) : Document :=
  .record
    [("score", .number score.value), ("breakdown", .list (score.factors.map factorDocument))]

end Scorecard.Report
