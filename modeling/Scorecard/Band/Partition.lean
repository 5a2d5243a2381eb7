import Scorecard.Band
import Scorecard.Number.Layout

/-!
# Gaps and overlaps between bands

Closing the open sides of bands can leave stretches of the line that no band holds, or that two
hold. `partitionWarnings` goes through the bands by their starts and reports where one ends before
or after the next one starts.
-/

namespace Scorecard

/-- Why bands do not divide the line among them. -/
inductive PartitionWarning where
  /-- Several bands have no start. -/
  | openStarts (count : Nat)
  /-- Several bands have no stop. -/
  | openStops (count : Nat)
  /-- No band holds the numbers of a stretch. -/
  | gap (start stop : Float)
  /-- Two bands hold the numbers of a stretch. -/
  | overlap (start stop : Float)

namespace PartitionWarning

/-- The text of a warning about the element of a name. -/
def message (name : String) : PartitionWarning → String
  | openStarts count => s!"elements.{name}: {count} ranges have no lower bound"
  | openStops count => s!"elements.{name}: {count} ranges have no upper bound"
  | gap start stop =>
    s!"elements.{name}: gap between {Number.display start} and {Number.display stop}"
  | overlap start stop =>
    s!"elements.{name}: ranges overlap between {Number.display start} and {Number.display stop}"

end PartitionWarning

namespace Band

/-- The bands by ascending starts; those that start alike keep their order. -/
def sortByStart (bands : List Band) : List Band :=
  bands.mergeSort fun a b => Number.ordered a.lowerEnd b.lowerEnd

theorem sortByStart_perm (bands : List Band) : (sortByStart bands).Perm bands :=
  List.mergeSort_perm bands _

theorem pairwise_sortByStart (bands : List Band) :
    (sortByStart bands).Pairwise fun a b => Number.ordered a.lowerEnd b.lowerEnd = true :=
  List.pairwise_mergeSort
    (fun a b c => @Number.ordered_trans a.lowerEnd b.lowerEnd c.lowerEnd)
    (fun a b => Number.ordered_total a.lowerEnd b.lowerEnd) bands

/-- The warning about two bands of which the second is next by its start. -/
def seamWarning? (band next : Band) : Option PartitionWarning :=
  if band.upperEnd < next.lowerEnd then some (.gap band.upperEnd next.lowerEnd)
  else if next.lowerEnd < band.upperEnd then some (.overlap next.lowerEnd band.upperEnd)
  else none

/-- The warnings about each band and the next one. -/
def seamWarnings : List Band → List PartitionWarning
  | band :: next :: rest => (seamWarning? band next).toList ++ seamWarnings (next :: rest)
  | _ => []

/-- All warnings about bands: open starts, open stops, then the seams by ascending starts. -/
def partitionWarnings (bands : List Band) : List PartitionWarning :=
  let openStarts := bands.countP fun band => band.start.isNone
  let openStops := bands.countP fun band => band.stop.isNone
  (if 1 < openStarts then [.openStarts openStarts] else []) ++
    (if 1 < openStops then [.openStops openStops] else []) ++
    seamWarnings (sortByStart bands)

end Band

end Scorecard
