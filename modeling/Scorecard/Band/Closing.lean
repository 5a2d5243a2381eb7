import Scorecard.Band

/-!
# Closing the open sides of bands

Rules give bands with one bound each. `closeSides` gives such a band its other bound where a band of
the same kind stands next to it: a band below a stop starts at the greatest smaller stop of these
bands, and a band above a start stops at the least greater start. Bands with two bounds or none stay
as they are.
-/

namespace Scorecard.Band

/-- The stop of a band below it. -/
def stopBelow? (band : Band) : Option Float :=
  if band.isBelow then band.stop else none

/-- The start of a band above it. -/
def startAbove? (band : Band) : Option Float :=
  if band.isAbove then band.start else none

/-- Joins the numbers of a list from the left, none if there are none. -/
def reduce? (join : Float → Float → Float) : List Float → Option Float
  | [] => none
  | x :: rest => some (rest.foldl join x)

/-- The greatest stop of a band below it that is smaller than a given stop. -/
def startFor? (bands : List Band) (stop : Float) : Option Float :=
  reduce? Number.greater ((bands.filterMap stopBelow?).filter (· < stop))

/-- The least start of a band above it that is greater than a given start. -/
def stopFor? (bands : List Band) (start : Float) : Option Float :=
  reduce? Number.smaller ((bands.filterMap startAbove?).filter (start < ·))

/-- A band with its open side closed by bands. It can be one of them itself, for only a smaller stop
and a greater start count. -/
def closeSide (bands : List Band) (band : Band) : Band :=
  match band.start, band.stop with
  | none, some stop => { band with start := startFor? bands stop }
  | some start, none => { band with stop := stopFor? bands start }
  | _, _ => band

/-- All bands with their open sides closed. -/
def closeSides (bands : List Band) : List Band :=
  bands.map (closeSide bands)

theorem score_closeSide (bands : List Band) (band : Band) :
    (closeSide bands band).score = band.score := by
  unfold closeSide
  split <;> rfl

end Scorecard.Band
