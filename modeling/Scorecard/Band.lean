import Scorecard.Number.Order

/-!
# Bands

A band is a half-open stretch of the number line with a score: it holds its start but not its
stop, and a side without a bound is open.
-/

namespace Scorecard

/-- The stretch `[start, stop)` with the score it gives. -/
structure Band where
  start : Option Float
  stop : Option Float
  score : Float
  deriving Inhabited

namespace Band

/-- Whether a band holds a number. Only a band without bounds holds NaN. -/
def contains (band : Band) (x : Float) : Bool :=
  (band.start.all fun start => start ≤ x) && (band.stop.all fun stop => x < stop)

/-- Whether a band has a stop and no start. -/
def isBelow (band : Band) : Bool :=
  band.start.isNone && band.stop.isSome

/-- Whether a band has a start and no stop. -/
def isAbove (band : Band) : Bool :=
  band.start.isSome && band.stop.isNone

/-- The start, negative infinity on an open side. -/
def lowerEnd (band : Band) : Float :=
  band.start.getD Number.negativeInfinity

/-- The stop, positive infinity on an open side. -/
def upperEnd (band : Band) : Float :=
  band.stop.getD Number.infinity

end Band

end Scorecard
