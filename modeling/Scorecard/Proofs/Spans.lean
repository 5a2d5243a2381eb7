import Scorecard.Proofs.Breakdown
import Scorecard.Proofs.Seams

/-!
# What a span encloses

The span of an element is read off its bounds and scores, and no input is looked at. It encloses the
values that evaluation gives: a constant, a score or the fallback, and an input between two bounds.
A range with one bound passes every input on, but its span ends at that bound; so it encloses only
the inputs on the right side of it. Main statement: `holds_span_iff`.
-/

namespace Scorecard

open Attempt Number

namespace Span

theorem negativeInfinity_le {x : Float} (hx : x.isNaN = false) : negativeInfinity ≤ x :=
  le_iff_point.2 ⟨by decide, hx, point_negativeInfinity_le x⟩

theorem le_infinity {x : Float} (hx : x.isNaN = false) : x ≤ infinity :=
  le_iff_point.2 ⟨hx, by decide, point_le_infinity x⟩

/-- The span of all numbers holds all but NaN. -/
theorem holds_all {x : Float} (hx : x.isNaN = false) : all.Holds x :=
  ⟨negativeInfinity_le hx, le_infinity hx⟩

end Span

namespace Element

/-- The value of a constant, the scores and the fallback of bands and the bounds of a range are not
NaN, and two bounds of a range are in their order. -/
def IsNumeric : Element → Prop
  | constant _ value => value.isNaN = false
  | banded _ bands fallback => ∀ score ∈ bands.map Band.score ++ [fallback], score.isNaN = false
  | bounded _ lower upper =>
    (∀ bound ∈ lower, bound.isNaN = false) ∧ (∀ bound ∈ upper, bound.isNaN = false) ∧
      ∀ least ∈ lower, ∀ greatest ∈ upper, least ≤ greatest
  | node .. => True

/-- A number lies beyond the only bound of a range. -/
inductive IsPassedBy : Element → Float → Prop where
  | below {name : String} {lower x : Float} (h : x < lower) :
      IsPassedBy (bounded name (some lower) none) x
  | above {name : String} {upper x : Float} (h : upper < x) :
      IsPassedBy (bounded name none (some upper)) x

variable {inputs : Inputs} {x : Float}

theorem isPassedBy_lower_iff {name : String} {lower : Float} :
    IsPassedBy (bounded name (some lower) none) x ↔ x < lower :=
  ⟨fun h => by cases h; assumption, .below⟩

theorem isPassedBy_upper_iff {name : String} {upper : Float} :
    IsPassedBy (bounded name none (some upper)) x ↔ upper < x :=
  ⟨fun h => by cases h; assumption, .above⟩

/-- The span of a banded element holds each of its values. -/
theorem holds_span_banded {name : String} {bands : List Band} {fallback : Float}
    (h : (banded name bands fallback).IsNumeric)
    (hx : (banded name bands fallback).evaluate inputs = .ok x) :
    (banded name bands fallback).span.Holds x := by
  obtain ⟨input, _, hvalue⟩ := bind_eq_ok_iff.1 hx
  cases hvalue
  exact Span.holds_ofList h (Band.scoreAmong_mem bands fallback input)

/-- The span of a range holds a value unless it lies beyond its only bound. -/
theorem holds_span_bounded_iff {name : String} {lower upper : Option Float}
    (h : (bounded name lower upper).IsNumeric)
    (hx : (bounded name lower upper).evaluate inputs = .ok x) (hnan : x.isNaN = false) :
    (bounded name lower upper).span.Holds x ↔ ¬(bounded name lower upper).IsPassedBy x := by
  obtain ⟨hlower, hupper, hle⟩ := h
  obtain ⟨input, _, hvalue⟩ := bind_eq_ok_iff.1 hx
  rcases lower with _ | lower <;> rcases upper with _ | upper
  · exact iff_of_true (Span.holds_all hnan) (by rintro ⟨⟩)
  · rw [isPassedBy_upper_iff, not_lt_iff (hupper upper rfl) hnan]
    exact and_iff_right (Span.negativeInfinity_le hnan)
  · rw [isPassedBy_lower_iff, not_lt_iff hnan (hlower lower rfl)]
    exact and_iff_left (Span.le_infinity hnan)
  · cases hvalue
    -- NaN stays NaN within two bounds, so the input was a number
    have hinput : input.isNaN = false := by
      rw [← Bool.not_eq_true]
      intro hinput
      rw [holdWithin, if_pos hinput, hinput] at hnan
      cases hnan
    exact iff_of_true (Span.holds_holdWithin (hle lower rfl upper rfl) hinput) (by rintro ⟨⟩)

/-- A value that an element gives is in its span, unless the element is a range with one bound and
the value lies beyond it. -/
theorem holds_span_iff {element : Element} (h : element.IsNumeric)
    (hx : element.evaluate inputs = .ok x) (hnan : x.isNaN = false) :
    element.span.Holds x ↔ ¬element.IsPassedBy x := by
  cases element with
  | constant name value =>
    cases hx
    have hle : x ≤ x := le_iff_point.2 ⟨hnan, hnan, le_refl _⟩
    exact iff_of_true ⟨hle, hle⟩ (by rintro ⟨⟩)
  | banded name bands fallback => exact iff_of_true (holds_span_banded h hx) (by rintro ⟨⟩)
  | bounded name lower upper => exact holds_span_bounded_iff h hx hnan
  | node name operation children => exact iff_of_true (Span.holds_all hnan) (by rintro ⟨⟩)

/-- An input above the only bound of a range. -/
theorem holds_span_of_input_above :
    let element := bounded "Balance" (some 0) none
    element.IsNumeric ∧ element.evaluate (.ofList [("Balance", 20)]) = .ok 20 ∧
      element.span.Holds 20 := by
  intro element
  have hnumeric : element.IsNumeric :=
    ⟨fun bound hbound => by cases hbound; decide, by simp, by simp⟩
  have hvalue : element.evaluate (.ofList [("Balance", 20)]) = .ok 20 :=
    eq_ok_of_toOption (by decide +kernel)
  refine ⟨hnumeric, hvalue, (holds_span_iff hnumeric hvalue (by decide)).2 ?_⟩
  rw [isPassedBy_lower_iff]
  decide +kernel

/-- An input below the only bound of a range is its value, and not in its span. -/
theorem not_holds_span_of_input_below :
    let element := bounded "Balance" (some 0) none
    element.IsNumeric ∧ element.evaluate (.ofList [("Balance", -50)]) = .ok (-50) ∧
      (-50 : Float).isNaN = false ∧ ¬element.span.Holds (-50) := by
  intro element
  have hvalue : element.evaluate (.ofList [("Balance", -50)]) = .ok (-50) :=
    eq_ok_of_toOption (by decide +kernel)
  refine ⟨⟨fun bound hbound => by cases hbound; decide, by simp, by simp⟩, hvalue, by decide, ?_⟩
  intro h
  exact absurd h.1 (by decide +kernel)

end Element

end Scorecard
