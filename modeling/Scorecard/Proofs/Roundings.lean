import Mathlib.Algebra.Order.Field.Power
import Mathlib.Data.Rat.Cast.Order
import Mathlib.Tactic.Linarith
import Mathlib.Tactic.Positivity
import Mathlib.Tactic.Ring
import Scorecard.Number.Rounding

/-!
# Nearest natural numbers

A quotient is rounded to the nearest natural number, and from half way to the even one. What is
nearest to a greater number is not smaller (`IsNearest.le_of_le`).
-/

namespace Scorecard.Number

/-- A natural number is nearest to a rational, and even if its neighbour is as near. -/
structure IsNearest (q : ℚ) (n : Nat) : Prop where
  lower : (n : ℚ) - 1 / 2 ≤ q
  upper : q ≤ n + 1 / 2
  even : q = n - 1 / 2 ∨ q = n + 1 / 2 → n % 2 = 0

theorem isNearest_natCast (n : Nat) : IsNearest n n where
  lower := by linarith
  upper := by linarith
  even h := by rcases h with h | h <;> linarith

theorem isNearest_of_between {q : ℚ} {n : Nat} (hlower : (n : ℚ) - 1 / 2 < q)
    (hupper : q < n + 1 / 2) : IsNearest q n where
  lower := hlower.le
  upper := hupper.le
  even h := by rcases h with h | h <;> linarith

/-- What is nearest to a greater number is not smaller. -/
theorem IsNearest.le_of_le {p q : ℚ} {m n : Nat} (hm : IsNearest p m) (hn : IsNearest q n)
    (h : p ≤ q) : m ≤ n := by
  by_contra hlt
  have hsucc : ((n + 1 : Nat) : ℚ) ≤ m := Nat.cast_le.2 (by omega)
  push_cast at hsucc
  have hmLower := hm.lower
  have hnUpper := hn.upper
  -- both are half way between two neighbours, so both neighbours would be even
  have hmEven := hm.even (.inl (by linarith))
  have hnEven := hn.even (.inr (by linarith))
  have hnext : m = n + 1 := by
    have hcast : (m : ℚ) = (n + 1 : Nat) := by
      push_cast
      linarith
    exact_mod_cast hcast
  omega

/-- A quotient is its floor and a remainder that is smaller than the denominator. -/
theorem quotient_eq_floor_add (a : Nat) {b : Nat} (hb : 0 < b) :
    (a : ℚ) / b = (a / b : Nat) + ((a % b : Nat) : ℚ) / b := by
  have hne : (b : ℚ) ≠ 0 := by exact_mod_cast hb.ne'
  rw [div_eq_iff hne, add_mul, div_mul_cancel₀ _ hne]
  exact_mod_cast (Nat.div_add_mod' a b).symm

theorem fraction_nonneg_lt_one (a : Nat) {b : Nat} (hb : 0 < b) :
    0 ≤ ((a % b : Nat) : ℚ) / b ∧ ((a % b : Nat) : ℚ) / b < 1 := by
  have hdenominator : (0 : ℚ) < b := by exact_mod_cast hb
  refine ⟨by positivity, (div_lt_one hdenominator).2 ?_⟩
  exact_mod_cast Nat.mod_lt a hb

/-- Doubling a remainder compares its fraction with a half. -/
theorem compare_half (r : Nat) {b : Nat} (hb : 0 < b) :
    compare (2 * r) b = compare ((r : ℚ) / b) (1 / 2) := by
  have hdenominator : (0 : ℚ) < b := by exact_mod_cast hb
  have hscale : (r : ℚ) / b = ((2 * r : Nat) : ℚ) / b / 2 := by
    push_cast
    ring
  rw [hscale]
  rcases Nat.lt_trichotomy (2 * r) b with h | h | h
  · have hlt : ((2 * r : Nat) : ℚ) / b < 1 := (div_lt_one hdenominator).2 (by exact_mod_cast h)
    rw [Nat.compare_eq_lt.2 h, compare_lt_iff_lt.2 (by linarith)]
  · rw [Nat.compare_eq_eq.2 h, h, div_self hdenominator.ne', compare_eq_iff_eq.2 rfl]
  · have hgt : 1 < ((2 * r : Nat) : ℚ) / b := (one_lt_div hdenominator).2 (by exact_mod_cast h)
    rw [Nat.compare_eq_gt.2 h, compare_gt_iff_gt.2 (by linarith)]

theorem isNearest_roundQuotient (a : Nat) {b : Nat} (hb : 0 < b) :
    IsNearest (a / b) (roundQuotient .even a b) := by
  have hfraction := fraction_nonneg_lt_one a hb
  rw [quotient_eq_floor_add a hb]
  simp only [roundQuotient, Tie.roundsUp, compare_half (a % b) hb]
  generalize ((a % b : Nat) : ℚ) / b = fraction at hfraction
  generalize a / b = floor
  rcases lt_trichotomy fraction (1 / 2) with h | h | h
  · rw [compare_lt_iff_lt.2 h, if_neg (by simp)]
    exact isNearest_of_between (by linarith) (by linarith)
  · rw [compare_eq_iff_eq.2 h]
    by_cases hodd : floor % 2 = 1
    · rw [if_pos (by simpa using hodd)]
      exact ⟨by push_cast; linarith, by push_cast; linarith, fun _ => by omega⟩
    · rw [if_neg (by simpa using hodd)]
      exact ⟨by linarith, by linarith, fun _ => by omega⟩
  · rw [compare_gt_iff_gt.2 h, if_pos rfl]
    exact isNearest_of_between (by push_cast; linarith) (by push_cast; linarith)

end Scorecard.Number
