import Mathlib.Tactic.FieldSimp
import Scorecard.Proofs.Digits
import Scorecard.Proofs.ExactValues

/-!
# Displays tell numbers apart

The decimals that read back as a number lie in an interval around its exact value. The intervals of
different magnitudes have no decimal in common, since two that touch do not both contain the end
they share (`Surroundings.magnitude_eq_of_contains`). The search for the shortest decimal ends in
the interval, at the latest on a grid where the value itself is a decimal
(`contains_shortest`). So no two finite numbers are displayed alike: `eq_of_display_eq`.
-/

namespace Scorecard.Number

namespace Surroundings

/-! ## Intervals -/

/-- The lower end. -/
def low (s : Surroundings) : ℚ :=
  s.lower / s.denominator

/-- The upper end. -/
def high (s : Surroundings) : ℚ :=
  s.upper / s.denominator

/-- The interval; its ends belong to it or not. -/
def Contains (s : Surroundings) (q : ℚ) : Prop :=
  if s.closed then s.low ≤ q ∧ q ≤ s.high else s.low < q ∧ q < s.high

variable {s : Surroundings}

theorem contains_of_between {q : ℚ} (hlow : s.low < q) (hhigh : q < s.high) : s.Contains q := by
  unfold Contains
  split
  · exact ⟨hlow.le, hhigh.le⟩
  · exact ⟨hlow, hhigh⟩

theorem Contains.le {q : ℚ} (h : s.Contains q) : s.low ≤ q ∧ q ≤ s.high := by
  unfold Contains at h
  split at h
  · exact h
  · exact ⟨h.1.le, h.2.le⟩

theorem Contains.lt {q : ℚ} (h : s.Contains q) (hopen : s.closed = false) :
    s.low < q ∧ q < s.high := by
  rwa [Contains, if_neg (by simp [hopen])] at h

theorem holds_iff (hdenominator : 0 < s.denominator) (n : Nat) :
    s.holds n = true ↔ s.Contains n := by
  have hpositive : (0 : ℚ) < s.denominator := by exact_mod_cast hdenominator
  unfold holds Contains low high
  cases s.closed <;>
    simp [div_le_iff₀ hpositive, le_div_iff₀ hpositive, div_lt_iff₀ hpositive,
      lt_div_iff₀ hpositive] <;>
    norm_cast

/-- In units of a power of ten every quotient is that many times smaller. -/
theorem quotient_inUnits (numerator denominator : Nat) (k : Int) :
    ((numerator * Nat.pow 10 (-k).toNat : Nat) : ℚ) / (denominator * Nat.pow 10 k.toNat : Nat) =
      numerator / denominator / 10 ^ k := by
  rw [zpow_eq_div (by norm_num) k, Nat.pow_eq, Nat.pow_eq]
  push_cast
  field_simp

theorem contains_inUnits (s : Surroundings) (k : Int) (q : ℚ) :
    (s.inUnits k).Contains q ↔ s.Contains (q * 10 ^ k) := by
  have hlow : (s.inUnits k).low = s.low / 10 ^ k := quotient_inUnits s.lower s.denominator k
  have hhigh : (s.inUnits k).high = s.high / 10 ^ k := quotient_inUnits s.upper s.denominator k
  have hten : (0 : ℚ) < 10 ^ k := by positivity
  unfold Contains
  rw [hlow, hhigh, div_le_iff₀ hten, le_div_iff₀ hten, div_lt_iff₀ hten, lt_div_iff₀ hten]
  rfl

/-! ## The search -/

theorem holds_of_nearest? {tie : Tie} {n : Nat} (h : s.nearest? tie = some n) :
    s.holds n = true := by
  unfold nearest? at h
  dsimp only at h
  split at h
  · rename_i hfloor habove
    obtain ⟨hlower, hupper⟩ := roundQuotient_bounds tie s.value s.denominator
    have hn : n = s.value / s.denominator ∨ n = s.value / s.denominator + 1 := by
      have := Option.some_inj.1 h
      omega
    rcases hn with rfl | rfl
    · exact hfloor
    · exact habove
  · rename_i hfloor _
    exact Option.some_inj.1 h ▸ hfloor
  · rename_i _ habove
    exact Option.some_inj.1 h ▸ habove
  · cases h

/-- The search ends in the interval if the value is a decimal on the last grid. -/
theorem contains_search (tie : Tie) (hdenominator : 0 < s.denominator) (whole : Nat)
    {fuel : Nat} {k : Int}
    (hvalue : (s.value : ℚ) / s.denominator = whole * 10 ^ (k - fuel))
    (hcontains : s.Contains ((s.value : ℚ) / s.denominator)) :
    s.Contains (s.search tie fuel k).value := by
  have hscaled (k : Int) : 0 < (s.inUnits k).denominator := by
    show 0 < s.denominator * Nat.pow 10 k.toNat
    rw [Nat.pow_eq]
    positivity
  induction fuel generalizing k with
  | zero =>
    -- the quotient of the last step is the whole number
    have hquotient : (s.inUnits k).value / (s.inUnits k).denominator = whole := by
      refine Nat.div_eq_of_eq_mul_left (hscaled k) ?_
      have hunits : ((s.inUnits k).value : ℚ) / (s.inUnits k).denominator = whole := by
        rw [← mul_div_cancel_right₀ (whole : ℚ) (by positivity : (10 : ℚ) ^ k ≠ 0)]
        rw [Nat.cast_zero, sub_zero] at hvalue
        rw [← hvalue]
        exact quotient_inUnits s.value s.denominator k
      have hne : ((s.inUnits k).denominator : ℚ) ≠ 0 := by exact_mod_cast (hscaled k).ne'
      rw [div_eq_iff hne] at hunits
      exact_mod_cast hunits
    show s.Contains (((s.inUnits k).value / (s.inUnits k).denominator : Nat) * 10 ^ k)
    rw [hquotient]
    rw [Nat.cast_zero, sub_zero] at hvalue
    rwa [← hvalue]
  | succ fuel ih =>
    unfold search
    split
    · rename_i n hnearest
      have hholds := (holds_iff (hscaled k) n).1 (holds_of_nearest? hnearest)
      exact (contains_inUnits s k n).1 hholds
    · refine ih ?_
      rw [hvalue]
      push_cast
      congr 2
      ring

/-! ## Around exact values -/

theorem quotient_of (numerator : Nat) (e : Int) :
    ((numerator * Nat.pow 2 (e - 2).toNat : Nat) : ℚ) / (Nat.pow 2 (2 - e).toNat : Nat) =
      numerator * 2 ^ (e - 2) := by
  rw [zpow_eq_div two_ne_zero (e - 2), neg_sub, Nat.pow_eq, Nat.pow_eq]
  push_cast
  ring

/-- How far the lower end is below the value, in quarters of a unit. The lower neighbour is nearer
if the significand is the least of its binade. -/
def lowerGap (x : Binary) : ℚ :=
  if x.significand = 2 ^ 52 ∧ x.exponent ≠ -1074 then 1 else 2

section

variable {x y : Binary}

theorem denominator_of_pos (x : Binary) : 0 < (of x).denominator :=
  Nat.pow_pos (by decide)

theorem closed_of_iff : (of x).closed = true ↔ x.significand % 2 = 0 :=
  beq_iff_eq

theorem value_of (x : Binary) : ((of x).value : ℚ) / (of x).denominator = x.magnitude := by
  have hquotient := quotient_of (4 * x.significand) x.exponent
  rw [zpow_sub₀ two_ne_zero] at hquotient
  refine hquotient.trans ?_
  unfold Binary.magnitude
  push_cast
  ring

theorem high_of (x : Binary) : (of x).high = (4 * x.significand + 2) * 2 ^ (x.exponent - 2) := by
  refine (quotient_of (4 * x.significand + 2) x.exponent).trans ?_
  push_cast
  rfl

theorem low_of (h : 0 < x.significand) :
    (of x).low = (4 * x.significand - lowerGap x) * 2 ^ (x.exponent - 2) := by
  refine (quotient_of
    (4 * x.significand - if x.significand == Nat.pow 2 52 && x.exponent != -1074 then 1 else 2)
    x.exponent).trans ?_
  unfold lowerGap
  by_cases hleast : x.significand = 2 ^ 52 ∧ x.exponent ≠ -1074
  · rw [if_pos hleast, if_pos (by simp [hleast]), Nat.cast_sub (by omega)]
    push_cast
    rfl
  · rw [if_neg hleast, if_neg (by simpa using hleast), Nat.cast_sub (by omega)]
    push_cast
    rfl

theorem lowerGap_le (x : Binary) : lowerGap x ≤ 2 := by
  unfold lowerGap
  split <;> norm_num

/-- A binade with one below it has intervals from a quarter of a unit below its start on. -/
theorem le_of_full (hfull : 2 ^ 52 ≤ x.significand) (h : x.exponent ≠ -1074) :
    (2 ^ 54 - 1 : ℚ) ≤ 4 * x.significand - lowerGap x := by
  unfold lowerGap
  split
  · rename_i hleast
    rw [hleast.1]
    norm_num
  · have hsignificand : 2 ^ 52 + 1 ≤ x.significand := by omega
    have hcast : ((2 ^ 52 + 1 : Nat) : ℚ) ≤ x.significand := Nat.cast_le.2 hsignificand
    push_cast at hcast
    linarith

/-- What the end of an interval is at most, and less if it belongs to it. -/
theorem high_le_of_lt (hx : x.significand < 2 ^ 53) :
    (of x).high ≤ (2 ^ 55 - 2) * 2 ^ (x.exponent - 2) ∧
      ((of x).closed = true → (of x).high < (2 ^ 55 - 2) * 2 ^ (x.exponent - 2)) := by
  have hunit : (0 : ℚ) < 2 ^ (x.exponent - 2) := by positivity
  rw [high_of, mul_le_mul_iff_left₀ hunit, mul_lt_mul_iff_left₀ hunit, closed_of_iff]
  refine ⟨?_, fun heven => ?_⟩
  · have hcast : (x.significand : ℚ) ≤ (2 ^ 53 - 1 : Nat) := Nat.cast_le.2 (by omega)
    push_cast at hcast
    linarith
  · have hcast : (x.significand : ℚ) ≤ (2 ^ 53 - 2 : Nat) := Nat.cast_le.2 (by omega)
    push_cast at hcast
    linarith

/-- The interval of a smaller magnitude ends where that of a greater one starts or before, and
before if its end belongs to it as the other's start does. -/
theorem high_le_low (hx : x.IsCanonical) (hy : y.IsCanonical) (hpos : 0 < y.significand)
    (h : x.magnitude < y.magnitude) :
    (of x).high ≤ (of y).low ∧
      ((of x).closed = true → (of y).closed = true → (of x).high < (of y).low) := by
  rw [← not_le, hy.magnitude_le_iff hx] at h
  rcases Int.lt_or_le x.exponent y.exponent with hexponent | hexponent
  · have hleast : y.exponent ≠ -1074 := by
      have := hx.exponent_ge
      omega
    have hscale : 2 * (2 : ℚ) ^ (x.exponent - 2) ≤ 2 ^ (y.exponent - 2) := by
      rw [mul_comm, ← zpow_add_one₀ two_ne_zero]
      exact zpow_le_zpow_right₀ one_le_two (by omega)
    have hstart := le_of_full (hy.full.resolve_right hleast) hleast
    have hlow : (2 ^ 55 - 2) * 2 ^ (x.exponent - 2) ≤ (of y).low := by
      rw [low_of hpos]
      calc
        (2 ^ 55 - 2 : ℚ) * 2 ^ (x.exponent - 2) = (2 ^ 54 - 1) * (2 * 2 ^ (x.exponent - 2)) := by
          ring
        _ ≤ (4 * y.significand - lowerGap y) * 2 ^ (y.exponent - 2) :=
          mul_le_mul hstart hscale (by positivity) (le_trans (by norm_num) hstart)
    obtain ⟨hle, hlt⟩ := high_le_of_lt hx.significand_lt
    exact ⟨hle.trans hlow, fun hclosed _ => (hlt hclosed).trans_le hlow⟩
  · have hsame : x.exponent = y.exponent := by omega
    have hunit : (0 : ℚ) < 2 ^ (y.exponent - 2) := by positivity
    have hgap := lowerGap_le y
    rw [closed_of_iff, closed_of_iff, high_of, low_of hpos, hsame, mul_le_mul_iff_left₀ hunit,
      mul_lt_mul_iff_left₀ hunit]
    refine ⟨?_, fun hxEven hyEven => ?_⟩
    · have hcast : ((x.significand + 1 : Nat) : ℚ) ≤ y.significand := Nat.cast_le.2 (by omega)
      push_cast at hcast
      linarith
    · have hcast : ((x.significand + 2 : Nat) : ℚ) ≤ y.significand := Nat.cast_le.2 (by omega)
      push_cast at hcast
      linarith

theorem not_contains_of_lt (hx : x.IsCanonical) (hy : y.IsCanonical) (hpos : 0 < y.significand)
    (h : x.magnitude < y.magnitude) {q : ℚ} (hxq : (of x).Contains q) : ¬(of y).Contains q := by
  intro hyq
  obtain ⟨hle, hlt⟩ := high_le_low hx hy hpos h
  by_cases hxClosed : (of x).closed = true
  · by_cases hyClosed : (of y).closed = true
    · exact absurd ((hyq.le.1.trans hxq.le.2).trans_lt (hlt hxClosed hyClosed)) (lt_irrefl _)
    · have hyq := hyq.lt (Bool.eq_false_iff.2 hyClosed)
      exact absurd ((hxq.le.2.trans hle).trans_lt hyq.1) (lt_irrefl _)
  · have hxq := hxq.lt (Bool.eq_false_iff.2 hxClosed)
    exact absurd ((hxq.2.trans_le hle).trans_le hyq.le.1) (lt_irrefl _)

/-- Different magnitudes have no decimal in common. -/
theorem magnitude_eq_of_contains (hx : x.IsCanonical) (hy : y.IsCanonical)
    (hxPos : 0 < x.significand) (hyPos : 0 < y.significand) {q : ℚ} (hxq : (of x).Contains q)
    (hyq : (of y).Contains q) : x.magnitude = y.magnitude := by
  rcases lt_trichotomy x.magnitude y.magnitude with h | h | h
  · exact absurd hyq (not_contains_of_lt hx hy hyPos h hxq)
  · exact h
  · exact absurd hxq (not_contains_of_lt hy hx hxPos h hyq)

/-- The value lies inside its interval. -/
theorem contains_magnitude (h : 0 < x.significand) : (of x).Contains x.magnitude := by
  have hvalue : x.magnitude = 4 * x.significand * 2 ^ (x.exponent - 2) := by
    rw [zpow_sub₀ two_ne_zero, Binary.magnitude]
    ring
  have hunit : (0 : ℚ) < 2 ^ (x.exponent - 2) := by positivity
  refine contains_of_between ?_ ?_
  · rw [low_of h, hvalue, mul_lt_mul_iff_left₀ hunit]
    have hgap : 0 < lowerGap x := by
      unfold lowerGap
      split <;> norm_num
    linarith
  · rw [high_of, hvalue, mul_lt_mul_iff_left₀ hunit]
    linarith

/-- What the interval of a positive value contains is positive. -/
theorem pos_of_contains (h : 0 < x.significand) {q : ℚ} (hq : (of x).Contains q) : 0 < q := by
  refine lt_of_lt_of_le ?_ hq.le.1
  rw [low_of h]
  have hcast : (1 : ℚ) ≤ x.significand := by exact_mod_cast h
  have hgap := lowerGap_le x
  have hstart : 0 < 4 * x.significand - lowerGap x := by linarith
  positivity

end

end Surroundings

/-- A grid of powers of ten has all multiples of the same power of two. -/
theorem dyadic_eq_decimal (m n places : Nat) :
    (m : ℚ) * 2 ^ ((n : ℤ) - places) = (m * 2 ^ n * 5 ^ places : Nat) * 10 ^ (-(places : ℤ)) := by
  have hten : (10 : ℚ) = 2 * 5 := by norm_num
  rw [zpow_sub₀ two_ne_zero, zpow_neg, zpow_natCast, zpow_natCast, zpow_natCast, hten, mul_pow]
  push_cast
  field_simp

/-- The shortest decimal lies in the interval. The last grid is fine enough for every value. -/
theorem contains_shortest {x : Binary} (hx : -1074 ≤ x.exponent) (h : 0 < x.significand)
    (tie : Tie) : (Surroundings.of x).Contains (shortest tie x).value := by
  obtain ⟨count, hcount⟩ := Int.eq_ofNat_of_zero_le (by omega : 0 ≤ x.exponent + 1077)
  have hexponent : x.exponent = (count : ℤ) - (1077 : Nat) := by omega
  refine Surroundings.contains_search tie (Surroundings.denominator_of_pos x)
    (x.significand * 2 ^ count * 5 ^ 1077) ?_ ?_
  · rw [Surroundings.value_of, Binary.magnitude, hexponent, dyadic_eq_decimal]
    congr 2
    push_cast
    ring
  · rw [Surroundings.value_of]
    exact Surroundings.contains_magnitude h

/-! ## Displays -/

/-- What a displayed magnitude reads as: zero, or a decimal in the interval. -/
def IsShownAs (x : Binary) (q : ℚ) : Prop :=
  if x.significand = 0 then q = 0 else (Surroundings.of x).Contains q

theorem magnitude_eq_of_isShownAs {x y : Binary} (hx : x.IsCanonical) (hy : y.IsCanonical)
    {q : ℚ} (hxq : IsShownAs x q) (hyq : IsShownAs y q) : x.magnitude = y.magnitude := by
  unfold IsShownAs at hxq hyq
  split at hxq
  · rename_i hxZero
    split at hyq
    · rename_i hyZero
      rw [Binary.magnitude_eq_zero_iff.2 hxZero, Binary.magnitude_eq_zero_iff.2 hyZero]
    · rename_i hyPos
      exact absurd hxq (Surroundings.pos_of_contains (Nat.pos_of_ne_zero hyPos) hyq).ne'
  · rename_i hxPos
    split at hyq
    · exact absurd hyq (Surroundings.pos_of_contains (Nat.pos_of_ne_zero hxPos) hxq).ne'
    · rename_i hyPos
      exact Surroundings.magnitude_eq_of_contains hx hy (Nat.pos_of_ne_zero hxPos)
        (Nat.pos_of_ne_zero hyPos) hxq hyq

theorem isInf_of_isFinite {x : Float} (h : x.isFinite = true) : x.isInf = false := by
  show x.toModel.unpack.isInf = false
  have hfinite : x.toModel.unpack.isFinite = true := h
  cases hunpack : x.toModel.unpack <;> rw [hunpack] at hfinite <;> first | rfl | cases hfinite

/-- A finite number is displayed as its sign and a decimal that it is shown as. -/
theorem displayDigits_eq {x : Float} (h : x.isFinite = true) :
    ∃ body d, displayDigits x = signed (exact x).negative body ∧ IsDecimal body d ∧
      IsShownAs (exact x) d.value := by
  unfold displayDigits IsShownAs
  rw [isNaN_of_isFinite h, isInf_of_isFinite h]
  simp only [Bool.false_eq_true, if_false]
  split
  · exact ⟨_, _, rfl, isDecimal_withPlaces 0 0, by simp [Decimal.value]⟩
  · rename_i hpos
    obtain ⟨d, hdecimal, hvalue⟩ := exists_isDecimal_positional (shortest .up (exact x))
    have hcontains := contains_shortest (isCanonical_exact x).exponent_ge
      (Nat.pos_of_ne_zero hpos) .up
    rw [← hvalue] at hcontains
    exact ⟨_, d, rfl, hdecimal, hcontains⟩

theorem signed_inj {a b : Bool} {s t : List Char} (hs : s.head? ≠ some '-')
    (ht : t.head? ≠ some '-') (h : signed a s = signed b t) : a = b ∧ s = t := by
  cases a <;> cases b
  · exact ⟨rfl, h⟩
  · exact absurd (congrArg List.head? h) hs
  · exact absurd (congrArg List.head? h.symm) ht
  · exact ⟨rfl, (List.cons.inj h).2⟩

theorem IsDecimal.head?_ne_minus {s : List Char} {d : Decimal} (h : IsDecimal s d) :
    s.head? ≠ some '-' := by
  obtain ⟨c, rest, rfl, hc⟩ := h.exists_cons
  rintro heq
  cases heq
  revert hc
  decide

/-- No two finite numbers are displayed alike. -/
theorem eq_of_display_eq {x y : Float} (hx : x.isFinite = true) (hy : y.isFinite = true)
    (h : display x = display y) : x = y := by
  obtain ⟨s, d, hxDigits, hxDecimal, hxShown⟩ := displayDigits_eq hx
  obtain ⟨t, e, hyDigits, hyDecimal, hyShown⟩ := displayDigits_eq hy
  have hdigits : displayDigits x = displayDigits y := String.ofList_injective h
  rw [hxDigits, hyDigits] at hdigits
  obtain ⟨hsign, rfl⟩ :=
    signed_inj hxDecimal.head?_ne_minus hyDecimal.head?_ne_minus hdigits
  have hsame : some d = some e :=
    (decimal?_eq_some_iff.2 hxDecimal).symm.trans (decimal?_eq_some_iff.2 hyDecimal)
  cases hsame
  have hmagnitude := magnitude_eq_of_isShownAs (isCanonical_exact x) (isCanonical_exact y)
    hxShown hyShown
  obtain ⟨hsignificand, hexponent⟩ :=
    (isCanonical_exact x).magnitude_inj (isCanonical_exact y) hmagnitude
  refine exact_injective ?_
  rw [Binary.mk.injEq]
  exact ⟨hsign, hsignificand, hexponent⟩

end Scorecard.Number
