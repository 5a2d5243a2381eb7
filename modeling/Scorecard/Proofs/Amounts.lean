import Mathlib.Tactic.NormNum
import Scorecard.Proofs.CompactTexts
import Scorecard.Proofs.Quotients
import Scorecard.Proofs.RankOrder
import Scorecard.Report.Table

/-!
# Amounts keep the order of scores

The amount of a finite number is the canonical compact text of so many units of a size
(`exists_amount`), and the amount of a greater number does not denote less (`denoted?_amount_le`).
Within a size this is since rounding keeps the order. At a seam it is since each size ends where the
next one starts, whichever way the last number of the one and the first number of the other are
rounded (`Counts.lt_limit`, `Counts.least_le`).
-/

namespace Scorecard.Report

open Number

/-! ## Counting units -/

/-- How many units of the last of some decimal places a finite number is rounded to. -/
def unitsOf (places : Nat) (x : Float) : Nat :=
  roundQuotient .even
    ((exact x).significand * Nat.pow 2 (exact x).exponent.toNat * Nat.pow 10 places)
    (Nat.pow 2 (-(exact x).exponent).toNat)

theorem fixedDigits_eq (places : Nat) (x : Float) :
    fixedDigits places x =
      signed (exact x).negative (withPlaces (digitsOf (unitsOf places x)) places) := rfl

theorem isNearest_unitsOf (places : Nat) (x : Float) :
    IsNearest ((exact x).magnitude * 10 ^ places) (unitsOf places x) := by
  have hnearest := isNearest_roundQuotient
    ((exact x).significand * Nat.pow 2 (exact x).exponent.toNat * Nat.pow 10 places)
    (Nat.pow_pos (by decide) : 0 < Nat.pow 2 (-(exact x).exponent).toNat)
  have hquotient : (exact x).magnitude * 10 ^ places =
      (((exact x).significand * Nat.pow 2 (exact x).exponent.toNat * Nat.pow 10 places : Nat) : ℚ) /
        (Nat.pow 2 (-(exact x).exponent).toNat : Nat) := by
    rw [Binary.magnitude, zpow_eq_div two_ne_zero, Nat.pow_eq, Nat.pow_eq, Nat.pow_eq]
    push_cast
    ring
  rw [hquotient]
  exact hnearest

/-! ## Sizes -/

/-- The four sizes of amounts. -/
inductive Size where
  | small
  | plain
  | thousands
  | millions

namespace Size

/-- The decimal places of an amount before trimming. -/
def places : Size → Nat
  | small => 2
  | plain => 0
  | thousands => 1
  | millions => 1

def suffix : Size → Suffix
  | small => .none
  | plain => .none
  | thousands => .thousands
  | millions => .millions

/-- The place of a size among the others. -/
def rank : Size → Nat
  | small => 0
  | plain => 1
  | thousands => 2
  | millions => 3

/-- The fewest units of a size. -/
def least : Size → Nat
  | small => 0
  | plain => 10
  | thousands => 10
  | millions => 10

/-- The number that so many units of a size are. -/
def amount (size : Size) (n : Nat) : ℚ :=
  n / 10 ^ size.places * size.suffix.scale

/-- How many units of a size the next size starts at; the greatest size goes on. -/
def limit : Size → Nat
  | small => 1000
  | plain => 1000
  | thousands => 10000
  | millions => 0

theorem amount_mono (size : Size) {m n : Nat} (h : m ≤ n) : size.amount m ≤ size.amount n := by
  unfold amount
  gcongr

theorem amount_nonneg (size : Size) (n : Nat) : 0 ≤ size.amount n := by
  unfold amount
  positivity

theorem rank_inj {a b : Size} (h : a.rank = b.rank) : a = b := by
  cases a <;> cases b <;> first | rfl | cases h

/-- A size ends where the next one starts, and so below all greater ones. -/
theorem amount_limit_le {a b : Size} (h : a.rank < b.rank) :
    a.amount a.limit ≤ b.amount b.least := by
  cases a <;> cases b <;>
    first
    | exact absurd h (by decide)
    | norm_num [amount, limit, least, places, suffix, Suffix.scale]

end Size

/-- Where whole numbers start to stand without places: the number of the format that is nearest to
9.995, which is below it. -/
def plainStart : ℚ :=
  5626684784446013 / 2 ^ 49

/-- The greatest number of the format below 999950. -/
def lastThousands : ℚ :=
  999950 - 1 / 2 ^ 33

/-- How many units of a size a magnitude is written as. The greater two sizes are divided first, and
the quotient is rounded. -/
inductive Counts : ℚ → Nat → Size → Prop where
  | small {v : ℚ} {n : Nat} (hupper : v < plainStart) (hn : IsNearest (v * 10 ^ 2) n) :
      Counts v n .small
  | plain {v : ℚ} {n : Nat} (hlower : plainStart ≤ v) (hupper : v < 1999 / 2)
      (hn : IsNearest (v * 10 ^ 0) n) : Counts v n .plain
  | thousands {v r : ℚ} {n : Nat} (hlower : 1999 / 2 ≤ v) (hupper : v ≤ lastThousands)
      (hr : Rounds (v / 1000) r) (hn : IsNearest (r * 10 ^ 1) n) : Counts v n .thousands
  | millions {v r : ℚ} {n : Nat} (hlower : 999950 ≤ v) (hr : Rounds (v / 1000000) r)
      (hn : IsNearest (r * 10 ^ 1) n) : Counts v n .millions

/-! ## Seams -/

theorem le_of_isNearest {q : ℚ} {n m : Nat} (h : IsNearest q n) (hq : m - 1 / 2 < q) : m ≤ n := by
  have hlt : (m : ℚ) < (n + 1 : Nat) := by
    have := h.upper
    push_cast
    linarith
  exact Nat.lt_succ_iff.1 (by exact_mod_cast hlt)

theorem isNearest_le {q : ℚ} {n m : Nat} (h : IsNearest q n) (hq : q < m + 1 / 2) : n ≤ m := by
  have hlt : (n : ℚ) < (m + 1 : Nat) := by
    have := h.lower
    push_cast
    linarith
  exact Nat.lt_succ_iff.1 (by exact_mod_cast hlt)

/-- A quotient of 31/32 or more is rounded to ten tenths or more. -/
theorem ten_le_of_rounds {v r : ℚ} {n : Nat} (hv : 31 / 32 ≤ v) (hr : Rounds v r)
    (hn : IsNearest (r * 10 ^ 1) n) : 10 ≤ n := by
  have hcanonical : (⟨false, 31 * 2 ^ 48, -53⟩ : Binary).IsCanonical :=
    ⟨by norm_num, by norm_num, .inl (by norm_num)⟩
  have hmagnitude : (⟨false, 31 * 2 ^ 48, -53⟩ : Binary).magnitude = 31 / 32 := by
    norm_num [Binary.magnitude]
  have hself := rounds_magnitude hcanonical
  rw [hmagnitude] at hself
  have hle := hself.le_of_le hr hv
  exact le_of_isNearest hn (by norm_num; linarith)

/-- The quotient of the last number in thousands is rounded to less than the seam. -/
theorem rounds_lastThousands : Rounds (lastThousands / 1000) (8795653217556889 / 2 ^ 43) := by
  refine ⟨-43, 8795653217556889, by norm_num, ?_, .inl ?_, ?_, ?_⟩
  · norm_num [lastThousands]
  · norm_num [lastThousands]
  · refine isNearest_of_between ?_ ?_ <;> norm_num [lastThousands]
  · norm_num

namespace Counts

variable {v w : ℚ} {m n : Nat} {s t : Size}

theorem least_le (h : Counts v n s) : s.least ≤ n := by
  cases h with
  | small => exact Nat.zero_le n
  | plain hlower _ hn =>
    exact le_of_isNearest hn (by norm_num [plainStart, Size.least] at hlower ⊢; linarith)
  | thousands hlower _ hr hn => exact ten_le_of_rounds (by linarith) hr hn
  | millions hlower hr hn => exact ten_le_of_rounds (by linarith) hr hn

/-- No number is written as so many units that the next size would start. -/
theorem lt_limit (h : Counts v n s) (hs : s ≠ .millions) : n < s.limit := by
  refine Nat.lt_of_le_pred (by cases s <;> first | decide | exact absurd rfl hs) ?_
  cases h with
  | small hupper hn =>
    exact isNearest_le hn (by norm_num [plainStart, Size.limit] at hupper ⊢; linarith)
  | plain _ hupper hn => exact isNearest_le hn (by norm_num [Size.limit]; linarith)
  | thousands _ hupper hr hn =>
    have hle := hr.le_of_le rounds_lastThousands (by gcongr)
    exact isNearest_le hn (by norm_num [Size.limit] at hle ⊢; linarith)
  | millions => exact absurd rfl hs

/-- A number of a greater size is greater. -/
theorem lt_of_rank_lt (h : Counts v m s) (k : Counts w n t) (hrank : s.rank < t.rank) : v < w := by
  have hseams : plainStart < 1999 / 2 ∧ (1999 / 2 : ℚ) < 999950 ∧ lastThousands < 999950 := by
    norm_num [plainStart, lastThousands]
  obtain ⟨hplain, hthousands, hmillions⟩ := hseams
  cases h <;> cases k <;> first | exact absurd hrank (by decide) | linarith

/-- The amount of a greater number is not smaller. -/
theorem le_of_le (h : Counts v m s) (k : Counts w n t) (hvw : v ≤ w) :
    s.amount m ≤ t.amount n := by
  rcases Nat.lt_trichotomy s.rank t.rank with hlt | heq | hgt
  · have hs : s ≠ .millions := by
      rintro rfl
      cases t <;> exact absurd hlt (by decide)
    calc
      s.amount m ≤ s.amount s.limit := s.amount_mono (h.lt_limit hs).le
      _ ≤ t.amount t.least := Size.amount_limit_le hlt
      _ ≤ t.amount n := t.amount_mono k.least_le
  · cases Size.rank_inj heq
    apply s.amount_mono
    cases h with
    | small _ hm =>
      cases k with
      | small _ hn => exact hm.le_of_le hn (by gcongr)
    | plain _ _ hm =>
      cases k with
      | plain _ _ hn => exact hm.le_of_le hn (by gcongr)
    | thousands _ _ hr hm =>
      cases k with
      | thousands _ _ hs hn =>
        have hle := hr.le_of_le hs (by gcongr)
        exact hm.le_of_le hn (by gcongr)
    | millions _ hr hm =>
      cases k with
      | millions _ hs hn =>
        have hle := hr.le_of_le hs (by gcongr)
        exact hm.le_of_le hn (by gcongr)
  · exact absurd (k.lt_of_rank_lt h hgt) (not_lt.2 hvw)

theorem amount_eq_zero (h : Counts 0 n s) : s.amount n = 0 := by
  have hzero : Counts 0 0 .small :=
    .small (by norm_num [plainStart]) (by simpa using isNearest_natCast 0)
  refine le_antisymm ((h.le_of_le hzero le_rfl).trans_eq ?_) (s.amount_nonneg n)
  simp [Size.amount]

end Counts

/-! ## Exact bounds -/

/-- A number of the format is exactly a rational that is not negative. -/
structure IsExactly (c : Float) (q : ℚ) : Prop where
  isFinite : c.isFinite = true
  negative : (exact c).negative = false
  magnitude : (exact c).magnitude = q

theorem isExactly_of_exact {c : Float} {q : ℚ} (m : Nat) (e : ℤ) (hc : exact c = ⟨false, m, e⟩)
    (he : e ≤ 971) (hq : m * 2 ^ e = q) : IsExactly c q where
  isFinite := isFinite_iff_exponent_le.2 (by rwa [hc])
  negative := by rw [hc]
  magnitude := by rwa [hc]

theorem isExactly_plainStart : IsExactly 9.995 plainStart :=
  isExactly_of_exact 5626684784446013 (-49) (by decide +kernel) (by decide)
    (by norm_num [plainStart])

theorem isExactly_thousandsStart : IsExactly 999.5 (1999 / 2) :=
  isExactly_of_exact (1999 * 2 ^ 42) (-43) (by decide +kernel) (by decide) (by norm_num)

theorem isExactly_millionsStart : IsExactly 999950.0 999950 :=
  isExactly_of_exact (999950 * 2 ^ 33) (-33) (by decide +kernel) (by decide) (by norm_num)

theorem isExactly_thousand : IsExactly 1000.0 1000 :=
  isExactly_of_exact (1000 * 2 ^ 43) (-43) (by decide +kernel) (by decide) (by norm_num)

theorem isExactly_million : IsExactly 1000000.0 1000000 :=
  isExactly_of_exact (1000000 * 2 ^ 33) (-33) (by decide +kernel) (by decide) (by norm_num)

section

variable {x y c : Float} {q : ℚ}

theorem IsExactly.le_abs_iff (hc : IsExactly c q) (hx : x.isFinite = true) :
    c ≤ x.abs ↔ q ≤ (exact x).magnitude := by
  obtain ⟨habs, hfinite⟩ := exact_abs hx
  rw [le_iff_value hc.isFinite hfinite, habs, Binary.value, Binary.value, hc.negative,
    hc.magnitude]
  rfl

/-- No number of the format is between the last amount in thousands and the first in millions. -/
theorem le_lastThousands {z : Binary} (hz : z.IsCanonical) (h : z.magnitude < 999950) :
    z.magnitude ≤ lastThousands := by
  have hstart : (⟨false, 999950 * 2 ^ 33, -33⟩ : Binary).IsCanonical :=
    ⟨by norm_num, by norm_num, .inl (by norm_num)⟩
  have hlast : (⟨false, 999950 * 2 ^ 33 - 1, -33⟩ : Binary).IsCanonical :=
    ⟨by norm_num, by norm_num, .inl (by norm_num)⟩
  have hstartMagnitude : (⟨false, 999950 * 2 ^ 33, -33⟩ : Binary).magnitude = 999950 := by
    norm_num [Binary.magnitude]
  have hlastMagnitude : (⟨false, 999950 * 2 ^ 33 - 1, -33⟩ : Binary).magnitude = lastThousands := by
    norm_num [Binary.magnitude, lastThousands]
  rw [← hstartMagnitude, ← not_le, hstart.magnitude_le_iff hz] at h
  rw [← hlastMagnitude, hz.magnitude_le_iff hlast]
  dsimp only at h ⊢
  omega

/-! ## Texts of amounts -/

theorem upTo_eq {places : Nat} (h : places ≠ 0) (x : Float) (suffix : Suffix) :
    upTo places x = signed (exact x).negative
      (Compact.ofUnits (exact x).negative (unitsOf places x) places suffix).digits := by
  rw [upTo, fixedDigits_eq, Compact.trimPlaces_signed _ _ _ suffix h]

/-- The digits of an amount that is divided first. -/
theorem exists_upTo_div (hx : x.isFinite = true) (hy : IsExactly y q) (hq : 1 ≤ q)
    (suffix : Suffix) :
    ∃ r n, Rounds ((exact x).magnitude / q) r ∧ IsNearest (r * 10 ^ 1) n ∧
      upTo 1 (x / y) =
        signed (exact x).negative (Compact.ofUnits (exact x).negative n 1 suffix).digits := by
  obtain ⟨-, hnegative, hrounds⟩ := exact_div hx hy.isFinite (by rwa [hy.magnitude])
  rw [hy.magnitude] at hrounds
  rw [hy.negative, Bool.xor_false] at hnegative
  refine ⟨_, unitsOf 1 (x / y), hrounds, isNearest_unitsOf 1 (x / y), ?_⟩
  rw [upTo_eq one_ne_zero _ suffix, hnegative]

/-- The digits of an amount are those of its units. -/
theorem exists_counts (hx : x.isFinite = true) :
    ∃ n size, Counts (exact x).magnitude n size ∧
      amountDigits x =
        signed (exact x).negative
          (Compact.ofUnits (exact x).negative n size.places size.suffix).digits ++
            size.suffix.text := by
  unfold amountDigits
  dsimp only
  simp only [isExactly_millionsStart.le_abs_iff hx, isExactly_thousandsStart.le_abs_iff hx,
    isExactly_plainStart.le_abs_iff hx]
  by_cases hmillions : 999950 ≤ (exact x).magnitude
  · obtain ⟨r, n, hrounds, hnearest, hdigits⟩ :=
      exists_upTo_div hx isExactly_million (by norm_num) .millions
    refine ⟨n, .millions, .millions hmillions hrounds hnearest, ?_⟩
    rw [if_pos hmillions, hdigits]
    rfl
  rw [if_neg hmillions]
  rw [not_le] at hmillions
  by_cases hthousands : 1999 / 2 ≤ (exact x).magnitude
  · obtain ⟨r, n, hrounds, hnearest, hdigits⟩ :=
      exists_upTo_div hx isExactly_thousand (by norm_num) .thousands
    refine ⟨n, .thousands, .thousands hthousands
      (le_lastThousands (isCanonical_exact x) hmillions) hrounds hnearest, ?_⟩
    rw [if_pos hthousands, hdigits]
    rfl
  rw [if_neg hthousands]
  rw [not_le] at hthousands
  by_cases hplain : plainStart ≤ (exact x).magnitude
  · refine ⟨unitsOf 0 x, .plain, .plain hplain hthousands (isNearest_unitsOf 0 x), ?_⟩
    rw [if_pos hplain, fixedDigits_eq, Compact.withPlaces_zero (exact x).negative _ .none]
    exact (List.append_nil _).symm
  · rw [not_le] at hplain
    refine ⟨unitsOf 2 x, .small, .small hplain (isNearest_unitsOf 2 x), ?_⟩
    rw [if_neg (not_le.2 hplain), upTo_eq two_ne_zero x .none]
    exact (List.append_nil _).symm

/-- The amount of a finite number is the canonical text of its units. -/
theorem exists_amount (hx : x.isFinite = true) :
    ∃ n size, Counts (exact x).magnitude n size ∧
      (Compact.ofUnits (exact x).negative n size.places size.suffix).IsCanonical ∧
      amount x = String.ofList
        (Compact.ofUnits (exact x).negative n size.places size.suffix).text := by
  obtain ⟨n, size, hcounts, hdigits⟩ := exists_counts hx
  refine ⟨n, size, hcounts, Compact.isCanonical_ofUnits _ _ _ _ fun hsuffix => ?_, ?_⟩
  · have hsize : size ≠ .millions := fun heq => hsuffix (heq ▸ rfl)
    exact (hcounts.lt_limit hsize).trans_le (by cases size <;> decide)
  · have hpos : size.suffix ≠ .none → n ≠ 0 := by
      rintro hsuffix rfl
      have hleast := hcounts.least_le
      cases size <;> first | exact hsuffix rfl | exact absurd hleast (by decide)
    rw [← Compact.text_ofUnits _ _ _ _ hpos, ← hdigits, amount, if_pos hx]
    dsimp only
    split <;> rfl

/-! ## Order -/

theorem value_ofUnits_size (negative : Bool) (n : Nat) (size : Size) :
    (Compact.ofUnits negative n size.places size.suffix).value =
      if negative then -size.amount n else size.amount n := by
  rw [Compact.value_ofUnits, Size.amount]
  split
  · exact neg_mul _ _
  · rfl

theorem denoted?_amount (hx : x.isFinite = true) :
    ∃ n size, Counts (exact x).magnitude n size ∧
      denoted? (amount x) =
        some (if (exact x).negative then -size.amount n else size.amount n) := by
  obtain ⟨n, size, hcounts, hcanonical, htext⟩ := exists_amount hx
  refine ⟨n, size, hcounts, ?_⟩
  rw [htext, Compact.denoted?_text hcanonical.digits, value_ofUnits_size]

/-- The amount of a greater number does not denote less. -/
theorem denoted?_amount_le (hx : x.isFinite = true) (hy : y.isFinite = true) (hxy : x ≤ y) :
    ∃ p q, denoted? (amount x) = some p ∧ denoted? (amount y) = some q ∧ p ≤ q := by
  obtain ⟨m, s, hcounts, hamount⟩ := denoted?_amount hx
  obtain ⟨n, t, hcountsY, hamountY⟩ := denoted?_amount hy
  refine ⟨_, _, hamount, hamountY, ?_⟩
  rw [le_iff_value hx hy, Binary.value, Binary.value] at hxy
  have hmagnitude := Binary.magnitude_nonneg (exact x)
  have hmagnitudeY := Binary.magnitude_nonneg (exact y)
  have hnonneg := s.amount_nonneg m
  have hnonnegY := t.amount_nonneg n
  cases hnegative : (exact x).negative <;> cases hnegativeY : (exact y).negative <;>
    rw [hnegative, hnegativeY] at hxy <;>
    simp only [if_true, Bool.false_eq_true, if_false] at hxy ⊢
  case false.false => exact hcounts.le_of_le hcountsY hxy
  case true.false => linarith
  case true.true => exact neg_le_neg (hcountsY.le_of_le hcounts (neg_le_neg_iff.1 hxy))
  case false.true =>
    -- only zeros of both signs are in this order
    have hzero : (exact x).magnitude = 0 := by linarith
    have hzeroY : (exact y).magnitude = 0 := by linarith
    rw [hzero] at hcounts
    rw [hzeroY] at hcountsY
    rw [hcounts.amount_eq_zero, hcountsY.amount_eq_zero, neg_zero]

end

end Scorecard.Report
