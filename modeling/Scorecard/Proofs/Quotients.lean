import Mathlib.Tactic.FieldSimp
import Scorecard.Proofs.ExactValues
import Scorecard.Proofs.Roundings

/-!
# Quotients of numbers

A quotient of finite numbers is rounded to the nearest number of 53 binary digits, or of fewer at
the least exponent. On the way two bits say where among the halves the digits are that have been
dropped (`Holds`), and shifting keeps them right (`Holds.shiftRight`). What a greater number is
rounded to is not smaller (`Rounds.le_of_le`), and a quotient by a number that is not smaller than
one stays in the range: `exact_div`.
-/

namespace Scorecard.Number

open Float.Model
open UnpackedFloat

/-! ## Extended mantissas -/

/-- An extended mantissa stands for a rational: by the round bit and the sticky bit it is the
mantissa, less than a half above it, a half above it, or more. -/
inductive Holds : ExtendedMantissa → ℚ → Prop where
  | whole {m : Nat} {q : ℚ} (h : q = m) : Holds ⟨m, false, false⟩ q
  | low {m : Nat} {q : ℚ} (hlower : m < q) (hupper : q < m + 1 / 2) : Holds ⟨m, false, true⟩ q
  | half {m : Nat} {q : ℚ} (h : q = m + 1 / 2) : Holds ⟨m, true, false⟩ q
  | high {m : Nat} {q : ℚ} (hlower : m + 1 / 2 < q) (hupper : q < m + 1) :
      Holds ⟨m, true, true⟩ q

namespace Holds

variable {em : ExtendedMantissa} {q : ℚ}

/-- Shifting halves the rational. The last digit of the mantissa becomes the round bit. -/
theorem shiftRightOne (h : Holds em q) : Holds em.shiftRightOne (q / 2) := by
  have hsplit (m : Nat) : 2 * ((m / 2 : Nat) : ℚ) + (m % 2 : Nat) = m := by
    exact_mod_cast Nat.div_add_mod m 2
  have heven {m : Nat} (hm : m % 2 = 0) : 2 * ((m / 2 : Nat) : ℚ) = m := by
    simpa [hm] using hsplit m
  have hodd {m : Nat} (hm : m % 2 = 1) : 2 * ((m / 2 : Nat) : ℚ) + 1 = m := by
    simpa [hm] using hsplit m
  unfold ExtendedMantissa.shiftRightOne
  rcases h with @⟨m, q, h⟩ | @⟨m, q, hlower, hupper⟩ | @⟨m, q, h⟩ | @⟨m, q, hlower, hupper⟩ <;>
    rcases Nat.mod_two_eq_zero_or_one m with hm | hm <;> dsimp only <;> rw [hm]
  · exact .whole (by linarith [heven hm])
  · exact .half (by linarith [hodd hm])
  · exact .low (by linarith [heven hm]) (by linarith [heven hm])
  · exact .high (by linarith [hodd hm]) (by linarith [hodd hm])
  · exact .low (by linarith [heven hm]) (by linarith [heven hm])
  · exact .high (by linarith [hodd hm]) (by linarith [hodd hm])
  · exact .low (by linarith [heven hm]) (by linarith [heven hm])
  · exact .high (by linarith [hodd hm]) (by linarith [hodd hm])

theorem shiftRight (h : Holds em q) (n : Nat) : Holds (em >>> n) (q / 2 ^ n) := by
  induction n with
  | zero =>
    rw [pow_zero, div_one]
    exact h
  | succ n ih =>
    rw [pow_succ, ← div_div]
    exact ih.shiftRightOne

/-- The rounded mantissa is the nearest natural number. -/
theorem isNearest (h : Holds em q) : IsNearest q em.roundedMantissa := by
  cases h with
  | whole h => exact h ▸ isNearest_natCast _
  | @low m q hlower hupper =>
    exact isNearest_of_between (n := m) (by linarith) hupper
  | @half m q h =>
    show IsNearest q (m + m % 2)
    rcases Nat.mod_two_eq_zero_or_one m with hm | hm
    · rw [hm]
      exact ⟨by push_cast; linarith, by push_cast; linarith, fun _ => by omega⟩
    · rw [hm]
      exact ⟨by push_cast; linarith, by push_cast; linarith, fun _ => by omega⟩
  | @high m q hlower hupper =>
    exact isNearest_of_between (n := m + 1) (by push_cast; linarith) (by push_cast; linarith)

/-- A quotient with its remainder. -/
theorem ofQuotient (a : Nat) {b : Nat} (hb : 0 < b) :
    Holds (.ofMantissaAndAccuracy (a / b) (accuracyOfFraction (a % b) b)) (a / b) := by
  have hfraction := fraction_nonneg_lt_one a hb
  have hquotient := quotient_eq_floor_add a hb
  unfold accuracyOfFraction
  split
  · rename_i hzero
    rw [hzero, Nat.cast_zero, zero_div, add_zero] at hquotient
    exact .whole hquotient
  · rename_i hne
    have hdenominator : (0 : ℚ) < b := by exact_mod_cast hb
    have hpos : 0 < ((a % b : Nat) : ℚ) / b := by
      have hremainder : 0 < ((a % b : Nat) : ℚ) := by exact_mod_cast Nat.pos_of_ne_zero hne
      positivity
    rw [compare_half (a % b) hb]
    rcases lt_trichotomy (((a % b : Nat) : ℚ) / b) (1 / 2) with h | h | h
    · rw [compare_lt_iff_lt.2 h]
      exact .low (by linarith) (by linarith)
    · rw [compare_eq_iff_eq.2 h]
      exact .half (by linarith)
    · rw [compare_gt_iff_gt.2 h]
      exact .high (by linarith) (by linarith)

end Holds

/-! ## Roundings -/

/-- A rational that is not negative is rounded to a multiple of a power of two: it has 53 digits
above this power, or fewer if the power is the least one. -/
structure RoundsAt (v r : ℚ) (exponent : ℤ) (n : Nat) : Prop where
  exponent_ge : -1074 ≤ exponent
  lt : v < 2 ^ 53 * 2 ^ exponent
  full : 2 ^ 52 * 2 ^ exponent ≤ v ∨ exponent = -1074
  nearest : IsNearest (v / 2 ^ exponent) n
  eq : r = n * 2 ^ exponent

/-- What a rational that is not negative is rounded to. -/
def Rounds (v r : ℚ) : Prop :=
  ∃ exponent n, RoundsAt v r exponent n

theorem RoundsAt.le {v r : ℚ} {e : ℤ} {n : Nat} (h : RoundsAt v r e n) : n ≤ 2 ^ 53 := by
  refine h.nearest.le_of_le (isNearest_natCast _) ?_
  rw [div_le_iff₀ (by positivity)]
  push_cast
  exact h.lt.le

theorem RoundsAt.le_of_full {v r : ℚ} {e : ℤ} {n : Nat} (h : RoundsAt v r e n)
    (hfull : 2 ^ 52 * 2 ^ e ≤ v) : 2 ^ 52 ≤ n := by
  refine (isNearest_natCast _).le_of_le h.nearest ?_
  rw [le_div_iff₀ (by positivity)]
  push_cast
  exact hfull

/-- What a greater rational is rounded to is not smaller. -/
theorem Rounds.le_of_le {v w r s : ℚ} (hr : Rounds v r) (hs : Rounds w s) (h : v ≤ w) : r ≤ s := by
  obtain ⟨e, m, hm⟩ := hr
  obtain ⟨f, n, hn⟩ := hs
  have hpower {a b : ℤ} (hlt : a < b) : (2 : ℚ) ^ 53 * 2 ^ a ≤ 2 ^ 52 * 2 ^ b := by
    calc
      (2 : ℚ) ^ 53 * 2 ^ a = 2 ^ 52 * 2 ^ (a + 1) := by
        rw [zpow_add_one₀ two_ne_zero, pow_succ]
        ring
      _ ≤ 2 ^ 52 * 2 ^ b := by
        gcongr
        · exact one_le_two
        · exact hlt
  have hfull {a b : ℤ} {u z : ℚ} {k : Nat} (hk : RoundsAt u z b k) (ha : -1074 ≤ a)
      (hlt : a < b) : 2 ^ 52 * 2 ^ b ≤ u := hk.full.resolve_right (by omega)
  rw [hm.eq, hn.eq]
  rcases Int.lt_trichotomy e f with hlt | rfl | hgt
  · have hmLe : (m : ℚ) ≤ 2 ^ 53 := by exact_mod_cast hm.le
    have hnGe : (2 ^ 52 : ℚ) ≤ n := by
      exact_mod_cast hn.le_of_full (hfull hn hm.exponent_ge hlt)
    calc
      (m : ℚ) * 2 ^ e ≤ 2 ^ 53 * 2 ^ e := by gcongr
      _ ≤ 2 ^ 52 * 2 ^ f := hpower hlt
      _ ≤ n * 2 ^ f := by gcongr
  · have hle : m ≤ n := hm.nearest.le_of_le hn.nearest (by gcongr)
    gcongr
  · have hstart := hfull hm hn.exponent_ge hgt
    exact absurd (hn.lt.trans_le ((hpower hgt).trans hstart)) (not_lt.2 h)

/-- A number of the format is rounded to itself. -/
theorem rounds_magnitude {x : Binary} (h : x.IsCanonical) : Rounds x.magnitude x.magnitude := by
  have hpower : (0 : ℚ) < 2 ^ x.exponent := by positivity
  refine ⟨x.exponent, x.significand, h.exponent_ge, ?_, h.full.imp_left fun hfull => ?_, ?_, rfl⟩
  · have hlt : (x.significand : ℚ) < 2 ^ 53 := by exact_mod_cast h.significand_lt
    exact mul_lt_mul_of_pos_right hlt hpower
  · have hle : (2 : ℚ) ^ 52 ≤ x.significand := by exact_mod_cast hfull
    exact mul_le_mul_of_nonneg_right hle hpower.le
  · rw [Binary.magnitude, mul_div_cancel_right₀ _ hpower.ne']
    exact isNearest_natCast _

/-! ## Rounding -/

theorem shiftToTargetExponent_eq (mantissa : Nat) (exponent : ℤ) (accuracy : Accuracy) :
    shiftToTargetExponent Format.binary64 mantissa exponent accuracy =
      let shift := (max (mantissa.log2 + 1 + exponent - 53) (-1074) - exponent).toNat
      (ExtendedMantissa.ofMantissaAndAccuracy mantissa accuracy >>> shift, exponent + shift) := rfl

/-- A mantissa that has got a digit too many by rounding is shifted once more. -/
theorem isCanonical_carry {n : Nat} {e : ℤ} (hn : n ≤ 2 ^ 53) (he : -1074 ≤ e)
    (hfull : 2 ^ 52 ≤ n ∨ e = -1074) (negative : Bool) {m : Nat} {f : ℤ}
    (hm : (shiftToTargetExponent Format.binary64 n e .exact).1.mantissa = m)
    (hf : (shiftToTargetExponent Format.binary64 n e .exact).2 = f) :
    (⟨negative, m, f⟩ : Binary).IsCanonical ∧ (m : ℚ) * 2 ^ f = n * 2 ^ e := by
  rw [shiftToTargetExponent_eq] at hm hf
  dsimp only at hm hf
  rcases Nat.lt_or_eq_of_le hn with hlt | rfl
  · have hlog : n.log2 < 53 := by
      by_cases hzero : n = 0
      · rw [hzero]
        decide
      · exact (Nat.log2_lt hzero).2 hlt
    have hshift : (max ((n.log2 : ℤ) + 1 + e - 53) (-1074) - e).toNat = 0 := by omega
    rw [hshift] at hm hf
    have hmEq : n = m := hm
    have hfEq : e = f := by simpa using hf
    subst hmEq hfEq
    exact ⟨⟨hlt, he, hfull⟩, rfl⟩
  · have hlog : (2 ^ 53 : Nat).log2 = 53 := Nat.log2_two_pow
    have hshift : (max (((2 ^ 53 : Nat).log2 : ℤ) + 1 + e - 53) (-1074) - e).toNat = 1 := by omega
    rw [hshift] at hm hf
    have hmEq : 2 ^ 52 = m := hm
    have hfEq : e + 1 = f := hf
    subst hmEq hfEq
    have hlt : 2 ^ 52 < 2 ^ 53 := by decide
    have hge : -1074 ≤ e + 1 := by omega
    refine ⟨⟨hlt, hge, .inl le_rfl⟩, ?_⟩
    rw [zpow_add_one₀ two_ne_zero]
    push_cast
    ring

theorem Holds.bounds {em : ExtendedMantissa} {q : ℚ} (h : Holds em q) :
    em.mantissa ≤ q ∧ q < em.mantissa + 1 := by
  cases h <;> constructor <;> dsimp only <;> linarith

theorem mantissa_ofMantissaAndAccuracy (mantissa : Nat) (accuracy : Accuracy) :
    (ExtendedMantissa.ofMantissaAndAccuracy mantissa accuracy).mantissa = mantissa := by
  unfold ExtendedMantissa.ofMantissaAndAccuracy
  split <;> rfl

/-- Rounding shifts to the exponent at which 53 digits are left, or to the least one. -/
theorem roundsAt_shift {mantissa : Nat} {e : ℤ} {accuracy : Accuracy} {q : ℚ}
    (hq : Holds (.ofMantissaAndAccuracy mantissa accuracy) q)
    (hlong : e ≤ -1074 ∨ 2 ^ 52 ≤ mantissa) {n : Nat} {f : ℤ}
    (hn : (shiftToTargetExponent Format.binary64 mantissa e accuracy).1.roundedMantissa = n)
    (hf : (shiftToTargetExponent Format.binary64 mantissa e accuracy).2 = f) :
    RoundsAt (q * 2 ^ e) (n * 2 ^ f) f n := by
  rw [shiftToTargetExponent_eq] at hn hf
  dsimp only at hn hf
  obtain ⟨hlower, hupper⟩ := hq.bounds
  rw [mantissa_ofMantissaAndAccuracy] at hlower hupper
  have hlog : 2 ^ 52 ≤ mantissa → 52 ≤ mantissa.log2 := fun h =>
    (Nat.le_log2 (by omega)).2 h
  have hfEq : f = max ((mantissa.log2 : ℤ) + 1 + e - 53) (-1074) := by omega
  have hpower {a b : ℤ} : (2 : ℚ) ^ a * 2 ^ b = 2 ^ (a + b) := (zpow_add₀ two_ne_zero a b).symm
  constructor
  · omega
  · have hdigits : ((mantissa + 1 : Nat) : ℚ) ≤ 2 ^ (mantissa.log2 + 1) := by
      exact_mod_cast Nat.lt_log2_self
    push_cast at hdigits
    calc
      q * 2 ^ e < 2 ^ (mantissa.log2 + 1) * 2 ^ e := by
        gcongr
        linarith
      _ = 2 ^ ((mantissa.log2 : ℤ) + 1 + e) := by
        rw [← zpow_natCast, hpower]
        push_cast
        rfl
      _ ≤ 2 ^ (53 + f) := zpow_le_zpow_right₀ one_le_two (by omega)
      _ = 2 ^ 53 * 2 ^ f := by
        rw [zpow_add₀ two_ne_zero]
        norm_num
  · by_cases hleast : f = -1074
    · exact .inr hleast
    · refine .inl ?_
      have hne : mantissa ≠ 0 := by
        rintro rfl
        have hzero : (0 : Nat).log2 = 0 := rfl
        omega
      have hdigits : (2 : ℚ) ^ mantissa.log2 ≤ mantissa := by
        exact_mod_cast Nat.log2_self_le hne
      calc
        (2 : ℚ) ^ 52 * 2 ^ f = 2 ^ (52 + f) := by
          rw [zpow_add₀ two_ne_zero]
          norm_num
        _ = 2 ^ ((mantissa.log2 : ℤ) + e) := by
          congr 1
          omega
        _ = 2 ^ mantissa.log2 * 2 ^ e := by rw [← zpow_natCast, hpower]
        _ ≤ q * 2 ^ e := by
          gcongr
          linarith
  · have hshift := hq.shiftRight (max ((mantissa.log2 : ℤ) + 1 + e - 53) (-1074) - e).toNat
    rw [← hn]
    have hquotient : q / 2 ^ (max ((mantissa.log2 : ℤ) + 1 + e - 53) (-1074) - e).toNat =
        q * 2 ^ e / 2 ^ f := by
      rw [← hfEq, ← zpow_natCast, Int.toNat_of_nonneg (by omega), zpow_sub₀ two_ne_zero]
      field_simp
    rw [← hquotient]
    exact hshift.isNearest
  · rfl

/-- A rounded number is one of the format, and its magnitude is what the rational is rounded to. -/
theorem exists_matches_round (sign : Sign) {mantissa : Nat} {e : ℤ} {accuracy : Accuracy} {q : ℚ}
    (hq : Holds (.ofMantissaAndAccuracy mantissa accuracy) q)
    (hlong : e ≤ -1074 ∨ 2 ^ 52 ≤ mantissa) :
    ∃ r : Binary,
      Matches (roundWithAccuracy Format.binary64 sign mantissa e accuracy) r ∧ r.IsCanonical ∧
        r.negative = isMinus sign ∧ Rounds (q * 2 ^ e) r.magnitude := by
  have hrounds := roundsAt_shift hq hlong rfl rfl
  unfold roundWithAccuracy
  dsimp only
  generalize (shiftToTargetExponent Format.binary64 mantissa e accuracy).1.roundedMantissa = n,
    (shiftToTargetExponent Format.binary64 mantissa e accuracy).2 = f at hrounds ⊢
  obtain ⟨hcanonical, hmagnitude⟩ := isCanonical_carry hrounds.le hrounds.exponent_ge
    (hrounds.full.imp_left hrounds.le_of_full) (isMinus sign) rfl rfl
  generalize (shiftToTargetExponent Format.binary64 n f .exact).1.mantissa = m,
    (shiftToTargetExponent Format.binary64 n f .exact).2 = g at hcanonical hmagnitude ⊢
  have hvalue : Rounds (q * 2 ^ e) (m * 2 ^ g) := hmagnitude ▸ ⟨f, n, hrounds⟩
  by_cases hzero : m = 0
  · rw [dif_pos hzero]
    subst hzero
    -- only at the least exponent a number is rounded to zero
    have hsmall : ¬2 ^ 52 ≤ 0 := by decide
    have hleast : g = -1074 := hcanonical.full.resolve_left hsmall
    subst hleast
    exact ⟨_, .zero sign, hcanonical, rfl, hvalue⟩
  · rw [dif_neg hzero]
    exact ⟨_, .finite sign _ _ _, hcanonical, rfl, hvalue⟩

/-! ## Division -/

theorem divCore_eq (m : Nat) (e : ℤ) (n : Nat) (f : ℤ) :
    divCore Format.binary64 m e n f =
      let target := min (e - f)
        (max (((m.log2 : ℤ) + 1 + e) - (n.log2 + 1 + f) - 53) (-1074))
      let scaled := m <<< (e - f - target).toNat
      (scaled / n, target, accuracyOfFraction (scaled % n) n) := rfl

/-- Division has enough digits for rounding, or the least exponent. -/
theorem divCore_long {m n : Nat} (hm : 0 < m) (hn : 0 < n) {e f target : ℤ}
    (htarget : target ≤ e - f)
    (hdigits : target ≤ (m.log2 : ℤ) + 1 + e - (n.log2 + 1 + f) - 53) :
    2 ^ 52 ≤ m <<< (e - f - target).toNat / n := by
  rw [Nat.le_div_iff_mul_le hn, Nat.shiftLeft_eq]
  calc
    2 ^ 52 * n ≤ 2 ^ 52 * 2 ^ (n.log2 + 1) := Nat.mul_le_mul_left _ Nat.lt_log2_self.le
    _ = 2 ^ (52 + (n.log2 + 1)) := (pow_add ..).symm
    _ ≤ 2 ^ (m.log2 + (e - f - target).toNat) := Nat.pow_le_pow_right (by decide) (by omega)
    _ = 2 ^ m.log2 * 2 ^ (e - f - target).toNat := pow_add ..
    _ ≤ m * 2 ^ (e - f - target).toNat := Nat.mul_le_mul_right _ (Nat.log2_self_le hm.ne')

theorem exists_matches_div {u v : UnpackedFloat} {x y : Binary} (hu : Matches u x)
    (hv : Matches v y) (hy : y.significand ≠ 0) :
    ∃ r : Binary, Matches (div Format.binary64 u v) r ∧ r.IsCanonical ∧
      r.negative = (x.negative ^^ y.negative) ∧ Rounds (x.magnitude / y.magnitude) r.magnitude := by
  have hsign (s t : Sign) : isMinus (s / t) = (isMinus s ^^ isMinus t) := by
    cases s <;> cases t <;> rfl
  cases hv with
  | zero t => exact absurd rfl hy
  | finite t n f hn =>
    cases hu with
    | zero s =>
      have hcanonical : (⟨isMinus (s / t), 0, -1074⟩ : Binary).IsCanonical :=
        ⟨Nat.two_pow_pos 53, le_rfl, .inr rfl⟩
      have hzero (negative : Bool) : (⟨negative, 0, -1074⟩ : Binary).magnitude = 0 :=
        Binary.magnitude_eq_zero_iff.2 rfl
      refine ⟨_, .zero (s / t), hcanonical, hsign s t, ?_⟩
      have hrounds := rounds_magnitude hcanonical
      rw [hzero] at hrounds ⊢
      rwa [hzero, zero_div]
    | finite s m e hm =>
      show ∃ r, Matches (roundWithAccuracy Format.binary64 (s / t)
        (divCore Format.binary64 m e n f).1 (divCore Format.binary64 m e n f).2.1
        (divCore Format.binary64 m e n f).2.2) r ∧ _
      rw [divCore_eq]
      dsimp only
      generalize htarget : min (e - f)
        (max (((m.log2 : ℤ) + 1 + e) - (n.log2 + 1 + f) - 53) (-1074)) = target
      have hlong : target ≤ -1074 ∨ 2 ^ 52 ≤ m <<< (e - f - target).toNat / n := by
        by_cases hleast : target ≤ -1074
        · exact .inl hleast
        · exact .inr (divCore_long hm hn (by omega) (by omega))
      obtain ⟨r, hmatches, hcanonical, hnegative, hrounds⟩ :=
        exists_matches_round (s / t) (Holds.ofQuotient _ hn) hlong
      refine ⟨r, hmatches, hcanonical, hnegative.trans (hsign s t), ?_⟩
      have hquotient : (⟨isMinus s, m, e⟩ : Binary).magnitude /
          (⟨isMinus t, n, f⟩ : Binary).magnitude =
            ((m <<< (e - f - target).toNat : Nat) : ℚ) / n * 2 ^ target := by
        have hshift : (2 : ℚ) ^ (e - f - target).toNat = 2 ^ e / 2 ^ f / 2 ^ target := by
          rw [← zpow_natCast, Int.toNat_of_nonneg (by omega), zpow_sub₀ two_ne_zero,
            zpow_sub₀ two_ne_zero]
        rw [Nat.shiftLeft_eq, Binary.magnitude, Binary.magnitude]
        push_cast
        rw [hshift]
        field_simp
      rwa [hquotient]

/-- The quotient of a finite number by one that is not smaller than one is finite. It has the sign
of the quotient, and its magnitude is what the quotient of the magnitudes is rounded to. -/
theorem exact_div {x y : Float} (hx : x.isFinite = true) (hy : y.isFinite = true)
    (hone : 1 ≤ (exact y).magnitude) :
    (x / y).isFinite = true ∧
      (exact (x / y)).negative = ((exact x).negative ^^ (exact y).negative) ∧
      Rounds ((exact x).magnitude / (exact y).magnitude) (exact (x / y)).magnitude := by
  have hne : (exact y).significand ≠ 0 := by
    rw [ne_eq, ← Binary.magnitude_eq_zero_iff]
    linarith
  obtain ⟨r, hmatches, hcanonical, hnegative, hrounds⟩ :=
    exists_matches_div (matches_exact hx) (matches_exact hy) hne
  -- the quotient is not greater than what is divided, so it stays in the range
  have hle : r.magnitude ≤ (exact x).magnitude :=
    hrounds.le_of_le (rounds_magnitude (isCanonical_exact x))
      (div_le_self (Binary.magnitude_nonneg _) hone)
  have hexponent : r.exponent ≤ 971 := by
    have hrange := isFinite_iff_exponent_le.1 hx
    rcases (hcanonical.magnitude_le_iff (isCanonical_exact x)).1 hle with h | h <;> omega
  obtain ⟨hexact, hfinite⟩ :=
    exact_of_pack hmatches hcanonical hexponent (rfl : (x / y).toModel = _)
  rw [hexact]
  exact ⟨hfinite, hnegative, hrounds⟩

end Scorecard.Number
