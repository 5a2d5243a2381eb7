import Mathlib.Algebra.Order.Field.Power
import Mathlib.Data.Rat.Cast.Order
import Mathlib.Tactic.Linarith
import Mathlib.Tactic.Positivity
import Mathlib.Tactic.Ring
import Scorecard.Number.Binary
import Scorecard.Proofs.TotalOrder

/-!
# Exact values

The exact value of a number is a rational. Significands are as long as they fit, so a greater
exponent makes a greater magnitude, and values tell finite numbers apart but for the sign of zero
(`Binary.magnitude_le_iff`, `exact_injective`). Comparing finite numbers is comparing their values
(`le_iff_value`), and what an operation packs is the exact value of its result (`exact_of_pack`).
-/

namespace Scorecard.Number

open Float.Model
open UnpackedFloat (Sign unpackExponent unpackMantissa unpackSign packComponents)

/-! ## Magnitudes -/

/-- A power is that of the positive part of its exponent over that of the negative one. -/
theorem zpow_eq_div {b : ℚ} (hb : b ≠ 0) (k : ℤ) : b ^ k = b ^ k.toNat / b ^ (-k).toNat := by
  rw [← zpow_natCast, ← zpow_natCast, ← zpow_sub₀ hb]
  congr 1
  omega

namespace Binary

/-- The magnitude of an exact value. -/
def magnitude (x : Binary) : ℚ :=
  x.significand * (2 : ℚ) ^ x.exponent

/-- An exact value as a rational. -/
def value (x : Binary) : ℚ :=
  if x.negative then -x.magnitude else x.magnitude

/-- A significand of 53 digits, or of fewer with the least exponent. -/
structure IsCanonical (x : Binary) : Prop where
  significand_lt : x.significand < 2 ^ 53
  exponent_ge : -1074 ≤ x.exponent
  full : 2 ^ 52 ≤ x.significand ∨ x.exponent = -1074

variable {x y : Binary}

theorem magnitude_nonneg (x : Binary) : 0 ≤ x.magnitude := by
  unfold magnitude
  positivity

theorem magnitude_eq_zero_iff : x.magnitude = 0 ↔ x.significand = 0 := by
  have hpower : (2 : ℚ) ^ x.exponent ≠ 0 := by positivity
  simp [magnitude, hpower]

/-- A greater exponent makes a greater magnitude. -/
theorem IsCanonical.magnitude_lt (hx : x.IsCanonical) (hy : y.IsCanonical)
    (h : x.exponent < y.exponent) : x.magnitude < y.magnitude := by
  have hfull : 2 ^ 52 ≤ y.significand :=
    hy.full.resolve_right fun hleast => by have := hx.exponent_ge; omega
  have hpower : (0 : ℚ) < 2 ^ x.exponent := by positivity
  calc
    (x.significand : ℚ) * 2 ^ x.exponent < 2 ^ 53 * 2 ^ x.exponent := by
      gcongr
      exact_mod_cast hx.significand_lt
    _ = 2 ^ 52 * 2 ^ (x.exponent + 1) := by
      rw [zpow_add_one₀ (by norm_num)]
      ring
    _ ≤ 2 ^ 52 * 2 ^ y.exponent := by
      gcongr
      · norm_num
      · exact h
    _ ≤ y.significand * 2 ^ y.exponent := by
      gcongr
      exact_mod_cast hfull

theorem magnitude_le_of_exponent_eq (h : x.exponent = y.exponent) :
    x.magnitude ≤ y.magnitude ↔ x.significand ≤ y.significand := by
  have hpower : (0 : ℚ) < 2 ^ y.exponent := by positivity
  rw [magnitude, magnitude, h, mul_le_mul_iff_left₀ hpower, Nat.cast_le]

/-- Magnitudes compare by their exponents first and then by their significands. -/
theorem IsCanonical.magnitude_le_iff (hx : x.IsCanonical) (hy : y.IsCanonical) :
    x.magnitude ≤ y.magnitude ↔
      x.exponent < y.exponent ∨ x.exponent = y.exponent ∧ x.significand ≤ y.significand := by
  rcases Int.lt_trichotomy x.exponent y.exponent with h | h | h
  · exact iff_of_true (hx.magnitude_lt hy h).le (.inl h)
  · rw [magnitude_le_of_exponent_eq h]
    omega
  · exact iff_of_false (not_le.2 (hy.magnitude_lt hx h)) (by omega)

theorem IsCanonical.magnitude_inj (hx : x.IsCanonical) (hy : y.IsCanonical)
    (h : x.magnitude = y.magnitude) :
    x.significand = y.significand ∧ x.exponent = y.exponent := by
  have hle := (hx.magnitude_le_iff hy).1 h.le
  have hge := (hy.magnitude_le_iff hx).1 h.ge
  omega

end Binary

/-! ## Exact values by bits -/

/-- The exact value that the bits of a number stand for. -/
def exactOf (b : BitVec Format.binary64.numBits) : Binary where
  negative := 2 ^ 63 ≤ b.toNat
  significand := if b.toNat / 2 ^ 52 % 2 ^ 11 = 0 then b.toNat % 2 ^ 52
    else 2 ^ 52 + b.toNat % 2 ^ 52
  exponent := (max (b.toNat / 2 ^ 52 % 2 ^ 11) 1 : Nat) - 1075

theorem exact_eq_exactOf (x : Float) : exact x = exactOf x.toModel.toBits.toBitVec := rfl

theorem isCanonical_exact (x : Float) : (exact x).IsCanonical := by
  rw [exact_eq_exactOf]
  constructor
  all_goals
    unfold exactOf
    dsimp only
  · split <;> omega
  · omega
  · split <;> omega

/-- Exact values tell all numbers apart. -/
theorem exact_injective : Function.Injective exact := by
  intro x y h
  have hx : x.toModel.toBits.toBitVec.toNat < 2 ^ 64 := x.toModel.toBits.toBitVec.isLt
  have hy : y.toModel.toBits.toBitVec.toNat < 2 ^ 64 := y.toModel.toBits.toBitVec.isLt
  rw [exact_eq_exactOf, exact_eq_exactOf] at h
  simp only [exactOf, Binary.mk.injEq, decide_eq_decide] at h
  obtain ⟨hsign, hsignificand, hexponent⟩ := h
  refine eq_of_bits_eq ?_
  split_ifs at hsignificand <;> omega

/-! ## Unpacked numbers -/

/-- Whether a sign is a minus. -/
def isMinus : Sign → Bool
  | .negative => true
  | .positive => false

/-- An unpacked finite number has an exact value. -/
inductive Matches : UnpackedFloat → Binary → Prop where
  | zero (sign : Sign) : Matches (.zero sign) ⟨isMinus sign, 0, -1074⟩
  | finite (sign : Sign) (mantissa : Nat) (exponent : Int) (h : 0 < mantissa) :
      Matches (.finite sign mantissa exponent h) ⟨isMinus sign, mantissa, exponent⟩

theorem isMinus_unpackSign (b : BitVec Format.binary64.numBits) :
    isMinus (Sign.ofBitVec (unpackSign b)) = decide (2 ^ 63 ≤ b.toNat) := by
  rw [ofBitVec_unpackSign]
  split
  · exact (decide_eq_false (by omega)).symm
  · exact (decide_eq_true (by omega)).symm

theorem matches_exactOf {b : BitVec Format.binary64.numBits}
    (h : (UnpackedFloat.unpack Format.binary64 b).isFinite = true) :
    Matches (UnpackedFloat.unpack Format.binary64 b) (exactOf b) := by
  have hbias : (↑Format.binary64.exponentBias + ↑Format.binary64.mantissaBitsWithoutImplicit : Int)
      = 1075 := rfl
  unfold exactOf
  rw [← isMinus_unpackSign]
  unfold UnpackedFloat.unpack at h ⊢
  dsimp only at h ⊢
  rw [hbias]
  generalize Sign.ofBitVec (unpackSign b) = sign at h ⊢
  by_cases htop : unpackExponent b = -1#11
  · rw [if_pos htop] at h
    split at h <;> cases h
  · rw [if_neg htop]
    by_cases hbottom : unpackExponent b = 0#11
    · rw [if_pos hbottom]
      have hexponent : (unpackExponent b).toNat = 0 := by rw [hbottom]; rfl
      rw [unpackExponent_eq_zero_iff] at hbottom
      rw [hbottom, if_pos rfl, hexponent, ← toNat_unpackMantissa]
      by_cases hzero : unpackMantissa b = 0#52
      · rw [dif_pos hzero, hzero]
        exact .zero sign
      · rw [dif_neg hzero]
        exact .finite sign _ _ _
    · rw [if_neg hbottom]
      rw [unpackExponent_eq_zero_iff] at hbottom
      rw [if_neg hbottom, max_eq_left (by omega), ← toNat_implicit_append, ← toNat_unpackExponent]
      exact .finite sign _ _ _

/-- A finite number is unpacked to its exact value. -/
theorem matches_exact {x : Float} (h : x.isFinite = true) :
    Matches x.toModel.unpack (exact x) :=
  matches_exactOf h

theorem isFinite_unpack_iff (b : BitVec Format.binary64.numBits) :
    (UnpackedFloat.unpack Format.binary64 b).isFinite = true ↔ (exactOf b).exponent ≤ 971 := by
  have hexponent : (exactOf b).exponent ≤ 971 ↔ unpackExponent b ≠ -1#11 := by
    rw [ne_eq, unpackExponent_eq_top_iff]
    show ((max (b.toNat / 2 ^ 52 % 2 ^ 11) 1 : Nat) : Int) - 1075 ≤ 971 ↔ _
    omega
  rw [hexponent]
  unfold UnpackedFloat.unpack
  dsimp only
  by_cases htop : unpackExponent b = -1#11
  · rw [if_pos htop]
    refine iff_of_false ?_ (not_not.2 htop)
    split <;> exact Bool.false_ne_true
  · rw [if_neg htop]
    refine iff_of_true ?_ htop
    by_cases hbottom : unpackExponent b = 0#11
    · rw [if_pos hbottom]
      by_cases hzero : unpackMantissa b = 0#52
      · rw [dif_pos hzero]
        rfl
      · rw [dif_neg hzero]
        rfl
    · rw [if_neg hbottom]
      rfl

/-- Infinities and NaN have the exponent behind that of finite numbers. -/
theorem isFinite_iff_exponent_le {x : Float} : x.isFinite = true ↔ (exact x).exponent ≤ 971 :=
  isFinite_unpack_iff x.toModel.toBits.toBitVec

/-! ## Packed numbers -/

theorem toNat_packComponents (sign : Sign) (exponent : BitVec 11) (mantissa : BitVec 52) :
    (packComponents Format.binary64 sign exponent mantissa).toNat =
      (if isMinus sign then 2 ^ 63 else 0) + exponent.toNat * 2 ^ 52 + mantissa.toNat := by
  have hsign : sign.toBitVec.toNat = if isMinus sign then 1 else 0 := by cases sign <;> rfl
  unfold packComponents
  rw [BitVec.toNat_append, BitVec.toNat_append, ← Nat.shiftLeft_add_eq_or_of_lt exponent.isLt,
    ← Nat.shiftLeft_add_eq_or_of_lt mantissa.isLt, hsign]
  simp only [Nat.shiftLeft_eq]
  split <;> ring

theorem exactOf_packComponents (sign : Sign) (exponent : BitVec 11) (mantissa : BitVec 52) :
    exactOf (packComponents Format.binary64 sign exponent mantissa) =
      { negative := isMinus sign
        significand := if exponent.toNat = 0 then mantissa.toNat else 2 ^ 52 + mantissa.toNat
        exponent := (max exponent.toNat 1 : Nat) - 1075 } := by
  have hexponent : exponent.toNat < 2 ^ 11 := exponent.isLt
  have hmantissa : mantissa.toNat < 2 ^ 52 := mantissa.isLt
  unfold exactOf
  rw [toNat_packComponents, Binary.mk.injEq]
  generalize exponent.toNat = biased at hexponent ⊢
  generalize mantissa.toNat = fraction at hmantissa ⊢
  have hsign : decide (2 ^ 63 ≤ (if isMinus sign then 2 ^ 63 else 0) + biased * 2 ^ 52 +
      fraction) = isMinus sign := by
    cases isMinus sign <;> simp <;> omega
  have hbiased : ((if isMinus sign then 2 ^ 63 else 0) + biased * 2 ^ 52 + fraction) / 2 ^ 52 %
      2 ^ 11 = biased := by
    cases isMinus sign <;> simp <;> omega
  have hfraction : ((if isMinus sign then 2 ^ 63 else 0) + biased * 2 ^ 52 + fraction) % 2 ^ 52 =
      fraction := by
    cases isMinus sign <;> simp <;> omega
  rw [hbiased, hfraction]
  exact ⟨hsign, rfl, rfl⟩

/-- What is packed is read off as it was. -/
theorem exactOf_pack {u : UnpackedFloat} {x : Binary} (h : Matches u x) (hx : x.IsCanonical)
    (hexponent : x.exponent ≤ 971) : exactOf (UnpackedFloat.pack Format.binary64 u) = x := by
  cases h with
  | zero sign => cases sign <;> rfl
  | finite sign m e hm =>
    obtain ⟨hlt, hge, hfull⟩ := hx
    dsimp only at hlt hge hfull hexponent
    have hlog : m.log2 + 1 = 53 ↔ 2 ^ 52 ≤ m := by
      rw [← Nat.le_log2 hm.ne']
      have := (Nat.log2_lt hm.ne').2 hlt
      omega
    have hrange : ¬2 ^ 11 ≤ (e + (1023 : Nat) + (52 : Nat)).toNat + 1 := by omega
    show exactOf (if 2 ^ 11 ≤ (e + (1023 : Nat) + (52 : Nat)).toNat + 1 then _
      else if m.log2 + 1 = 53 then packComponents Format.binary64 sign
        (BitVec.ofNat 11 (e + (1023 : Nat) + (52 : Nat)).toNat) (BitVec.ofNat 52 m)
      else packComponents Format.binary64 sign 0#11 (BitVec.ofNat 52 m)) = _
    rw [if_neg hrange]
    split
    · rename_i hnormal
      rw [hlog] at hnormal
      rw [exactOf_packComponents, Binary.mk.injEq, BitVec.toNat_ofNat, BitVec.toNat_ofNat]
      refine ⟨rfl, ?_, by omega⟩
      split <;> omega
    · rename_i hsubnormal
      rw [hlog] at hsubnormal
      rw [exactOf_packComponents, Binary.mk.injEq, BitVec.toNat_ofNat, BitVec.toNat_ofNat]
      refine ⟨rfl, ?_, by omega⟩
      rw [if_pos (by omega)]
      omega

/-- A result that is packed has the exact value of what is packed. -/
theorem exact_of_pack {u : UnpackedFloat} {x : Binary} (h : Matches u x) (hx : x.IsCanonical)
    (hexponent : x.exponent ≤ 971) {y : Float} (hy : y.toModel = .pack u) :
    exact y = x ∧ y.isFinite = true := by
  have hexact : exact y = x := by
    rw [exact_eq_exactOf, hy]
    exact exactOf_pack h hx hexponent
  exact ⟨hexact, isFinite_iff_exponent_le.2 (hexact ▸ hexponent)⟩

theorem Matches.abs {u : UnpackedFloat} {x : Binary} (h : Matches u x) :
    Matches u.abs { x with negative := false } := by
  cases h with
  | zero sign => exact .zero .positive
  | finite sign m e hm => exact .finite .positive m e hm

theorem exact_abs {x : Float} (h : x.isFinite = true) :
    exact x.abs = { exact x with negative := false } ∧ x.abs.isFinite = true := by
  obtain ⟨hlt, hge, hfull⟩ := isCanonical_exact x
  exact exact_of_pack (matches_exact h).abs ⟨hlt, hge, hfull⟩ (isFinite_iff_exponent_le.1 h) rfl

/-! ## Order -/

namespace Binary

theorem magnitude_pos {x : Binary} (h : 0 < x.significand) : 0 < x.magnitude := by
  unfold magnitude
  positivity

theorem value_of_significand_eq_zero {x : Binary} (h : x.significand = 0) : x.value = 0 := by
  simp [value, magnitude_eq_zero_iff.2 h]

end Binary

theorem right_of_zero {mantissa : Nat} (exponent : Int) (h : 0 < mantissa) (sign : Sign) :
    pointOf (.zero sign) < pointOf (.finite .positive mantissa exponent h) ∧
      0 < (⟨false, mantissa, exponent⟩ : Binary).value :=
  ⟨Prod.Lex.toLex_lt_toLex.2 (.inl zero_lt_one), Binary.magnitude_pos h⟩

theorem left_of_zero {mantissa : Nat} (exponent : Int) (h : 0 < mantissa) (sign : Sign) :
    pointOf (.finite .negative mantissa exponent h) < pointOf (.zero sign) ∧
      (⟨true, mantissa, exponent⟩ : Binary).value < 0 :=
  ⟨Prod.Lex.toLex_lt_toLex.2 (.inl neg_one_lt_zero), neg_lt_zero.2 (Binary.magnitude_pos h)⟩

/-- Unpacked numbers are in the order of their exact values. -/
theorem Matches.pointOf_le_iff {u v : UnpackedFloat} {x y : Binary} (hu : Matches u x)
    (hv : Matches v y) (hx : x.IsCanonical) (hy : y.IsCanonical) :
    pointOf u ≤ pointOf v ↔ x.value ≤ y.value := by
  have hzero (sign : Sign) : (⟨isMinus sign, 0, -1074⟩ : Binary).value = 0 :=
    Binary.value_of_significand_eq_zero rfl
  rcases hu with s | ⟨_ | _, m, e, hm⟩ <;> rcases hv with t | ⟨_ | _, n, f, hn⟩
  -- on one side of zero exponents and significands decide, and else the sides
  case finite.positive.finite.positive =>
    show signedPoint (1, e, m) .positive ≤ signedPoint (1, f, n) .positive ↔
      Binary.magnitude _ ≤ Binary.magnitude _
    rw [signedPoint_le_iff, hx.magnitude_le_iff hy]
    simp
  case finite.negative.finite.negative =>
    show signedPoint (1, e, m) .negative ≤ signedPoint (1, f, n) .negative ↔
      -Binary.magnitude _ ≤ -Binary.magnitude _
    rw [signedPoint_negative_le_iff, signedPoint_le_iff, neg_le_neg_iff, hy.magnitude_le_iff hx]
    simp
  case zero.zero => exact iff_of_true le_rfl (by rw [hzero, hzero])
  case zero.finite.positive =>
    obtain ⟨hpoint, hvalue⟩ := right_of_zero f hn s
    exact iff_of_true hpoint.le (by rw [hzero]; exact hvalue.le)
  case zero.finite.negative =>
    obtain ⟨hpoint, hvalue⟩ := left_of_zero f hn s
    exact iff_of_false hpoint.not_ge (by rw [hzero]; exact hvalue.not_ge)
  case finite.positive.zero =>
    obtain ⟨hpoint, hvalue⟩ := right_of_zero e hm t
    exact iff_of_false hpoint.not_ge (by rw [hzero]; exact hvalue.not_ge)
  case finite.negative.zero =>
    obtain ⟨hpoint, hvalue⟩ := left_of_zero e hm t
    exact iff_of_true hpoint.le (by rw [hzero]; exact hvalue.le)
  case finite.positive.finite.negative =>
    obtain ⟨hright, hpositive⟩ := right_of_zero e hm .positive
    obtain ⟨hleft, hnegative⟩ := left_of_zero f hn .positive
    exact iff_of_false (hleft.trans hright).not_ge (hnegative.trans hpositive).not_ge
  case finite.negative.finite.positive =>
    obtain ⟨hleft, hnegative⟩ := left_of_zero e hm .positive
    obtain ⟨hright, hpositive⟩ := right_of_zero f hn .positive
    exact iff_of_true (hleft.trans hright).le (hnegative.trans hpositive).le

/-- Finite numbers are in the order of their exact values. -/
theorem le_iff_value {x y : Float} (hx : x.isFinite = true) (hy : y.isFinite = true) :
    x ≤ y ↔ (exact x).value ≤ (exact y).value := by
  rw [le_iff_point, ← (matches_exact hx).pointOf_le_iff (matches_exact hy) (isCanonical_exact x)
    (isCanonical_exact y)]
  exact ⟨fun h => h.2.2, fun h => ⟨isNaN_of_isFinite hx, isNaN_of_isFinite hy, h⟩⟩

end Scorecard.Number
