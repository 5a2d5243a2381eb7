import Mathlib.Algebra.Group.Int.Defs
import Mathlib.Algebra.Group.Nat.Defs
import Scorecard.Proofs.NumberOrder

/-!
# The total order refines the order of numbers

The total order reads an integer off the bits of a number. Below the sign they are an exponent and
then a mantissa, so greater bits never stand for a smaller magnitude, and two numbers in total order
are in the order of their points (`point_le_of_ordered`). Only the two zeros differ in the total
order alone.
-/

namespace Scorecard.Number

open Float.Model
open UnpackedFloat (Sign unpackExponent unpackMantissa unpackSign)

/-! ## The fields of the bits -/

section

variable (b : BitVec Format.binary64.numBits)

theorem toNat_unpackExponent : (unpackExponent b).toNat = b.toNat / 2 ^ 52 % 2 ^ 11 := by
  simp [unpackExponent, Nat.shiftRight_eq_div_pow]

theorem toNat_unpackMantissa : (unpackMantissa b).toNat = b.toNat % 2 ^ 52 := by
  simp [unpackMantissa]

theorem toNat_unpackSign : (unpackSign b).toNat = b.toNat / 2 ^ 63 % 2 := by
  unfold unpackSign
  simp [Nat.shiftRight_eq_div_pow]

theorem unpackExponent_eq_top_iff :
    unpackExponent b = -1#11 ↔ b.toNat / 2 ^ 52 % 2 ^ 11 = 2047 := by
  rw [← toNat_unpackExponent, ← BitVec.toNat_inj]
  rfl

theorem unpackExponent_eq_zero_iff : unpackExponent b = 0#11 ↔ b.toNat / 2 ^ 52 % 2 ^ 11 = 0 := by
  rw [← toNat_unpackExponent, ← BitVec.toNat_inj]
  rfl

theorem unpackMantissa_eq_zero_iff : unpackMantissa b = 0#52 ↔ b.toNat % 2 ^ 52 = 0 := by
  rw [← toNat_unpackMantissa, ← BitVec.toNat_inj]
  rfl

theorem toNat_implicit_append : (1#1 ++ unpackMantissa b).toNat = 2 ^ 52 + b.toNat % 2 ^ 52 := by
  rw [BitVec.toNat_append, ← Nat.shiftLeft_add_eq_or_of_lt (unpackMantissa b).isLt,
    toNat_unpackMantissa]
  simp [Nat.shiftLeft_eq]

theorem ofBitVec_unpackSign :
    Sign.ofBitVec (unpackSign b) = if b.toNat < 2 ^ 63 then .positive else .negative := by
  have hsign : unpackSign b = 0#1 ↔ b.toNat < 2 ^ 63 := by
    have hb : b.toNat < 2 ^ 64 := b.isLt
    rw [← BitVec.toNat_inj, toNat_unpackSign]
    show b.toNat / 2 ^ 63 % 2 = 0 ↔ _
    omega
  simp only [Sign.ofBitVec, hsign]

end

/-! ## Points by bits -/

/-- The class, the exponent and the mantissa of the positive number with the given bits. -/
def place (bits : Nat) : Int × Int × Int :=
  if bits = 0 then (0, 0, 0)
  else if bits < 2 ^ 52 then (1, -1074, bits)
  else if bits < 2047 * 2 ^ 52 then (1, bits / 2 ^ 52 - 1075, 2 ^ 52 + bits % 2 ^ 52)
  else (2, 0, 0)

/-- The point on one side of zero. -/
def signedPoint (place : Int × Int × Int) : Sign → Int ×ₗ Int ×ₗ Int
  | .positive => toLex (place.1, toLex (place.2.1, place.2.2))
  | .negative => toLex (-place.1, toLex (-place.2.1, -place.2.2))

theorem pointOf_finite (sign : Sign) (mantissa : Nat) (exponent : Int) (h : 0 < mantissa) :
    pointOf (.finite sign mantissa exponent h) = signedPoint (1, exponent, mantissa) sign := by
  cases sign <;> rfl

/-- The point of a number by its bits. -/
theorem pointOf_unpack {b : BitVec Format.binary64.numBits}
    (h : (UnpackedFloat.unpack Format.binary64 b).isNaN = false) :
    pointOf (UnpackedFloat.unpack Format.binary64 b) =
      signedPoint (place (b.toNat % 2 ^ 63)) (Sign.ofBitVec (unpackSign b)) := by
  have hb : b.toNat < 2 ^ 64 := b.isLt
  have hbias : (↑Format.binary64.exponentBias + ↑Format.binary64.mantissaBitsWithoutImplicit : Int)
      = 1075 := rfl
  unfold UnpackedFloat.unpack at h ⊢
  dsimp only at h ⊢
  rw [hbias]
  generalize Sign.ofBitVec (unpackSign b) = sign at h ⊢
  by_cases htop : unpackExponent b = -1#11
  · rw [if_pos htop] at h ⊢
    rw [unpackExponent_eq_top_iff] at htop
    by_cases hzero : unpackMantissa b = 0#52
    · rw [if_pos hzero]
      rw [unpackMantissa_eq_zero_iff] at hzero
      have hbits : b.toNat % 2 ^ 63 = 2047 * 2 ^ 52 := by omega
      rw [hbits]
      cases sign <;> rfl
    · rw [if_neg hzero] at h
      cases h
  · rw [if_neg htop]
    rw [unpackExponent_eq_top_iff] at htop
    by_cases hbottom : unpackExponent b = 0#11
    · rw [if_pos hbottom]
      have hexponent : (unpackExponent b).toNat = 0 := by rw [hbottom]; rfl
      rw [unpackExponent_eq_zero_iff] at hbottom
      by_cases hzero : unpackMantissa b = 0#52
      · rw [dif_pos hzero]
        rw [unpackMantissa_eq_zero_iff] at hzero
        have hbits : b.toNat % 2 ^ 63 = 0 := by omega
        rw [hbits]
        cases sign <;> rfl
      · rw [dif_neg hzero, pointOf_finite, toNat_unpackMantissa, hexponent]
        rw [unpackMantissa_eq_zero_iff] at hzero
        have hbits : b.toNat % 2 ^ 63 = b.toNat % 2 ^ 52 := by omega
        rw [place, hbits, if_neg hzero, if_pos (by omega)]
        rfl
    · rw [if_neg hbottom, pointOf_finite, toNat_implicit_append, toNat_unpackExponent]
      rw [unpackExponent_eq_zero_iff] at hbottom
      rw [place, if_neg (by omega), if_neg (by omega), if_pos (by omega)]
      congr 3
      · omega
      · omega

theorem signedPoint_le_iff (p q : Int × Int × Int) :
    signedPoint p .positive ≤ signedPoint q .positive ↔
      p.1 < q.1 ∨ p.1 = q.1 ∧ (p.2.1 < q.2.1 ∨ p.2.1 = q.2.1 ∧ p.2.2 ≤ q.2.2) := by
  simp [signedPoint, Prod.Lex.toLex_le_toLex]

/-- Greater bits stand for a greater number. -/
theorem signedPoint_place_mono {m n : Nat} (h : m ≤ n) :
    signedPoint (place m) .positive ≤ signedPoint (place n) .positive := by
  rw [signedPoint_le_iff]
  unfold place
  split_ifs <;> simp only [true_and] <;> omega

/-- Changing the signs turns the order around. -/
theorem signedPoint_negative_le_iff (p q : Int × Int × Int) :
    signedPoint p .negative ≤ signedPoint q .negative ↔
      signedPoint q .positive ≤ signedPoint p .positive := by
  simp only [signedPoint_le_iff]
  simp only [signedPoint, Prod.Lex.toLex_le_toLex]
  omega

theorem signedPoint_place_negative_le_positive (m n : Nat) :
    signedPoint (place m) .negative ≤ signedPoint (place n) .positive := by
  have hzero : signedPoint (place 0) .negative = signedPoint (place 0) .positive := rfl
  calc
    signedPoint (place m) .negative ≤ signedPoint (place 0) .negative :=
      (signedPoint_negative_le_iff _ _).2 (signedPoint_place_mono (Nat.zero_le m))
    _ = signedPoint (place 0) .positive := hzero
    _ ≤ signedPoint (place n) .positive := signedPoint_place_mono (Nat.zero_le n)

/-- The integer that the total order reads off the bits. -/
def keyOf (b : BitVec Format.binary64.numBits) : Int :=
  if b.toNat < 2 ^ 63 then b.toNat else 2 ^ 63 - 1 - b.toNat

theorem orderKey_eq_keyOf (x : Float) : orderKey x = keyOf x.toModel.toBits.toBitVec := rfl

/-- Numbers in total order are in the order of their points. -/
theorem point_le_of_ordered {x y : Float} (hx : x.isNaN = false) (hy : y.isNaN = false)
    (h : ordered x y = true) : point x ≤ point y := by
  have hkeys := of_decide_eq_true h
  rw [orderKey_eq_keyOf, orderKey_eq_keyOf] at hkeys
  have hxBits : x.toModel.toBits.toBitVec.toNat < 2 ^ 64 := x.toModel.toBits.toBitVec.isLt
  have hyBits : y.toModel.toBits.toBitVec.toNat < 2 ^ 64 := y.toModel.toBits.toBitVec.isLt
  show pointOf (UnpackedFloat.unpack Format.binary64 x.toModel.toBits.toBitVec) ≤
    pointOf (UnpackedFloat.unpack Format.binary64 y.toModel.toBits.toBitVec)
  rw [pointOf_unpack hx, pointOf_unpack hy, ofBitVec_unpackSign, ofBitVec_unpackSign]
  unfold keyOf at hkeys
  split_ifs at hkeys ⊢
  · exact signedPoint_place_mono (by omega)
  · omega
  · exact signedPoint_place_negative_le_positive _ _
  · exact (signedPoint_negative_le_iff _ _).2 (signedPoint_place_mono (by omega))

/-! ## Numbers that share a point -/

theorem isNaN_unpack_iff (b : BitVec Format.binary64.numBits) :
    (UnpackedFloat.unpack Format.binary64 b).isNaN = true ↔
      unpackExponent b = -1#11 ∧ unpackMantissa b ≠ 0#52 := by
  unfold UnpackedFloat.unpack
  dsimp only
  by_cases htop : unpackExponent b = -1#11
  · rw [if_pos htop]
    by_cases hzero : unpackMantissa b = 0#52
    · rw [if_pos hzero]
      exact iff_of_false Bool.false_ne_true fun h => h.2 hzero
    · rw [if_neg hzero]
      exact iff_of_true rfl ⟨htop, hzero⟩
  · rw [if_neg htop]
    refine iff_of_false ?_ fun h => htop h.1
    by_cases hbottom : unpackExponent b = 0#11
    · rw [if_pos hbottom]
      by_cases hzero : unpackMantissa b = 0#52
      · rw [dif_pos hzero]
        exact Bool.false_ne_true
      · rw [dif_neg hzero]
        exact Bool.false_ne_true
    · rw [if_neg hbottom]
      exact Bool.false_ne_true

/-- Bits without a NaN end at those of infinity. -/
theorem toNat_mod_le_of_isNaN {b : BitVec Format.binary64.numBits}
    (h : (UnpackedFloat.unpack Format.binary64 b).isNaN = false) :
    b.toNat % 2 ^ 63 ≤ 2047 * 2 ^ 52 := by
  rw [Bool.eq_false_iff, ne_eq, isNaN_unpack_iff, unpackExponent_eq_top_iff, ne_eq,
    unpackMantissa_eq_zero_iff] at h
  omega

theorem eq_of_bits_eq {x y : Float}
    (h : x.toModel.toBits.toBitVec.toNat = y.toModel.toBits.toBitVec.toNat) : x = y := by
  obtain ⟨⟨xBits, hx⟩⟩ := x
  obtain ⟨⟨yBits, hy⟩⟩ := y
  have hbits : xBits = yBits := UInt64.toNat_inj.1 h
  subst hbits
  rfl

/-- The total order tells all numbers apart. -/
theorem eq_of_orderKey_eq {x y : Float} (h : orderKey x = orderKey y) : x = y := by
  have hx : x.toModel.toBits.toBitVec.toNat < 2 ^ 64 := x.toModel.toBits.toBitVec.isLt
  have hy : y.toModel.toBits.toBitVec.toNat < 2 ^ 64 := y.toModel.toBits.toBitVec.isLt
  rw [orderKey_eq_keyOf, orderKey_eq_keyOf] at h
  unfold keyOf at h
  refine eq_of_bits_eq ?_
  split_ifs at h <;> omega

/-- There is one NaN. -/
theorem eq_of_isNaN {x y : Float} (hx : x.isNaN = true) (hy : y.isNaN = true) : x = y := by
  have hcanonical {z : Float} (hz : z.isNaN = true) :
      z.toModel.toBits.toBitVec = UnpackedFloat.packedNaN Format.binary64 := by
    obtain ⟨htop, hmantissa⟩ := (isNaN_unpack_iff z.toModel.toBits.toBitVec).1 hz
    exact z.toModel.valid.eq_packedNaN htop hmantissa
  exact eq_of_bits_eq (by rw [hcanonical hx, hcanonical hy])

theorem place_inj {m n : Nat} (hm : m ≤ 2047 * 2 ^ 52) (hn : n ≤ 2047 * 2 ^ 52)
    (h : place m = place n) : m = n := by
  unfold place at h
  split_ifs at h <;> simp only [Prod.mk.injEq] at h <;> omega

theorem place_class_nonneg (m : Nat) : 0 ≤ (place m).1 := by
  unfold place
  split_ifs <;> simp

theorem eq_zero_of_place_class {m : Nat} (h : (place m).1 = 0) : m = 0 := by
  unfold place at h
  split_ifs at h with hzero
  · exact hzero
  all_goals simp at h

theorem signedPoint_inj {p q : Int × Int × Int} {sign : Sign}
    (h : signedPoint p sign = signedPoint q sign) : p = q := by
  obtain ⟨p₁, p₂, p₃⟩ := p
  obtain ⟨q₁, q₂, q₃⟩ := q
  cases sign <;> simpa [signedPoint] using h

/-- Points on both sides of zero are the same only at zero. -/
theorem eq_zero_of_signedPoint_eq {m n : Nat}
    (h : signedPoint (place m) .positive = signedPoint (place n) .negative) : m = 0 ∧ n = 0 := by
  have hclass : (place m).1 = -(place n).1 := congrArg (fun p => (ofLex p).1) h
  have hm := place_class_nonneg m
  have hn := place_class_nonneg n
  exact ⟨eq_zero_of_place_class (by omega), eq_zero_of_place_class (by omega)⟩

/-- Numbers that compare as equal are the same, or the two zeros. -/
theorem eq_or_zeros_of_beq {x y : Float} (h : (x == y) = true) :
    x = y ∨ x = 0 ∧ y = -0 ∨ x = -0 ∧ y = 0 := by
  obtain ⟨hx, hy, hpoint⟩ := beq_iff_point.1 h
  have hxBits : x.toModel.toBits.toBitVec.toNat < 2 ^ 64 := x.toModel.toBits.toBitVec.isLt
  have hyBits : y.toModel.toBits.toBitVec.toNat < 2 ^ 64 := y.toModel.toBits.toBitVec.isLt
  have hxBound := toNat_mod_le_of_isNaN hx
  have hyBound := toNat_mod_le_of_isNaN hy
  have hzeroBits : (0 : Float).toModel.toBits.toBitVec.toNat = 0 := by decide +kernel
  have hnegBits : (-0 : Float).toModel.toBits.toBitVec.toNat = 2 ^ 63 := by decide +kernel
  change pointOf (UnpackedFloat.unpack Format.binary64 x.toModel.toBits.toBitVec) =
    pointOf (UnpackedFloat.unpack Format.binary64 y.toModel.toBits.toBitVec) at hpoint
  rw [pointOf_unpack hx, pointOf_unpack hy, ofBitVec_unpackSign, ofBitVec_unpackSign] at hpoint
  split_ifs at hpoint
  · have hplace := place_inj hxBound hyBound (signedPoint_inj hpoint)
    exact .inl (eq_of_bits_eq (by omega))
  · have hzeros := eq_zero_of_signedPoint_eq hpoint
    exact .inr (.inl ⟨eq_of_bits_eq (by omega), eq_of_bits_eq (by omega)⟩)
  · have hzeros := eq_zero_of_signedPoint_eq hpoint.symm
    exact .inr (.inr ⟨eq_of_bits_eq (by omega), eq_of_bits_eq (by omega)⟩)
  · have hplace := place_inj hxBound hyBound (signedPoint_inj hpoint)
    exact .inl (eq_of_bits_eq (by omega))

end Scorecard.Number
