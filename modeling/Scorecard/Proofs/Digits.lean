import Mathlib.Algebra.Field.Rat
import Mathlib.Tactic.Ring
import Scorecard.Number.Layout
import Scorecard.Proofs.Numerals

/-!
# The digits of written numbers

A number with decimal places is written as its whole part, a point and exactly these places, with
zeros where digits lack (`withPlaces_digitsOf`). So what is written reads as a decimal number of the
same value (`exists_isDecimal_positional`), and a displayed number has no characters but digits, a
minus, a point and the letters of its three words (`mem_displayDigits`).
-/

namespace Scorecard.Number

/-! ## Digits of natural numbers -/

theorem digits_digitsOf (n : Nat) : Digits (digitsOf n) := fun _ h =>
  Nat.isDigit_of_mem_toDigits (by decide) (by decide) h

theorem digitsOf_ne_nil (n : Nat) : digitsOf n ≠ [] :=
  Nat.toDigits_ne_nil

theorem digitsValue_append (s t : List Char) :
    digitsValue (s ++ t) = Nat.ofDigitChars 10 t (digitsValue s) :=
  Nat.ofDigitChars_append 0

@[simp] theorem digitsValue_digitsOf (n : Nat) : digitsValue (digitsOf n) = n :=
  Nat.ofDigitChars_ten_toDigits

theorem digitsValue_append_zeros (s : List Char) (count : Nat) :
    digitsValue (s ++ List.replicate count '0') = digitsValue s * 10 ^ count := by
  induction count with
  | zero => simp
  | succ count ih =>
    rw [List.replicate_succ', ← List.append_assoc, digitsValue_append, ih]
    show 10 * (digitsValue s * 10 ^ count) + 0 = _
    ring

/-- Zeros in front change no value. -/
theorem digitsValue_zeros_append (count : Nat) (s : List Char) :
    digitsValue (List.replicate count '0' ++ s) = digitsValue s := by
  have hzeros := digitsValue_append_zeros [] count
  rw [List.nil_append] at hzeros
  rw [digitsValue_append, hzeros]
  show Nat.ofDigitChars 10 s (0 * 10 ^ count) = _
  rw [Nat.zero_mul]
  rfl

/-! ## Decimal places -/

/-- The last decimal places of a natural number. -/
def placesOf : (places : Nat) → (n : Nat) → List Char
  | 0, _ => []
  | places + 1, n => placesOf places (n / 10) ++ [Nat.digitChar (n % 10)]

@[simp] theorem length_placesOf (places n : Nat) : (placesOf places n).length = places := by
  induction places generalizing n with
  | zero => rfl
  | succ places ih => simp [placesOf, ih]

theorem digits_placesOf (places n : Nat) : Digits (placesOf places n) := by
  induction places generalizing n with
  | zero => simp [placesOf, Digits]
  | succ places ih =>
    intro c hc
    rcases List.mem_append.1 hc with hc | hc
    · exact ih _ c hc
    · rw [List.mem_singleton.1 hc, Nat.isDigit_digitChar]
      exact decide_eq_true (Nat.mod_lt n (by decide))

/-- Digits that are filled up with zeros are the whole part and then the places. -/
theorem zeros_append_digitsOf (places n : Nat) :
    List.replicate (places + 1 - (digitsOf n).length) '0' ++ digitsOf n =
      digitsOf (n / 10 ^ places) ++ placesOf places n := by
  induction places generalizing n with
  | zero =>
    have hlength : 0 < (digitsOf n).length := Nat.length_toDigits_pos
    rw [show 0 + 1 - (digitsOf n).length = 0 by omega]
    simp [placesOf]
  | succ places ih =>
    rw [placesOf, pow_succ', ← Nat.div_div_eq_div_mul, ← List.append_assoc, ← ih (n / 10)]
    by_cases hn : n < 10
    · -- of a single digit nothing is left in front of its last place
      have hzero : n / 10 = 0 := Nat.div_eq_of_lt hn
      have hone : digitsOf n = [Nat.digitChar n] := Nat.toDigits_of_lt_base hn
      have hnil : digitsOf 0 = ['0'] := rfl
      rw [hzero, hone, hnil, Nat.mod_eq_of_lt hn]
      simp [List.replicate_succ']
    · have hsplit : digitsOf n = digitsOf (n / 10) ++ [Nat.digitChar (n % 10)] :=
        Nat.toDigits_of_base_le (by decide) (by omega)
      rw [hsplit, List.length_append, List.length_singleton, ← List.append_assoc]
      congr 3
      omega

theorem digitsValue_whole_append_places (places n : Nat) :
    digitsValue (digitsOf (n / 10 ^ places) ++ placesOf places n) = n := by
  rw [← zeros_append_digitsOf, digitsValue_zeros_append, digitsValue_digitsOf]

/-- A number with places is its whole part, a point and the places. -/
theorem withPlaces_digitsOf (places n : Nat) :
    withPlaces (digitsOf n) places =
      digitsOf (n / 10 ^ places) ++ if places = 0 then [] else '.' :: placesOf places n := by
  have hlength : (digitsOf (n / 10 ^ places) ++ placesOf places n).length - places =
      (digitsOf (n / 10 ^ places)).length := by simp
  simp only [withPlaces, zeros_append_digitsOf, hlength, List.take_left, List.drop_left]
  split
  · simp
  · rfl

/-! ## Values of decimal numbers -/

/-- The value of a decimal number. -/
def Decimal.value (d : Decimal) : ℚ :=
  d.coefficient * (10 : ℚ) ^ d.exponent

/-- What is written with places reads as the number of its digits, moved by the places. -/
theorem isDecimal_withPlaces (places n : Nat) :
    IsDecimal (withPlaces (digitsOf n) places) ⟨n, -(places : Int)⟩ := by
  rw [withPlaces_digitsOf]
  split
  · rename_i hplaces
    subst hplaces
    have hwhole := IsDecimal.whole (digits_digitsOf n) (digitsOf_ne_nil n) .none
    simpa using hwhole
  · have hpointed := IsDecimal.pointed (digits_digitsOf (n / 10 ^ places))
      (digits_placesOf places n) (fun h => digitsOf_ne_nil _ h.1) .none
    rw [digitsValue_whole_append_places, length_placesOf, List.append_nil] at hpointed
    simpa using hpointed

/-- A decimal number in full reads as one of its value. -/
theorem exists_isDecimal_positional (d : Decimal) :
    ∃ d' : Decimal, IsDecimal d.positional d' ∧ d'.value = d.value := by
  unfold Decimal.positional
  split
  · rename_i hexponent
    obtain ⟨count, hcount⟩ := Int.eq_ofNat_of_zero_le hexponent
    have hdigits : Digits (digitsOf d.coefficient ++ List.replicate count '0') := by
      intro c hc
      rcases List.mem_append.1 hc with hc | hc
      · exact digits_digitsOf _ c hc
      · rw [List.eq_of_mem_replicate hc]
        rfl
    have hdecimal := IsDecimal.whole hdigits (by simp [digitsOf_ne_nil]) .none
    rw [List.append_nil] at hdecimal
    rw [hcount, Int.toNat_natCast]
    refine ⟨_, hdecimal, ?_⟩
    simp [Decimal.value, digitsValue_append_zeros, hcount]
  · rename_i hexponent
    refine ⟨_, isDecimal_withPlaces _ _, ?_⟩
    rw [Int.toNat_of_nonneg (by omega), Int.neg_neg]

/-! ## Characters -/

theorem mem_withPlaces {places n : Nat} {c : Char} (h : c ∈ withPlaces (digitsOf n) places) :
    c.isDigit = true ∨ c = '.' := by
  rw [withPlaces_digitsOf] at h
  rcases List.mem_append.1 h with h | h
  · exact .inl (digits_digitsOf _ c h)
  · split at h
    · cases h
    · rcases List.mem_cons.1 h with h | h
      · exact .inr h
      · exact .inl (digits_placesOf _ _ c h)

theorem mem_positional {d : Decimal} {c : Char} (h : c ∈ d.positional) :
    c.isDigit = true ∨ c = '.' := by
  unfold Decimal.positional at h
  split at h
  · rcases List.mem_append.1 h with h | h
    · exact .inl (digits_digitsOf _ c h)
    · rw [List.eq_of_mem_replicate h]
      exact .inl rfl
  · exact mem_withPlaces h

/-- A displayed number has digits, a minus, a point and the letters of its words. -/
theorem mem_displayDigits {x : Float} {c : Char} (h : c ∈ displayDigits x) :
    c.isDigit = true ∨ c ∈ ['-', '.', 'N', 'a', 'i', 'n', 'f'] := by
  have hbody {text : List Char} (htext : ∀ b ∈ text, b.isDigit = true ∨ b = '.' ∨ b ∈ "inf".toList)
      {negative : Bool} (hc : c ∈ signed negative text) :
      c.isDigit = true ∨ c ∈ ['-', '.', 'N', 'a', 'i', 'n', 'f'] := by
    have hc : c = '-' ∨ c ∈ text := by
      cases negative with
      | false => exact .inr hc
      | true => exact List.mem_cons.1 hc
    rcases hc with rfl | hc
    · exact .inr (by decide)
    · rcases htext c hc with hdigit | rfl | hword
      · exact .inl hdigit
      · exact .inr (by decide)
      · refine .inr ?_
        have hletters : c = 'i' ∨ c = 'n' ∨ c = 'f' := by simpa using hword
        rcases hletters with rfl | rfl | rfl <;> decide
  unfold displayDigits at h
  split at h
  · have hletters : c = 'N' ∨ c = 'a' ∨ c = 'N' := by simpa using h
    rcases hletters with rfl | rfl | rfl <;> exact .inr (by decide)
  · refine hbody (fun b hb => ?_) h
    split at hb
    · exact .inr (.inr hb)
    · split at hb
      · rw [List.mem_singleton.1 hb]
        exact .inl rfl
      · exact (mem_positional hb).imp_right .inl

end Scorecard.Number
