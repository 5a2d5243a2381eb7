import Mathlib.Algebra.Order.Field.Power
import Mathlib.Data.List.DropRight
import Mathlib.Data.Rat.Cast.Order
import Mathlib.Tactic.FieldSimp
import Mathlib.Tactic.Positivity
import Scorecard.Proofs.Digits
import Scorecard.Report.Amount

/-!
# Compact texts of numbers

A compact text is a sign, a whole part, decimal places without a zero at their end, and a suffix
that multiplies by a thousand or a million. It is read back by its suffix, its sign and its decimal
(`denoted?_text`). Trimming decimal places that are written in full leaves such a text of the same
value (`trimPlaces_signed`, `mantissa_ofUnits`).
-/

namespace Scorecard.Report

open Number

/-! ## Parts of a compact text -/

/-- What a compact text ends in. -/
inductive Suffix where
  | none
  | thousands
  | millions
  deriving DecidableEq

namespace Suffix

def text : Suffix → List Char
  | none => []
  | thousands => ['k']
  | millions => ['M']

/-- What a suffix multiplies by. -/
def scale : Suffix → Nat
  | none => 1
  | thousands => 1000
  | millions => 1000000

end Suffix

/-- A compact text in its parts. -/
structure Compact where
  negative : Bool
  whole : Nat
  /-- The decimal places; without any there is no point. -/
  places : List Char
  suffix : Suffix

namespace Compact

variable (c : Compact)

/-- The digits in front of the suffix. -/
def digits : List Char :=
  digitsOf c.whole ++ if c.places = [] then [] else '.' :: c.places

def text : List Char :=
  signed c.negative c.digits ++ c.suffix.text

/-- The decimal number in front of the suffix. -/
def decimal : Decimal :=
  ⟨digitsValue (digitsOf c.whole ++ c.places), -(c.places.length : Int)⟩

/-- The magnitude in front of the suffix. -/
def mantissa : ℚ :=
  c.decimal.value

/-- The number that a compact text denotes. -/
def value : ℚ :=
  (if c.negative then -c.mantissa else c.mantissa) * c.suffix.scale

/-- There is one way to write a number with a suffix: it has no zero at the end of its places, no
sign if it is zero, and a thousand has the next suffix. -/
structure IsCanonical : Prop where
  digits : Digits c.places
  trimmed : c.places.getLast? ≠ some '0'
  signless : c.mantissa = 0 → c.negative = false
  small : c.suffix ≠ .millions → c.mantissa < 1000

end Compact

/-! ## Reading compact texts -/

/-- Splits a suffix off and says what it multiplies by. -/
def splitSuffix (s : List Char) : List Char × Nat :=
  match s.reverse with
  | 'k' :: rest => (rest.reverse, 1000)
  | 'M' :: rest => (rest.reverse, 1000000)
  | _ => (s, 1)

/-- The number that a text with a sign, a decimal and a suffix denotes. -/
def denoted? (text : String) : Option ℚ :=
  let (rest, scale) := splitSuffix text.toList
  let (negative, body) := splitSign rest
  (decimal? body).map fun d => (if negative then -d.value else d.value) * scale

theorem splitSuffix_append {s : List Char} (h : ∀ c ∈ s, c ≠ 'k' ∧ c ≠ 'M') (suffix : Suffix) :
    splitSuffix (s ++ suffix.text) = (s, suffix.scale) := by
  unfold splitSuffix
  cases suffix with
  | thousands => simp [Suffix.text, Suffix.scale]
  | millions => simp [Suffix.text, Suffix.scale]
  | none =>
    rw [Suffix.text, List.append_nil]
    split
    · rename_i heq
      have hmem : 'k' ∈ s := List.mem_reverse.1 (heq ▸ List.mem_cons_self)
      exact absurd rfl (h _ hmem).1
    · rename_i heq
      have hmem : 'M' ∈ s := List.mem_reverse.1 (heq ▸ List.mem_cons_self)
      exact absurd rfl (h _ hmem).2
    · rfl

namespace Compact

variable {c : Compact}

theorem isDecimal_digits (h : Digits c.places) : IsDecimal c.digits c.decimal := by
  unfold digits decimal
  split
  · rename_i hnil
    have hwhole := IsDecimal.whole (digits_digitsOf c.whole) (digitsOf_ne_nil c.whole) .none
    simpa [hnil] using hwhole
  · have hpointed := IsDecimal.pointed (digits_digitsOf c.whole) h
      (fun hnil => digitsOf_ne_nil _ hnil.1) .none
    simpa using hpointed

theorem splitSign_signed {s : List Char} {d : Decimal} (h : IsDecimal s d) (negative : Bool) :
    splitSign (signed negative s) = (negative, s) := by
  obtain ⟨b, rest, rfl, hb⟩ := h.exists_cons
  have hhead : ∀ c ∈ (b :: rest).head?, c.isDigit = true ∨ c = '.' :=
    fun c hc => Option.some_inj.1 hc ▸ hb
  cases negative with
  | false => exact splitSign_append .none hhead
  | true => exact splitSign_append .minus hhead

theorem mem_digits (h : Digits c.places) {b : Char} (hb : b ∈ c.digits) :
    b.isDigit = true ∨ b = '.' := by
  unfold digits at hb
  rcases List.mem_append.1 hb with hb | hb
  · exact .inl (digits_digitsOf _ b hb)
  · split at hb
    · cases hb
    · rcases List.mem_cons.1 hb with hb | hb
      · exact .inr hb
      · exact .inl (h b hb)

theorem mem_signed {negative : Bool} {s : List Char} {b : Char} (h : b ∈ signed negative s) :
    b = '-' ∨ b ∈ s := by
  cases negative with
  | false => exact .inr h
  | true => exact List.mem_cons.1 h

theorem mem_text (h : Digits c.places) {b : Char} (hb : b ∈ c.text) :
    b.isDigit = true ∨ b ∈ ['.', '-', 'k', 'M'] := by
  rcases List.mem_append.1 hb with hb | hb
  · rcases mem_signed hb with rfl | hb
    · exact .inr (by decide)
    · rcases mem_digits h hb with hdigit | rfl
      · exact .inl hdigit
      · exact .inr (by decide)
  · right
    revert hb
    cases c.suffix <;> simp +contextual [Suffix.text]

theorem text_ne_nil (c : Compact) : c.text ≠ [] := by
  have hdigits : c.digits ≠ [] := by simp [digits, digitsOf_ne_nil]
  unfold text
  cases c.negative <;> simp [signed, hdigits]

/-- A compact text is read back. -/
theorem denoted?_text (h : Digits c.places) :
    denoted? (String.ofList c.text) = some c.value := by
  have hdecimal := isDecimal_digits h
  have hletters : ∀ b ∈ signed c.negative c.digits, b ≠ 'k' ∧ b ≠ 'M' := by
    intro b hb
    rcases mem_signed hb with rfl | hb
    · decide
    · rcases mem_digits h hb with hdigit | rfl
      · exact ⟨ne_of_isDigit hdigit rfl, ne_of_isDigit hdigit rfl⟩
      · decide
  unfold denoted? text
  rw [String.toList_ofList, splitSuffix_append hletters]
  dsimp only
  rw [splitSign_signed hdecimal, decimal?_eq_some_iff.2 hdecimal]
  rfl

end Compact

/-! ## Trimming places -/

/-- Decimal places without the zeros at their end. -/
def trimmed (places : List Char) : List Char :=
  places.rdropWhile (· == '0')

theorem rdropWhile_eq_self_of_getLast? {p : Char → Bool} {s : List Char}
    (h : ∀ c ∈ s.getLast?, p c = false) : s.rdropWhile p = s :=
  List.rdropWhile_eq_self_iff.2 fun hne => by
    simp [h _ (List.getLast?_eq_some_getLast hne)]

theorem exists_trimmed_append (places : List Char) :
    ∃ count, places = trimmed places ++ List.replicate count '0' := by
  have hsplit : trimmed places ++ places.rtakeWhile (· == '0') = places :=
    List.rdropWhile_append_rtakeWhile
  refine ⟨(places.rtakeWhile (· == '0')).length, ?_⟩
  rw [← List.eq_replicate_of_mem fun c hc => by simpa using List.mem_rtakeWhile_imp hc]
  exact hsplit.symm

theorem ne_zero_of_mem_getLast?_trimmed {places : List Char} {c : Char}
    (h : c ∈ (trimmed places).getLast?) : c ≠ '0' := by
  have hne : trimmed places ≠ [] := by
    rintro hnil
    rw [hnil] at h
    cases h
  have hlast := List.rdropWhile_last_not (· == '0') places hne
  rw [List.getLast?_eq_some_getLast hne] at h
  cases h
  exact fun heq => hlast (beq_iff_eq.2 heq)

theorem digits_trimmed {places : List Char} (h : Digits places) : Digits (trimmed places) :=
  fun c hc => h c ((List.rdropWhile_prefix (· == '0') places).subset hc)

theorem trimPlaces_eq (text : List Char) :
    trimPlaces text = (text.rdropWhile (· == '0')).rdropWhile (· == '.') := by
  simp [trimPlaces, List.rdropWhile]

theorem rdropWhile_append_zeros (s : List Char) (count : Nat) :
    (s ++ List.replicate count '0').rdropWhile (· == '0') = s.rdropWhile (· == '0') := by
  induction count with
  | zero => simp
  | succ count ih =>
    rw [List.replicate_succ', ← List.append_assoc, List.rdropWhile_concat_pos _ _ _ rfl, ih]

theorem getLast?_append_point (front places : List Char) :
    (front ++ '.' :: places).getLast? = some (places.getLast?.getD '.') := by
  rw [List.getLast?_append_cons, List.getLast?_cons]

/-- A point goes with the last of its places. -/
theorem trimPlaces_append {front places : List Char} (hfront : front.getLast? ≠ some '.')
    (hplaces : Digits places) :
    trimPlaces (front ++ '.' :: places) =
      front ++ if trimmed places = [] then [] else '.' :: trimmed places := by
  have hkept : (front ++ '.' :: places).rdropWhile (· == '0') = front ++ '.' :: trimmed places := by
    obtain ⟨count, hcount⟩ := exists_trimmed_append places
    have hsplit : front ++ '.' :: places =
        (front ++ '.' :: trimmed places) ++ List.replicate count '0' := by
      rw [List.append_assoc, List.cons_append, ← hcount]
    rw [hsplit, rdropWhile_append_zeros]
    refine rdropWhile_eq_self_of_getLast? fun c hc => beq_eq_false_iff_ne.2 ?_
    rw [getLast?_append_point, Option.mem_some_iff] at hc
    cases hlast : (trimmed places).getLast? with
    | none =>
      rw [hlast] at hc
      subst hc
      decide
    | some d =>
      rw [hlast] at hc
      exact hc ▸ ne_zero_of_mem_getLast?_trimmed hlast
  rw [trimPlaces_eq, hkept]
  split
  · rename_i hnil
    rw [hnil, List.rdropWhile_concat_pos _ _ _ rfl, List.append_nil]
    exact rdropWhile_eq_self_of_getLast? fun c hc => beq_eq_false_iff_ne.2 fun heq =>
      hfront (heq ▸ hc)
  · rename_i hne
    refine rdropWhile_eq_self_of_getLast? fun c hc => beq_eq_false_iff_ne.2 ?_
    rw [getLast?_append_point, List.getLast?_eq_some_getLast hne, Option.mem_some_iff] at hc
    have hdigit := digits_trimmed hplaces _ (List.getLast_mem hne)
    exact hc ▸ ne_of_isDigit hdigit rfl

/-! ## Counts of the last place -/

/-- The compact text of so many units of the last place. -/
def Compact.ofUnits (negative : Bool) (n places : Nat) (suffix : Suffix) : Compact where
  negative := negative && n != 0
  whole := n / 10 ^ places
  places := trimmed (placesOf places n)
  suffix

namespace Compact

variable (negative : Bool) (n places : Nat) (suffix : Suffix)

theorem digits_places_ofUnits : Digits (ofUnits negative n places suffix).places :=
  digits_trimmed (digits_placesOf places n)

/-- Trimming changes no value. -/
theorem mantissa_ofUnits : (ofUnits negative n places suffix).mantissa = n / 10 ^ places := by
  obtain ⟨count, hcount⟩ := exists_trimmed_append (placesOf places n)
  have hvalue := digitsValue_whole_append_places places n
  have hlength := length_placesOf places n
  rw [hcount, ← List.append_assoc, digitsValue_append_zeros] at hvalue
  rw [hcount, List.length_append, List.length_replicate] at hlength
  unfold mantissa decimal ofUnits Decimal.value
  dsimp only
  generalize (trimmed (placesOf places n)).length = length at hlength ⊢
  generalize digitsValue (digitsOf (n / 10 ^ places) ++ trimmed (placesOf places n)) = kept
    at hvalue ⊢
  rw [← hvalue, ← hlength, zpow_neg, zpow_natCast]
  push_cast
  field_simp
  ring

theorem value_ofUnits : (ofUnits negative n places suffix).value =
    (if negative then -(n / 10 ^ places : ℚ) else n / 10 ^ places) * suffix.scale := by
  unfold value
  rw [mantissa_ofUnits]
  by_cases hn : n = 0
  · simp [hn]
  · have hsign : (ofUnits negative n places suffix).negative = negative := by
      simp [ofUnits, hn]
    rw [hsign]
    rfl

/-- Decimal places that are written in full are trimmed to these. -/
theorem trimPlaces_signed (h : places ≠ 0) :
    trimPlaces (signed negative (withPlaces (digitsOf n) places)) =
      signed negative (ofUnits negative n places suffix).digits := by
  have hfront (text : List Char) : signed negative (digitsOf (n / 10 ^ places) ++ text) =
      signed negative (digitsOf (n / 10 ^ places)) ++ text := by cases negative <;> rfl
  have hlast : (signed negative (digitsOf (n / 10 ^ places))).getLast? ≠ some '.' := by
    intro hpoint
    rcases mem_signed (List.mem_of_mem_getLast? hpoint) with heq | hdigit
    · exact absurd heq (by decide)
    · exact absurd (digits_digitsOf _ _ hdigit) (by decide)
  rw [withPlaces_digitsOf, if_neg h, hfront, trimPlaces_append hlast (digits_placesOf places n)]
  exact (hfront _).symm

theorem withPlaces_zero : withPlaces (digitsOf n) 0 = (ofUnits negative n 0 suffix).digits := by
  rw [withPlaces_digitsOf]
  rfl

theorem trimmed_placesOf_zero : trimmed (placesOf places 0) = [] := by
  have hzeros : placesOf places 0 = List.replicate places '0' := by
    induction places with
    | zero => rfl
    | succ places ih =>
      rw [placesOf, Nat.zero_div, ih, List.replicate_succ']
      rfl
  have hnone := rdropWhile_append_zeros [] places
  rwa [List.nil_append, ← hzeros] at hnone

theorem isCanonical_ofUnits (h : suffix ≠ .millions → n < 1000 * 10 ^ places) :
    (ofUnits negative n places suffix).IsCanonical where
  digits := digits_places_ofUnits negative n places suffix
  trimmed hlast := ne_zero_of_mem_getLast?_trimmed hlast rfl
  signless hzero := by
    rw [mantissa_ofUnits, div_eq_zero_iff] at hzero
    have hn : n = 0 := Nat.cast_eq_zero.1 (hzero.resolve_right (by positivity))
    simp [ofUnits, hn]
  small hsuffix := by
    rw [mantissa_ofUnits, div_lt_iff₀ (by positivity)]
    exact_mod_cast h hsuffix

/-- A text of units is the compact text, but for the sign of zero. -/
theorem text_ofUnits (h : suffix ≠ .none → n ≠ 0) :
    (if signed negative (ofUnits negative n places suffix).digits ++ suffix.text = ['-', '0']
      then ['0'] else signed negative (ofUnits negative n places suffix).digits ++ suffix.text) =
      (ofUnits negative n places suffix).text := by
  by_cases hn : n = 0
  · have hsuffix : suffix = .none := by
      by_contra hne
      exact h hne hn
    subst hn hsuffix
    have hdigits : (ofUnits negative 0 places .none).digits = ['0'] := by
      simp only [digits, ofUnits, trimmed_placesOf_zero, Nat.zero_div]
      rfl
    simp only [text, hdigits]
    cases negative <;> rfl
  · have hsign : (ofUnits negative n places suffix).negative = negative := by simp [ofUnits, hn]
    have htext : signed negative (ofUnits negative n places suffix).digits ++ suffix.text =
        (ofUnits negative n places suffix).text := by rw [text, hsign]; rfl
    rw [htext, if_neg]
    -- the text of a zero with a sign denotes zero
    intro heq
    have hvalue := denoted?_text (digits_places_ofUnits negative n places suffix)
    have hzero := denoted?_text (c := ⟨true, 0, [], .none⟩) (by simp [Digits])
    have hsame : String.ofList (ofUnits negative n places suffix).text =
        String.ofList (⟨true, 0, [], .none⟩ : Compact).text := congrArg String.ofList heq
    rw [hsame, hzero, value_ofUnits, Option.some_inj] at hvalue
    have hunits : (n : ℚ) / 10 ^ places ≠ 0 := div_ne_zero (Nat.cast_ne_zero.2 hn) (by positivity)
    have hscale : (suffix.scale : ℚ) ≠ 0 := by cases suffix <;> simp [Suffix.scale]
    have hleft : (⟨true, 0, [], .none⟩ : Compact).value = 0 := by
      simp [value, mantissa, decimal, Decimal.value, digitsOf, digitsValue]
    rw [hleft] at hvalue
    rcases mul_eq_zero.1 hvalue.symm with hmantissa | hnone
    · split at hmantissa
      · exact hunits (neg_eq_zero.1 hmantissa)
      · exact hunits hmantissa
    · exact hscale hnone

end Compact

end Scorecard.Report
