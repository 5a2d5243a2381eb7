import Mathlib.Data.List.TakeWhile
import Scorecard.Number.Spelling

/-!
# The texts that spell finite numbers

A finite number is spelled by a sign, which may be missing, decimal digits with a point anywhere
among or beside them, and an exponent, which may be missing. What is spelled so may still be beyond
the range, and the words for infinity and NaN spell no finite number either. Main statement:
`readFinite?_eq_some_iff_spells`.
-/

namespace Scorecard

namespace Text

/-- What a text has in front of the first character that fails a test, and the rest. -/
theorem takeWhile_dropWhile_iff {p : Char → Bool} {s front rest : List Char} :
    s.takeWhile p = front ∧ s.dropWhile p = rest ↔
      s = front ++ rest ∧ (∀ c ∈ front, p c = true) ∧ ∀ c ∈ rest.head?, p c = false := by
  constructor
  · rintro ⟨rfl, rfl⟩
    refine ⟨List.takeWhile_append_dropWhile.symm, List.all_eq_true.1 List.all_takeWhile, ?_⟩
    intro c hc
    have hnot := List.head?_dropWhile_not p s
    rw [Option.mem_def.1 hc] at hnot
    simpa using hnot
  · rintro ⟨rfl, hfront, hrest⟩
    rw [List.takeWhile_append_of_pos hfront, List.dropWhile_append_of_pos hfront]
    cases rest with
    | nil => simp
    | cons c rest => simp [hrest c rfl]

/-- What a text has in front of the first occurrence of a character. -/
theorem takeWhile_ne_append {c : Char} {front : List Char} (h : c ∉ front) (rest : List Char) :
    (front ++ c :: rest).takeWhile (· != c) = front ∧
      (front ++ c :: rest).dropWhile (· != c) = c :: rest :=
  takeWhile_dropWhile_iff.2 ⟨rfl, fun _ hd => bne_iff_ne.2 fun heq => h (heq ▸ hd), by simp⟩

theorem append_cons_inj {c : Char} {front front' rest rest' : List Char} (h : c ∉ front)
    (h' : c ∉ front') (heq : front ++ c :: rest = front' ++ c :: rest') :
    front = front' ∧ rest = rest' := by
  obtain ⟨hfront, hrest⟩ := takeWhile_ne_append h rest
  obtain ⟨hfront', hrest'⟩ := takeWhile_ne_append h' rest'
  rw [heq] at hfront hrest
  exact ⟨hfront.symm.trans hfront', (List.cons.inj (hrest.symm.trans hrest')).2⟩

end Text

namespace Number

open Text

/-! ## The parts of a numeral -/

/-- Decimal digits, or no character at all. -/
def Digits (s : List Char) : Prop :=
  ∀ c ∈ s, c.isDigit = true

/-- A sign, which may be missing; the flag says whether it is a minus. -/
inductive IsSign : Bool → List Char → Prop where
  | none : IsSign false []
  | plus : IsSign false ['+']
  | minus : IsSign true ['-']

/-- An exponent, which may be missing. -/
inductive IsExponent : List Char → Int → Prop where
  | none : IsExponent [] 0
  | marked {mark : Char} {negative : Bool} {sign digits : List Char}
      (hmark : mark = 'e' ∨ mark = 'E') (hsign : IsSign negative sign) (hne : digits ≠ [])
      (hdigits : Digits digits) :
      IsExponent (mark :: (sign ++ digits))
        (if negative then -(digitsValue digits : Int) else digitsValue digits)

/-- Digits without or with a point, at least one of them, and an exponent. -/
inductive IsDecimal : List Char → Decimal → Prop where
  | whole {digits tail : List Char} {exponent : Int} (hdigits : Digits digits) (hne : digits ≠ [])
      (htail : IsExponent tail exponent) :
      IsDecimal (digits ++ tail) ⟨digitsValue digits, exponent⟩
  | pointed {whole fraction tail : List Char} {exponent : Int} (hwhole : Digits whole)
      (hfraction : Digits fraction) (hne : ¬(whole = [] ∧ fraction = []))
      (htail : IsExponent tail exponent) :
      IsDecimal (whole ++ '.' :: (fraction ++ tail))
        ⟨digitsValue (whole ++ fraction), exponent - fraction.length⟩

/-- A text spells a finite number. -/
def Spells (s : List Char) (x : Float) : Prop :=
  ∃ negative sign body d, s = sign ++ body ∧ IsSign negative sign ∧ IsDecimal body d ∧
    x = (if negative then -d.toFloat else d.toFloat) ∧ x.isFinite = true

/-! ## Signs -/

theorem isSign_splitSign (s : List Char) :
    ∃ sign, s = sign ++ (splitSign s).2 ∧ IsSign (splitSign s).1 sign := by
  unfold splitSign
  split
  · exact ⟨['-'], rfl, .minus⟩
  · exact ⟨['+'], rfl, .plus⟩
  · exact ⟨[], rfl, .none⟩

theorem ne_of_isDigit {c d : Char} (hc : c.isDigit = true) (hd : d.isDigit = false) : c ≠ d := by
  rintro rfl
  rw [hc] at hd
  cases hd

/-- A sign in front of a digit or a point is split off. -/
theorem splitSign_append {negative : Bool} {sign rest : List Char} (hsign : IsSign negative sign)
    (hrest : ∀ c ∈ rest.head?, c.isDigit = true ∨ c = '.') :
    splitSign (sign ++ rest) = (negative, rest) := by
  cases hsign with
  | plus => rfl
  | minus => rfl
  | none =>
    cases rest with
    | nil => rfl
    | cons c rest =>
      have hne : c ≠ '-' ∧ c ≠ '+' := by
        rcases hrest c rfl with hc | rfl
        · exact ⟨ne_of_isDigit hc rfl, ne_of_isDigit hc rfl⟩
        · decide
      simp [splitSign, hne]

/-! ## Exponents -/

theorem exponent?_eq_some_iff {s : List Char} {exponent : Int} :
    exponent? s = some exponent ↔ IsExponent s exponent := by
  constructor
  · intro h
    cases s with
    | nil =>
      cases h
      exact .none
    | cons mark rest =>
      simp only [exponent?] at h
      split at h
      · rename_i hparts
        cases h
        simp only [Bool.and_eq_true, Bool.or_eq_true, beq_iff_eq, List.all_eq_true,
          decide_eq_true_eq] at hparts
        obtain ⟨⟨hmark, hne⟩, hdigits⟩ := hparts
        obtain ⟨sign, hrest, hsign⟩ := isSign_splitSign rest
        have hexponent := IsExponent.marked hmark hsign hne hdigits
        rwa [← hrest] at hexponent
      · cases h
  · intro h
    cases h with
    | none => rfl
    | @marked mark negative sign digits hmark hsign hne hdigits =>
      have hsplit : splitSign (sign ++ digits) = (negative, digits) :=
        splitSign_append hsign fun c hc => .inl (hdigits c (List.mem_of_mem_head? hc))
      have hall : digits.all Char.isDigit = true := List.all_eq_true.2 hdigits
      simp [exponent?, hsplit, hmark, hne, hall]

/-- No digit and no point stands where the exponent does. -/
theorem IsExponent.head? {s : List Char} {exponent : Int} (h : IsExponent s exponent) :
    ∀ c ∈ s.head?, c.isDigit = false ∧ c ≠ '.' := by
  cases h with
  | none => simp
  | marked hmark =>
    intro c hc
    obtain rfl := Option.some_inj.1 hc
    rcases hmark with rfl | rfl <;> decide

/-! ## Decimal numbers -/

theorem decimal?_eq_some_iff {s : List Char} {d : Decimal} :
    decimal? s = some d ↔ IsDecimal s d := by
  constructor
  · intro h
    unfold decimal? at h
    simp only at h
    obtain ⟨hs, hwhole, _⟩ := takeWhile_dropWhile_iff.1
      ⟨rfl, (rfl : s.dropWhile Char.isDigit = s.dropWhile Char.isDigit)⟩
    split at h
    · rename_i rest hpoint
      obtain ⟨hrest, hfraction, _⟩ := takeWhile_dropWhile_iff.1
        ⟨rfl, (rfl : rest.dropWhile Char.isDigit = rest.dropWhile Char.isDigit)⟩
      split at h
      · cases h
      · rename_i hne
        obtain ⟨exponent, hexponent, rfl⟩ := Option.map_eq_some_iff.1 h
        have hdecimal := IsDecimal.pointed hwhole hfraction hne (exponent?_eq_some_iff.1 hexponent)
        rwa [← hrest, ← hpoint, ← hs] at hdecimal
    · split at h
      · cases h
      · rename_i hne
        obtain ⟨exponent, hexponent, rfl⟩ := Option.map_eq_some_iff.1 h
        have hdecimal := IsDecimal.whole hwhole (fun hnil => hne ⟨hnil, rfl⟩)
          (exponent?_eq_some_iff.1 hexponent)
        rw [← hs] at hdecimal
        simpa using hdecimal
  · intro h
    cases h with
    | @whole digits tail exponent hdigits hne htail =>
      obtain ⟨hwhole, hrest⟩ := takeWhile_dropWhile_iff.2
        ⟨rfl, hdigits, fun c hc => (htail.head? c hc).1⟩
      -- the tail is no point, so no fraction is read
      have hpoint : ∀ rest, tail ≠ '.' :: rest := by
        rintro rest rfl
        exact (htail.head? '.' rfl).2 rfl
      simp [decimal?, hwhole, hrest, hne, exponent?_eq_some_iff.2 htail]
    | @pointed whole fraction tail exponent hwhole hfraction hne htail =>
      obtain ⟨hfront, hback⟩ := takeWhile_dropWhile_iff.2
        ⟨(rfl : whole ++ '.' :: (fraction ++ tail) = _), hwhole,
          fun c hc => by cases hc; rfl⟩
      obtain ⟨hdigits, hrest⟩ := takeWhile_dropWhile_iff.2
        ⟨rfl, hfraction, fun c hc => (htail.head? c hc).1⟩
      simp only [decimal?, hfront, hback, hdigits, hrest, if_neg hne,
        exponent?_eq_some_iff.2 htail, Option.map_some]

/-- A decimal number starts with a digit or a point. -/
theorem IsDecimal.exists_cons {s : List Char} {d : Decimal} (h : IsDecimal s d) :
    ∃ c rest, s = c :: rest ∧ (c.isDigit = true ∨ c = '.') := by
  cases h with
  | @whole digits tail exponent hdigits hne _ =>
    obtain ⟨c, digits, rfl⟩ := List.exists_cons_of_ne_nil hne
    exact ⟨c, digits ++ tail, rfl, .inl (hdigits c List.mem_cons_self)⟩
  | @pointed whole fraction tail exponent hwhole _ _ _ =>
    cases whole with
    | nil => exact ⟨'.', fraction ++ tail, rfl, .inr rfl⟩
    | cons c whole => exact ⟨c, _, rfl, .inl (hwhole c List.mem_cons_self)⟩

/-! ## Characters -/

theorem mem_of_isSign {negative : Bool} {sign : List Char} (h : IsSign negative sign) {c : Char}
    (hc : c ∈ sign) : c ∈ ['+', '-', '.', 'e', 'E'] := by
  cases h with
  | none => cases hc
  | plus => simp [List.mem_singleton.1 hc]
  | minus => simp [List.mem_singleton.1 hc]

theorem mem_of_isExponent {s : List Char} {exponent : Int} (h : IsExponent s exponent) {c : Char}
    (hc : c ∈ s) : c.isDigit = true ∨ c ∈ ['+', '-', '.', 'e', 'E'] := by
  cases h with
  | none => cases hc
  | marked hmark hsign _ hdigits =>
    rcases List.mem_cons.1 hc with rfl | hc
    · rcases hmark with rfl | rfl <;> exact .inr (by decide)
    · rcases List.mem_append.1 hc with hc | hc
      · exact .inr (mem_of_isSign hsign hc)
      · exact .inl (hdigits c hc)

/-- A decimal number is spelled with digits, a point and the characters of its exponent. -/
theorem mem_of_isDecimal {s : List Char} {d : Decimal} (h : IsDecimal s d) {c : Char}
    (hc : c ∈ s) : c.isDigit = true ∨ c ∈ ['+', '-', '.', 'e', 'E'] := by
  cases h with
  | whole hdigits _ htail =>
    rcases List.mem_append.1 hc with hc | hc
    · exact .inl (hdigits c hc)
    · exact mem_of_isExponent htail hc
  | pointed hwhole hfraction _ htail =>
    rcases List.mem_append.1 hc with hc | hc
    · exact .inl (hwhole c hc)
    · rcases List.mem_cons.1 hc with rfl | hc
      · exact .inr (by decide)
      · rcases List.mem_append.1 hc with hc | hc
        · exact .inl (hfraction c hc)
        · exact mem_of_isExponent htail hc

/-- The letters of the words for infinity and NaN. -/
def wordLetters : List Char :=
  ['i', 'n', 'f', 't', 'y', 'a']

theorem mem_of_magnitude? {s : List Char} {x : Float} (h : magnitude? s = some x) {c : Char}
    (hc : c ∈ s) :
    c.isDigit = true ∨ c ∈ ['+', '-', '.', 'e', 'E'] ∨ c.toLower ∈ wordLetters := by
  have hword {word : List Char} (hsame : s.map Char.toLower = word)
      (hletters : word ⊆ wordLetters) : c.toLower ∈ wordLetters :=
    hletters (hsame ▸ List.mem_map_of_mem hc)
  unfold magnitude? at h
  simp only at h
  split at h
  · rename_i hinfinity
    rcases hinfinity with hinf | hinfinity
    · exact .inr (.inr (hword hinf (by decide)))
    · exact .inr (.inr (hword hinfinity (by decide)))
  · split at h
    · rename_i hnan
      exact .inr (.inr (hword hnan (by decide)))
    · obtain ⟨d, hd, _⟩ := Option.map_eq_some_iff.1 h
      exact (mem_of_isDecimal (decimal?_eq_some_iff.1 hd) hc).imp_right .inl

/-- A number is spelled with digits, a few marks, and the letters of its words in any case. -/
theorem mem_of_read? {s : List Char} {x : Float} (h : read? s = some x) {c : Char} (hc : c ∈ s) :
    c.isDigit = true ∨ c ∈ ['+', '-', '.', 'e', 'E'] ∨ c.toLower ∈ wordLetters := by
  obtain ⟨sign, hs, hsign⟩ := isSign_splitSign s
  obtain ⟨magnitude, hmagnitude, _⟩ := Option.map_eq_some_iff.1 h
  rw [hs] at hc
  rcases List.mem_append.1 hc with hc | hc
  · exact .inr (.inl (mem_of_isSign hsign hc))
  · exact mem_of_magnitude? hmagnitude hc

/-! ## Finite numbers -/

theorem toLower_eq_self {c : Char} (h : c.isDigit = true ∨ c = '.') : c.toLower = c := by
  have hupper : ¬(c.val ≥ 'A'.val ∧ c.val ≤ 'Z'.val) := by
    rcases h with h | rfl
    · simp only [Char.isDigit, Bool.and_eq_true, decide_eq_true_eq] at h
      exact fun hupper => absurd (UInt32.le_trans hupper.1 h.2) (by decide)
    · decide
  exact dif_neg hupper

/-- What starts with a digit or a point is no word for infinity or NaN. -/
theorem magnitude?_of_isDecimal {s : List Char} {d : Decimal} (h : IsDecimal s d) :
    magnitude? s = some d.toFloat := by
  obtain ⟨c, rest, rfl, hc⟩ := h.exists_cons
  have hword (w : List Char) (hw : (w.head?.all fun b => !b.isDigit && b != '.') = true) :
      (c :: rest).map Char.toLower ≠ w := by
    rintro rfl
    simp only [List.map_cons, List.head?_cons, toLower_eq_self hc, Option.all_some,
      Bool.and_eq_true, Bool.not_eq_true', bne_iff_ne] at hw
    rcases hc with hc | hc
    · exact ne_of_isDigit hc hw.1 rfl
    · exact hw.2 hc
  unfold magnitude?
  rw [if_neg, if_neg, decimal?_eq_some_iff.2 h]
  · rfl
  · exact hword _ rfl
  · rintro (hinf | hinfinity)
    · exact hword _ rfl hinf
    · exact hword _ rfl hinfinity

theorem isDecimal_of_magnitude? {s : List Char} {x : Float} (h : magnitude? s = some x)
    {negative : Bool} (hfinite : (if negative then -x else x).isFinite = true) :
    ∃ d, IsDecimal s d ∧ x = d.toFloat := by
  unfold magnitude? at h
  simp only at h
  split at h
  · cases h
    cases negative <;> exact absurd hfinite (by decide +kernel)
  · split at h
    · cases h
      cases negative <;> exact absurd hfinite (by decide +kernel)
    · obtain ⟨d, hd, rfl⟩ := Option.map_eq_some_iff.1 h
      exact ⟨d, decimal?_eq_some_iff.1 hd, rfl⟩

/-- A text reads as a finite number exactly if it spells it. -/
theorem readFinite?_eq_some_iff_spells {s : List Char} {x : Float} :
    readFinite? s = some x ↔ Spells s x := by
  rw [readFinite?, Option.filter_eq_some_iff]
  constructor
  · rintro ⟨hread, hfinite⟩
    obtain ⟨magnitude, hmagnitude, rfl⟩ := Option.map_eq_some_iff.1 hread
    obtain ⟨sign, hs, hsign⟩ := isSign_splitSign s
    obtain ⟨d, hdecimal, rfl⟩ := isDecimal_of_magnitude? hmagnitude hfinite
    exact ⟨_, sign, _, d, hs, hsign, hdecimal, rfl, hfinite⟩
  · rintro ⟨negative, sign, body, d, rfl, hsign, hdecimal, rfl, hfinite⟩
    obtain ⟨c, rest, rfl, hc⟩ := hdecimal.exists_cons
    have hsplit : splitSign (sign ++ c :: rest) = (negative, c :: rest) :=
      splitSign_append hsign fun b hb => Option.some_inj.1 hb ▸ hc
    refine ⟨?_, hfinite⟩
    simp only [read?, hsplit, magnitude?_of_isDecimal hdecimal, Option.map_some]

end Number

end Scorecard
