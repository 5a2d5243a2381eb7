import Scorecard.Proofs.Amounts
import Scorecard.Proofs.RankOrder

/-!
# The score column of a table

A row of a table has an index with a point behind it, the score and the subject. Its score is found
again, with colours or without (`scoreCell_row`), and so the scores of a ranked table can be read
from the table itself: they do not increase downwards.
-/

namespace Scorecard.Report

open Number Text

/-! ## Reading a row -/

/-- What a terminal shows of a text. A code starts with an escape and ends in the letter m; the flag
says whether the text goes on inside of one. -/
def shown : Bool → List Char → List Char
  | _, [] => []
  | true, c :: rest => shown (c != 'm') rest
  | false, c :: rest => if c = '\x1b' then shown true rest else c :: shown false rest

/-- The score in a row: the word behind the index and its point. -/
def scoreCell (row : String) : String :=
  let behind := ((shown false row.toList).dropWhile (· != '.')).drop 1
  String.ofList ((behind.dropWhile (· == ' ')).takeWhile (· != ' '))

theorem shown_append {front : List Char} (h : '\x1b' ∉ front) (rest : List Char) :
    shown false (front ++ rest) = front ++ shown false rest := by
  induction front with
  | nil => rfl
  | cons c front ih =>
    obtain ⟨hc, hfront⟩ := not_or.1 (mt List.mem_cons.2 h)
    rw [List.cons_append, shown, if_neg (Ne.symm hc), ih hfront, List.cons_append]

theorem shown_codes (emphasis : Emphasis) (rest : List Char) :
    shown false (emphasis.codes.1.toList ++ rest) = shown false rest ∧
      shown false (emphasis.codes.2.toList ++ rest) = shown false rest := by
  cases emphasis <;> exact ⟨rfl, rfl⟩

/-- Setting a text off changes nothing of what is shown. -/
theorem shown_paint {text : String} (h : '\x1b' ∉ text.toList) (colors : Bool)
    (emphasis : Emphasis) (rest : List Char) :
    shown false ((paint colors emphasis text).toList ++ rest) =
      text.toList ++ shown false rest := by
  obtain ⟨hstart, hend⟩ := shown_codes emphasis (text.toList ++ (emphasis.codes.2.toList ++ rest))
  cases colors with
  | false => exact shown_append h rest
  | true =>
    rw [paint, if_pos rfl, String.toList_append, String.toList_append, List.append_assoc,
      List.append_assoc, hstart, shown_append h, (shown_codes emphasis rest).2]

theorem toList_padStart (width : Nat) (text : String) :
    (padStart width text).toList =
      List.replicate (width - text.length) ' ' ++ text.toList := by
  rw [padStart, String.toList_append, String.toList_ofList]

/-- An index has blanks and digits only. -/
theorem not_mem_index {c : Char} (hblank : c ≠ ' ') (hdigit : c.isDigit = false) (width n : Nat) :
    c ∉ (padStart width (toString n)).toList := by
  have hdigits : (toString n).toList = digitsOf n := by
    simp [toString, Nat.repr_eq_ofList_toDigits, digitsOf]
  rw [toList_padStart, hdigits]
  intro hmem
  rcases List.mem_append.1 hmem with hmem | hmem
  · exact hblank (List.eq_of_mem_replicate hmem)
  · exact ne_of_isDigit (digits_digitsOf n c hmem) hdigit rfl

theorem toList_row (colors : Bool) (ranked : Ranked) (index : Nat) :
    (row colors ranked index).toList =
      (paint colors .faint (padStart 2 (toString (index + 1)) ++ ".")).toList ++ (' ' ::
        ((paint colors .strong (padStart 7 (amount ranked.score))).toList ++
          ' ' :: ' ' :: ranked.subject.toList)) := by
  simp [row, toString]

/-- The word behind blanks. -/
theorem takeWhile_of_blanks {word : List Char} (hne : word ≠ []) (hblank : ' ' ∉ word)
    (count : Nat) (rest : List Char) :
    ((List.replicate count ' ' ++ (word ++ ' ' :: rest)).dropWhile (· == ' ')).takeWhile
      (· != ' ') = word := by
  obtain ⟨c, tail, rfl⟩ := List.exists_cons_of_ne_nil hne
  have hc : c ≠ ' ' := fun heq => hblank (heq ▸ List.mem_cons_self)
  have hdrop : (List.replicate count ' ' ++ (c :: tail ++ ' ' :: rest)).dropWhile (· == ' ') =
      c :: tail ++ ' ' :: rest := by
    refine (takeWhile_dropWhile_iff.2 ⟨rfl, fun d hd => ?_, by simpa using hc⟩).2
    exact beq_iff_eq.2 (List.eq_of_mem_replicate hd)
  rw [hdrop]
  exact (takeWhile_ne_append hblank rest).1

theorem isInf_of_not_isFinite {x : Float} (h : x.isFinite = false) (hnan : x.isNaN = false) :
    x.isInf = true := by
  show x.toModel.unpack.isInf = true
  have hfinite : x.toModel.unpack.isFinite = false := h
  have hnumber : x.toModel.unpack.isNaN = false := hnan
  cases hunpack : x.toModel.unpack <;> rw [hunpack] at hfinite hnumber
  case notANumber => cases hnumber
  case infinity => rfl
  case zero => cases hfinite
  case finite => cases hfinite

/-- What is no finite number has a name for its amount. -/
theorem amount_of_not_isFinite {x : Float} (h : x.isFinite = false) :
    amount x = "NaN" ∨ amount x = "inf" ∨ amount x = "-inf" := by
  rw [amount, if_neg (by rw [h]; decide), display, displayDigits]
  cases hnan : x.isNaN with
  | true => exact .inl rfl
  | false =>
    rw [isInf_of_not_isFinite h hnan]
    cases hnegative : (exact x).negative
    · exact .inr (.inl (by simp [hnegative, signed]))
    · exact .inr (.inr (by simp [hnegative, signed]))

/-- An amount is a word without codes. -/
theorem amount_isWord (x : Float) :
    (amount x).toList ≠ [] ∧ ' ' ∉ (amount x).toList ∧ '\x1b' ∉ (amount x).toList := by
  cases h : x.isFinite with
  | false =>
    rcases amount_of_not_isFinite h with hname | hname | hname <;> rw [hname] <;> decide
  | true =>
    obtain ⟨n, size, -, hcanonical, htext⟩ := exists_amount h
    rw [htext, String.toList_ofList]
    have hother {b : Char} (hb : b.isDigit = false) (hletter : b ∉ ['.', '-', 'k', 'M']) :
        b ∉ (Compact.ofUnits (exact x).negative n size.places size.suffix).text := fun hmem =>
      (Compact.mem_text hcanonical.digits hmem).elim (fun hdigit => ne_of_isDigit hdigit hb rfl)
        hletter
    exact ⟨Compact.text_ne_nil _, hother (by decide) (by decide), hother (by decide) (by decide)⟩

/-- What is shown of a row up to the subject is the same with colours and without. -/
theorem shown_row (colors : Bool) (ranked : Ranked) (index : Nat) :
    shown false (row colors ranked index).toList =
      (padStart 2 (toString (index + 1))).toList ++ '.' :: ' ' ::
        ((padStart 7 (amount ranked.score)).toList ++
          ' ' :: ' ' :: shown false ranked.subject.toList) := by
  have hindex : '\x1b' ∉ (padStart 2 (toString (index + 1)) ++ ".").toList := by
    rw [String.toList_append]
    exact List.not_mem_append (not_mem_index (by decide) (by decide) 2 _) (by decide)
  have hscore : '\x1b' ∉ (padStart 7 (amount ranked.score)).toList := by
    rw [toList_padStart]
    exact List.not_mem_append (fun h => absurd (List.eq_of_mem_replicate h) (by decide))
      (amount_isWord ranked.score).2.2
  rw [toList_row, shown_paint hindex, shown, if_neg (by decide), shown_paint hscore, shown,
    if_neg (by decide), shown, if_neg (by decide), String.toList_append, List.append_assoc]
  rfl

/-- The score of a row is found again. -/
theorem scoreCell_row (colors : Bool) (ranked : Ranked) (index : Nat) :
    scoreCell (row colors ranked index) = amount ranked.score := by
  obtain ⟨hne, hblank, -⟩ := amount_isWord ranked.score
  have hpoint := not_mem_index (c := '.') (by decide) (by decide) 2 (index + 1)
  -- the blank behind the point is one more in front of the score
  have hword := takeWhile_of_blanks hne hblank (7 - (amount ranked.score).length + 1)
    (' ' :: shown false ranked.subject.toList)
  rw [List.replicate_succ, List.cons_append] at hword
  rw [scoreCell, shown_row, (takeWhile_ne_append hpoint _).2, toList_padStart, List.append_assoc,
    List.drop_succ_cons, List.drop_zero, hword, String.ofList_toList]

/-! ## The column -/

/-- The rows of a table. -/
def rows (colors : Bool) (subjects : List Ranked) : List String :=
  subjects.zipIdx.map fun (ranked, index) => row colors ranked index

theorem table_eq {subjects : List Ranked} (h : subjects ≠ []) (colors : Bool) :
    table colors subjects = joinLines (rows colors subjects) := by
  rw [table, if_neg (by simpa using h), rows]

/-- The numbers that the scores in some rows denote; other scores have none. -/
def scoreColumn (rows : List String) : List (Option ℚ) :=
  rows.map fun text => denoted? (scoreCell text)

theorem scoreColumn_rows (colors : Bool) (subjects : List Ranked) :
    scoreColumn (rows colors subjects) =
      subjects.map fun ranked => denoted? (amount ranked.score) := by
  have hcell (entry : Ranked × Nat) :
      denoted? (scoreCell (row colors entry.1 entry.2)) = denoted? (amount entry.1.score) := by
    rw [scoreCell_row]
  simp only [scoreColumn, rows, List.map_map, Function.comp_def, hcell]
  conv_rhs => rw [← List.zipIdx_map_fst 0 subjects, List.map_map]
  rfl

theorem isFinite_of_denoted? {x : Float} {q : ℚ} (h : denoted? (amount x) = some q) :
    x.isFinite = true := by
  cases hx : x.isFinite with
  | true => rfl
  | false =>
    have hnone : denoted? (amount x) = none := by
      rcases amount_of_not_isFinite hx with hname | hname | hname <;> rw [hname] <;> rfl
    rw [hnone] at h
    cases h

/-- In a ranking, no subject denotes more than one in front of it. -/
theorem denoted?_le_of_precedes {a b : Ranked} (h : Ranked.precedes a b = true) {p q : ℚ}
    (hp : denoted? (amount a.score) = some p) (hq : denoted? (amount b.score) = some q) :
    q ≤ p := by
  have ha := isFinite_of_denoted? hp
  have hb := isFinite_of_denoted? hq
  have hle := Ranked.score_le_of_precedes h (isNaN_of_isFinite ha) (isNaN_of_isFinite hb)
  obtain ⟨q', p', hq', hp', hqp⟩ := denoted?_amount_le hb ha hle
  rw [hp] at hp'
  rw [hq] at hq'
  cases hp'
  cases hq'
  exact hqp

/-- The amount of a finite number is canonical, and the amount of a greater number does not denote
less. So the numbers in the score column of a ranked table do not increase downwards. -/
theorem amounts_in_order :
    (∀ x : Float, x.isFinite = true → ∃ c : Compact, c.IsCanonical ∧
      amount x = String.ofList c.text ∧ denoted? (amount x) = some c.value) ∧
    (∀ x y : Float, x.isFinite = true → y.isFinite = true → x ≤ y →
      ∃ p q, denoted? (amount x) = some p ∧ denoted? (amount y) = some q ∧ p ≤ q) ∧
    ∀ (colors : Bool) (subjects : List Ranked), subjects ≠ [] →
      let ranked := Ranked.rank subjects
      table colors ranked = joinLines (rows colors ranked) ∧
      scoreColumn (rows colors ranked) =
        ranked.map (fun subject => denoted? (amount subject.score)) ∧
      (scoreColumn (rows colors ranked)).Pairwise fun above below =>
        ∀ p q, above = some p → below = some q → q ≤ p := by
  refine ⟨fun x hx => ?_, fun x y => denoted?_amount_le, fun colors subjects hne => ?_⟩
  · obtain ⟨n, size, -, hcanonical, htext⟩ := exists_amount hx
    refine ⟨_, hcanonical, htext, ?_⟩
    rw [htext, Compact.denoted?_text hcanonical.digits]
  · have hranked : Ranked.rank subjects ≠ [] := fun hnil =>
      hne (List.nil_perm.1 (hnil ▸ Ranked.rank_perm subjects))
    refine ⟨table_eq hranked colors, scoreColumn_rows colors _, ?_⟩
    rw [scoreColumn_rows, List.pairwise_map]
    exact (Ranked.pairwise_rank subjects).imp fun h p q => denoted?_le_of_precedes h

/-- The greatest number below a seam and the first one behind it, what rounds to zero from below,
and a table across two seams. -/
theorem amounts_in_order_at_seams :
    ((-0.001 : Float).isFinite = true ∧ amount (-0.001) = "0" ∧
      ∃ c : Compact, c.IsCanonical ∧ amount (-0.001) = String.ofList c.text ∧
        denoted? (amount (-0.001)) = some c.value) ∧
    ((999.4999999999999 : Float).isFinite = true ∧ (999.5 : Float).isFinite = true ∧
      (999.4999999999999 : Float) ≤ 999.5 ∧
      amount 999.4999999999999 = "999" ∧ amount 999.5 = "1k" ∧
      ∃ p q, denoted? (amount 999.4999999999999) = some p ∧ denoted? (amount 999.5) = some q ∧
        p ≤ q) ∧
    let subjects : List Ranked := [⟨"a", 9.995⟩, ⟨"b", 999950.0⟩, ⟨"c", 999949.0⟩]
    let ranked := Ranked.rank subjects
    subjects ≠ [] ∧ table true ranked = joinLines (rows true ranked) ∧
      scoreColumn (rows true ranked) =
        ranked.map (fun subject => denoted? (amount subject.score)) ∧
      (scoreColumn (rows true ranked)).Pairwise fun above below =>
        ∀ p q, above = some p → below = some q → q ≤ p :=
  have hsmall : (-0.001 : Float).isFinite = true := by decide +kernel
  have hbelow : (999.4999999999999 : Float).isFinite = true := by decide +kernel
  have hseam : (999.5 : Float).isFinite = true := by decide +kernel
  have hle : (999.4999999999999 : Float) ≤ 999.5 := by decide +kernel
  have hne : ([⟨"a", 9.995⟩, ⟨"b", 999950.0⟩, ⟨"c", 999949.0⟩] : List Ranked) ≠ [] :=
    List.cons_ne_nil _ _
  ⟨⟨hsmall, by decide +kernel, amounts_in_order.1 _ hsmall⟩,
    ⟨hbelow, hseam, hle, by decide +kernel, by decide +kernel,
      amounts_in_order.2.1 _ _ hbelow hseam hle⟩,
    hne, amounts_in_order.2.2 true _ hne⟩

end Scorecard.Report
