import Scorecard.Proofs.TotalOrder
import Scorecard.Ranking

/-!
# The order of a ranking

Two scored subjects compare by their scores first, a greater one in front and NaN behind every
number, and then by their names. The comparison is a total order of the rows, so a ranking of the
same rows is the same however they come, with falling scores and at its end the NaN scores in name
order. Main statement: `ranking_of_subjects`.

Scores compare in the total order of numbers, which puts `0` in front of `-0`. These two are equal
numbers, and between them the names do not count: that is the only way in which subjects with equal
scores can stand out of name order (`ties_in_name_order`).
-/

namespace Scorecard.Ranked

open Number

/-! ## The comparison of rows -/

/-- How two scored subjects compare, the smaller one in front. -/
def order (a b : Ranked) : Ordering :=
  let byScore := match a.score.isNaN, b.score.isNaN with
    | false, false => compare (orderKey b.score) (orderKey a.score)
    | aIsNaN, bIsNaN => compare aIsNaN bIsNaN
  byScore.then (compare a.subject b.subject)

section

variable {a b : Ranked}

theorem order_of_numbers (ha : a.score.isNaN = false) (hb : b.score.isNaN = false) :
    order a b = (compare (orderKey b.score) (orderKey a.score)).then
      (compare a.subject b.subject) := by
  simp only [order, ha, hb]

theorem order_of_isNaN (ha : a.score.isNaN = true) :
    order a b = (compare true b.score.isNaN).then (compare a.subject b.subject) := by
  simp only [order, ha]

theorem order_of_isNaN_right (hb : b.score.isNaN = true) :
    order a b = (compare a.score.isNaN true).then (compare a.subject b.subject) := by
  cases ha : a.score.isNaN <;> simp only [order, ha, hb]

end

theorem isLE_compare_names {s t : String} : (compare s t).isLE = true ↔ s ≤ t :=
  isLE_compareOfLessAndEq String.le_antisymm String.not_le String.le_total

/-- A subject may stand in front of another one if it does not compare as greater. -/
theorem precedes_eq_isLE_order (a b : Ranked) : precedes a b = (order a b).isLE := by
  rw [Bool.eq_iff_iff]
  unfold precedes
  cases ha : a.score.isNaN <;> cases hb : b.score.isNaN
  · rw [order_of_numbers ha hb, Ordering.isLE_then_iff_or, isLE_compare_names,
      compare_lt_iff_lt, compare_eq_iff_eq, Bool.or_eq_true, decide_eq_true_iff, Bool.and_eq_true,
      beq_iff_eq, decide_eq_true_iff, @eq_comm _ (orderKey a.score)]
  · rw [order_of_isNaN_right hb, ha]
    exact iff_of_true rfl rfl
  · rw [order_of_isNaN ha, hb]
    exact iff_of_false Bool.false_ne_true Bool.false_ne_true
  · rw [order_of_isNaN ha, hb, Std.compare_self, Ordering.eq_then, isLE_compare_names]
    exact decide_eq_true_iff

theorem order_eq_swap (a b : Ranked) : order a b = (order b a).swap := by
  cases ha : a.score.isNaN with
  | true =>
    rw [order_of_isNaN ha, order_of_isNaN_right ha, Ordering.swap_then, ← Std.OrientedOrd.eq_swap,
      ← Std.OrientedOrd.eq_swap]
  | false =>
    cases hb : b.score.isNaN with
    | true =>
      rw [order_of_isNaN hb, order_of_isNaN_right hb, Ordering.swap_then,
        ← Std.OrientedOrd.eq_swap, ← Std.OrientedOrd.eq_swap]
    | false =>
      rw [order_of_numbers ha hb, order_of_numbers hb ha, Ordering.swap_then,
        ← Std.OrientedOrd.eq_swap, ← Std.OrientedOrd.eq_swap]

/-- Subjects that compare as equal have the same name and the same score. -/
theorem eq_of_order_eq {a b : Ranked} (h : order a b = .eq) : a = b := by
  have heq (hnames : compare a.subject b.subject = .eq) (hscores : a.score = b.score) : a = b := by
    obtain ⟨aName, aScore⟩ := a
    obtain ⟨bName, bScore⟩ := b
    rw [Ranked.mk.injEq]
    exact ⟨Std.compare_eq_iff_eq.1 hnames, hscores⟩
  cases ha : a.score.isNaN <;> cases hb : b.score.isNaN
  · rw [order_of_numbers ha hb, Ordering.then_eq_eq] at h
    exact heq h.2 (eq_of_orderKey_eq (Std.compare_eq_iff_eq.1 h.1).symm)
  · rw [order_of_isNaN_right hb, ha] at h
    cases h
  · rw [order_of_isNaN ha, hb] at h
    cases h
  · rw [order_of_isNaN ha, Ordering.then_eq_eq] at h
    exact heq h.2 (eq_of_isNaN ha hb)

instance : Std.OrientedCmp order where
  eq_swap := order_eq_swap _ _

instance : Std.TransCmp order where
  isLE_trans {a b c} hab hbc := by
    rw [← precedes_eq_isLE_order] at hab hbc ⊢
    exact precedes_trans hab hbc

instance : Std.LawfulEqCmp order where
  eq_of_compare := eq_of_order_eq

/-! ## What stands in front -/

section

variable {a b : Ranked}

theorem eq_of_precedes (hab : precedes a b = true) (hba : precedes b a = true) : a = b := by
  rw [precedes_eq_isLE_order] at hab hba
  exact eq_of_order_eq (Std.OrientedCmp.isLE_antisymm hab hba)

/-- Behind a NaN score there are only NaN scores, in name order. -/
theorem isNaN_of_precedes (h : precedes a b = true) (ha : a.score.isNaN = true) :
    b.score.isNaN = true ∧ a.subject ≤ b.subject := by
  rw [precedes, ha] at h
  cases hb : b.score.isNaN with
  | false =>
    rw [hb] at h
    cases h
  | true =>
    rw [hb] at h
    exact ⟨rfl, of_decide_eq_true h⟩

theorem orderKey_of_precedes (h : precedes a b = true) (ha : a.score.isNaN = false)
    (hb : b.score.isNaN = false) :
    orderKey b.score < orderKey a.score ∨ a.score = b.score ∧ a.subject ≤ b.subject := by
  rw [precedes, ha, hb, Bool.or_eq_true, decide_eq_true_iff, Bool.and_eq_true, beq_iff_eq,
    decide_eq_true_iff] at h
  exact h.imp_right fun htie => ⟨eq_of_orderKey_eq htie.1, htie.2⟩

/-- Numbers fall. -/
theorem score_le_of_precedes (h : precedes a b = true) (ha : a.score.isNaN = false)
    (hb : b.score.isNaN = false) : b.score ≤ a.score := by
  have hkeys : orderKey b.score ≤ orderKey a.score := by
    rcases orderKey_of_precedes h ha hb with hlt | ⟨heq, -⟩
    · exact Int.le_of_lt hlt
    · rw [heq]
  exact le_iff_point.2 ⟨hb, ha, point_le_of_ordered hb ha (decide_eq_true hkeys)⟩

/-- Subjects with equal scores stand in name order, or are split by the two zeros. -/
theorem subject_le_of_precedes (h : precedes a b = true) (htie : (a.score == b.score) = true) :
    a.subject ≤ b.subject ∨ a.score = 0 ∧ b.score = -0 := by
  obtain ⟨ha, hb, -⟩ := beq_iff_point.1 htie
  rcases orderKey_of_precedes h ha hb with hlt | ⟨-, hle⟩
  · rcases eq_or_zeros_of_beq htie with heq | hzeros | hzeros
    · rw [heq] at hlt
      exact absurd hlt (Int.lt_irrefl _)
    · exact .inr hzeros
    · rw [hzeros.1, hzeros.2] at hlt
      exact absurd hlt (by decide +kernel)
  · exact .inl hle

end

/-! ## Rankings -/

/-- Rows have one ranking, in whatever order they come. -/
theorem rank_eq_of_perm {subjects others : List Ranked} (h : others.Perm subjects) :
    rank others = rank subjects := by
  refine List.Perm.eq_of_pairwise (fun a b _ _ => eq_of_precedes) (pairwise_rank others)
    (pairwise_rank subjects) ?_
  exact ((rank_perm others).trans h).trans (rank_perm subjects).symm

/-- A ranking has the rows it is given, the NaN scores at the end and in name order, the others
never rising, and it is the same for the same rows in any order. The comparison it sorts by is a
total order: reflexive, antisymmetric and transitive. -/
theorem ranking_of_subjects (subjects : List Ranked) :
    (rank subjects).Perm subjects ∧
    ((rank subjects).Pairwise fun a b =>
      (a.score.isNaN = true → b.score.isNaN = true ∧ a.subject ≤ b.subject) ∧
      (a.score.isNaN = false → b.score.isNaN = false → b.score ≤ a.score)) ∧
    (∀ others : List Ranked, others.Perm subjects → rank others = rank subjects) ∧
    ∀ a b c : Ranked, precedes a b = (order a b).isLE ∧
      (order a b = .eq ↔ a = b) ∧ order b a = (order a b).swap ∧
      ((order a b).isLE = true → (order b c).isLE = true → (order a c).isLE = true) := by
  refine ⟨rank_perm subjects, ?_, fun others h => rank_eq_of_perm h, fun a b c => ?_⟩
  · exact (pairwise_rank subjects).imp fun h => ⟨isNaN_of_precedes h, score_le_of_precedes h⟩
  · exact ⟨precedes_eq_isLE_order a b, Std.LawfulEqCmp.compare_eq_iff_eq, order_eq_swap b a,
      Std.TransCmp.isLE_trans⟩

/-- If equal scores are in name order, so are the names of a score `0` and a score `-0`. -/
theorem subject_le_of_zeros {subjects : List Ranked}
    (h : (rank subjects).Pairwise fun a b => (a.score == b.score) = true → a.subject ≤ b.subject)
    {a b : Ranked} (ha : a ∈ subjects) (hb : b ∈ subjects) (hzero : a.score = 0)
    (hnegative : b.score = -0) : a.subject ≤ b.subject := by
  have hperm := rank_perm subjects
  obtain ⟨i, hi, rfl⟩ := List.mem_iff_getElem.1 (hperm.mem_iff.2 ha)
  obtain ⟨j, hj, rfl⟩ := List.mem_iff_getElem.1 (hperm.mem_iff.2 hb)
  -- the score `0` is in front, since the total order tells the two zeros apart
  rcases Nat.lt_trichotomy i j with hlt | rfl | hgt
  · have htie : ((0 : Float) == -0) = true := by decide +kernel
    rw [← hnegative, ← hzero] at htie
    exact List.pairwise_iff_getElem.1 h i j hi hj hlt htie
  · exact String.le_refl _
  · have hprecedes := List.pairwise_iff_getElem.1 (pairwise_rank subjects) j i hj hi hgt
    have hkeys := orderKey_of_precedes hprecedes (by rw [hnegative]; decide +kernel)
      (by rw [hzero]; decide +kernel)
    rw [hzero, hnegative] at hkeys
    rcases hkeys with hlt | ⟨heq, -⟩
    · exact absurd hlt (by decide +kernel)
    · exact absurd heq (by decide +kernel)

/-- In a ranking, of two subjects with equal scores the first has the smaller name, unless it has
the score `0` and the other one `-0`. So all such subjects stand in name order exactly if the names
of those that score `0` are not behind the names of those that score `-0`. -/
theorem ties_in_name_order (subjects : List Ranked) :
    ((rank subjects).Pairwise fun a b => (a.score == b.score) = true →
      a.subject ≤ b.subject ∨ a.score = 0 ∧ b.score = -0) ∧
    (((rank subjects).Pairwise fun a b => (a.score == b.score) = true → a.subject ≤ b.subject) ↔
      ∀ a ∈ subjects, ∀ b ∈ subjects, a.score = 0 → b.score = -0 → a.subject ≤ b.subject) := by
  have hties := (pairwise_rank subjects).imp fun h => subject_le_of_precedes h
  refine ⟨hties, fun h a ha b hb => subject_le_of_zeros h ha hb, fun h => ?_⟩
  refine hties.imp_of_mem fun ha hb hor htie => (hor htie).elim id fun hzeros => ?_
  have hperm := rank_perm subjects
  exact h _ (hperm.mem_iff.1 ha) _ (hperm.mem_iff.1 hb) hzeros.1 hzeros.2

/-- The scores `0` and `-0` are equal numbers, but the names of their subjects are not in order. -/
theorem split_names_of_zeros :
    rank [⟨"b", 0⟩, ⟨"a", -0⟩] = [⟨"b", 0⟩, ⟨"a", -0⟩] ∧
      ¬(rank [⟨"b", 0⟩, ⟨"a", -0⟩]).Pairwise fun a b =>
        (a.score == b.score) = true → a.subject ≤ b.subject := by
  have hrank : rank [⟨"b", 0⟩, ⟨"a", -0⟩] = [⟨"b", 0⟩, ⟨"a", -0⟩] :=
    List.mergeSort_of_pairwise (by decide +kernel)
  refine ⟨hrank, ?_⟩
  rw [hrank]
  decide +kernel

end Scorecard.Ranked
