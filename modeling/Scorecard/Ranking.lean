import Scorecard.Number.Order

/-!
# Ranking

Scored subjects are ranked by falling score; subjects that score alike stand in name order. Scores
are compared in the total order of numbers, where `0` is above `-0`, and those that are no numbers
come last. Main statements: this is a total preorder (`precedes_total`, `precedes_trans`), so the
ranked subjects are the given ones (`rank_perm`) in its order (`pairwise_rank`).
-/

namespace Scorecard

/-- A subject with its score. -/
structure Ranked where
  subject : String
  score : Float
  deriving Inhabited

namespace Ranked

/-- Whether one subject may stand before another. -/
def precedes (a b : Ranked) : Bool :=
  match a.score.isNaN, b.score.isNaN with
  | false, true => true
  | true, false => false
  | true, true => a.subject ≤ b.subject
  | false, false =>
    let keyA := Number.orderKey a.score
    let keyB := Number.orderKey b.score
    keyB < keyA || (keyA == keyB && a.subject ≤ b.subject)

theorem precedes_total (a b : Ranked) : (precedes a b || precedes b a) = true := by
  unfold precedes
  cases a.score.isNaN <;> cases b.score.isNaN <;> simp
  · rcases Int.lt_trichotomy (Number.orderKey a.score) (Number.orderKey b.score) with h | h | h
    · simp [h]
    · simp [h, String.le_total]
    · simp [h]
  · exact String.le_total ..

theorem precedes_trans {a b c : Ranked} (hab : precedes a b = true) (hbc : precedes b c = true) :
    precedes a c = true := by
  revert hab hbc
  unfold precedes
  cases a.score.isNaN <;> cases b.score.isNaN <;> cases c.score.isNaN <;> simp
  · intro hab hbc
    rcases hab with h | ⟨h, hs⟩ <;> rcases hbc with h' | ⟨h', hs'⟩
    · exact .inl (by omega)
    · exact .inl (by omega)
    · exact .inl (by omega)
    · exact .inr ⟨h.trans h', String.le_trans hs hs'⟩
  · exact fun hab hbc => String.le_trans hab hbc

/-- Ranks subjects. -/
def rank (subjects : List Ranked) : List Ranked :=
  subjects.mergeSort precedes

theorem rank_perm (subjects : List Ranked) : (rank subjects).Perm subjects :=
  List.mergeSort_perm subjects precedes

theorem pairwise_rank (subjects : List Ranked) :
    (rank subjects).Pairwise fun a b => precedes a b = true :=
  List.pairwise_mergeSort (fun a b c => @precedes_trans a b c) precedes_total subjects

end Ranked

end Scorecard
