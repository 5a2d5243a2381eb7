import Mathlib.Data.Int.Order.Basic
import Mathlib.Data.Prod.Lex
import Mathlib.Order.Compare
import Scorecard.Band.Closing

/-!
# The order of floating-point numbers

Every number but NaN has a point on a line, on which the two zeros share one, and comparing numbers
is comparing their points (`lt_iff_point`, `le_iff_point`, `beq_iff_point`). NaN compares with
nothing. So lists without NaN have greatest and least members, and `reduce?` finds them
(`KeepsGreater.reduce?` with `keepsGreater_greater` and `keepsGreater_smaller`).
-/

namespace Scorecard.Number

open Float.Model

/-! ## Points -/

/-- The point of an unpacked number: its class by sign and size, and within a class its exponent
and its mantissa. -/
def pointOf : UnpackedFloat → Int ×ₗ Int ×ₗ Int
  | .infinity .negative => toLex (-2, toLex (0, 0))
  | .finite .negative mantissa exponent _ => toLex (-1, toLex (-exponent, -(mantissa : Int)))
  | .zero _ => toLex (0, toLex (0, 0))
  | .notANumber => toLex (0, toLex (0, 0))
  | .finite .positive mantissa exponent _ => toLex (1, toLex (exponent, (mantissa : Int)))
  | .infinity .positive => toLex (2, toLex (0, 0))

/-- The point of a number on the line; that of NaN means nothing. -/
def point (x : Float) : Int ×ₗ Int ×ₗ Int :=
  pointOf x.toModel.unpack

/-- Numbers of one sign compare by their exponents first and then by their mantissas. -/
theorem compare_then_compare (e f : Int) (m n : Nat) :
    (compare e f).then (compare m n) =
      if e < f ∨ e = f ∧ m < n then .lt else if f < e ∨ f = e ∧ n < m then .gt else .eq := by
  rcases Int.lt_trichotomy e f with h | rfl | h
  · rw [compare_lt_iff_lt.2 h, if_pos (.inl h)]
    rfl
  · rw [compare_eq_iff_eq.2 rfl, Ordering.eq_then, Nat.compare_eq_ite_lt]
    simp
  · rw [compare_gt_iff_gt.2 h, if_neg (by omega), if_pos (.inl h)]
    rfl

theorem cmp_toLex (k e f m n : Int) :
    cmp (toLex (k, toLex (e, m))) (toLex (k, toLex (f, n))) =
      if e < f ∨ e = f ∧ m < n then .lt else if f < e ∨ f = e ∧ n < m then .gt else .eq := by
  simp [cmp, cmpUsing, Prod.Lex.toLex_lt_toLex]

/-- Unpacked numbers but NaN compare as their points do. -/
theorem compare_eq_cmp_pointOf {a b : UnpackedFloat} (ha : a.isNaN = false)
    (hb : b.isNaN = false) : a.compare b = some (cmp (pointOf a) (pointOf b)) := by
  rcases a with s | _ | s | ⟨s, m, e, hm⟩ <;> rcases b with t | _ | t | ⟨t, n, f, hn⟩ <;>
    try (cases s) <;> try (cases t)
  -- within the two classes of finite numbers exponents and mantissas decide
  case finite.finite.positive.positive =>
    show some ((compare e f).then (compare m n)) =
      some (cmp (toLex (1, toLex (e, (m : Int)))) (toLex (1, toLex (f, (n : Int)))))
    rw [compare_then_compare, cmp_toLex]
    simp only [Int.ofNat_lt]
  case finite.finite.negative.negative =>
    show some ((compare e f).then (compare m n)).swap =
      some (cmp (toLex (-1, toLex (-e, -(m : Int)))) (toLex (-1, toLex (-f, -(n : Int)))))
    rw [Ordering.swap_then, Int.compare_swap, Nat.compare_swap, compare_then_compare, cmp_toLex]
    simp only [Int.neg_lt_neg_iff, Int.neg_inj, Int.ofNat_lt, @eq_comm _ f e]
  all_goals first | rfl | exact absurd ha (by decide) | exact absurd hb (by decide)

theorem compare_eq_none {a b : UnpackedFloat} (h : ¬(a.isNaN = false ∧ b.isNaN = false)) :
    a.compare b = none := by
  cases a with
  | notANumber => rfl
  | _ =>
    cases b with
    | notANumber => rfl
    | _ => exact absurd ⟨rfl, rfl⟩ h

/-- Numbers compare as their points do, and NaN with nothing. -/
theorem compare_eq_some_iff {x y : Float} {order : Ordering} :
    x.toModel.unpack.compare y.toModel.unpack = some order ↔
      x.isNaN = false ∧ y.isNaN = false ∧ cmp (point x) (point y) = order := by
  by_cases h : x.isNaN = false ∧ y.isNaN = false
  · rw [compare_eq_cmp_pointOf h.1 h.2, Option.some_inj]
    exact ⟨fun horder => ⟨h.1, h.2, horder⟩, fun horder => horder.2.2⟩
  · rw [compare_eq_none h]
    exact ⟨fun horder => (nomatch horder), fun horder => absurd ⟨horder.1, horder.2.1⟩ h⟩

theorem lt_iff_compare {x y : Float} :
    x < y ↔ x.toModel.unpack.compare y.toModel.unpack = some .lt := by
  show decide (x.toModel < y.toModel) = true ↔ _
  rw [decide_eq_true_iff]
  show (x.toModel.unpack.compare y.toModel.unpack == some .lt) = true ↔ _
  rw [beq_iff_eq]

theorem le_iff_compare {x y : Float} :
    x ≤ y ↔ ∃ order, x.toModel.unpack.compare y.toModel.unpack = some order ∧ order ≠ .gt := by
  show decide (x.toModel ≤ y.toModel) = true ↔ _
  rw [decide_eq_true_iff]
  show (x.toModel.unpack.compare y.toModel.unpack).any (·.isLE) = true ↔ _
  rw [Option.any_eq_true]
  simp only [Ordering.isLE_iff_ne_gt]

theorem beq_iff_compare {x y : Float} :
    (x == y) = true ↔ x.toModel.unpack.compare y.toModel.unpack = some .eq := by
  show (x.toModel.unpack.compare y.toModel.unpack == some .eq) = true ↔ _
  rw [beq_iff_eq]

/-- A number is smaller than another if neither is NaN and its point is further left. -/
theorem lt_iff_point {x y : Float} :
    x < y ↔ x.isNaN = false ∧ y.isNaN = false ∧ point x < point y := by
  rw [lt_iff_compare, compare_eq_some_iff, cmp_eq_lt_iff]

theorem le_iff_point {x y : Float} :
    x ≤ y ↔ x.isNaN = false ∧ y.isNaN = false ∧ point x ≤ point y := by
  rw [le_iff_compare]
  constructor
  · intro ⟨order, hcompare, hne⟩
    obtain ⟨hx, hy, horder⟩ := compare_eq_some_iff.1 hcompare
    exact ⟨hx, hy, not_lt.1 fun hlt => hne (horder ▸ (cmp_eq_gt_iff _ _).2 hlt)⟩
  · intro ⟨hx, hy, hle⟩
    refine ⟨_, compare_eq_some_iff.2 ⟨hx, hy, rfl⟩, fun hgt => ?_⟩
    exact absurd ((cmp_eq_gt_iff _ _).1 hgt) (not_lt.2 hle)

theorem beq_iff_point {x y : Float} :
    (x == y) = true ↔ x.isNaN = false ∧ y.isNaN = false ∧ point x = point y := by
  rw [beq_iff_compare, compare_eq_some_iff, cmp_eq_eq_iff]

/-- Numbers but NaN are in a linear order. -/
theorem not_lt_iff {x y : Float} (hx : x.isNaN = false) (hy : y.isNaN = false) :
    ¬x < y ↔ y ≤ x := by
  constructor
  · intro h
    exact le_iff_point.2 ⟨hy, hx, not_lt.1 fun hlt => h (lt_iff_point.2 ⟨hx, hy, hlt⟩)⟩
  · intro h hlt
    exact absurd (lt_iff_point.1 hlt).2.2 (not_lt.2 (le_iff_point.1 h).2.2)

theorem isNaN_of_isFinite {x : Float} (h : x.isFinite = true) : x.isNaN = false := by
  show x.toModel.unpack.isNaN = false
  have hfinite : x.toModel.unpack.isFinite = true := h
  cases hunpack : x.toModel.unpack <;> rw [hunpack] at hfinite <;> first | rfl | cases hfinite

/-! ## Greatest and least -/

/-- `join` keeps one of two numbers whose key is not smaller. -/
def KeepsGreater {α : Type} [LinearOrder α] (key : Float → α) (join : Float → Float → Float) :
    Prop :=
  ∀ x y, x.isNaN = false → y.isNaN = false →
    (join x y = x ∧ key y ≤ key x) ∨ (join x y = y ∧ key x ≤ key y)

theorem keepsGreater_greater : KeepsGreater point greater := by
  intro x y hx hy
  unfold greater
  rw [hx, Bool.or_false]
  by_cases h : x < y
  · rw [decide_eq_true h]
    exact .inr ⟨rfl, le_of_lt (lt_iff_point.1 h).2.2⟩
  · rw [decide_eq_false h]
    exact .inl ⟨rfl, (le_iff_point.1 ((not_lt_iff hx hy).1 h)).2.2⟩

theorem keepsGreater_smaller : KeepsGreater (fun x => OrderDual.toDual (point x)) smaller := by
  intro x y hx hy
  unfold smaller
  rw [hx, Bool.or_false]
  by_cases h : y < x
  · rw [decide_eq_true h]
    exact .inr ⟨rfl, OrderDual.toDual_le_toDual.2 (le_of_lt (lt_iff_point.1 h).2.2)⟩
  · rw [decide_eq_false h]
    have hle := (le_iff_point.1 ((not_lt_iff hy hx).1 h)).2.2
    exact .inl ⟨rfl, OrderDual.toDual_le_toDual.2 hle⟩

theorem KeepsGreater.foldl {α : Type} [LinearOrder α] {key : Float → α}
    {join : Float → Float → Float} (hjoin : KeepsGreater key join) {xs : List Float} {x : Float}
    (hxs : ∀ y ∈ x :: xs, y.isNaN = false) :
    xs.foldl join x ∈ x :: xs ∧ ∀ y ∈ x :: xs, key y ≤ key (xs.foldl join x) := by
  induction xs generalizing x with
  | nil => simp
  | cons z xs ih =>
    have hx := hxs x List.mem_cons_self
    have hz := hxs z (by simp)
    have hrest : ∀ y ∈ xs, y.isNaN = false := fun y hy => hxs y (by simp [hy])
    rw [List.foldl_cons]
    rcases hjoin x z hx hz with ⟨heq, hle⟩ | ⟨heq, hle⟩
    · rw [heq]
      obtain ⟨hmem, hbound⟩ := ih (x := x) (List.forall_mem_cons.2 ⟨hx, hrest⟩)
      have hkept := hbound x List.mem_cons_self
      refine ⟨?_, fun y hy => ?_⟩
      · rcases List.mem_cons.1 hmem with h | h
        · simp [h]
        · simp [h]
      · rcases List.mem_cons.1 hy with rfl | hy
        · exact hkept
        · rcases List.mem_cons.1 hy with rfl | hy
          · exact hle.trans hkept
          · exact hbound y (List.mem_cons_of_mem _ hy)
    · rw [heq]
      obtain ⟨hmem, hbound⟩ := ih (x := z) (List.forall_mem_cons.2 ⟨hz, hrest⟩)
      have hkept := hbound z List.mem_cons_self
      refine ⟨List.mem_cons_of_mem x hmem, fun y hy => ?_⟩
      rcases List.mem_cons.1 hy with rfl | hy
      · exact hle.trans hkept
      · exact hbound y hy

/-- Reducing a list without NaN gives none if it is empty, and else a member with the greatest
key. -/
theorem KeepsGreater.reduce? {α : Type} [LinearOrder α] {key : Float → α}
    {join : Float → Float → Float} (hjoin : KeepsGreater key join) {xs : List Float}
    (hxs : ∀ x ∈ xs, x.isNaN = false) :
    (xs = [] ∧ Band.reduce? join xs = none) ∨
      ∃ m ∈ xs, Band.reduce? join xs = some m ∧ ∀ x ∈ xs, key x ≤ key m := by
  cases xs with
  | nil => exact .inl ⟨rfl, rfl⟩
  | cons x xs =>
    obtain ⟨hmem, hbound⟩ := hjoin.foldl hxs
    exact .inr ⟨_, hmem, rfl, hbound⟩

/-- What holds of a number and then of all with smaller keys, holds of a list exactly if it holds
of what the list is reduced to. -/
theorem KeepsGreater.all_reduce?_iff {α : Type} [LinearOrder α] {key : Float → α}
    {join : Float → Float → Float} (hjoin : KeepsGreater key join) {xs : List Float}
    (hxs : ∀ x ∈ xs, x.isNaN = false) {p : Float → Bool}
    (hp : ∀ x ∈ xs, ∀ m ∈ xs, key x ≤ key m → p m = true → p x = true) :
    (Band.reduce? join xs).all p = true ↔ ∀ x ∈ xs, p x = true := by
  rcases hjoin.reduce? hxs with ⟨rfl, hnone⟩ | ⟨m, hm, hsome, hbound⟩
  · rw [hnone]
    exact ⟨fun _ x hx => absurd hx List.not_mem_nil, fun _ => rfl⟩
  · rw [hsome, Option.all_some]
    exact ⟨fun h x hx => hp x hx m hm (hbound x hx) h, fun h => h m hm⟩

end Scorecard.Number
