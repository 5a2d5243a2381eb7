import Scorecard.Proofs.ClosedBands
import Scorecard.Proofs.TotalOrder

/-!
# The laws of closing

Closing the open sides of bands keeps every bound that is there and adds one only on the open side
of a band with one bound, where the band then starts before it stops. What stays open has no band
beside it, so closing a second time changes nothing. And the bounds come from all bands together,
whatever their order is; only which of the two zeros is a bound can depend on it. The bounds are any
numbers here, NaN and infinities among them. Main statement: `laws_of_closeSides`.
-/

namespace Scorecard

open Number

namespace Number

/-! ## Numbers up to the sign of zero -/

/-- Two numbers are the same, or they are the two zeros. -/
def SameButZero (x y : Float) : Prop :=
  x = y ∨ x = 0 ∧ y = -0 ∨ x = -0 ∧ y = 0

theorem SameButZero.refl (x : Float) : SameButZero x x :=
  .inl rfl

theorem sameButZero_of_point_eq {x y : Float} (hx : x.isNaN = false) (hy : y.isNaN = false)
    (h : point x = point y) : SameButZero x y :=
  eq_or_zeros_of_beq (beq_iff_point.2 ⟨hx, hy, h⟩)

/-- Lists with the same members and without NaN reduce to the same number, up to the sign of
zero. -/
theorem KeepsGreater.rel_reduce? {α : Type} [LinearOrder α] {key : Float → α}
    {join : Float → Float → Float} (hjoin : KeepsGreater key join)
    (hkey : ∀ x y, key x = key y → point x = point y) {xs ys : List Float}
    (hxs : ∀ x ∈ xs, x.isNaN = false) (hsame : ∀ x, x ∈ xs ↔ x ∈ ys) :
    Option.Rel SameButZero (Band.reduce? join xs) (Band.reduce? join ys) := by
  have hys : ∀ y ∈ ys, y.isNaN = false := fun y hy => hxs y ((hsame y).2 hy)
  rcases hjoin.reduce? hxs with ⟨rfl, hnone⟩ | ⟨m, hm, hsome, hbound⟩
  · have hnil : ys = [] := List.eq_nil_iff_forall_not_mem.2 fun y hy =>
      List.not_mem_nil ((hsame y).2 hy)
    rw [hnil, hnone]
    exact .none
  · rcases hjoin.reduce? hys with ⟨rfl, _⟩ | ⟨n, hn, hsome', hbound'⟩
    · exact absurd ((hsame m).1 hm) List.not_mem_nil
    · rw [hsome, hsome']
      have hle : key m ≤ key n := hbound' m ((hsame m).1 hm)
      have hge : key n ≤ key m := hbound n ((hsame n).2 hn)
      exact .some (sameButZero_of_point_eq (hxs m hm) (hys n hn)
        (hkey m n (le_antisymm hle hge)))

end Number

namespace Band

/-! ## Bounds that are not found -/

theorem reduce?_eq_none_iff {join : Float → Float → Float} {xs : List Float} :
    reduce? join xs = none ↔ xs = [] := by
  cases xs <;> simp [reduce?]

theorem startFor?_eq_none_iff {bands : List Band} {stop : Float} :
    startFor? bands stop = none ↔ ∀ u ∈ bands.filterMap stopBelow?, ¬u < stop := by
  simp [startFor?, reduce?_eq_none_iff]

theorem stopFor?_eq_none_iff {bands : List Band} {start : Float} :
    stopFor? bands start = none ↔ ∀ u ∈ bands.filterMap startAbove?, ¬start < u := by
  simp [stopFor?, reduce?_eq_none_iff]

/-! ## One band -/

/-- A band has exactly one bound. -/
def OneSided (band : Band) : Prop :=
  band.start.isSome ≠ band.stop.isSome

/-- What closing may make of a band: it keeps its score and its bounds, and gets a bound only if it
has exactly one. Then it starts before it stops. -/
structure Closes (original band : Band) : Prop extends band.Extends original where
  kept : ¬original.OneSided → band = original
  ordered : original.OneSided → ∀ start stop,
    band.start = some start → band.stop = some stop → start < stop

theorem closes_closeSide (bands : List Band) (band : Band) :
    Closes band (closeSide bands band) := by
  refine ⟨extends_closeSide bands band, fun hkept => ?_, fun hone start stop hstart hstop => ?_⟩
  · obtain ⟨_ | start, _ | stop, score⟩ := band
    · rfl
    · exact absurd (by simp [OneSided]) hkept
    · exact absurd (by simp [OneSided]) hkept
    · rfl
  · obtain ⟨_ | start', _ | stop', score⟩ := band
    · exact absurd rfl hone
    · have hstart : startFor? bands stop' = some start := hstart
      cases hstop
      exact (mem_of_startFor? hstart).2
    · have hstop : stopFor? bands start' = some stop := hstop
      cases hstart
      exact (mem_of_stopFor? hstop).2
    · exact absurd rfl hone

/-! ## Closing twice -/

/-- A band that is still below its stop when closed was one before. -/
theorem stopBelow?_of_closeSide {bands : List Band} {band : Band} {u : Float}
    (h : stopBelow? (closeSide bands band) = some u) : stopBelow? band = some u := by
  obtain ⟨_ | start, _ | stop, score⟩ := band
  · exact h
  · cases hstart : startFor? bands stop with
    | none => simpa [closeSide, hstart] using h
    | some start => simp [closeSide, hstart, stopBelow?, isBelow] at h
  · simp [closeSide, stopBelow?, isBelow] at h
  · exact h

/-- A band that is still above its start when closed was one before. -/
theorem startAbove?_of_closeSide {bands : List Band} {band : Band} {u : Float}
    (h : startAbove? (closeSide bands band) = some u) : startAbove? band = some u := by
  obtain ⟨_ | start, _ | stop, score⟩ := band
  · exact h
  · simp [closeSide, startAbove?, isAbove] at h
  · cases hstop : stopFor? bands start with
    | none => simpa [closeSide, hstop] using h
    | some stop => simp [closeSide, hstop, startAbove?, isAbove] at h
  · exact h

theorem startFor?_closeSides_of_none {bands : List Band} {stop : Float}
    (h : startFor? bands stop = none) : startFor? (closeSides bands) stop = none := by
  rw [startFor?_eq_none_iff] at h ⊢
  intro u hu
  obtain ⟨closed, hclosed, hbelow⟩ := List.mem_filterMap.1 hu
  obtain ⟨band, hband, rfl⟩ := List.mem_map.1 hclosed
  exact h u (List.mem_filterMap.2 ⟨band, hband, stopBelow?_of_closeSide hbelow⟩)

theorem stopFor?_closeSides_of_none {bands : List Band} {start : Float}
    (h : stopFor? bands start = none) : stopFor? (closeSides bands) start = none := by
  rw [stopFor?_eq_none_iff] at h ⊢
  intro u hu
  obtain ⟨closed, hclosed, habove⟩ := List.mem_filterMap.1 hu
  obtain ⟨band, hband, rfl⟩ := List.mem_map.1 hclosed
  exact h u (List.mem_filterMap.2 ⟨band, hband, startAbove?_of_closeSide habove⟩)

theorem closeSide_closeSide (bands : List Band) (band : Band) :
    closeSide (closeSides bands) (closeSide bands band) = closeSide bands band := by
  obtain ⟨_ | start, _ | stop, score⟩ := band
  · rfl
  · -- a start that was found is a second bound, and one that was not is not found again
    cases hstart : startFor? bands stop with
    | some start => simp [closeSide, hstart]
    | none => simp [closeSide, hstart, startFor?_closeSides_of_none hstart]
  · cases hstop : stopFor? bands start with
    | some stop => simp [closeSide, hstop]
    | none => simp [closeSide, hstop, stopFor?_closeSides_of_none hstop]
  · rfl

/-- Closing twice is closing once. -/
theorem closeSides_closeSides (bands : List Band) :
    closeSides (closeSides bands) = closeSides bands := by
  conv_lhs => rw [closeSides]
  conv_rhs => rw [closeSides]
  rw [closeSides, List.map_map]
  exact List.map_congr_left fun band _ => closeSide_closeSide bands band

/-! ## Closing in another order -/

/-- Two bands score the same, and their bounds are the same up to the sign of zero. -/
structure Alike (band other : Band) : Prop where
  start : Option.Rel SameButZero band.start other.start
  stop : Option.Rel SameButZero band.stop other.stop
  score : band.score = other.score

theorem rel_sameButZero_refl : (bound : Option Float) → Option.Rel SameButZero bound bound
  | none => .none
  | some x => .some (.refl x)

/-- The members of a list at some places, in their order. -/
def reorder {α : Type} (places : List Nat) (xs : List α) : List α :=
  places.filterMap (xs[·]?)

theorem reorder_map {α β : Type} (places : List Nat) (xs : List α) (f : α → β) :
    reorder places (xs.map f) = (reorder places xs).map f := by
  simp only [reorder, List.map_filterMap, List.getElem?_map]

theorem reorder_range {α : Type} (xs : List α) : reorder (List.range xs.length) xs = xs := by
  induction xs with
  | nil => rfl
  | cons x xs ih =>
    rw [List.length_cons, List.range_succ_eq_map]
    simpa [reorder, List.filterMap_map, Function.comp_def] using ih

/-- A list in the order of all its places is the list in another order. -/
theorem perm_reorder {α : Type} {places : List Nat} {xs : List α}
    (h : places.Perm (List.range xs.length)) : (reorder places xs).Perm xs := by
  have hperm : (reorder places xs).Perm (reorder (List.range xs.length) xs) := h.filterMap _
  rwa [reorder_range] at hperm

variable {bands others : List Band}

theorem rel_startFor? (h : bands.Perm others) (stop : Float) :
    Option.Rel SameButZero (startFor? bands stop) (startFor? others stop) :=
  keepsGreater_greater.rel_reduce? (fun _ _ hkey => hkey) (fun _ => isNaN_of_mem_filter_lt)
    fun _ => ((h.filterMap _).filter _).mem_iff

theorem rel_stopFor? (h : bands.Perm others) (start : Float) :
    Option.Rel SameButZero (stopFor? bands start) (stopFor? others start) :=
  keepsGreater_smaller.rel_reduce? (fun _ _ hkey => OrderDual.toDual_inj.1 hkey)
    (fun _ => isNaN_of_mem_filter_gt) fun _ => ((h.filterMap _).filter _).mem_iff

/-- A band is closed by other bands in whatever order they stand. -/
theorem alike_closeSide (h : bands.Perm others) (band : Band) :
    Alike (closeSide bands band) (closeSide others band) := by
  obtain ⟨_ | start, _ | stop, score⟩ := band
  · exact ⟨.none, .none, rfl⟩
  · exact ⟨rel_startFor? h stop, rel_sameButZero_refl _, rfl⟩
  · exact ⟨rel_sameButZero_refl _, rel_stopFor? h start, rfl⟩
  · exact ⟨rel_sameButZero_refl _, rel_sameButZero_refl _, rfl⟩

theorem forall₂_alike_reorder {places : List Nat}
    (h : places.Perm (List.range bands.length)) :
    List.Forall₂ Alike (closeSides (reorder places bands)) (reorder places (closeSides bands)) := by
  rw [closeSides, closeSides, reorder_map, List.forall₂_map_left_iff, List.forall₂_map_right_iff,
    List.forall₂_same]
  exact fun band _ => alike_closeSide (perm_reorder h) band

/-- Closing gives one band for each band, in their order. Each keeps its score and its bounds; only
a band with exactly one bound gets another, and then starts before it stops. Closing twice is
closing once. And bands in another order are closed to the same bands in that order, up to the sign
of a zero that is a bound. -/
theorem laws_of_closeSides (bands : List Band) :
    List.Forall₂ Closes bands (closeSides bands) ∧
    closeSides (closeSides bands) = closeSides bands ∧
    ∀ places : List Nat, places.Perm (List.range bands.length) →
      List.Forall₂ Alike (closeSides (reorder places bands))
        (reorder places (closeSides bands)) := by
  refine ⟨?_, closeSides_closeSides bands, fun places h => forall₂_alike_reorder h⟩
  rw [closeSides, List.forall₂_map_right_iff, List.forall₂_same]
  exact fun band _ => closes_closeSide bands band

/-- Bands below both zeros, one with two bounds and one below NaN, from the last to the first. -/
theorem laws_of_closeSides_of_zeros :
    let bands : List Band := [⟨none, some 0, 1⟩, ⟨none, some (-0), 2⟩, ⟨none, some 5, 3⟩,
      ⟨some 7, some 2, 4⟩, ⟨none, some (0 / 0), 5⟩]
    let places := [4, 3, 2, 1, 0]
    places.Perm (List.range bands.length) ∧
      List.Forall₂ Alike (closeSides (reorder places bands))
        (reorder places (closeSides bands)) := by
  intro bands places
  have hplaces : places.Perm (List.range bands.length) := by decide
  exact ⟨hplaces, (laws_of_closeSides bands).2.2 places hplaces⟩

end Band

end Scorecard
