import Scorecard.Band.Partition
import Scorecard.Proofs.ClosedBands

/-!
# Bands without warnings

Bands that give no warning stand side by side: by their starts, each begins where the one before it
stops. So no number is in two of them, and a number that is not before all of them and not behind
all of them is in one (`exists_contains_of_seamless`). What is before or behind all bands gets no
warning. For the bands of an interval that leaves out numbers only if all rules are on one side.
Main statement: `partition_of_no_warnings`.
-/

namespace Scorecard

open Number

/-! ## Points of finite numbers -/

namespace Number

theorem point_negativeInfinity : point negativeInfinity = toLex (-2, toLex (0, 0)) := rfl

theorem point_infinity : point infinity = toLex (2, toLex (0, 0)) := rfl

theorem point_negativeInfinity_le (x : Float) : point negativeInfinity ≤ point x := by
  rw [point_negativeInfinity, point]
  cases x.toModel.unpack with
  | infinity sign => cases sign <;> decide
  | notANumber => decide
  | zero sign => exact Prod.Lex.left _ _ (by decide)
  | finite sign mantissa exponent _ => cases sign <;> exact Prod.Lex.left _ _ (by decide)

theorem point_le_infinity (x : Float) : point x ≤ point infinity := by
  rw [point_infinity, point]
  cases x.toModel.unpack with
  | infinity sign => cases sign <;> decide
  | notANumber => decide
  | zero sign => exact Prod.Lex.left _ _ (by decide)
  | finite sign mantissa exponent _ => cases sign <;> exact Prod.Lex.left _ _ (by decide)

/-- Finite numbers lie between the infinities. -/
theorem point_between_of_isFinite {x : Float} (h : x.isFinite = true) :
    point negativeInfinity < point x ∧ point x < point infinity := by
  rw [point_negativeInfinity, point_infinity]
  have hfinite : x.toModel.unpack.isFinite = true := h
  unfold point
  cases hunpack : x.toModel.unpack with
  | infinity sign =>
    rw [hunpack] at hfinite
    cases hfinite
  | notANumber =>
    rw [hunpack] at hfinite
    cases hfinite
  | zero sign => exact ⟨Prod.Lex.left _ _ (by decide), Prod.Lex.left _ _ (by decide)⟩
  | finite sign mantissa exponent _ =>
    cases sign <;> exact ⟨Prod.Lex.left _ _ (by decide), Prod.Lex.left _ _ (by decide)⟩

end Number

namespace Band

/-! ## Ends of bands -/

/-- A band with finite bounds, at least one, that starts before it stops. -/
structure IsProper (band : Band) : Prop where
  bounded : band.start.isSome = true ∨ band.stop.isSome = true
  start_isFinite : ∀ start, band.start = some start → start.isFinite = true
  stop_isFinite : ∀ stop, band.stop = some stop → stop.isFinite = true
  start_lt_stop : ∀ start stop, band.start = some start → band.stop = some stop → start < stop

theorem IsSound.isProper {band : Band} (h : band.IsSound) : band.IsProper :=
  ⟨h.bounded, h.start_isFinite, h.stop_isFinite, h.start_lt_stop⟩

namespace IsProper

variable {band : Band} (h : band.IsProper)

include h

theorem isNaN_lowerEnd : band.lowerEnd.isNaN = false := by
  unfold lowerEnd
  cases hstart : band.start with
  | none => decide
  | some start => exact isNaN_of_isFinite (h.start_isFinite start hstart)

theorem isNaN_upperEnd : band.upperEnd.isNaN = false := by
  unfold upperEnd
  cases hstop : band.stop with
  | none => decide
  | some stop => exact isNaN_of_isFinite (h.stop_isFinite stop hstop)

theorem lowerEnd_lt_upperEnd : point band.lowerEnd < point band.upperEnd := by
  unfold lowerEnd upperEnd
  cases hstart : band.start with
  | none =>
    cases hstop : band.stop with
    | none => decide
    | some stop => exact (point_between_of_isFinite (h.stop_isFinite stop hstop)).1
  | some start =>
    cases hstop : band.stop with
    | none => exact (point_between_of_isFinite (h.start_isFinite start hstart)).2
    | some stop => exact (lt_iff_point.1 (h.start_lt_stop start stop hstart hstop)).2.2

/-- A band holds the numbers from its lower end on, up to its upper end or, if it is open there, all
of them. -/
theorem contains_iff {x : Float} (hx : x.isNaN = false) :
    band.contains x = true ↔ point band.lowerEnd ≤ point x ∧
      (band.stop = none ∨ point x < point band.upperEnd) := by
  unfold contains
  rw [Bool.and_eq_true]
  refine and_congr ?_ ?_
  · have hlower := h.isNaN_lowerEnd
    unfold lowerEnd at hlower ⊢
    cases hstart : band.start with
    | none => simpa using point_negativeInfinity_le x
    | some start =>
      rw [hstart] at hlower
      simp only [Option.all_some, Option.getD_some, decide_eq_true_iff]
      exact ⟨fun hle => (le_iff_point.1 hle).2.2, fun hle => le_iff_point.2 ⟨hlower, hx, hle⟩⟩
  · have hupper := h.isNaN_upperEnd
    unfold upperEnd at hupper ⊢
    cases hstop : band.stop with
    | none => simp
    | some stop =>
      rw [hstop] at hupper
      simp only [Option.all_some, Option.getD_some, decide_eq_true_iff, reduceCtorEq, false_or]
      exact ⟨fun hlt => (lt_iff_point.1 hlt).2.2, fun hlt => lt_iff_point.2 ⟨hx, hupper, hlt⟩⟩

/-- A band holds the finite numbers between its ends. -/
theorem contains_iff_point {x : Float} (hx : x.isFinite = true) :
    band.contains x = true ↔ point band.lowerEnd ≤ point x ∧ point x < point band.upperEnd := by
  rw [h.contains_iff (isNaN_of_isFinite hx)]
  refine and_congr_right fun _ => ⟨?_, .inr⟩
  rintro (hstop | hlt)
  · rw [upperEnd, hstop]
    exact (point_between_of_isFinite hx).2
  · exact hlt

end IsProper

/-! ## Bands side by side -/

/-- Each band begins where the one before it stops. -/
def Seamless (bands : List Band) : Prop :=
  bands.IsChain fun band next => point band.upperEnd = point next.lowerEnd

section

variable {band next : Band} (hband : band.IsProper) (hnext : next.IsProper)

include hband hnext

theorem seamWarning?_eq_gap (h : point band.upperEnd < point next.lowerEnd) :
    seamWarning? band next = some (.gap band.upperEnd next.lowerEnd) := by
  unfold seamWarning?
  rw [if_pos (lt_iff_point.2 ⟨hband.isNaN_upperEnd, hnext.isNaN_lowerEnd, h⟩)]

theorem seamWarning?_eq_overlap (h : point next.lowerEnd < point band.upperEnd) :
    seamWarning? band next = some (.overlap next.lowerEnd band.upperEnd) := by
  unfold seamWarning?
  rw [if_neg fun hlt => (lt_iff_point.1 hlt).2.2.asymm h,
    if_pos (lt_iff_point.2 ⟨hnext.isNaN_lowerEnd, hband.isNaN_upperEnd, h⟩)]

theorem seamWarning?_eq_none_iff :
    seamWarning? band next = none ↔ point band.upperEnd = point next.lowerEnd := by
  rcases lt_trichotomy (point band.upperEnd) (point next.lowerEnd) with hlt | heq | hgt
  · rw [seamWarning?_eq_gap hband hnext hlt]
    simpa using hlt.ne
  · unfold seamWarning?
    rw [if_neg fun h => (lt_iff_point.1 h).2.2.ne heq,
      if_neg fun h => (lt_iff_point.1 h).2.2.ne' heq]
    simpa using heq
  · rw [seamWarning?_eq_overlap hband hnext hgt]
    simpa using hgt.ne'

end

theorem seamless_of_seamWarnings_eq_nil {bands : List Band} (hbands : ∀ band ∈ bands, band.IsProper)
    (h : seamWarnings bands = []) : Seamless bands := by
  unfold Seamless
  induction bands with
  | nil => exact .nil
  | cons band rest ih =>
    cases rest with
    | nil => exact .singleton band
    | cons next rest =>
      obtain ⟨hband, hrest⟩ := List.forall_mem_cons.1 hbands
      rw [seamWarnings, List.append_eq_nil_iff, Option.toList_eq_nil_iff,
        seamWarning?_eq_none_iff hband (hrest next List.mem_cons_self)] at h
      exact List.isChain_cons_cons.2 ⟨h.1, ih hrest h.2⟩

/-- Of bands side by side, those further on begin where an earlier one stops or later. -/
theorem Seamless.pairwise {bands : List Band} (hbands : ∀ band ∈ bands, band.IsProper)
    (h : Seamless bands) :
    bands.Pairwise fun band other => point band.upperEnd ≤ point other.lowerEnd := by
  unfold Seamless at h
  induction bands with
  | nil => exact .nil
  | cons band rest ih =>
    cases rest with
    | nil => exact List.pairwise_singleton _ band
    | cons next rest =>
      obtain ⟨hmeet, hchain⟩ := List.isChain_cons_cons.1 h
      have hrest := (List.forall_mem_cons.1 hbands).2
      have hpairs := ih hrest hchain
      refine List.pairwise_cons.2 ⟨fun other hother => ?_, hpairs⟩
      rcases List.mem_cons.1 hother with rfl | hother
      · exact hmeet.le
      · calc
          point band.upperEnd = point next.lowerEnd := hmeet
          _ ≤ point next.upperEnd := (hrest next List.mem_cons_self).lowerEnd_lt_upperEnd.le
          _ ≤ point other.lowerEnd := (List.pairwise_cons.1 hpairs).1 other hother

/-- No number is in two bands that stand side by side. -/
theorem Seamless.countP_contains_le_one {bands : List Band}
    (hbands : ∀ band ∈ bands, band.IsProper) (h : Seamless bands) {x : Float}
    (hx : x.isNaN = false) : bands.countP (·.contains x) ≤ 1 := by
  refine Rule.countP_le_one ((h.pairwise hbands).imp_of_mem fun hband hother hle hboth => ?_)
  rw [(hbands _ hband).contains_iff hx, (hbands _ hother).contains_iff hx] at hboth
  obtain ⟨⟨-, hstop | hlt⟩, hlow, -⟩ := hboth
  · -- the earlier band would have no stop, and the other one begin behind it
    have hends := (hle.trans_lt (hbands _ hother).lowerEnd_lt_upperEnd).trans_le
      (point_le_infinity _)
    rw [upperEnd, hstop] at hends
    exact lt_irrefl _ hends
  · exact (hlt.trans_le hle).not_ge hlow

/-- A finite number that is not before all bands and not behind all of them is in one. -/
theorem exists_contains_of_seamless {bands : List Band} (hbands : ∀ band ∈ bands, band.IsProper)
    (h : Seamless bands) {x : Float} (hx : x.isFinite = true)
    (hlow : ∃ band ∈ bands, point band.lowerEnd ≤ point x)
    (hhigh : ∃ band ∈ bands, point x < point band.upperEnd) :
    ∃ band ∈ bands, band.contains x = true := by
  -- the first band that stops behind the number holds it
  induction bands with
  | nil =>
    obtain ⟨band, hmem, _⟩ := hlow
    cases hmem
  | cons band rest ih =>
    obtain ⟨hband, hrest⟩ := List.forall_mem_cons.1 hbands
    have hpairs := (List.pairwise_cons.1 (h.pairwise hbands)).1
    rcases lt_or_ge (point x) (point band.upperEnd) with hlt | hge
    · obtain ⟨other, hother, hle⟩ := hlow
      have hstart : point band.lowerEnd ≤ point x := by
        rcases List.mem_cons.1 hother with rfl | hother
        · exact hle
        · exact (hband.lowerEnd_lt_upperEnd.le.trans (hpairs other hother)).trans hle
      exact ⟨band, List.mem_cons_self, (hband.contains_iff_point hx).2 ⟨hstart, hlt⟩⟩
    · obtain ⟨other, hother, hlt⟩ := hhigh
      have hmem : other ∈ rest := by
        rcases List.mem_cons.1 hother with rfl | hother
        · exact absurd hlt hge.not_gt
        · exact hother
      cases rest with
      | nil => cases hmem
      | cons next rest =>
        obtain ⟨hmeet, hchain⟩ := List.isChain_cons_cons.1 h
        obtain ⟨found, hfound, hcontains⟩ := ih hrest hchain
          ⟨next, List.mem_cons_self, hmeet ▸ hge⟩ ⟨other, hmem, hlt⟩
        exact ⟨found, List.mem_cons_of_mem band hfound, hcontains⟩

theorem isProper_of_mem_sortByStart {bands : List Band} (hbands : ∀ band ∈ bands, band.IsProper) :
    ∀ band ∈ sortByStart bands, band.IsProper :=
  fun band hband => hbands band ((sortByStart_perm bands).mem_iff.1 hband)

theorem seamless_of_partitionWarnings_eq_nil {bands : List Band}
    (hbands : ∀ band ∈ bands, band.IsProper) (h : partitionWarnings bands = []) :
    Seamless (sortByStart bands) := by
  unfold partitionWarnings at h
  have hseams := (List.append_eq_nil_iff.1 h).2
  exact seamless_of_seamWarnings_eq_nil (isProper_of_mem_sortByStart hbands) hseams

end Band

/-! ## The rules of an interval -/

namespace Rule

open Attempt Band

variable {readings : List Reading}

/-- All rules are on one side and none of them holds of a number. -/
def Beyond (readings : List Reading) (x : Float) : Prop :=
  (∀ reading ∈ readings, reading.side = .below ∧ reading.threshold ≤ x) ∨
    ∀ reading ∈ readings, reading.side = .above ∧ x < reading.threshold

/-- The band of a rule, with its open side closed. -/
def closedBand (readings : List Reading) (reading : Reading) : Band :=
  closeSide (readings.map Reading.band) reading.band

theorem closeSides_eq_map (readings : List Reading) :
    closeSides (readings.map Reading.band) = readings.map (closedBand readings) := by
  unfold closeSides
  rw [List.map_map]
  rfl

theorem upperEnd_closedBand {reading : Reading} (h : reading.side = .below) :
    (closedBand readings reading).upperEnd = reading.threshold := by
  obtain ⟨side, threshold, score⟩ := reading
  subst h
  rfl

theorem lowerEnd_closedBand {reading : Reading} (h : reading.side = .above) :
    (closedBand readings reading).lowerEnd = reading.threshold := by
  obtain ⟨side, threshold, score⟩ := reading
  subst h
  rfl

theorem isProper_closedBand (h : AllFinite readings) {reading : Reading}
    (hmem : reading ∈ readings) : (closedBand readings reading).IsProper :=
  (isSound_closeSide h hmem).isProper

theorem isProper_of_mem_closeSides (h : AllFinite readings) :
    ∀ band ∈ closeSides (readings.map Reading.band), band.IsProper := by
  intro band hband
  rw [closeSides_eq_map] at hband
  obtain ⟨reading, hmem, rfl⟩ := List.mem_map.1 hband
  exact isProper_closedBand h hmem

theorem Reads.side_eq {name rule : String} {reading : Reading} (h : Reads name rule reading)
    {side : Side} {t score : Float} (hband : band name rule = .ok (side.band t score)) :
    reading.side = side := by
  have heq := h.1.symm.trans hband
  obtain ⟨readingSide, threshold, readingScore⟩ := reading
  cases readingSide <;> cases side <;> first | rfl | cases heq

theorem comparable_of_allFinite (h : AllFinite readings) : Comparable readings :=
  fun reading hmem => isNaN_of_isFinite (h reading hmem).1

/-- No band of rules on one side holds a number beyond them. -/
theorem countP_contains_of_beyond (h : AllFinite readings) {x : Float} (hx : x.isFinite = true)
    (hbeyond : Beyond readings x) :
    (closeSides (readings.map Reading.band)).countP (·.contains x) = 0 := by
  rw [closeSides_eq_map, List.countP_eq_zero]
  intro band hband
  obtain ⟨reading, hmem, rfl⟩ := List.mem_map.1 hband
  rw [(isProper_closedBand h hmem).contains_iff_point hx]
  intro ⟨hlow, hhigh⟩
  rcases hbeyond with hbelow | habove
  · obtain ⟨hside, hle⟩ := hbelow reading hmem
    rw [upperEnd_closedBand hside] at hhigh
    exact absurd hhigh (le_iff_point.1 hle).2.2.not_gt
  · obtain ⟨hside, hlt⟩ := habove reading hmem
    rw [lowerEnd_closedBand hside] at hlow
    exact absurd hlow (lt_iff_point.1 hlt).2.2.not_ge

/-- A number for which a rule holds is in a band. -/
theorem exists_contains_of_tightest (h : AllFinite readings) {x : Float} (hx : x.isFinite = true)
    {side : Side}
    (htightest : ∃ reading ∈ readings, reading.side = side ∧ Tightest readings x reading) :
    ∃ band ∈ closeSides (readings.map Reading.band), band.contains x = true := by
  obtain ⟨reading, hmem, _, htightest⟩ := htightest
  rw [closeSides_eq_map]
  exact ⟨closedBand readings reading, List.mem_map_of_mem hmem,
    (contains_closeSide_iff (comparable_of_allFinite h) (isNaN_of_isFinite hx) hmem).2 htightest⟩

/-- If no rule holds of a number that is not beyond them, there are rules on both sides. -/
theorem exists_sides_of_not_beyond {x : Float}
    (hbelow : ∀ reading ∈ readings, reading.side = .below → reading.threshold ≤ x)
    (habove : ∀ reading ∈ readings, reading.side = .above → x < reading.threshold)
    (hbeyond : ¬Beyond readings x) :
    (∃ reading ∈ readings, reading.side = .below) ∧
      ∃ reading ∈ readings, reading.side = .above := by
  constructor
  · by_contra hnone
    refine hbeyond (.inr fun reading hmem => ?_)
    cases hside : reading.side with
    | below => exact absurd ⟨reading, hmem, hside⟩ hnone
    | above => exact ⟨rfl, habove reading hmem hside⟩
  · by_contra hnone
    refine hbeyond (.inl fun reading hmem => ?_)
    cases hside : reading.side with
    | below => exact ⟨rfl, hbelow reading hmem hside⟩
    | above => exact absurd ⟨reading, hmem, hside⟩ hnone

/-- Where no two neighbouring bands leave a gap, a number between a threshold of the lower side and
one of the upper side is in a band. -/
theorem exists_contains_of_between (h : AllFinite readings)
    (hseamless : Seamless (sortByStart (closeSides (readings.map Reading.band)))) {x : Float}
    (hx : x.isFinite = true) {low high : Reading} (hlow : low ∈ readings)
    (hlowSide : low.side = .below) (hle : low.threshold ≤ x) (hhigh : high ∈ readings)
    (hhighSide : high.side = .above) (hlt : x < high.threshold) :
    ∃ band ∈ closeSides (readings.map Reading.band), band.contains x = true := by
  have hsorted := sortByStart_perm (closeSides (readings.map Reading.band))
  have hmem {reading : Reading} (hreading : reading ∈ readings) :
      closedBand readings reading ∈ sortByStart (closeSides (readings.map Reading.band)) := by
    rw [hsorted.mem_iff, closeSides_eq_map]
    exact List.mem_map_of_mem hreading
  have hstart : point (closedBand readings low).lowerEnd ≤ point x := calc
    point (closedBand readings low).lowerEnd ≤ point (closedBand readings low).upperEnd :=
      (isProper_closedBand h hlow).lowerEnd_lt_upperEnd.le
    _ = point low.threshold := by rw [upperEnd_closedBand hlowSide]
    _ ≤ point x := (le_iff_point.1 hle).2.2
  have hstop : point x < point (closedBand readings high).upperEnd := calc
    point x < point high.threshold := (lt_iff_point.1 hlt).2.2
    _ = point (closedBand readings high).lowerEnd := by rw [lowerEnd_closedBand hhighSide]
    _ < point (closedBand readings high).upperEnd :=
      (isProper_closedBand h hhigh).lowerEnd_lt_upperEnd
  obtain ⟨band, hband, hcontains⟩ := exists_contains_of_seamless
    (isProper_of_mem_sortByStart (isProper_of_mem_closeSides h)) hseamless hx
    ⟨_, hmem hlow, hstart⟩ ⟨_, hmem hhigh, hstop⟩
  exact ⟨band, hsorted.mem_iff.1 hband, hcontains⟩

/-- Where no two neighbouring bands leave a gap, a number that is not beyond the rules is in one. -/
theorem exists_contains_of_not_beyond (h : AllFinite readings)
    (hseamless : Seamless (sortByStart (closeSides (readings.map Reading.band)))) {x : Float}
    (hx : x.isFinite = true) (hbeyond : ¬Beyond readings x) :
    ∃ band ∈ closeSides (readings.map Reading.band), band.contains x = true := by
  have hreadings := comparable_of_allFinite h
  have hxNaN := isNaN_of_isFinite hx
  by_cases hbelow : ∃ reading ∈ readings, reading.side = .below ∧ x < reading.threshold
  · obtain ⟨reading, hmem, hside, hlt⟩ := hbelow
    exact exists_contains_of_tightest h hx (exists_tightest_below hreadings hmem hside hlt)
  by_cases habove : ∃ reading ∈ readings, reading.side = .above ∧ reading.threshold ≤ x
  · obtain ⟨reading, hmem, hside, hle⟩ := habove
    exact exists_contains_of_tightest h hx (exists_tightest_above hreadings hmem hside hle)
  -- no rule holds of the number, so it is between a rule of the lower side and one of the upper
  have hpassed (reading) (hmem : reading ∈ readings) (hside : reading.side = .below) :
      reading.threshold ≤ x :=
    (not_lt_iff hxNaN (hreadings reading hmem)).1 fun hlt => hbelow ⟨reading, hmem, hside, hlt⟩
  have hahead (reading) (hmem : reading ∈ readings) (hside : reading.side = .above) :
      x < reading.threshold := by
    by_contra hlt
    exact habove ⟨reading, hmem, hside, (not_lt_iff hxNaN (hreadings reading hmem)).1 hlt⟩
  obtain ⟨⟨low, hlow, hlowSide⟩, high, hhigh, hhighSide⟩ :=
    exists_sides_of_not_beyond hpassed hahead hbeyond
  exact exists_contains_of_between h hseamless hx hlow hlowSide (hpassed low hlow hlowSide) hhigh
    hhighSide (hahead high hhigh hhighSide)

/-- Where bands give no warning, one band holds a finite number that is not beyond the rules. -/
theorem countP_contains_of_not_beyond (h : AllFinite readings)
    (hwarn : partitionWarnings (closeSides (readings.map Reading.band)) = []) {x : Float}
    (hx : x.isFinite = true) (hbeyond : ¬Beyond readings x) :
    (closeSides (readings.map Reading.band)).countP (·.contains x) = 1 := by
  have hproper := isProper_of_mem_closeSides h
  have hseamless := seamless_of_partitionWarnings_eq_nil hproper hwarn
  have hsorted := sortByStart_perm (closeSides (readings.map Reading.band))
  have hone := hseamless.countP_contains_le_one (isProper_of_mem_sortByStart hproper)
    (isNaN_of_isFinite hx)
  rw [hsorted.countP_eq] at hone
  have hpos := List.countP_pos_iff.2 (exists_contains_of_not_beyond h hseamless hx hbeyond)
  omega

/-! ## What numbers score -/

/-- A number that is in no band scores as uncovered. -/
theorem scoreAmong_of_countP_eq_zero {bands : List Band} {fallback x : Float}
    (h : bands.countP (·.contains x) = 0) : scoreAmong bands fallback x = fallback := by
  have hnone : bands.find? (·.contains x) = none :=
    List.find?_eq_none.2 (List.countP_eq_zero.1 h)
  rw [scoreAmong, hnone]

/-- A number that is in a band scores what one of these bands does. -/
theorem exists_scoreAmong_eq {bands : List Band} {x : Float}
    (h : bands.countP (·.contains x) ≠ 0) (fallback : Float) :
    ∃ band ∈ bands, band.contains x = true ∧ scoreAmong bands fallback x = band.score := by
  cases hfind : bands.find? (·.contains x) with
  | none => exact absurd (List.countP_eq_zero.2 (List.find?_eq_none.1 hfind)) h
  | some band =>
    have hcontains := List.find?_some hfind
    refine ⟨band, List.mem_of_find?_eq_some hfind, hcontains, ?_⟩
    rw [scoreAmong, hfind]

/-- An interval that is accepted and gives no warning. One of its bands holds a finite number and
says what it scores, unless the rules are all on one side and none of them holds of the number: then
no band holds it, and it scores as uncovered. -/
theorem partition_of_no_warnings {name : String} {rules : List String} {element : Element}
    (h : (Definition.interval rules).element name = .ok element) :
    ∃ readings bands, element = .banded name bands uncoveredScore ∧
      List.Forall₂ (Reads name) rules readings ∧
      (partitionWarnings bands = [] → ∀ x : Float, x.isFinite = true →
        (¬Beyond readings x → bands.countP (·.contains x) = 1 ∧
          ∀ arithmetic inputs, inputs.get? name = some x →
            ∃ band ∈ bands, band.contains x = true ∧
              element.evaluateWith arithmetic inputs = .ok band.score) ∧
        (Beyond readings x → bands.countP (·.contains x) = 0 ∧
          ∀ arithmetic inputs, inputs.get? name = some x →
            element.evaluateWith arithmetic inputs = .ok uncoveredScore)) := by
  obtain ⟨readings, hreads, rfl⟩ := exists_readings_of_element h
  refine ⟨readings, _, rfl, hreads, fun hwarn x hx => ⟨fun hbeyond => ?_, fun hbeyond => ?_⟩⟩
  · have hone := countP_contains_of_not_beyond (allFinite_of_reads hreads) hwarn hx hbeyond
    refine ⟨hone, fun arithmetic inputs hget => ?_⟩
    obtain ⟨band, hband, hcontains, hscore⟩ :=
      exists_scoreAmong_eq (hone ▸ Nat.one_ne_zero) uncoveredScore
    rw [evaluateWith_banded_of_get? hget, hscore]
    exact ⟨band, hband, hcontains, rfl⟩
  · have hzero := countP_contains_of_beyond (allFinite_of_reads hreads) hx hbeyond
    refine ⟨hzero, fun arithmetic inputs hget => ?_⟩
    rw [evaluateWith_banded_of_get? hget, scoreAmong_of_countP_eq_zero hzero]

/-- The rules of three bands on both sides of 90: one band holds each finite number. -/
theorem partition_of_three_bands :
    ∃ bands, (Definition.interval ["< 5: 0.1", "< 90: 0.5", "/> 90: 1"]).element "Age" =
        .ok (.banded "Age" bands uncoveredScore) ∧ partitionWarnings bands = [] ∧
      ∀ x : Float, x.isFinite = true → bands.countP (·.contains x) = 1 := by
  have helement : (Definition.interval ["< 5: 0.1", "< 90: 0.5", "/> 90: 1"]).element "Age" =
      .ok (.banded "Age" [⟨none, some 5, 0.1⟩, ⟨some 5, some 90, 0.5⟩, ⟨some 90, none, 1⟩]
        uncoveredScore) := rfl
  have hwarn : partitionWarnings
      [⟨none, some 5, 0.1⟩, ⟨some 5, some 90, 0.5⟩, ⟨some 90, none, 1⟩] = [] := by
    rw [partitionWarnings, sortByStart, List.mergeSort_of_pairwise (by decide +kernel)]
    rfl
  refine ⟨_, helement, hwarn, fun x hx => ?_⟩
  obtain ⟨readings, bands, hbands, hreads, hpartition⟩ := partition_of_no_warnings helement
  cases hbands
  refine ((hpartition hwarn x hx).1 ?_).1
  obtain ⟨low, rest, hlow, hrest, rfl⟩ := List.forall₂_cons_left_iff.1 hreads
  obtain ⟨middle, rest, _, hlast, rfl⟩ := List.forall₂_cons_left_iff.1 hrest
  obtain ⟨high, rest, hhigh, _, rfl⟩ := List.forall₂_cons_left_iff.1 hlast
  have hlowBand : band "Age" "< 5: 0.1" = .ok (Side.below.band 5 0.1) := rfl
  have hhighBand : band "Age" "/> 90: 1" = .ok (Side.above.band 90 1) := rfl
  have hlowSide := hlow.side_eq hlowBand
  have hhighSide := hhigh.side_eq hhighBand
  rintro (hbelow | habove)
  · rw [(hbelow high (by simp)).1] at hhighSide
    cases hhighSide
  · rw [(habove low (by simp)).1] at hlowSide
    cases hlowSide

/-- Rules on one side only: numbers beyond them are in no band, and no warning says so. -/
theorem uncovered_of_rules_below :
    (Definition.interval ["< 5: 1"]).element "Age" =
        .ok (.banded "Age" [⟨none, some 5, 1⟩] uncoveredScore) ∧
      partitionWarnings [⟨none, some 5, 1⟩] = [] ∧ (6 : Float).isFinite = true ∧
      [(⟨none, some 5, 1⟩ : Band)].countP (·.contains 6) = 0 ∧
      scoreAmong [⟨none, some 5, 1⟩] uncoveredScore 6 = uncoveredScore := by
  refine ⟨rfl, ?_, by decide +kernel, by decide +kernel, by decide +kernel⟩
  rw [partitionWarnings, sortByStart, List.mergeSort_singleton]
  rfl

end Rule

end Scorecard
