import Scorecard.Proofs.Seams
import Scorecard.Proofs.TotalOrder

/-!
# What the warnings about bands mean

A warning compares a band with the next one by its start. The bands of the rules on one side follow
each other, but those of both sides can mix: then a band further back may hold what two neighbours
leave out, and a long band may go on behind a short one. So no number of a reported gap is in a band
exactly if no rule of the upper side starts before the gap ends, and a number of a reported overlap
is in two bands exactly if a rule of the lower side holds of it, or the tightest rule of the upper
side is repeated. Main statement: `meaning_of_warnings`.
-/

namespace Scorecard

open Number

namespace Band

/-! ## Neighbours -/

/-- A warning about neighbours comes from two bands of which one follows the other. -/
theorem mem_seamWarnings_iff {bands : List Band} {warning : PartitionWarning} :
    warning ∈ seamWarnings bands ↔ ∃ before band next after,
      bands = before ++ band :: next :: after ∧ seamWarning? band next = some warning := by
  induction bands with
  | nil => simp [seamWarnings]
  | cons first rest ih =>
    cases rest with
    | nil =>
      have hshort (before band next after) : [first] ≠ before ++ band :: next :: after :=
        fun h => absurd (congrArg List.length h) (by simp; omega)
      simp [seamWarnings, hshort]
    | cons second rest =>
      rw [seamWarnings, List.mem_append, Option.mem_toList, ih]
      constructor
      · rintro (hseam | ⟨before, band, next, after, hbands, hseam⟩)
        · exact ⟨[], first, second, rest, rfl, hseam⟩
        · exact ⟨first :: before, band, next, after, by rw [hbands, List.cons_append], hseam⟩
      · rintro ⟨before, band, next, after, hbands, hseam⟩
        cases before with
        | nil =>
          obtain ⟨rfl, rfl, rfl⟩ := by simpa using hbands
          exact .inl hseam
        | cons head before =>
          obtain ⟨rfl, htail⟩ := List.cons_eq_cons.1 hbands
          exact .inr ⟨before, band, next, after, htail, hseam⟩

/-- Two members of a list, at two places, of which the second is next by its start. -/
structure Adjacent (bands : List Band) (band next : Band) : Prop where
  mem_band : band ∈ bands
  mem_next : next ∈ bands
  le : point band.lowerEnd ≤ point next.lowerEnd
  before_or_behind : ∀ other ∈ bands,
    point other.lowerEnd ≤ point band.lowerEnd ∨ point next.lowerEnd ≤ point other.lowerEnd
  two_le_countP : ∀ p : Band → Bool, p band = true → p next = true → 2 ≤ bands.countP p

theorem pairwise_lowerEnd_sortByStart {bands : List Band}
    (hbands : ∀ band ∈ bands, band.IsProper) :
    (sortByStart bands).Pairwise fun a b => point a.lowerEnd ≤ point b.lowerEnd := by
  have hproper := isProper_of_mem_sortByStart hbands
  refine (pairwise_sortByStart bands).imp_of_mem fun ha hb hordered => ?_
  exact point_le_of_ordered (hproper _ ha).isNaN_lowerEnd (hproper _ hb).isNaN_lowerEnd hordered

/-- Bands that stand next to each other by ascending starts are adjacent. -/
theorem adjacent_of_sorted {bands : List Band} (hbands : ∀ band ∈ bands, band.IsProper)
    {before after : List Band} {band next : Band}
    (h : sortByStart bands = before ++ band :: next :: after) : Adjacent bands band next := by
  have hperm := sortByStart_perm bands
  have hstarts := pairwise_lowerEnd_sortByStart hbands
  rw [h] at hstarts hperm
  obtain ⟨-, hlater, hbefore⟩ := List.pairwise_append.1 hstarts
  obtain ⟨hband, hlater⟩ := List.pairwise_cons.1 hlater
  have hnext := (List.pairwise_cons.1 hlater).1
  exact
    { mem_band := hperm.mem_iff.1 (by simp)
      mem_next := hperm.mem_iff.1 (by simp)
      le := hband next List.mem_cons_self
      before_or_behind := fun other hother => by
        rcases List.mem_append.1 (hperm.mem_iff.2 hother) with hmem | hmem
        · exact .inl (hbefore other hmem band List.mem_cons_self)
        · rcases List.mem_cons.1 hmem with rfl | hmem
          · exact .inl le_rfl
          · rcases List.mem_cons.1 hmem with rfl | hmem
            · exact .inr le_rfl
            · exact .inr (hnext other hmem)
      two_le_countP := fun p hp hq => by
        rw [← hperm.countP_eq, List.countP_append, List.countP_cons_of_pos hp,
          List.countP_cons_of_pos hq]
        omega }

/-- A warning of a gap or an overlap compares adjacent bands. -/
theorem exists_adjacent_of_mem {bands : List Band} (hbands : ∀ band ∈ bands, band.IsProper)
    {warning : PartitionWarning} (hmem : warning ∈ partitionWarnings bands)
    (hstarts : ∀ count, warning ≠ .openStarts count)
    (hstops : ∀ count, warning ≠ .openStops count) :
    ∃ band next, Adjacent bands band next ∧ seamWarning? band next = some warning := by
  unfold partitionWarnings at hmem
  rw [List.mem_append, List.mem_append] at hmem
  rcases hmem with (hmem | hmem) | hmem
  · split at hmem
    · exact absurd (List.mem_singleton.1 hmem) (hstarts _)
    · cases hmem
  · split at hmem
    · exact absurd (List.mem_singleton.1 hmem) (hstops _)
    · cases hmem
  · obtain ⟨before, band, next, after, hsorted, hseam⟩ := mem_seamWarnings_iff.1 hmem
    exact ⟨band, next, adjacent_of_sorted hbands hsorted, hseam⟩

/-- A reported gap goes from the stop of a band to the start of the next one. -/
theorem exists_adjacent_of_gap {bands : List Band} (hbands : ∀ band ∈ bands, band.IsProper)
    {a b : Float} (h : .gap a b ∈ partitionWarnings bands) :
    ∃ band next, Adjacent bands band next ∧ a = band.upperEnd ∧ b = next.lowerEnd ∧ a < b := by
  obtain ⟨band, next, hadjacent, hseam⟩ := exists_adjacent_of_mem hbands h nofun nofun
  refine ⟨band, next, hadjacent, ?_⟩
  unfold seamWarning? at hseam
  split at hseam
  · cases hseam
    exact ⟨rfl, rfl, ‹_›⟩
  · split at hseam <;> cases hseam

/-- A reported overlap goes from the start of a band to the stop of the one before it. -/
theorem exists_adjacent_of_overlap {bands : List Band} (hbands : ∀ band ∈ bands, band.IsProper)
    {a b : Float} (h : .overlap a b ∈ partitionWarnings bands) :
    ∃ band next, Adjacent bands band next ∧ a = next.lowerEnd ∧ b = band.upperEnd ∧ a < b := by
  obtain ⟨band, next, hadjacent, hseam⟩ := exists_adjacent_of_mem hbands h nofun nofun
  refine ⟨band, next, hadjacent, ?_⟩
  unfold seamWarning? at hseam
  split at hseam
  · cases hseam
  · split at hseam
    · cases hseam
      exact ⟨rfl, rfl, ‹_›⟩
    · cases hseam

end Band

namespace Rule

open Attempt Band

variable {readings : List Reading}

/-! ## How many bands hold a number -/

/-- How many rules of a side are tightest around a number. -/
def tightestOn (side : Side) (readings : List Reading) (x : Float) : Nat :=
  readings.countP fun reading => reading.side = side ∧ Tightest readings x reading

/-- The bands that hold a number are those of the tightest rules of both sides. -/
theorem countP_contains_eq (h : AllFinite readings) {x : Float} (hx : x.isFinite = true) :
    (closeSides (readings.map Reading.band)).countP (·.contains x) =
      tightestOn .below readings x + tightestOn .above readings x := by
  rw [countP_contains_closeSides (comparable_of_allFinite h) (isNaN_of_isFinite hx),
    List.countP_eq_countP_filter_add _ _ fun reading => decide (reading.side = .below),
    List.countP_filter, List.countP_filter]
  unfold tightestOn
  congr 1 <;> refine List.countP_congr fun reading _ => ?_
  · simp [and_comm]
  · cases reading.side <;> simp

theorem tightestOn_below_pos_iff (h : AllFinite readings) (x : Float) :
    0 < tightestOn .below readings x ↔
      ∃ reading ∈ readings, reading.side = .below ∧ x < reading.threshold := by
  unfold tightestOn
  simp only [List.countP_pos_iff, decide_eq_true_iff]
  constructor
  · rintro ⟨reading, hmem, hside, htightest⟩
    exact ⟨reading, hmem, hside, ((tightest_below_iff hside).1 htightest).1⟩
  · rintro ⟨reading, hmem, hside, hlt⟩
    exact exists_tightest_below (comparable_of_allFinite h) hmem hside hlt

theorem tightestOn_above_pos_iff (h : AllFinite readings) (x : Float) :
    0 < tightestOn .above readings x ↔
      ∃ reading ∈ readings, reading.side = .above ∧ reading.threshold ≤ x := by
  unfold tightestOn
  simp only [List.countP_pos_iff, decide_eq_true_iff]
  constructor
  · rintro ⟨reading, hmem, hside, htightest⟩
    exact ⟨reading, hmem, hside, ((tightest_above_iff hside).1 htightest).1⟩
  · rintro ⟨reading, hmem, hside, hle⟩
    exact exists_tightest_above (comparable_of_allFinite h) hmem hside hle

/-! ## Bands of the rules below a threshold -/

/-- The band of a rule starts at every smaller threshold of its side or behind it. -/
theorem threshold_le_lowerEnd (h : AllFinite readings) {reading other : Reading}
    (hside : reading.side = .below) (hother : other ∈ readings) (hotherSide : other.side = .below)
    (hlt : other.threshold < reading.threshold) :
    point other.threshold ≤ point (closedBand readings reading).lowerEnd := by
  have hmem : other.threshold ∈ (thresholds .below readings).filter (· < reading.threshold) :=
    List.mem_filter.2 ⟨mem_thresholds_iff.2 ⟨other, hother, hotherSide, rfl⟩, decide_eq_true hlt⟩
  have hlower : (closedBand readings reading).lowerEnd =
      (reduce? greater ((thresholds .below readings).filter (· < reading.threshold))).getD
        negativeInfinity := by
    rw [← filterMap_stopBelow?]
    obtain ⟨side, threshold, score⟩ := reading
    subst hside
    rfl
  rcases keepsGreater_greater.reduce? (fun t ht =>
    isNaN_of_isFinite (h.thresholds .below t (List.mem_of_mem_filter ht))) with
      ⟨hnil, _⟩ | ⟨greatest, _, hreduce, hbound⟩
  · rw [hnil] at hmem
    cases hmem
  · rw [hlower, hreduce]
    exact hbound other.threshold hmem

/-- Of two adjacent bands of rules on the lower side that overlap, the thresholds are the same. -/
theorem threshold_eq_of_adjacent (h : AllFinite readings) {reading next : Reading}
    (hmem : reading ∈ readings) (hnext : next ∈ readings) (hside : reading.side = .below)
    (hnextSide : next.side = .below)
    (hle : point (closedBand readings reading).lowerEnd ≤
      point (closedBand readings next).lowerEnd)
    (hoverlap : point (closedBand readings next).lowerEnd < point reading.threshold) :
    point reading.threshold = point next.threshold := by
  have hNaN := isNaN_of_isFinite (h reading hmem).1
  have hnextNaN := isNaN_of_isFinite (h next hnext).1
  rcases lt_trichotomy (point reading.threshold) (point next.threshold) with hlt | heq | hgt
  · have hbehind := threshold_le_lowerEnd h hnextSide hmem hside
      (lt_iff_point.2 ⟨hNaN, hnextNaN, hlt⟩)
    exact absurd hoverlap hbehind.not_gt
  · exact heq
  · have hbehind := threshold_le_lowerEnd h hside hnext hnextSide
      (lt_iff_point.2 ⟨hnextNaN, hNaN, hgt⟩)
    have hproper := (isProper_closedBand h hnext).lowerEnd_lt_upperEnd
    rw [upperEnd_closedBand hnextSide] at hproper
    exact absurd (hbehind.trans hle) hproper.not_ge

/-! ## Gaps and overlaps -/

theorem exists_closedBand_of_mem {band : Band}
    (h : band ∈ closeSides (readings.map Reading.band)) :
    ∃ reading ∈ readings, band = closedBand readings reading := by
  rw [closeSides_eq_map] at h
  obtain ⟨reading, hmem, rfl⟩ := List.mem_map.1 h
  exact ⟨reading, hmem, rfl⟩

theorem closedBand_mem {reading : Reading} (h : reading ∈ readings) :
    closedBand readings reading ∈ closeSides (readings.map Reading.band) := by
  rw [closeSides_eq_map]
  exact List.mem_map_of_mem h

/-- If a band holds a number in a gap behind an adjacent one, a rule of the upper side starts there
or before. -/
theorem exists_above_of_contains (h : AllFinite readings) {band next : Band}
    (hadjacent : Adjacent (closeSides (readings.map Reading.band)) band next) {x : Float}
    (hx : x.isFinite = true) (hlow : point band.upperEnd ≤ point x)
    (hhigh : point x < point next.lowerEnd) {reading : Reading} (hmem : reading ∈ readings)
    (hcontains : (closedBand readings reading).contains x = true) :
    ∃ other ∈ readings, other.side = .above ∧ point other.threshold ≤ point band.lowerEnd := by
  obtain ⟨hstart, hstop⟩ := ((isProper_closedBand h hmem).contains_iff_point hx).1 hcontains
  have hle : point (closedBand readings reading).lowerEnd ≤ point band.lowerEnd :=
    (hadjacent.before_or_behind _ (closedBand_mem hmem)).resolve_right
      (hstart.trans_lt hhigh).not_ge
  cases hside : reading.side with
  | above =>
    rw [lowerEnd_closedBand hside] at hle
    exact ⟨reading, hmem, hside, hle⟩
  | below =>
    rw [upperEnd_closedBand hside] at hstop
    obtain ⟨first, hfirst, rfl⟩ := exists_closedBand_of_mem hadjacent.mem_band
    have hproper := (isProper_closedBand h hfirst).lowerEnd_lt_upperEnd
    cases hfirstSide : first.side with
    | above =>
      rw [lowerEnd_closedBand hfirstSide]
      exact ⟨first, hfirst, hfirstSide, le_rfl⟩
    | below =>
      -- then the band of the rule would start behind the one before the gap
      rw [upperEnd_closedBand hfirstSide] at hlow hproper
      have hlt : first.threshold < reading.threshold := lt_iff_point.2
        ⟨isNaN_of_isFinite (h first hfirst).1, isNaN_of_isFinite (h reading hmem).1,
          hlow.trans_lt hstop⟩
      have hbehind := threshold_le_lowerEnd h hside hfirst hfirstSide hlt
      exact absurd (hbehind.trans hle) hproper.not_ge

/-- The numbers of a reported gap are in no band exactly if no rule of the upper side starts before
the gap ends. -/
theorem countP_contains_of_gap (h : AllFinite readings) {a b : Float}
    (hwarn : .gap a b ∈ partitionWarnings (closeSides (readings.map Reading.band))) {x : Float}
    (hx : x.isFinite = true) (hax : a ≤ x) (hxb : x < b) :
    (closeSides (readings.map Reading.band)).countP (·.contains x) = 0 ↔
      ∀ reading ∈ readings, reading.side = .above → b ≤ reading.threshold := by
  have hproper := isProper_of_mem_closeSides h
  obtain ⟨band, next, hadjacent, rfl, rfl, hgap⟩ := exists_adjacent_of_gap hproper hwarn
  have hlow := (le_iff_point.1 hax).2.2
  have hhigh := (lt_iff_point.1 hxb).2.2
  have hends := (hproper band hadjacent.mem_band).lowerEnd_lt_upperEnd
  constructor
  · intro hzero reading hmem hside
    by_contra hearly
    have hNaN := isNaN_of_isFinite (h reading hmem).1
    have hlt : reading.threshold < next.lowerEnd :=
      not_not.1 ((not_lt_iff hNaN (hproper next hadjacent.mem_next).isNaN_lowerEnd).not.2 hearly)
    have hbefore : point reading.threshold ≤ point band.lowerEnd := by
      have hplace := hadjacent.before_or_behind _ (closedBand_mem hmem)
      rw [lowerEnd_closedBand hside] at hplace
      exact hplace.resolve_right (lt_iff_point.1 hlt).2.2.not_ge
    have hle : reading.threshold ≤ x := le_iff_point.2
      ⟨hNaN, isNaN_of_isFinite hx, hbefore.trans (hends.le.trans hlow)⟩
    have hpos := (tightestOn_above_pos_iff h x).2 ⟨reading, hmem, hside, hle⟩
    rw [countP_contains_eq h hx] at hzero
    omega
  · intro habove
    rw [closeSides_eq_map, List.countP_eq_zero]
    intro other hother hcontains
    obtain ⟨reading, hmem, rfl⟩ := List.mem_map.1 hother
    obtain ⟨above, hmemAbove, hside, hbefore⟩ :=
      exists_above_of_contains h hadjacent hx hlow hhigh hmem hcontains
    have hbehind := (le_iff_point.1 (habove above hmemAbove hside)).2.2
    exact absurd (hbehind.trans (hbefore.trans hends.le)) (lt_iff_point.1 hgap).2.2.not_ge

/-- The numbers of a reported overlap are in two bands exactly if a rule of the lower side holds of
them, or two of the upper side are tightest. -/
theorem countP_contains_of_overlap (h : AllFinite readings) {a b : Float}
    (hwarn : .overlap a b ∈ partitionWarnings (closeSides (readings.map Reading.band))) {x : Float}
    (hx : x.isFinite = true) (hax : a ≤ x) (hxb : x < b) :
    2 ≤ (closeSides (readings.map Reading.band)).countP (·.contains x) ↔
      (∃ reading ∈ readings, reading.side = .below ∧ x < reading.threshold) ∨
        2 ≤ tightestOn .above readings x := by
  have hproper := isProper_of_mem_closeSides h
  obtain ⟨band, next, hadjacent, rfl, rfl, hoverlap⟩ := exists_adjacent_of_overlap hproper hwarn
  have hlow := (le_iff_point.1 hax).2.2
  have hhigh := (lt_iff_point.1 hxb).2.2
  have hband : band.contains x = true :=
    ((hproper band hadjacent.mem_band).contains_iff_point hx).2 ⟨hadjacent.le.trans hlow, hhigh⟩
  rw [← tightestOn_below_pos_iff h x]
  constructor
  · intro htwo
    rw [countP_contains_eq h hx] at htwo
    omega
  · rintro (hbelow | habove)
    · -- a rule of the upper side that holds gives a second band
      have hsecond (reading) (hmem : reading ∈ readings) (hside : reading.side = .above)
          (hstart : point (closedBand readings reading).lowerEnd ≤ point x) :
          2 ≤ (closeSides (readings.map Reading.band)).countP (·.contains x) := by
        rw [lowerEnd_closedBand hside] at hstart
        have hle : reading.threshold ≤ x :=
          le_iff_point.2 ⟨isNaN_of_isFinite (h reading hmem).1, isNaN_of_isFinite hx, hstart⟩
        have hpos := (tightestOn_above_pos_iff h x).2 ⟨reading, hmem, hside, hle⟩
        rw [countP_contains_eq h hx]
        omega
      obtain ⟨first, hfirst, rfl⟩ := exists_closedBand_of_mem hadjacent.mem_band
      obtain ⟨second, hmem, rfl⟩ := exists_closedBand_of_mem hadjacent.mem_next
      cases hfirstSide : first.side with
      | above => exact hsecond first hfirst hfirstSide (hadjacent.le.trans hlow)
      | below =>
        cases hside : second.side with
        | above => exact hsecond second hmem hside hlow
        | below =>
          rw [upperEnd_closedBand hfirstSide] at hhigh hoverlap
          have heq := threshold_eq_of_adjacent h hfirst hmem hfirstSide hside hadjacent.le
            (lt_iff_point.1 hoverlap).2.2
          refine hadjacent.two_le_countP _ hband
            (((isProper_closedBand h hmem).contains_iff_point hx).2 ⟨hlow, ?_⟩)
          rw [upperEnd_closedBand hside, ← heq]
          exact hhigh
    · rw [countP_contains_eq h hx]
      omega

/-- An interval that is accepted. The finite numbers of a gap that is reported of its bands are in
no band exactly if all rules of the upper side start at the end of the gap or behind it. Those of an
overlap are in at least two bands exactly if a rule of the lower side holds of them, or two of the
upper side are tightest around them. -/
theorem meaning_of_warnings {name : String} {rules : List String} {element : Element}
    (h : (Definition.interval rules).element name = .ok element) :
    ∃ readings bands, element = .banded name bands uncoveredScore ∧
      List.Forall₂ (Reads name) rules readings ∧
      ∀ a b x : Float, x.isFinite = true → a ≤ x → x < b →
        (.gap a b ∈ partitionWarnings bands →
          (bands.countP (·.contains x) = 0 ↔
            ∀ reading ∈ readings, reading.side = .above → b ≤ reading.threshold)) ∧
        (.overlap a b ∈ partitionWarnings bands →
          (2 ≤ bands.countP (·.contains x) ↔
            (∃ reading ∈ readings, reading.side = .below ∧ x < reading.threshold) ∨
              2 ≤ tightestOn .above readings x)) := by
  obtain ⟨readings, hreads, rfl⟩ := exists_readings_of_element h
  have hfinite := allFinite_of_reads hreads
  exact ⟨readings, _, rfl, hreads, fun a b x hx hax hxb =>
    ⟨fun hwarn => countP_contains_of_gap hfinite hwarn hx hax hxb,
      fun hwarn => countP_contains_of_overlap hfinite hwarn hx hax hxb⟩⟩

theorem Reads.reading_eq {name rule : String} {reading : Reading} (h : Reads name rule reading)
    {side : Side} {t score : Float} (hband : band name rule = .ok (side.band t score)) :
    reading = ⟨side, t, score⟩ := by
  have heq := h.1.symm.trans hband
  obtain ⟨readingSide, threshold, readingScore⟩ := reading
  cases readingSide <;> cases side <;> cases heq <;> rfl

/-- Rules that leave out the numbers between five and ten, as a warning says. -/
theorem meaning_of_gap_of_two_bands :
    ∃ bands, (Definition.interval ["< 5: 1", "/> 10: 2"]).element "Age" =
        .ok (.banded "Age" bands uncoveredScore) ∧
      .gap 5 10 ∈ partitionWarnings bands ∧ bands.countP (·.contains 7) = 0 := by
  have helement : (Definition.interval ["< 5: 1", "/> 10: 2"]).element "Age" =
      .ok (.banded "Age" [⟨none, some 5, 1⟩, ⟨some 10, none, 2⟩] uncoveredScore) := rfl
  have hwarn : .gap 5 10 ∈ partitionWarnings [⟨none, some 5, 1⟩, ⟨some 10, none, 2⟩] := by
    rw [partitionWarnings, sortByStart, List.mergeSort_of_pairwise (by decide +kernel)]
    exact List.mem_append_right _ List.mem_cons_self
  refine ⟨_, helement, hwarn, ?_⟩
  obtain ⟨readings, bands, hbands, hreads, hmeaning⟩ := meaning_of_warnings helement
  cases hbands
  obtain ⟨low, rest, hlow, hrest, rfl⟩ := List.forall₂_cons_left_iff.1 hreads
  obtain ⟨high, rest, hhigh, hnil, rfl⟩ := List.forall₂_cons_left_iff.1 hrest
  cases hnil
  have hlowReading : low = ⟨.below, 5, 1⟩ := hlow.reading_eq rfl
  have hhighReading : high = ⟨.above, 10, 2⟩ := hhigh.reading_eq rfl
  subst hlowReading hhighReading
  have hinside := hmeaning 5 10 7 (by decide +kernel) (by decide +kernel) (by decide +kernel)
  exact (hinside.1 hwarn).2 (by decide +kernel)

/-- A gap between ten and twenty and an overlap between five and twenty are reported, but fifteen is
in one band. -/
theorem false_warnings_of_mixed_sides :
    ∃ bands, (Definition.interval ["< 5: 1", "/> 3: 3", "< 10: 2", "/> 20: 4"]).element "Age" =
        .ok (.banded "Age" bands uncoveredScore) ∧
      .gap 10 20 ∈ partitionWarnings bands ∧ .overlap 5 20 ∈ partitionWarnings bands ∧
      (15 : Float).isFinite = true ∧ (10 : Float) ≤ 15 ∧ (5 : Float) ≤ 15 ∧ (15 : Float) < 20 ∧
      bands.countP (·.contains 15) = 1 := by
  have helement :
      (Definition.interval ["< 5: 1", "/> 3: 3", "< 10: 2", "/> 20: 4"]).element "Age" =
        .ok (.banded "Age" [⟨none, some 5, 1⟩, ⟨some 3, some 20, 3⟩, ⟨some 5, some 10, 2⟩,
          ⟨some 20, none, 4⟩] uncoveredScore) := rfl
  have hwarn : partitionWarnings [⟨none, some 5, 1⟩, ⟨some 3, some 20, 3⟩, ⟨some 5, some 10, 2⟩,
      ⟨some 20, none, 4⟩] = [.overlap 3 5, .overlap 5 20, .gap 10 20] := by
    rw [partitionWarnings, sortByStart, List.mergeSort_of_pairwise (by decide +kernel)]
    rfl
  refine ⟨_, helement, ?_, ?_, by decide +kernel, by decide +kernel, by decide +kernel,
    by decide +kernel, by decide +kernel⟩
  · rw [hwarn]
    simp
  · rw [hwarn]
    simp

end Rule

end Scorecard
