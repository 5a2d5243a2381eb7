import Scorecard.Proofs.Warnings

/-!
# What the warnings about bands cover

Comparing only neighbours by their starts misses nothing between the first start and the last stop.
The bands that begin at a number or before it come first. If two of them hold the number, the
earlier one and its neighbour are reported to overlap there; if none does, the last of them and its
neighbour leave a gap that is reported. So there is no warning exactly if no input is in two bands
and each input between two covered ones is covered too. The infinities are inputs as well: they are
in the bands that are open on their side. Main statement: `coverage_of_warnings`.
-/

namespace Scorecard

open Number

/-- A number between two others is finite. -/
theorem Number.isFinite_of_between {x y z : Float} (hyx : y < x) (hxz : x < z) :
    x.isFinite = true := by
  obtain ⟨-, hNaN, hlow⟩ := lt_iff_point.1 hyx
  obtain ⟨-, -, hhigh⟩ := lt_iff_point.1 hxz
  replace hlow := (point_negativeInfinity_le y).trans_lt hlow
  replace hhigh := hhigh.trans_le (point_le_infinity z)
  rw [point_negativeInfinity, point] at hlow
  rw [point_infinity, point] at hhigh
  show x.toModel.unpack.isFinite = true
  have hunpack : x.toModel.unpack.isNaN = false := hNaN
  cases hx : x.toModel.unpack with
  | infinity sign =>
    rw [hx] at hlow hhigh
    cases sign with
    | negative => exact absurd hlow (lt_irrefl _)
    | positive => exact absurd hhigh (lt_irrefl _)
  | notANumber =>
    rw [hx] at hunpack
    cases hunpack
  | zero sign => rfl
  | finite sign mantissa exponent _ => rfl

namespace Band

/-! ## Places in a list -/

section

variable {α : Type}

/-- Two of the members that pass a test are at two places, one behind the other. -/
theorem exists_append_of_two_le_countP {p : α → Bool} {l : List α} (h : 2 ≤ l.countP p) :
    ∃ before a rest, l = before ++ a :: rest ∧ p a = true ∧ ∃ b ∈ rest, p b = true := by
  induction l with
  | nil => simp at h
  | cons head rest ih =>
    by_cases hhead : p head = true
    · rw [List.countP_cons_of_pos hhead] at h
      exact ⟨[], head, rest, rfl, hhead, List.countP_pos_iff.1 (by omega)⟩
    · rw [List.countP_cons_of_neg hhead] at h
      obtain ⟨before, a, behind, hrest, ha⟩ := ih h
      exact ⟨head :: before, a, behind, by rw [hrest, List.cons_append], ha⟩

/-- Where a property of the members ends: at two neighbours of which only the first has it. -/
theorem exists_boundary {p : α → Prop} {l : List α} (hl : l.Pairwise fun a b => p b → p a)
    (hin : ∃ a ∈ l, p a) (hout : ∃ b ∈ l, ¬p b) :
    ∃ before a b after, l = before ++ a :: b :: after ∧ p a ∧ ¬p b := by
  induction l with
  | nil =>
    obtain ⟨a, hmem, -⟩ := hin
    cases hmem
  | cons head rest ih =>
    obtain ⟨hhead, hrest⟩ := List.pairwise_cons.1 hl
    have hfirst : p head := by
      obtain ⟨a, hmem, ha⟩ := hin
      rcases List.mem_cons.1 hmem with rfl | hmem
      · exact ha
      · exact hhead a hmem ha
    obtain ⟨b, hmem, hb⟩ := hout
    have hbehind : b ∈ rest := by
      rcases List.mem_cons.1 hmem with rfl | hmem
      · exact absurd hfirst hb
      · exact hmem
    cases rest with
    | nil => cases hbehind
    | cons next rest =>
      by_cases hnext : p next
      · obtain ⟨before, a, c, after, heq, hac⟩ :=
          ih hrest ⟨next, List.mem_cons_self, hnext⟩ ⟨b, hbehind, hb⟩
        exact ⟨head :: before, a, c, after, by rw [heq, List.cons_append], hac⟩
      · exact ⟨[], head, next, rest, rfl, hfirst, hnext⟩

/-- Two members that another test tells apart count twice. -/
theorem two_le_countP_of_ne {p q : α → Bool} {l : List α} {a b : α} (ha : a ∈ l) (hb : b ∈ l)
    (hpa : p a = true) (hpb : p b = true) (hqa : q a = true) (hqb : q b = false) :
    2 ≤ l.countP p := by
  have hpassed : 0 < (l.filter q).countP p :=
    List.countP_pos_iff.2 ⟨a, List.mem_filter.2 ⟨ha, hqa⟩, hpa⟩
  have hfailed : 0 < (l.filter fun c => !q c).countP p :=
    List.countP_pos_iff.2 ⟨b, List.mem_filter.2 ⟨hb, by rw [hqb]; rfl⟩, hpb⟩
  rw [List.countP_eq_countP_filter_add l p q]
  omega

end

/-! ## Numbers in bands -/

/-- A number is in some band. -/
def Covers (bands : List Band) (x : Float) : Prop :=
  ∃ band ∈ bands, band.contains x = true

namespace IsProper

variable {band : Band} (h : band.IsProper)

include h

theorem contains_lowerEnd : band.contains band.lowerEnd = true :=
  (h.contains_iff h.isNaN_lowerEnd).2 ⟨le_rfl, .inr h.lowerEnd_lt_upperEnd⟩

/-- A band that begins at a number or before it, and does not hold it, stops there or before. -/
theorem upperEnd_le_of_not_contains {x : Float} (hx : x.isNaN = false)
    (hstart : point band.lowerEnd ≤ point x) (hnot : ¬band.contains x = true) :
    point band.upperEnd ≤ point x := by
  rw [h.contains_iff hx] at hnot
  exact not_lt.1 fun hlt => hnot ⟨hstart, .inr hlt⟩

theorem contains_infinity_iff : band.contains infinity = true ↔ band.stop = none := by
  rw [h.contains_iff (by decide)]
  have hupper := point_le_infinity band.upperEnd
  exact ⟨fun hcontains => hcontains.2.resolve_right hupper.not_gt,
    fun hstop => ⟨point_le_infinity _, .inl hstop⟩⟩

theorem contains_negativeInfinity_iff :
    band.contains negativeInfinity = true ↔ band.start = none := by
  have hlower := h.contains_lowerEnd
  constructor
  · intro hcontains
    have hlow := ((h.contains_iff (by decide)).1 hcontains).1
    unfold lowerEnd at hlow
    cases hstart : band.start with
    | none => rfl
    | some start =>
      rw [hstart] at hlow
      exact absurd hlow (point_between_of_isFinite (h.start_isFinite start hstart)).1.not_ge
  · intro hstart
    rw [lowerEnd, hstart] at hlower
    exact hlower

end IsProper

theorem mem_partitionWarnings_of_neighbours {bands before after : List Band} {band next : Band}
    {warning : PartitionWarning} (h : sortByStart bands = before ++ band :: next :: after)
    (hseam : seamWarning? band next = some warning) : warning ∈ partitionWarnings bands := by
  unfold partitionWarnings
  exact List.mem_append_right _ (mem_seamWarnings_iff.2 ⟨before, band, next, after, h, hseam⟩)

section

variable {bands : List Band} (hbands : ∀ band ∈ bands, band.IsProper)

include hbands

/-! ## Nothing is missed -/

/-- A number in two bands is in an overlap that is reported. -/
theorem exists_overlap {x : Float} (hx : x.isFinite = true)
    (htwo : 2 ≤ bands.countP (·.contains x)) :
    ∃ a b, .overlap a b ∈ partitionWarnings bands ∧ a ≤ x ∧ x < b := by
  have hxNaN := isNaN_of_isFinite hx
  have hproper := isProper_of_mem_sortByStart hbands
  rw [← (sortByStart_perm bands).countP_eq] at htwo
  obtain ⟨before, band, rest, hsorted, hcontains, other, hother, hotherContains⟩ :=
    exists_append_of_two_le_countP htwo
  cases rest with
  | nil => cases hother
  | cons next after =>
    have hstarts := pairwise_lowerEnd_sortByStart hbands
    rw [hsorted] at hproper hstarts
    have hband := hproper band (by simp)
    have hnext := hproper next (by simp)
    -- the neighbour of the first band begins no later than the second band that holds the number
    have hbehind : point next.lowerEnd ≤ point other.lowerEnd := by
      have hlater := (List.pairwise_cons.1 (List.pairwise_append.1 hstarts).2.1).2
      rcases List.mem_cons.1 hother with rfl | hother
      · exact le_rfl
      · exact (List.pairwise_cons.1 hlater).1 other hother
    have hotherProper := hproper other (by simp [List.mem_cons.1 hother])
    have hlow : point next.lowerEnd ≤ point x :=
      hbehind.trans ((hotherProper.contains_iff hxNaN).1 hotherContains).1
    have hhigh := ((hband.contains_iff_point hx).1 hcontains).2
    exact ⟨_, _, mem_partitionWarnings_of_neighbours hsorted
      (seamWarning?_eq_overlap hband hnext (hlow.trans_lt hhigh)),
      le_iff_point.2 ⟨hnext.isNaN_lowerEnd, hxNaN, hlow⟩,
      lt_iff_point.2 ⟨hxNaN, hband.isNaN_upperEnd, hhigh⟩⟩

/-- A number in no band, with a band that stops before it or at it and one that starts behind it, is
in a gap that is reported. -/
theorem exists_gap {x : Float} (hx : x.isFinite = true) (hnone : ¬Covers bands x)
    (hlow : ∃ band ∈ bands, ∃ stop, band.stop = some stop ∧ stop ≤ x)
    (hhigh : ∃ band ∈ bands, ∃ start, band.start = some start ∧ x < start) :
    ∃ a b, .gap a b ∈ partitionWarnings bands ∧ a ≤ x ∧ x < b := by
  have hxNaN := isNaN_of_isFinite hx
  have hsortedMem {band : Band} (hmem : band ∈ bands) : band ∈ sortByStart bands :=
    (sortByStart_perm bands).mem_iff.2 hmem
  obtain ⟨low, hlowMem, stop, hstop, hstopLe⟩ := hlow
  obtain ⟨high, hhighMem, start, hstart, hltStart⟩ := hhigh
  have hlowStart : point low.lowerEnd ≤ point x := by
    have hends := (hbands low hlowMem).lowerEnd_lt_upperEnd
    rw [upperEnd, hstop] at hends
    exact hends.le.trans (le_iff_point.1 hstopLe).2.2
  have hhighStart : ¬point high.lowerEnd ≤ point x := by
    rw [lowerEnd, hstart]
    exact (lt_iff_point.1 hltStart).2.2.not_ge
  have hstarts : (sortByStart bands).Pairwise fun band next =>
      point next.lowerEnd ≤ point x → point band.lowerEnd ≤ point x :=
    (pairwise_lowerEnd_sortByStart hbands).imp fun hle hnext => hle.trans hnext
  -- the last band that begins at the number or before it, and the next one
  obtain ⟨before, band, next, after, hsorted, hbefore, hbehind⟩ :=
    exists_boundary hstarts ⟨low, hsortedMem hlowMem, hlowStart⟩
      ⟨high, hsortedMem hhighMem, hhighStart⟩
  have hadjacent := adjacent_of_sorted hbands hsorted
  have hband := hbands band hadjacent.mem_band
  have hnext := hbands next hadjacent.mem_next
  have hupper := hband.upperEnd_le_of_not_contains hxNaN hbefore fun hcontains =>
    hnone ⟨band, hadjacent.mem_band, hcontains⟩
  have hlower := not_le.1 hbehind
  exact ⟨_, _, mem_partitionWarnings_of_neighbours hsorted
    (seamWarning?_eq_gap hband hnext (hupper.trans_lt hlower)),
    le_iff_point.2 ⟨hband.isNaN_upperEnd, hxNaN, hupper⟩,
    lt_iff_point.2 ⟨hxNaN, hnext.isNaN_lowerEnd, hlower⟩⟩

/-! ## No warnings -/

/-- Bands without warnings hold no input twice. -/
theorem countP_contains_le_one_of_no_warnings (hwarn : partitionWarnings bands = []) {x : Float}
    (hx : x.isNaN = false) : bands.countP (·.contains x) ≤ 1 := by
  rw [← (sortByStart_perm bands).countP_eq]
  exact (seamless_of_partitionWarnings_eq_nil hbands hwarn).countP_contains_le_one
    (isProper_of_mem_sortByStart hbands) hx

/-- Bands without warnings leave out no number between two that they cover. -/
theorem covers_of_no_warnings (hwarn : partitionWarnings bands = []) {x y z : Float} (hyx : y < x)
    (hxz : x < z) (hy : Covers bands y) (hz : Covers bands z) : Covers bands x := by
  have hx := isFinite_of_between hyx hxz
  obtain ⟨hyNaN, -, hyPoint⟩ := lt_iff_point.1 hyx
  obtain ⟨-, hzNaN, hzPoint⟩ := lt_iff_point.1 hxz
  have hsorted := sortByStart_perm bands
  obtain ⟨low, hlowMem, hlow⟩ := hy
  obtain ⟨high, hhighMem, hhigh⟩ := hz
  have hlowStart := (((hbands low hlowMem).contains_iff hyNaN).1 hlow).1
  have hhighStop : point x < point high.upperEnd := by
    rcases (((hbands high hhighMem).contains_iff hzNaN).1 hhigh).2 with hstop | hlt
    · rw [upperEnd, hstop]
      exact (point_between_of_isFinite hx).2
    · exact hzPoint.trans hlt
  obtain ⟨band, hband, hcontains⟩ := exists_contains_of_seamless
    (isProper_of_mem_sortByStart hbands) (seamless_of_partitionWarnings_eq_nil hbands hwarn) hx
    ⟨low, hsorted.mem_iff.2 hlowMem, hlowStart.trans hyPoint.le⟩
    ⟨high, hsorted.mem_iff.2 hhighMem, hhighStop⟩
  exact ⟨band, hsorted.mem_iff.1 hband, hcontains⟩

/-- Neighbours that overlap both hold an input. -/
theorem two_le_countP_of_overlap {band next : Band} (hadjacent : Adjacent bands band next)
    (hoverlap : point next.lowerEnd < point band.upperEnd) :
    2 ≤ bands.countP (·.contains next.lowerEnd) := by
  have hnext := hbands next hadjacent.mem_next
  refine hadjacent.two_le_countP _ ?_ hnext.contains_lowerEnd
  exact ((hbands band hadjacent.mem_band).contains_iff hnext.isNaN_lowerEnd).2
    ⟨hadjacent.le, .inr hoverlap⟩

/-- If a gap between neighbours is covered, an input in front of it is in two bands. -/
theorem two_le_countP_of_covers_gap {band next : Band} (hadjacent : Adjacent bands band next)
    (hgap : point band.upperEnd < point next.lowerEnd) (hcovers : Covers bands band.upperEnd) :
    2 ≤ bands.countP (·.contains band.lowerEnd) := by
  have hband := hbands band hadjacent.mem_band
  obtain ⟨other, hmem, hcontains⟩ := hcovers
  obtain ⟨hlow, hhigh⟩ := ((hbands other hmem).contains_iff hband.isNaN_upperEnd).1 hcontains
  have hbefore : point other.lowerEnd ≤ point band.lowerEnd :=
    (hadjacent.before_or_behind other hmem).resolve_right (hlow.trans_lt hgap).not_ge
  have hother : other.contains band.lowerEnd = true :=
    ((hbands other hmem).contains_iff hband.isNaN_lowerEnd).2
      ⟨hbefore, hhigh.imp_right hband.lowerEnd_lt_upperEnd.trans⟩
  -- the band itself does not hold its upper end, so it is not the other one
  have hself : band.contains band.upperEnd = false := by
    rw [Bool.eq_false_iff, ne_eq, hband.contains_iff hband.isNaN_upperEnd]
    rintro ⟨-, hstop | hlt⟩
    · rw [upperEnd, hstop] at hgap
      exact hgap.not_ge (point_le_infinity _)
    · exact lt_irrefl _ hlt
  exact two_le_countP_of_ne (q := (·.contains band.upperEnd)) hmem hadjacent.mem_band hother
    hband.contains_lowerEnd hcontains hself

/-- If no input is in two bands, at most one of them is open on each side. -/
theorem openSides_le_one (hone : ∀ x : Float, x.isNaN = false → bands.countP (·.contains x) ≤ 1) :
    bands.countP (·.start.isNone) ≤ 1 ∧ bands.countP (·.stop.isNone) ≤ 1 := by
  constructor
  · have hstarts : bands.countP (·.start.isNone) = bands.countP (·.contains negativeInfinity) :=
      List.countP_congr fun band hband => by
        rw [(hbands band hband).contains_negativeInfinity_iff, Option.isNone_iff_eq_none]
    exact hstarts ▸ hone negativeInfinity (by decide)
  · have hstops : bands.countP (·.stop.isNone) = bands.countP (·.contains infinity) :=
      List.countP_congr fun band hband => by
        rw [(hbands band hband).contains_infinity_iff, Option.isNone_iff_eq_none]
    exact hstops ▸ hone infinity (by decide)

/-- Bands that hold no input twice, and leave out none between two that they cover, give no
warning. -/
theorem no_warnings (hone : ∀ x : Float, x.isNaN = false → bands.countP (·.contains x) ≤ 1)
    (hcovers : ∀ x y z : Float, y < x → x < z → Covers bands y → Covers bands z → Covers bands x) :
    partitionWarnings bands = [] := by
  obtain ⟨hstarts, hstops⟩ := openSides_le_one hbands hone
  have hseams : seamWarnings (sortByStart bands) = [] := by
    refine List.eq_nil_iff_forall_not_mem.2 fun warning hmem => ?_
    obtain ⟨before, band, next, after, hsorted, hseam⟩ := mem_seamWarnings_iff.1 hmem
    have hadjacent := adjacent_of_sorted hbands hsorted
    have hband := hbands band hadjacent.mem_band
    have hnext := hbands next hadjacent.mem_next
    rcases lt_trichotomy (point band.upperEnd) (point next.lowerEnd) with hgap | hmeet | hoverlap
    · have hcovered : Covers bands band.upperEnd :=
        hcovers _ band.lowerEnd next.lowerEnd
          (lt_iff_point.2 ⟨hband.isNaN_lowerEnd, hband.isNaN_upperEnd, hband.lowerEnd_lt_upperEnd⟩)
          (lt_iff_point.2 ⟨hband.isNaN_upperEnd, hnext.isNaN_lowerEnd, hgap⟩)
          ⟨band, hadjacent.mem_band, hband.contains_lowerEnd⟩
          ⟨next, hadjacent.mem_next, hnext.contains_lowerEnd⟩
      have htwo := two_le_countP_of_covers_gap hbands hadjacent hgap hcovered
      have hle := hone band.lowerEnd hband.isNaN_lowerEnd
      omega
    · rw [(seamWarning?_eq_none_iff hband hnext).2 hmeet] at hseam
      cases hseam
    · have htwo := two_le_countP_of_overlap hbands hadjacent hoverlap
      have hle := hone next.lowerEnd hnext.isNaN_lowerEnd
      omega
  unfold partitionWarnings
  simp only [hseams, if_neg hstarts.not_gt, if_neg hstops.not_gt, List.append_nil]

end

/-- The warnings about bands with finite bounds, at least one each, that start before they stop, as
the bands of accepted rules do. A finite number in two bands is in a reported overlap. One in no
band, behind the stop of a band and before the start of another, is in a reported gap. There is no
warning exactly if no input is in two bands and none in no band lies between two covered ones. -/
theorem coverage_of_warnings {bands : List Band} (h : ∀ band ∈ bands, band.IsProper) :
    (∀ x : Float, x.isFinite = true →
      (2 ≤ bands.countP (·.contains x) →
        ∃ a b, .overlap a b ∈ partitionWarnings bands ∧ a ≤ x ∧ x < b) ∧
      (¬Covers bands x →
        (∃ band ∈ bands, ∃ stop, band.stop = some stop ∧ stop ≤ x) →
        (∃ band ∈ bands, ∃ start, band.start = some start ∧ x < start) →
        ∃ a b, .gap a b ∈ partitionWarnings bands ∧ a ≤ x ∧ x < b)) ∧
    (partitionWarnings bands = [] ↔
      (∀ x : Float, x.isNaN = false → bands.countP (·.contains x) ≤ 1) ∧
        ∀ x y z : Float, y < x → x < z → Covers bands y → Covers bands z → Covers bands x) := by
  refine ⟨fun x hx => ⟨exists_overlap h hx, exists_gap h hx⟩, fun hwarn => ⟨?_, ?_⟩, ?_⟩
  · exact fun x hx => countP_contains_le_one_of_no_warnings h hwarn hx
  · exact fun x y z hyx hxz => covers_of_no_warnings h hwarn hyx hxz
  · exact fun ⟨hone, hcovers⟩ => no_warnings h hone hcovers

/-- Three bands of which the first two overlap, and the last two leave a gap. -/
theorem coverage_of_overlap_and_gap :
    ∃ bands : List Band,
      bands = [⟨none, some 5, 1⟩, ⟨some 3, some 10, 2⟩, ⟨some 20, none, 3⟩] ∧
      (∀ band ∈ bands, band.IsProper) ∧
      (∃ a b, .overlap a b ∈ partitionWarnings bands ∧ a ≤ 4 ∧ 4 < b) ∧
      (∃ a b, .gap a b ∈ partitionWarnings bands ∧ a ≤ 15 ∧ 15 < b) ∧
      partitionWarnings bands ≠ [] := by
  have hfirst : IsProper ⟨none, some 5, 1⟩ :=
    ⟨.inr rfl, nofun, by rintro _ ⟨⟩; decide +kernel, nofun⟩
  have hsecond : IsProper ⟨some 3, some 10, 2⟩ :=
    ⟨.inr rfl, by rintro _ ⟨⟩; decide +kernel, by rintro _ ⟨⟩; decide +kernel,
      by rintro _ _ ⟨⟩ ⟨⟩; decide +kernel⟩
  have hthird : IsProper ⟨some 20, none, 3⟩ :=
    ⟨.inl rfl, by rintro _ ⟨⟩; decide +kernel, nofun, nofun⟩
  have hproper := List.forall_mem_cons.2 ⟨hfirst, List.forall_mem_cons.2 ⟨hsecond,
    List.forall_mem_singleton.2 hthird⟩⟩
  obtain ⟨hmissed, hclean⟩ := coverage_of_warnings hproper
  refine ⟨_, rfl, hproper, (hmissed 4 (by decide +kernel)).1 (by decide +kernel), ?_, ?_⟩
  · refine (hmissed 15 (by decide +kernel)).2 ?_ ⟨_, List.mem_cons_self, 5, rfl, by decide +kernel⟩
      ⟨⟨some 20, none, 3⟩, by simp, 20, rfl, by decide +kernel⟩
    rintro ⟨band, hmem, hcontains⟩
    exact List.countP_eq_zero (p := (·.contains 15)).1 (by decide +kernel) band hmem hcontains
  · intro hnil
    have hone := (hclean.1 hnil).1 4 (by decide +kernel)
    exact absurd hone (by decide +kernel)

end Band

end Scorecard
