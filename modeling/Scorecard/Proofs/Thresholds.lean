import Scorecard.Catalog
import Scorecard.Evaluation
import Scorecard.Proofs.Attempt
import Scorecard.Proofs.NumberOrder

/-!
# The rule that decides an interval

Of the rules of an interval the tightest ones decide: those below the least threshold above the
input, and those above the greatest threshold at or below it. The bands that the rules are closed to
hold an input exactly if their rules are tightest around it, in whatever order the rules stand and
however often a threshold repeats; the first of them gives the score. Main statement:
`tightest_of_interval`.
-/

namespace Scorecard.Rule

open Attempt Number Band

/-! ## Readings -/

/-- What a rule says: on which side of a threshold it holds, and what it scores. -/
structure Reading where
  side : Side
  threshold : Float
  score : Float

namespace Reading

/-- The band of a rule before its open side is closed. -/
def band (reading : Reading) : Band :=
  reading.side.band reading.threshold reading.score

/-- The threshold and the score of a rule are finite. -/
def IsFinite (reading : Reading) : Prop :=
  reading.threshold.isFinite = true ∧ reading.score.isFinite = true

end Reading

/-- No other rule on the same side has a threshold between the input and that of this rule, which
holds of the input. -/
def Tightest (readings : List Reading) (x : Float) (reading : Reading) : Prop :=
  match reading.side with
  | .below => x < reading.threshold ∧
      ∀ other ∈ readings, other.side = .below → x < other.threshold →
        reading.threshold ≤ other.threshold
  | .above => reading.threshold ≤ x ∧
      ∀ other ∈ readings, other.side = .above → other.threshold ≤ x →
        other.threshold ≤ reading.threshold

instance (readings : List Reading) (x : Float) (reading : Reading) :
    Decidable (Tightest readings x reading) := by
  unfold Tightest
  cases reading.side <;> infer_instance

theorem tightest_below_iff {readings : List Reading} {x : Float} {reading : Reading}
    (h : reading.side = .below) :
    Tightest readings x reading ↔ x < reading.threshold ∧
      ∀ other ∈ readings, other.side = .below → x < other.threshold →
        reading.threshold ≤ other.threshold := by
  unfold Tightest
  rw [h]

theorem tightest_above_iff {readings : List Reading} {x : Float} {reading : Reading}
    (h : reading.side = .above) :
    Tightest readings x reading ↔ reading.threshold ≤ x ∧
      ∀ other ∈ readings, other.side = .above → other.threshold ≤ x →
        other.threshold ≤ reading.threshold := by
  unfold Tightest
  rw [h]

/-- The thresholds on each side differ, and the greatest one below which a rule holds is the least
one above which a rule holds. -/
structure Meeting (readings : List Reading) : Prop where
  distinct : readings.Pairwise fun a b => a.side = b.side → (a.threshold == b.threshold) = false
  meet : ∃ top ∈ readings, ∃ bottom ∈ readings, top.side = .below ∧ bottom.side = .above ∧
    (∀ other ∈ readings, other.side = .below → other.threshold ≤ top.threshold) ∧
    (∀ other ∈ readings, other.side = .above → bottom.threshold ≤ other.threshold) ∧
    (top.threshold == bottom.threshold) = true

/-- Rules that meet at seven. -/
example : Meeting [⟨.above, 7, 1⟩, ⟨.below, 5, 0.5⟩, ⟨.below, 7, 0.7⟩] where
  distinct := by decide +kernel
  meet := by decide +kernel

theorem isFinite_of_number? {s : List Char} {x : Float} (h : number? s = some x) :
    x.isFinite = true := by
  unfold number? readFinite? at h
  exact (Option.filter_eq_some_iff.1 h).2

/-- A rule with a band has a reading. -/
theorem exists_reading_of_band {name rule : String} {b : Band} (h : band name rule = .ok b) :
    ∃ reading : Reading, b = reading.band ∧ reading.IsFinite := by
  unfold band at h
  split at h
  · cases h
  · split at h
    · cases h
    · split at h
      · cases h
      · rename_i side _
        split at h
        · rename_i threshold score hthreshold hscore
          cases h
          exact ⟨⟨side, threshold, score⟩, rfl, isFinite_of_number? hthreshold,
            isFinite_of_number? hscore⟩
        · cases h

/-- A rule of a named element says what the reading does. -/
def Reads (name : String) (rule : String) (reading : Reading) : Prop :=
  band name rule = .ok reading.band ∧ reading.IsFinite

theorem exists_readings {name : String} {rules : List String} {bands : List Band}
    (h : rules.mapM (band name) = .ok bands) :
    ∃ readings, bands = readings.map Reading.band ∧ List.Forall₂ (Reads name) rules readings := by
  have hpairs := mapM_eq_ok_iff.1 h
  induction hpairs with
  | nil => exact ⟨[], rfl, .nil⟩
  | cons hband hrest ih =>
    obtain ⟨reading, rfl, hfinite⟩ := exists_reading_of_band hband
    obtain ⟨readings, rfl, hreadings⟩ := ih (mapM_eq_ok_iff.2 hrest)
    exact ⟨reading :: readings, rfl, .cons ⟨hband, hfinite⟩ hreadings⟩

/-! ## Closing a side -/

/-- The thresholds of the rules on a side. -/
def thresholds (side : Side) (readings : List Reading) : List Float :=
  readings.filterMap fun reading => if reading.side = side then some reading.threshold else none

theorem mem_thresholds_iff {side : Side} {readings : List Reading} {t : Float} :
    t ∈ thresholds side readings ↔
      ∃ reading ∈ readings, reading.side = side ∧ reading.threshold = t := by
  simp [thresholds]

theorem filterMap_stopBelow? (readings : List Reading) :
    (readings.map Reading.band).filterMap stopBelow? = thresholds .below readings := by
  rw [thresholds, List.filterMap_map]
  refine List.filterMap_congr fun reading _ => ?_
  obtain ⟨side, threshold, score⟩ := reading
  cases side <;> rfl

theorem filterMap_startAbove? (readings : List Reading) :
    (readings.map Reading.band).filterMap startAbove? = thresholds .above readings := by
  rw [thresholds, List.filterMap_map]
  refine List.filterMap_congr fun reading _ => ?_
  obtain ⟨side, threshold, score⟩ := reading
  cases side <;> rfl

/-- From the greatest of the thresholds below `t` on, `t` is the least threshold above a number. -/
theorem all_startFor_iff {ts : List Float} (hts : ∀ u ∈ ts, u.isNaN = false) {t x : Float}
    (hx : x.isNaN = false) (ht : t.isNaN = false) :
    ((reduce? greater (ts.filter (· < t))).all fun start => decide (start ≤ x)) = true ↔
      ∀ u ∈ ts, x < u → t ≤ u := by
  have hfilter : ∀ u ∈ ts.filter (· < t), u.isNaN = false :=
    fun u hu => hts u (List.mem_of_mem_filter hu)
  rw [keepsGreater_greater.all_reduce?_iff hfilter]
  · simp only [List.mem_filter, decide_eq_true_iff, and_imp]
    refine forall₂_congr fun u hu => ?_
    -- a threshold below `t` is not above the number, so one above the number is not below `t`
    rw [← not_lt_iff hx (hts u hu), ← not_lt_iff (hts u hu) ht]
    exact imp_not_comm
  · intro u hu m _ hum hmx
    have hmx := le_iff_point.1 (of_decide_eq_true hmx)
    exact decide_eq_true (le_iff_point.2 ⟨hfilter u hu, hx, hum.trans hmx.2.2⟩)

/-- Up to the least of the thresholds above `t`, `t` is the greatest threshold at or below a
number. -/
theorem all_stopFor_iff {ts : List Float} (hts : ∀ u ∈ ts, u.isNaN = false) {t x : Float}
    (hx : x.isNaN = false) (ht : t.isNaN = false) :
    ((reduce? smaller (ts.filter (t < ·))).all fun stop => decide (x < stop)) = true ↔
      ∀ u ∈ ts, u ≤ x → u ≤ t := by
  have hfilter : ∀ u ∈ ts.filter (t < ·), u.isNaN = false :=
    fun u hu => hts u (List.mem_of_mem_filter hu)
  rw [keepsGreater_smaller.all_reduce?_iff hfilter]
  · simp only [List.mem_filter, decide_eq_true_iff, and_imp]
    refine forall₂_congr fun u hu => ?_
    rw [← not_lt_iff hx (hts u hu), ← not_lt_iff ht (hts u hu)]
    exact not_imp_not.symm
  · intro u hu m _ hmu hxm
    have hxm := lt_iff_point.1 (of_decide_eq_true hxm)
    have hmu : point m ≤ point u := OrderDual.toDual_le_toDual.1 hmu
    exact decide_eq_true (lt_iff_point.2 ⟨hx, hfilter u hu, hxm.2.2.trans_le hmu⟩)

/-! ## Which rules hold -/

/-- No threshold is NaN. -/
def Comparable (readings : List Reading) : Prop :=
  ∀ reading ∈ readings, reading.threshold.isNaN = false

theorem comparable_of_reads {name : String} {rules : List String} {readings : List Reading}
    (h : List.Forall₂ (Reads name) rules readings) : Comparable readings := by
  induction h with
  | nil => simp [Comparable]
  | cons hreads _ ih =>
    intro reading hmem
    rcases List.mem_cons.1 hmem with rfl | hmem
    · exact isNaN_of_isFinite hreads.2.1
    · exact ih reading hmem

theorem Comparable.thresholds {readings : List Reading} (h : Comparable readings) (side : Side) :
    ∀ t ∈ thresholds side readings, t.isNaN = false := by
  intro t ht
  obtain ⟨reading, hmem, _, rfl⟩ := mem_thresholds_iff.1 ht
  exact h reading hmem

/-- A band whose open side is closed holds a number exactly if its rule is tightest around it. -/
theorem contains_closeSide_iff {readings : List Reading} (hreadings : Comparable readings)
    {x : Float} (hx : x.isNaN = false) {reading : Reading} (hmem : reading ∈ readings) :
    (closeSide (readings.map Reading.band) reading.band).contains x = true ↔
      Tightest readings x reading := by
  have ht := hreadings reading hmem
  obtain ⟨side, t, score⟩ := reading
  cases side with
  | below =>
    have hstart := all_startFor_iff (hreadings.thresholds .below) hx ht
    rw [← filterMap_stopBelow?] at hstart
    show ((startFor? (readings.map Reading.band) t).all (fun start => decide (start ≤ x)) &&
      decide (x < t)) = true ↔ _
    rw [Bool.and_eq_true, startFor?, hstart, decide_eq_true_iff, filterMap_stopBelow?, and_comm]
    simp only [Tightest, mem_thresholds_iff]
    refine and_congr_right fun _ => ⟨fun h other hother hside => ?_, fun h u hu => ?_⟩
    · exact h other.threshold ⟨other, hother, hside, rfl⟩
    · obtain ⟨other, hother, hside, rfl⟩ := hu
      exact h other hother hside
  | above =>
    have hstop := all_stopFor_iff (hreadings.thresholds .above) hx ht
    rw [← filterMap_startAbove?] at hstop
    show (decide (t ≤ x) &&
      (stopFor? (readings.map Reading.band) t).all (fun stop => decide (x < stop))) = true ↔ _
    rw [Bool.and_eq_true, stopFor?, hstop, decide_eq_true_iff, filterMap_startAbove?]
    simp only [Tightest, mem_thresholds_iff]
    refine and_congr_right fun _ => ⟨fun h other hother hside => ?_, fun h u hu => ?_⟩
    · exact h other.threshold ⟨other, hother, hside, rfl⟩
    · obtain ⟨other, hother, hside, rfl⟩ := hu
      exact h other hother hside

/-- No band of a rule holds NaN, whether its open side is closed or not. -/
theorem contains_closeSide_of_isNaN (readings : List Reading) {x : Float} (hx : x.isNaN = true)
    (reading : Reading) :
    (closeSide (readings.map Reading.band) reading.band).contains x = false := by
  have hlt (u : Float) : decide (x < u) = false := by
    rw [decide_eq_false_iff_not, lt_iff_point, hx]
    intro h
    cases h.1
  have hle (u : Float) : decide (u ≤ x) = false := by
    rw [decide_eq_false_iff_not, le_iff_point, hx]
    intro h
    cases h.2.1
  obtain ⟨side, t, score⟩ := reading
  cases side with
  | below => simp [contains, closeSide, Reading.band, Side.band, hlt]
  | above => simp [contains, closeSide, Reading.band, Side.band, hle]

/-- The score of the first tightest rule. -/
def tightestScore (readings : List Reading) (x : Float) : Float :=
  (readings.find? fun reading => Tightest readings x reading).elim 0 Reading.score

theorem scoreAmong_closeSides {readings : List Reading} (hreadings : Comparable readings)
    {x : Float} (hx : x.isNaN = false) :
    scoreAmong (closeSides (readings.map Reading.band)) uncoveredScore x =
      tightestScore readings x := by
  have hfilter : readings.filter ((·.contains x) ∘
      (closeSide (readings.map Reading.band) ∘ Reading.band)) =
        readings.filter fun reading => Tightest readings x reading := by
    refine List.filter_congr fun reading hmem => ?_
    rw [Bool.eq_iff_iff, decide_eq_true_iff]
    exact contains_closeSide_iff hreadings hx hmem
  unfold scoreAmong closeSides tightestScore
  rw [List.map_map, List.find?_map, ← List.head?_filter, hfilter, List.head?_filter]
  cases readings.find? fun reading => Tightest readings x reading with
  | none => rfl
  | some reading =>
    show (closeSide _ reading.band).score = reading.score
    rw [score_closeSide]
    cases hside : reading.side <;> simp [Reading.band, Side.band, hside]

theorem scoreAmong_closeSides_of_isNaN (readings : List Reading) {x : Float}
    (hx : x.isNaN = true) :
    scoreAmong (closeSides (readings.map Reading.band)) uncoveredScore x = 0 := by
  have hnone : (closeSides (readings.map Reading.band)).find? (·.contains x) = none := by
    rw [List.find?_eq_none]
    intro b hb
    rw [closeSides, List.map_map] at hb
    obtain ⟨reading, _, rfl⟩ := List.mem_map.1 hb
    rw [Function.comp_apply, contains_closeSide_of_isNaN readings hx reading]
    exact Bool.false_ne_true
  unfold scoreAmong
  rw [hnone]
  rfl

/-! ## Rules that meet -/

/-- Of the rules on a side that hold there is one with the greatest key. -/
theorem exists_extreme {α : Type} [LinearOrder α] {key : Float → α} {join : Float → Float → Float}
    (hjoin : KeepsGreater key join) {readings : List Reading} (hreadings : Comparable readings)
    (holds : Float → Bool) {reading : Reading} (hmem : reading ∈ readings)
    (hholds : holds reading.threshold = true) :
    ∃ extreme ∈ readings, extreme.side = reading.side ∧ holds extreme.threshold = true ∧
      ∀ other ∈ readings, other.side = reading.side → holds other.threshold = true →
        key other.threshold ≤ key extreme.threshold := by
  have hfilter : ∀ u ∈ (thresholds reading.side readings).filter holds, u.isNaN = false :=
    fun u hu => hreadings.thresholds reading.side u (List.mem_of_mem_filter hu)
  have hmember : ∀ other ∈ readings, other.side = reading.side → holds other.threshold = true →
      other.threshold ∈ (thresholds reading.side readings).filter holds := by
    intro other hother hside h
    exact List.mem_filter.2 ⟨mem_thresholds_iff.2 ⟨other, hother, hside, rfl⟩, h⟩
  have hthreshold := hmember reading hmem rfl hholds
  rcases hjoin.reduce? hfilter with ⟨hnil, _⟩ | ⟨m, hm, _, hbound⟩
  · rw [hnil] at hthreshold
    cases hthreshold
  · obtain ⟨hm, hmholds⟩ := List.mem_filter.1 hm
    obtain ⟨extreme, hextreme, hside, rfl⟩ := mem_thresholds_iff.1 hm
    exact ⟨extreme, hextreme, hside, hmholds, fun other hother hside h =>
      hbound other.threshold (hmember other hother hside h)⟩

/-- If a rule holds of a number below its threshold, one of these rules is tightest around it. -/
theorem exists_tightest_below {readings : List Reading} (hreadings : Comparable readings)
    {x : Float} {reading : Reading} (hmem : reading ∈ readings) (hside : reading.side = .below)
    (hlt : x < reading.threshold) :
    ∃ tightest ∈ readings, tightest.side = .below ∧ Tightest readings x tightest := by
  obtain ⟨tightest, htightest, htside, hxt, hbound⟩ := exists_extreme keepsGreater_smaller hreadings
    (fun u => decide (x < u)) hmem (decide_eq_true hlt)
  rw [hside] at htside hbound
  refine ⟨tightest, htightest, htside,
    (tightest_below_iff htside).2 ⟨of_decide_eq_true hxt, ?_⟩⟩
  intro other hother hoside hxo
  have hle := OrderDual.toDual_le_toDual.1 (hbound other hother hoside (decide_eq_true hxo))
  exact le_iff_point.2 ⟨hreadings tightest htightest, hreadings other hother, hle⟩

/-- If a rule holds of a number from its threshold on, one of these rules is tightest around it. -/
theorem exists_tightest_above {readings : List Reading} (hreadings : Comparable readings)
    {x : Float} {reading : Reading} (hmem : reading ∈ readings) (hside : reading.side = .above)
    (hle : reading.threshold ≤ x) :
    ∃ tightest ∈ readings, tightest.side = .above ∧ Tightest readings x tightest := by
  obtain ⟨tightest, htightest, htside, htx, hbound⟩ := exists_extreme keepsGreater_greater hreadings
    (fun u => decide (u ≤ x)) hmem (decide_eq_true hle)
  rw [hside] at htside hbound
  refine ⟨tightest, htightest, htside,
    (tightest_above_iff htside).2 ⟨of_decide_eq_true htx, ?_⟩⟩
  intro other hother hoside hox
  have hle := hbound other hother hoside (decide_eq_true hox)
  exact le_iff_point.2 ⟨hreadings other hother, hreadings tightest htightest, hle⟩

/-- Two rules on one side that are both tightest around a number have the same threshold. -/
theorem Tightest.threshold_beq {readings : List Reading} {x : Float} {a b : Reading}
    (hta : Tightest readings x a) (htb : Tightest readings x b) (ha : a ∈ readings)
    (hb : b ∈ readings) (hside : a.side = b.side) : (a.threshold == b.threshold) = true := by
  have hboth : a.threshold ≤ b.threshold ∧ b.threshold ≤ a.threshold := by
    cases haside : a.side with
    | below =>
      have hbside := hside.symm.trans haside
      rw [tightest_below_iff haside] at hta
      rw [tightest_below_iff hbside] at htb
      exact ⟨hta.2 b hb hbside htb.1, htb.2 a ha haside hta.1⟩
    | above =>
      have hbside := hside.symm.trans haside
      rw [tightest_above_iff haside] at hta
      rw [tightest_above_iff hbside] at htb
      exact ⟨htb.2 a ha haside hta.1, hta.2 b hb hbside htb.1⟩
  obtain ⟨hab, hba⟩ := hboth
  rw [le_iff_point] at hab hba
  exact beq_iff_point.2 ⟨hab.1, hab.2.1, le_antisymm hab.2.2 hba.2.2⟩

/-- Where rules meet, no rule on the lower side and one on the upper side hold of the same
number. -/
theorem Meeting.apart {readings : List Reading} (h : Meeting readings) {x : Float} {a b : Reading}
    (ha : a ∈ readings) (hb : b ∈ readings) (haside : a.side = .below) (hbside : b.side = .above)
    (hta : Tightest readings x a) (htb : Tightest readings x b) : False := by
  obtain ⟨top, _, bottom, _, _, _, htop, hbottom, hmeet⟩ := h.meet
  have hxa := (lt_iff_point.1 ((tightest_below_iff haside).1 hta).1).2.2
  have hbx := (le_iff_point.1 ((tightest_above_iff hbside).1 htb).1).2.2
  have hatop := (le_iff_point.1 (htop a ha haside)).2.2
  have hbottomb := (le_iff_point.1 (hbottom b hb hbside)).2.2
  have hsame := (beq_iff_point.1 hmeet).2.2
  have hxx : point x < point x := calc
    point x < point a.threshold := hxa
    _ ≤ point top.threshold := hatop
    _ = point bottom.threshold := hsame
    _ ≤ point b.threshold := hbottomb
    _ ≤ point x := hbx
  exact lt_irrefl _ hxx

theorem Meeting.pairwise {readings : List Reading} (h : Meeting readings) (x : Float) :
    readings.Pairwise fun a b => ¬(Tightest readings x a ∧ Tightest readings x b) := by
  refine h.distinct.imp_of_mem fun {a b} ha hb hne => ?_
  intro ⟨hta, htb⟩
  by_cases hside : a.side = b.side
  · have heq := hta.threshold_beq htb ha hb hside
    rw [hne hside] at heq
    cases heq
  · cases haside : a.side with
    | below =>
      cases hbside : b.side with
      | below => exact hside (haside.trans hbside.symm)
      | above => exact h.apart ha hb haside hbside hta htb
    | above =>
      cases hbside : b.side with
      | below => exact h.apart hb ha hbside haside htb hta
      | above => exact hside (haside.trans hbside.symm)

theorem Meeting.exists_tightest {readings : List Reading} (h : Meeting readings)
    (hreadings : Comparable readings) {x : Float} (hx : x.isNaN = false) :
    ∃ reading ∈ readings, Tightest readings x reading := by
  obtain ⟨top, htop, bottom, hbottom, htside, hbside, _, _, hmeet⟩ := h.meet
  by_cases hlt : x < top.threshold
  · obtain ⟨tightest, hmem, _, htightest⟩ := exists_tightest_below hreadings htop htside hlt
    exact ⟨tightest, hmem, htightest⟩
  · have hle : bottom.threshold ≤ x := by
      obtain ⟨htNaN, hbNaN, hsame⟩ := beq_iff_point.1 hmeet
      have htop := (le_iff_point.1 ((not_lt_iff hx htNaN).1 hlt)).2.2
      exact le_iff_point.2 ⟨hbNaN, hx, hsame ▸ htop⟩
    obtain ⟨tightest, hmem, _, htightest⟩ := exists_tightest_above hreadings hbottom hbside hle
    exact ⟨tightest, hmem, htightest⟩

/-- At most one member has a property of which no two do. -/
theorem countP_le_one {α : Type} {p : α → Bool} {xs : List α}
    (h : xs.Pairwise fun a b => ¬(p a = true ∧ p b = true)) : xs.countP p ≤ 1 := by
  induction h with
  | nil => simp
  | @cons x xs hx _ ih =>
    by_cases hpx : p x = true
    · have hzero : xs.countP p = 0 :=
        List.countP_eq_zero.2 fun y hy hpy => hx y hy ⟨hpx, hpy⟩
      rw [List.countP_cons_of_pos hpx]
      omega
    · rw [List.countP_cons_of_neg hpx]
      exact ih

/-- As many bands hold a number as rules are tightest around it. -/
theorem countP_contains_closeSides {readings : List Reading} (hreadings : Comparable readings)
    {x : Float} (hx : x.isNaN = false) :
    (closeSides (readings.map Reading.band)).countP (·.contains x) =
      readings.countP fun reading => Tightest readings x reading := by
  rw [closeSides, List.map_map, List.countP_map]
  refine List.countP_congr fun reading hmem => ?_
  rw [decide_eq_true_iff]
  exact contains_closeSide_iff hreadings hx hmem

/-- Where rules meet and differ, one band holds a number. -/
theorem Meeting.countP_contains {readings : List Reading} (h : Meeting readings)
    (hreadings : Comparable readings) {x : Float} (hx : x.isNaN = false) :
    (closeSides (readings.map Reading.band)).countP (·.contains x) = 1 := by
  rw [countP_contains_closeSides hreadings hx]
  obtain ⟨reading, hmem, htightest⟩ := h.exists_tightest hreadings hx
  have hpos : 0 < readings.countP fun reading => Tightest readings x reading :=
    List.countP_pos_iff.2 ⟨reading, hmem, decide_eq_true htightest⟩
  have hone : (readings.countP fun reading => Tightest readings x reading) ≤ 1 :=
    countP_le_one ((h.pairwise x).imp fun hne hboth =>
      hne ⟨of_decide_eq_true hboth.1, of_decide_eq_true hboth.2⟩)
  omega

/-! ## Intervals -/

theorem exists_readings_of_element {name : String} {rules : List String} {element : Element}
    (h : (Definition.interval rules).element name = .ok element) :
    ∃ readings, List.Forall₂ (Reads name) rules readings ∧
      element = .banded name (closeSides (readings.map Reading.band)) uncoveredScore := by
  unfold Definition.element at h
  split at h
  · cases rules with
    | nil => cases h
    | cons rule rules =>
      obtain ⟨bands, hbands, helement⟩ := bind_eq_ok_iff.1 h
      obtain ⟨readings, rfl, hreads⟩ := exists_readings hbands
      cases helement
      exact ⟨readings, hreads, rfl⟩
  · cases h

theorem evaluateWith_banded_of_get? {name : String} {inputs : Inputs} {x : Float}
    (h : inputs.get? name = some x) (arithmetic : Arithmetic) (bands : List Band)
    (fallback : Float) :
    (Element.banded name bands fallback).evaluateWith arithmetic inputs =
      .ok (scoreAmong bands fallback x) := by
  rw [Element.evaluateWith, Inputs.fetch, h]
  rfl

/-- An interval that is accepted has one reading and one band for each of its rules, in their order.
A number but NaN is held by exactly the bands whose rules are tightest around it, and scores what
the first of these rules says, or zero if there is none. No band holds NaN, which scores zero. Where
the thresholds on each side differ and the greatest one of the lower side is the least one of the
upper side, exactly one band holds each number but NaN. -/
theorem tightest_of_interval {name : String} {rules : List String} {element : Element}
    (h : (Definition.interval rules).element name = .ok element) :
    ∃ readings bands, element = .banded name bands uncoveredScore ∧
      List.Forall₂ (Reads name) rules readings ∧
      List.Forall₂ (fun b reading => ∀ x : Float,
        (x.isNaN = false → (b.contains x = true ↔ Tightest readings x reading)) ∧
        (x.isNaN = true → b.contains x = false)) bands readings ∧
      (∀ arithmetic inputs x, inputs.get? name = some x →
        element.evaluateWith arithmetic inputs =
          .ok (if x.isNaN then 0 else tightestScore readings x)) ∧
      (Meeting readings → ∀ x : Float, x.isNaN = false → bands.countP (·.contains x) = 1) := by
  obtain ⟨readings, hreads, rfl⟩ := exists_readings_of_element h
  have hreadings := comparable_of_reads hreads
  refine ⟨readings, _, rfl, hreads, ?_, ?_, ?_⟩
  · rw [closeSides, List.map_map, List.forall₂_map_left_iff, List.forall₂_same]
    intro reading hmem x
    exact ⟨fun hx => contains_closeSide_iff hreadings hx hmem,
      fun hx => contains_closeSide_of_isNaN readings hx reading⟩
  · intro arithmetic inputs x hget
    rw [evaluateWith_banded_of_get? hget]
    cases hx : x.isNaN with
    | false => rw [scoreAmong_closeSides hreadings hx, if_neg Bool.false_ne_true]
    | true => rw [scoreAmong_closeSides_of_isNaN readings hx, if_pos rfl]
  · intro hmeeting x hx
    exact hmeeting.countP_contains hreadings hx

/-- Unsorted rules with a repeated threshold. -/
theorem tightest_of_interval_of_repeats :
    ∃ element, (Definition.interval ["/> 7: 1", "< 5: 0.5", "< 7: 0.7", "< 5: 2"]).element "A" =
        .ok element ∧
      ∃ readings bands, element = .banded "A" bands uncoveredScore ∧
        List.Forall₂ (Reads "A") ["/> 7: 1", "< 5: 0.5", "< 7: 0.7", "< 5: 2"] readings ∧
        List.Forall₂ (fun b reading => ∀ x : Float,
          (x.isNaN = false → (b.contains x = true ↔ Tightest readings x reading)) ∧
          (x.isNaN = true → b.contains x = false)) bands readings := by
  have hsome : ((Definition.interval ["/> 7: 1", "< 5: 0.5", "< 7: 0.7", "< 5: 2"]).element
      "A").toOption.isSome = true := by decide +kernel
  rcases exists_ok_or_error ((Definition.interval
      ["/> 7: 1", "< 5: 0.5", "< 7: 0.7", "< 5: 2"]).element "A") with ⟨element, helement⟩ | ⟨e, he⟩
  · obtain ⟨readings, bands, hbands, hreads, hcontains, _⟩ := tightest_of_interval helement
    exact ⟨element, helement, readings, bands, hbands, hreads, hcontains⟩
  · rw [he] at hsome
    cases hsome

end Scorecard.Rule
