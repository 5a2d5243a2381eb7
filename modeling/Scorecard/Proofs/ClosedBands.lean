import Scorecard.Proofs.Thresholds

/-!
# The bands that rules are closed to

Closing the open sides of the bands of rules adds only thresholds of other rules
(`closeSides_eq_mapIdx`), and only on the right side of the threshold that is there. So each band
keeps the score and the threshold of its rule, all its numbers are finite, and it starts before it
stops. Main statement: `describes_of_interval`.
-/

namespace Scorecard

open Number Rule

namespace Band

/-- A band with a bound on one side at least, with finite numbers, that starts before it stops. -/
structure IsSound (band : Band) : Prop where
  bounded : band.start.isSome = true ∨ band.stop.isSome = true
  start_isFinite : ∀ start, band.start = some start → start.isFinite = true
  stop_isFinite : ∀ stop, band.stop = some stop → stop.isFinite = true
  score_isFinite : band.score.isFinite = true
  start_lt_stop : ∀ start stop, band.start = some start → band.stop = some stop → start < stop

/-- A band has the score of another one and the bounds that are set there. -/
structure Extends (band original : Band) : Prop where
  score : band.score = original.score
  start : ∀ start, original.start = some start → band.start = some start
  stop : ∀ stop, original.stop = some stop → band.stop = some stop

theorem extends_closeSide (bands : List Band) (band : Band) :
    (closeSide bands band).Extends band := by
  unfold closeSide
  split
  · rename_i hstart _
    exact ⟨rfl, by simp [hstart], fun stop hstop => hstop⟩
  · rename_i hstop
    exact ⟨rfl, fun start hstart => hstart, by simp [hstop]⟩
  · exact ⟨rfl, fun start hstart => hstart, fun stop hstop => hstop⟩

end Band

namespace Number

theorem KeepsGreater.mem_of_reduce? {α : Type} [LinearOrder α] {key : Float → α}
    {join : Float → Float → Float} (hjoin : KeepsGreater key join) {xs : List Float}
    (hxs : ∀ x ∈ xs, x.isNaN = false) {m : Float} (h : Band.reduce? join xs = some m) : m ∈ xs := by
  rcases hjoin.reduce? hxs with ⟨_, hnone⟩ | ⟨n, hn, hsome, _⟩
  · rw [hnone] at h
    cases h
  · rw [hsome] at h
    cases h
    exact hn

theorem isNaN_of_mem_filter_lt {xs : List Float} {t x : Float}
    (h : x ∈ xs.filter (· < t)) : x.isNaN = false :=
  (lt_iff_point.1 (of_decide_eq_true (List.mem_filter.1 h).2)).1

theorem isNaN_of_mem_filter_gt {xs : List Float} {t x : Float}
    (h : x ∈ xs.filter (t < ·)) : x.isNaN = false :=
  (lt_iff_point.1 (of_decide_eq_true (List.mem_filter.1 h).2)).2.1

end Number

namespace Band

variable {bands : List Band} {start stop : Float}

/-- The start that a band gets is the stop of a band below it, and smaller than its own stop. -/
theorem mem_of_startFor? (h : startFor? bands stop = some start) :
    start ∈ bands.filterMap stopBelow? ∧ start < stop := by
  have hmem := keepsGreater_greater.mem_of_reduce? (fun _ => isNaN_of_mem_filter_lt) h
  exact (List.mem_filter.1 hmem).imp_right of_decide_eq_true

/-- The stop that a band gets is the start of a band above it, and greater than its own start. -/
theorem mem_of_stopFor? (h : stopFor? bands start = some stop) :
    stop ∈ bands.filterMap startAbove? ∧ start < stop := by
  have hmem := keepsGreater_smaller.mem_of_reduce? (fun _ => isNaN_of_mem_filter_gt) h
  exact (List.mem_filter.1 hmem).imp_right of_decide_eq_true

/-- A band does not close itself: its own bound is neither smaller nor greater than itself. -/
theorem closeSide_append_cons (before after : List Band) (band : Band) :
    closeSide (before ++ band :: after) band = closeSide (before ++ after) band := by
  have hself (x : Float) : ¬x < x := fun h => lt_irrefl _ (lt_iff_point.1 h).2.2
  obtain ⟨_ | start, _ | stop, score⟩ := band
  · rfl
  · simp [closeSide, startFor?, stopBelow?, isBelow, hself]
  · simp [closeSide, stopFor?, startAbove?, isAbove, hself]
  · rfl

/-- Each band is closed by the bands at the other places. -/
theorem closeSides_eq_mapIdx (bands : List Band) :
    closeSides bands = bands.mapIdx fun i band => closeSide (bands.eraseIdx i) band := by
  refine List.ext_getElem (by simp [closeSides]) fun i hi _ => ?_
  have hi : i < bands.length := by simpa [closeSides] using hi
  have hbands : bands.take i ++ bands[i] :: bands.drop (i + 1) = bands := by simp
  simp only [closeSides, List.getElem_map, List.getElem_mapIdx, List.eraseIdx_eq_take_drop_succ]
  rw [← closeSide_append_cons, hbands]

end Band

namespace Rule

open Band

/-- The numbers of rules are finite. -/
def AllFinite (readings : List Reading) : Prop :=
  ∀ reading ∈ readings, reading.IsFinite

variable {readings : List Reading}

theorem AllFinite.thresholds (h : AllFinite readings) (side : Side) :
    ∀ t ∈ thresholds side readings, t.isFinite = true := by
  intro t ht
  obtain ⟨reading, hmem, _, rfl⟩ := mem_thresholds_iff.1 ht
  exact (h reading hmem).1

/-- A band below a stop starts at a smaller threshold. -/
theorem startFor?_eq_some (h : AllFinite readings) {start stop : Float}
    (hstart : startFor? (readings.map Reading.band) stop = some start) :
    start.isFinite = true ∧ start < stop := by
  have hmem := mem_of_startFor? hstart
  rw [filterMap_stopBelow?] at hmem
  exact hmem.imp_left (h.thresholds .below start)

/-- A band above a start stops at a greater threshold. -/
theorem stopFor?_eq_some (h : AllFinite readings) {start stop : Float}
    (hstop : stopFor? (readings.map Reading.band) start = some stop) :
    stop.isFinite = true ∧ start < stop := by
  have hmem := mem_of_stopFor? hstop
  rw [filterMap_startAbove?] at hmem
  exact hmem.imp_left (h.thresholds .above stop)

/-- The band of a rule is sound when its open side is closed. -/
theorem isSound_closeSide (h : AllFinite readings) {reading : Reading} (hmem : reading ∈ readings) :
    (closeSide (readings.map Reading.band) reading.band).IsSound := by
  obtain ⟨hthreshold, hscore⟩ := h reading hmem
  obtain ⟨side, t, score⟩ := reading
  cases side with
  | below =>
    show Band.IsSound ⟨startFor? (readings.map Reading.band) t, some t, score⟩
    exact
      { bounded := .inr rfl
        start_isFinite := fun start hstart => (startFor?_eq_some h hstart).1
        stop_isFinite := fun stop hstop => by cases hstop; exact hthreshold
        score_isFinite := hscore
        start_lt_stop := fun start stop hstart hstop => by
          cases hstop
          exact (startFor?_eq_some h hstart).2 }
  | above =>
    show Band.IsSound ⟨some t, stopFor? (readings.map Reading.band) t, score⟩
    exact
      { bounded := .inl rfl
        start_isFinite := fun start hstart => by cases hstart; exact hthreshold
        stop_isFinite := fun stop hstop => (stopFor?_eq_some h hstop).1
        score_isFinite := hscore
        start_lt_stop := fun start stop hstart hstop => by
          cases hstart
          exact (stopFor?_eq_some h hstop).2 }

theorem allFinite_of_reads {name : String} {rules : List String}
    (h : List.Forall₂ (Reads name) rules readings) : AllFinite readings := by
  induction h with
  | nil => simp [AllFinite]
  | cons hreads _ ih => exact List.forall_mem_cons.2 ⟨hreads.2, ih⟩

/-- A band is what a rule of a named element is closed to: sound, with the score of the rule and its
threshold on the side that its operator names. -/
def Describes (name rule : String) (b : Band) : Prop :=
  ∃ original, band name rule = .ok original ∧ b.Extends original ∧ b.IsSound

/-- An interval has one band for each of its rules, in their order. -/
theorem describes_of_interval {name : String} {rules : List String} {element : Element}
    (h : (Definition.interval rules).element name = .ok element) :
    ∃ bands, element = .banded name bands uncoveredScore ∧
      List.Forall₂ (Describes name) rules bands := by
  obtain ⟨readings, hreads, rfl⟩ := exists_readings_of_element h
  refine ⟨_, rfl, ?_⟩
  have hfinite := allFinite_of_reads hreads
  -- a reading has to be among all readings for its band to be closed by theirs
  have hmembers := (List.forall₂_and_left readings rules).2 ⟨fun _ hmem => hmem, hreads.flip⟩
  rw [closeSides, List.map_map, List.forall₂_map_right_iff]
  refine hmembers.flip.imp fun rule reading hboth => ?_
  obtain ⟨hmem, hband, _⟩ := hboth
  exact ⟨reading.band, hband, extends_closeSide _ _, isSound_closeSide hfinite hmem⟩

end Rule

end Scorecard
