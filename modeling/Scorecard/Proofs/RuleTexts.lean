import Scorecard.Proofs.Compilation
import Scorecard.Proofs.Numerals

/-!
# The texts of rules

A rule is a condition, a colon and a score; a condition is an operator, which ends where a threshold
can start, and a threshold. What a rule says can be read off its text in this way, and its band is
that of what it says (`band_eq_ok_iff`). A rule that says nothing has an operator that there is not
(`band_eq_unsupportedOperator_iff`) or is invalid. Rules have an element if each of them says
something; otherwise the first one that does not gives the error. Main statement:
`element_of_rules`.
-/

namespace Scorecard.Rule

open Attempt Text

/-! ## What a rule says -/

/-- A character with which a threshold starts: a digit, a blank, a sign or a point. -/
def StartsThreshold (c : Char) : Prop :=
  c.isDigit = true ∨ isBlank c = true ∨ c = '-' ∨ c = '+' ∨ c = '.'

/-- A condition divides into an operator and the threshold behind it. -/
structure Divides (condition operator threshold : List Char) : Prop where
  eq_append : condition = operator ++ threshold
  operator : ∀ c ∈ operator, ¬StartsThreshold c
  threshold : ∃ c rest, threshold = c :: rest ∧ StartsThreshold c

/-- A rule is a condition and a score behind the first colon, and the condition without the blanks
at its ends divides into an operator and a threshold. -/
def HasForm (rule : String) (operator threshold score : List Char) : Prop :=
  ∃ condition, rule.toList = condition ++ ':' :: score ∧ ':' ∉ condition ∧
    Divides (trim condition) operator threshold

/-- The operator of a side. -/
def Side.symbol : Side → List Char
  | .below => ['<']
  | .above => ['/', '>']

/-- The bound of a band at the threshold of a rule on a side. -/
def Side.bound? (band : Band) : Side → Option Float
  | .below => band.stop
  | .above => band.start

/-- A rule has the operator of a side, and the texts of its threshold and its score spell finite
numbers between blanks. -/
def Says (rule : String) (reading : Reading) : Prop :=
  ∃ threshold score, HasForm rule reading.side.symbol threshold score ∧
    Number.Spells (trim threshold) reading.threshold ∧ Number.Spells (trim score) reading.score

/-- A rule has an operator, but not that of a side. -/
def HasUnsupported (rule operator : String) : Prop :=
  (∃ threshold score, HasForm rule operator.toList threshold score) ∧
    operator ≠ "" ∧ operator ≠ "<" ∧ operator ≠ "/>"

/-! ## Splitting a rule -/

theorem endsOperator_eq_true_iff {c : Char} : endsOperator c = true ↔ StartsThreshold c := by
  simp [endsOperator, StartsThreshold, or_assoc]

theorem splitAtColon?_eq_some_iff {rule condition score : List Char} :
    splitAtColon? rule = some (condition, score) ↔
      rule = condition ++ ':' :: score ∧ ':' ∉ condition := by
  constructor
  · intro h
    unfold splitAtColon? at h
    split at h
    · cases h
    · rename_i c rest hrest
      cases h
      obtain ⟨hrule, hbefore, hcolon⟩ := takeWhile_dropWhile_iff.1 ⟨rfl, hrest⟩
      obtain rfl : c = ':' := by simpa using hcolon c rfl
      exact ⟨hrule, fun hmem => by simpa using hbefore ':' hmem⟩
  · rintro ⟨rfl, hnot⟩
    obtain ⟨htake, hdrop⟩ := takeWhile_ne_append hnot score
    simp only [splitAtColon?, hdrop, htake]

theorem splitCondition?_eq_some_iff {condition operator threshold : List Char} :
    splitCondition? condition = some (operator, threshold) ↔
      Divides condition operator threshold ∧ operator ≠ [] := by
  have hinside {c : Char} : (!endsOperator c) = true ↔ ¬StartsThreshold c := by
    rw [← endsOperator_eq_true_iff]
    simp
  constructor
  · intro h
    unfold splitCondition? at h
    split at h
    · cases h
    · cases h
    · rename_i hoperator hthreshold
      cases h
      obtain ⟨c, rest, hrest⟩ := List.exists_cons_of_ne_nil hthreshold
      obtain ⟨hcondition, hbefore, hfirst⟩ := takeWhile_dropWhile_iff.1 ⟨rfl, hrest⟩
      refine ⟨⟨hrest ▸ hcondition, fun d hd => hinside.1 (hbefore d hd), c, rest, hrest, ?_⟩,
        hoperator⟩
      exact endsOperator_eq_true_iff.1 (by simpa using hfirst c rfl)
  · rintro ⟨⟨hcondition, hbefore, c, rest, rfl, hfirst⟩, hne⟩
    have hstop : (!endsOperator c) = false := by
      simpa using endsOperator_eq_true_iff.2 hfirst
    obtain ⟨htake, hdrop⟩ := takeWhile_dropWhile_iff.2
      ⟨hcondition, fun d hd => hinside.2 (hbefore d hd), fun d hd => by cases hd; exact hstop⟩
    obtain ⟨d, operator, rfl⟩ := List.exists_cons_of_ne_nil hne
    simp only [splitCondition?, htake, hdrop]

/-- No blank is needed behind an operator, and a longer one is no operator of a side. -/
example : splitCondition? "<=-5e3".toList = some ("<=".toList, "-5e3".toList) := by decide

/-- A rule with an operator is one that can be split at its colon and then behind its operator. -/
theorem hasForm_iff {rule : String} {operator threshold score : List Char} :
    HasForm rule operator threshold score ∧ operator ≠ [] ↔
      ∃ condition, splitAtColon? rule.toList = some (condition, score) ∧
        splitCondition? (trim condition) = some (operator, threshold) := by
  simp only [HasForm, splitAtColon?_eq_some_iff, splitCondition?_eq_some_iff]
  constructor
  · rintro ⟨⟨condition, hrule, hnot, hdivides⟩, hne⟩
    exact ⟨condition, ⟨hrule, hnot⟩, hdivides, hne⟩
  · rintro ⟨condition, ⟨hrule, hnot⟩, hdivides, hne⟩
    exact ⟨⟨condition, hrule, hnot, hdivides⟩, hne⟩

theorem side?_eq_some_iff {operator : List Char} {side : Side} :
    side? operator = some side ↔ operator = side.symbol := by
  constructor
  · intro h
    unfold side? at h
    split at h
    · cases h
      rfl
    · cases h
      rfl
    · cases h
  · rintro rfl
    cases side <;> rfl

theorem side?_eq_none_iff {operator : String} :
    side? operator.toList = none ↔ operator ≠ "<" ∧ operator ≠ "/>" := by
  have hsymbol (side : Side) (text : String) (htext : text.toList = side.symbol) :
      side? operator.toList = some side ↔ operator = text := by
    rw [side?_eq_some_iff, ← htext, String.toList_inj]
  rw [Option.eq_none_iff_forall_ne_some]
  constructor
  · intro h
    exact ⟨fun heq => h .below ((hsymbol .below "<" rfl).2 heq),
      fun heq => h .above ((hsymbol .above "/>" rfl).2 heq)⟩
  · rintro ⟨hbelow, habove⟩ side hside
    cases side with
    | below => exact hbelow ((hsymbol .below "<" rfl).1 hside)
    | above => exact habove ((hsymbol .above "/>" rfl).1 hside)

theorem number?_eq_some_iff {s : List Char} {x : Float} :
    number? s = some x ↔ Number.Spells (trim s) x :=
  Number.readFinite?_eq_some_iff_spells

/-! ## The band of a rule -/

/-- A rule that does not give a band has an unsupported operator or is invalid. -/
theorem band_cases (name rule : String) :
    (∃ b, band name rule = .ok b) ∨
      (∃ operator, band name rule = .error (.unsupportedOperator operator)) ∨
      band name rule = .error (.invalidInterval name) := by
  unfold band
  split
  · exact .inr (.inr rfl)
  · split
    · exact .inr (.inr rfl)
    · split
      · exact .inr (.inl ⟨_, rfl⟩)
      · split
        · exact .inl ⟨_, rfl⟩
        · exact .inr (.inr rfl)

/-- The band of a rule is that of what it says. -/
theorem band_eq_ok_iff {name rule : String} {b : Band} :
    band name rule = .ok b ↔ ∃ reading, Says rule reading ∧ b = reading.band := by
  constructor
  · intro h
    unfold band at h
    split at h
    · cases h
    · rename_i condition score hcolon
      split at h
      · cases h
      · rename_i operator threshold hcondition
        split at h
        · cases h
        · rename_i side hside
          split at h
          · rename_i t s ht hs
            cases h
            obtain ⟨hform, -⟩ := hasForm_iff.2 ⟨condition, hcolon, hcondition⟩
            rw [side?_eq_some_iff.1 hside] at hform
            exact ⟨⟨side, t, s⟩, ⟨threshold, score, hform, number?_eq_some_iff.1 ht,
              number?_eq_some_iff.1 hs⟩, rfl⟩
          · cases h
  · rintro ⟨⟨side, t, s⟩, ⟨threshold, score, hform, ht, hs⟩, rfl⟩
    have hne : side.symbol ≠ [] := by cases side <;> decide
    obtain ⟨condition, hcolon, hcondition⟩ := hasForm_iff.1 ⟨hform, hne⟩
    simp only [band, hcolon, hcondition, side?_eq_some_iff.2 rfl, number?_eq_some_iff.2 ht,
      number?_eq_some_iff.2 hs]
    rfl

/-- An operator is unsupported if it is that of no side. -/
theorem band_eq_unsupportedOperator_iff {name rule operator : String} :
    band name rule = .error (.unsupportedOperator operator) ↔ HasUnsupported rule operator := by
  constructor
  · intro h
    unfold band at h
    split at h
    · cases h
    · rename_i condition score hcolon
      split at h
      · cases h
      · rename_i symbol threshold hcondition
        split at h
        · rename_i hside
          cases h
          obtain ⟨hform, hne⟩ := hasForm_iff.2 ⟨condition, hcolon, hcondition⟩
          rw [← String.toList_ofList (l := symbol)] at hform hside
          exact ⟨⟨threshold, score, hform⟩, by simpa using hne, side?_eq_none_iff.1 hside⟩
        · split at h
          · cases h
          · cases h
  · rintro ⟨⟨threshold, score, hform⟩, hempty, hnone⟩
    have hne : operator.toList ≠ [] := by simpa using hempty
    obtain ⟨condition, hcolon, hcondition⟩ := hasForm_iff.1 ⟨hform, hne⟩
    simp only [band, hcolon, hcondition, side?_eq_none_iff.2 hnone, String.ofList_toList]

theorem band_eq_invalidInterval {name rule : String} (hsilent : ¬∃ reading, Says rule reading)
    (hsupported : ¬∃ operator, HasUnsupported rule operator) :
    band name rule = .error (.invalidInterval name) := by
  rcases band_cases name rule with ⟨b, hb⟩ | ⟨operator, hoperator⟩ | hinvalid
  · obtain ⟨reading, hreading, _⟩ := band_eq_ok_iff.1 hb
    exact absurd ⟨reading, hreading⟩ hsilent
  · exact absurd ⟨operator, band_eq_unsupportedOperator_iff.1 hoperator⟩ hsupported
  · exact hinvalid

theorem exists_band_eq_ok_iff {name rule : String} :
    (∃ b, band name rule = .ok b) ↔ ∃ reading, Says rule reading := by
  simp only [band_eq_ok_iff]
  constructor
  · rintro ⟨_, reading, hreading, _⟩
    exact ⟨reading, hreading⟩
  · rintro ⟨reading, hreading⟩
    exact ⟨_, reading, hreading, rfl⟩

/-! ## The element of rules -/

/-- A rule says something, and a band has the score and on its side the threshold of what it
says. -/
def Carries (rule : String) (b : Band) : Prop :=
  (∃ reading, Says rule reading) ∧ ∀ reading, Says rule reading →
    b.score = reading.score ∧ reading.side.bound? b = some reading.threshold

theorem Describes.carries {name rule : String} {b : Band} (h : Describes name rule b) :
    Carries rule b := by
  obtain ⟨original, hband, hextends, _⟩ := h
  refine ⟨exists_band_eq_ok_iff.1 ⟨original, hband⟩, fun reading hreading => ?_⟩
  have hreads : band name rule = .ok reading.band := band_eq_ok_iff.2 ⟨reading, hreading, rfl⟩
  obtain rfl : original = reading.band := Except.ok.inj (hband.symm.trans hreads)
  obtain ⟨side, threshold, score⟩ := reading
  cases side with
  | below => exact ⟨hextends.score, hextends.stop threshold rfl⟩
  | above => exact ⟨hextends.score, hextends.start threshold rfl⟩

variable {name : String} {rules : List String}

theorem element_of_isReferable (hname : isReferable name = true) (hrules : rules ≠ []) :
    (Definition.interval rules).element name =
      (rules.mapM (band name)).map fun bands =>
        .banded name (Band.closeSides bands) uncoveredScore := by
  obtain ⟨rule, rest, rfl⟩ := List.exists_cons_of_ne_nil hrules
  rw [Definition.element, if_pos hname]
  rfl

theorem exists_element_eq_ok_iff :
    (∃ element, (Definition.interval rules).element name = .ok element) ↔
      isReferable name = true ∧ rules ≠ [] ∧ ∀ rule ∈ rules, ∃ reading, Says rule reading := by
  constructor
  · rintro ⟨element, helement⟩
    have hname := isReferable_of_element helement
    have hrules : rules ≠ [] := by
      rintro rfl
      rw [Definition.element, if_pos hname] at helement
      cases helement
    obtain ⟨bands, _, hbands⟩ := describes_of_interval helement
    refine ⟨hname, hrules, fun rule hrule => ?_⟩
    obtain ⟨i, hi, rfl⟩ := List.getElem_of_mem hrule
    exact (hbands.get hi (hbands.length_eq ▸ hi)).carries.1
  · rintro ⟨hname, hrules, hall⟩
    obtain ⟨bands, hbands⟩ := exists_mapM_eq_ok_iff.2 fun rule hrule =>
      exists_band_eq_ok_iff.2 (hall rule hrule)
    rw [element_of_isReferable hname hrules, hbands]
    exact ⟨_, rfl⟩

/-- The first rule that says nothing gives the error. -/
theorem element_of_first_fault (hname : isReferable name = true) {before after : List String}
    {rule : String} (hrules : rules = before ++ rule :: after)
    (hbefore : ∀ other ∈ before, ∃ reading, Says other reading) {e : ParseError}
    (hrule : band name rule = .error e) :
    (Definition.interval rules).element name = .error e := by
  have hfirst : rules.mapM (band name) = .error e :=
    mapM_eq_error_iff.2 ⟨before, rule, ⟨after, hrules⟩,
      fun other hother => exists_band_eq_ok_iff.2 (hbefore other hother), hrule⟩
  rw [element_of_isReferable hname (by simp [hrules]), hfirst]
  rfl

/-- An interval has an element exactly if its name has no bracket, it has rules and each of them
says something: an operator in front of what spells a finite threshold, a colon, and what spells a
finite score. Its bands have the scores of the rules and their thresholds on the sides of their
operators. A name with a bracket gives the error whatever the rules are. Otherwise the first rule
that says nothing does: it has an operator that there is not, or the interval is invalid. -/
theorem element_of_rules (name : String) (rules : List String) :
    ((∃ element, (Definition.interval rules).element name = .ok element) ↔
      ('[' ∉ name.toList ∧ ']' ∉ name.toList) ∧ rules ≠ [] ∧
        ∀ rule ∈ rules, ∃ reading, Says rule reading) ∧
    (∀ element, (Definition.interval rules).element name = .ok element →
      ∃ bands, element = .banded name bands uncoveredScore ∧ List.Forall₂ Carries rules bands) ∧
    (¬('[' ∉ name.toList ∧ ']' ∉ name.toList) →
      (Definition.interval rules).element name = .error (.invalidElementName name)) ∧
    ('[' ∉ name.toList ∧ ']' ∉ name.toList →
      (rules = [] → (Definition.interval rules).element name = .error (.invalidInterval name)) ∧
      ∀ before rule after, rules = before ++ rule :: after →
        (∀ other ∈ before, ∃ reading, Says other reading) → (¬∃ reading, Says rule reading) →
        (∀ operator, (Definition.interval rules).element name =
          .error (.unsupportedOperator operator) ↔ HasUnsupported rule operator) ∧
        ((¬∃ operator, HasUnsupported rule operator) →
          (Definition.interval rules).element name = .error (.invalidInterval name))) := by
  rw [← isReferable_iff]
  refine ⟨exists_element_eq_ok_iff, fun element helement => ?_, fun hname => ?_, fun hname => ?_⟩
  · obtain ⟨bands, helement, hbands⟩ := describes_of_interval helement
    exact ⟨bands, helement, hbands.imp fun _ _ => Describes.carries⟩
  · unfold Definition.element
    rw [if_neg hname]
  · refine ⟨fun hnil => ?_, fun before rule after hrules hbefore hrule => ⟨fun operator => ?_,
      fun hsupported => ?_⟩⟩
    · rw [hnil, Definition.element, if_pos hname]
    · rcases exists_ok_or_error (band name rule) with hok | ⟨e, he⟩
      · exact absurd (exists_band_eq_ok_iff.1 hok) hrule
      · rw [element_of_first_fault hname hrules hbefore he,
          ← @band_eq_unsupportedOperator_iff name, he]
        simp only [Except.error.injEq]
    · exact element_of_first_fault hname hrules hbefore (band_eq_invalidInterval hrule hsupported)

end Scorecard.Rule
