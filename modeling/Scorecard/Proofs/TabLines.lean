import Mathlib.Algebra.Order.BigOperators.Group.List
import Mathlib.Data.List.Basic
import Scorecard.Codec.Standard
import Scorecard.Proofs.Digits
import Scorecard.Report.Table
import Scorecard.Text.Split

/-!
# Reading lines with tabulators back

The lines of ranked subjects are read back by splitting the text at line breaks, and each line at
its first tabulator. No score has either of the two, and a tabulator in a name comes behind the one
that ends the score. A line break in a name is not marked, though: what is behind it is read as a
line of its own (`readTabLines_tabLines`). So the rows come back exactly if no name has one. Main
statement: `readTabLines_tabLines_eq_iff`.
-/

namespace Scorecard

namespace Text

theorem length_split (separator : Char) (s : List Char) :
    (split separator s).length = s.count separator + 1 := by
  induction s with
  | nil => rfl
  | cons c s ih =>
    rw [split, List.count_cons]
    split
    · simp [ih]
    · rename_i hc
      cases hpieces : split separator s with
      | nil => exact absurd hpieces (split_ne_nil separator s)
      | cons piece rest =>
        rw [hpieces] at ih
        simpa [pushPiece] using ih

/-- A text without the separator is one piece. -/
theorem split_of_not_mem {separator : Char} {s : List Char} (h : separator ∉ s) :
    split separator s = [s] := by
  have hone : (split separator s).length = 1 := by
    rw [length_split, List.count_eq_zero_of_not_mem h]
  obtain ⟨piece, hpiece⟩ := List.length_eq_one_iff.1 hone
  have hjoin := join_split separator s
  rw [hpiece] at hjoin
  rw [hpiece, ← hjoin]
  rfl

/-- What is in front of the first separator stays in front of the first piece. -/
theorem split_append_of_not_mem {separator : Char} {s : List Char} (h : separator ∉ s)
    (t : List Char) :
    ∃ piece rest, split separator t = piece :: rest ∧
      split separator (s ++ t) = (s ++ piece) :: rest := by
  induction s with
  | nil =>
    obtain ⟨piece, rest, hpieces⟩ := List.exists_cons_of_ne_nil (split_ne_nil separator t)
    exact ⟨piece, rest, hpieces, hpieces⟩
  | cons c s ih =>
    obtain ⟨hc, hs⟩ := List.ne_and_not_mem_of_not_mem_cons h
    obtain ⟨piece, rest, hpieces, happend⟩ := ih hs
    refine ⟨piece, rest, hpieces, ?_⟩
    rw [List.cons_append, split, happend, if_neg (by simpa using hc.symm)]
    rfl

theorem join_cons {separator : Char} {rest : List (List Char)} (h : rest ≠ [])
    (piece : List Char) :
    join separator (piece :: rest) = piece ++ separator :: join separator rest := by
  obtain ⟨next, rest, rfl⟩ := List.exists_cons_of_ne_nil h
  rfl

/-- Joined texts split into the pieces of each. -/
theorem split_join {separator : Char} {pieces : List (List Char)} (h : pieces ≠ []) :
    split separator (join separator pieces) = pieces.flatMap (split separator) := by
  induction pieces with
  | nil => exact absurd rfl h
  | cons piece rest ih =>
    by_cases hrest : rest = []
    · simp [hrest, join]
    · rw [join_cons hrest, split_append_separator, ih hrest, List.flatMap_cons]

theorem join_eq_intercalate (separator : Char) (pieces : List (List Char)) :
    join separator pieces = [separator].intercalate pieces := by
  induction pieces with
  | nil => rfl
  | cons piece rest ih =>
    cases rest with
    | nil => simp [join]
    | cons next rest =>
      rw [join_cons (List.cons_ne_nil next rest), ih, List.intercalate_cons_cons,
        List.append_assoc]
      rfl

end Text

namespace Report

open Text

theorem toList_joinLines (lines : List String) :
    (joinLines lines).toList = join '\n' (lines.map String.toList) := by
  rw [joinLines, String.toList_intercalate, join_eq_intercalate]
  rfl

/-! ## Rows -/

/-- What a line has in front of its first tabulator and behind it. -/
def fields (line : List Char) : String × String :=
  (String.ofList (line.takeWhile (· != '\t')),
    String.ofList ((line.dropWhile (· != '\t')).drop 1))

/-- The rows of a text: its lines, each split at the first tabulator. -/
def readTabLines (text : String) : List (String × String) :=
  (split '\n' text.toList).map fields

/-- The score of a subject as it is displayed, and its name. -/
def fieldsOf (ranked : Ranked) : String × String :=
  (Number.display ranked.score, ranked.subject)

theorem fields_append {front : List Char} (h : '\t' ∉ front) (rest : List Char) :
    fields (front ++ '\t' :: rest) = (String.ofList front, String.ofList rest) := by
  obtain ⟨hfront, hrest⟩ := takeWhile_ne_append h rest
  rw [fields, hfront, hrest]
  rfl

/-- A score has no tabulator and no line break. -/
theorem not_mem_displayDigits (x : Float) :
    '\t' ∉ Number.displayDigits x ∧ '\n' ∉ Number.displayDigits x := by
  constructor <;>
  · intro h
    rcases Number.mem_displayDigits h with hdigit | hletter
    · exact absurd hdigit (by decide)
    · exact absurd hletter (by decide)

theorem toList_tabLine (ranked : Ranked) :
    (tabLine ranked).toList =
      Number.displayDigits ranked.score ++ '\t' :: ranked.subject.toList := by
  simp [tabLine, Number.display]

/-- The line of a subject has as many rows as its name has lines. The first one has the score and
the first line of the name; each further line of the name is taken for a row. -/
theorem split_tabLine (ranked : Ranked) :
    ∃ line rest, split '\n' ranked.subject.toList = line :: rest ∧
      (split '\n' (tabLine ranked).toList).map fields =
        (Number.display ranked.score, String.ofList line) :: rest.map fields := by
  obtain ⟨htab, hbreak⟩ := not_mem_displayDigits ranked.score
  have hfront : '\n' ∉ Number.displayDigits ranked.score ++ ['\t'] := by simp [hbreak]
  obtain ⟨line, rest, hlines, hsplit⟩ := split_append_of_not_mem hfront ranked.subject.toList
  rw [List.append_assoc, List.singleton_append, List.append_assoc, List.singleton_append] at hsplit
  refine ⟨line, rest, hlines, ?_⟩
  rw [toList_tabLine, hsplit, List.map_cons, fields_append htab]
  rfl

/-- Rows are read subject by subject. -/
theorem readTabLines_tabLines {subjects : List Ranked} (h : subjects ≠ []) :
    readTabLines (tabLines subjects) =
      subjects.flatMap fun ranked => (split '\n' (tabLine ranked).toList).map fields := by
  rw [readTabLines, tabLines, toList_joinLines, split_join (by simpa using h), List.flatMap_map,
    List.map_flatMap, List.flatMap_map]

theorem split_tabLine_of_not_mem {ranked : Ranked} (h : '\n' ∉ ranked.subject.toList) :
    (split '\n' (tabLine ranked).toList).map fields = [fieldsOf ranked] := by
  obtain ⟨line, rest, hlines, hrows⟩ := split_tabLine ranked
  rw [split_of_not_mem h] at hlines
  cases hlines
  rw [hrows, String.ofList_toList]
  rfl

theorem length_split_tabLine (ranked : Ranked) :
    ((split '\n' (tabLine ranked).toList).map fields).length =
      ranked.subject.toList.count '\n' + 1 := by
  obtain ⟨line, rest, hlines, hrows⟩ := split_tabLine ranked
  rw [hrows, ← length_split, hlines]
  simp

/-- The lines of ranked subjects read back as their scores and names, one row for each subject and
in their order, exactly if no name has a line break. -/
theorem readTabLines_tabLines_eq_iff {subjects : List Ranked} (h : subjects ≠ []) :
    readTabLines (tabLines subjects) = subjects.map fieldsOf ↔
      ∀ ranked ∈ subjects, '\n' ∉ ranked.subject.toList := by
  rw [readTabLines_tabLines h]
  constructor
  · intro hread ranked hmem hbreak
    -- each line break in a name is a row too many
    have hlength := congrArg List.length hread
    rw [List.length_flatMap, List.length_map] at hlength
    have hone : ∀ other ∈ subjects,
        1 ≤ ((split '\n' (tabLine other).toList).map fields).length := fun other _ => by
      rw [length_split_tabLine]
      omega
    have htwo : 1 < ((split '\n' (tabLine ranked).toList).map fields).length := by
      have hcount := List.count_pos_iff.2 hbreak
      rw [length_split_tabLine]
      omega
    have hmore := List.sum_lt_sum (l := subjects) (fun _ => 1) _ hone ⟨ranked, hmem, htwo⟩
    rw [List.map_const', List.sum_replicate, nsmul_one, Nat.cast_id] at hmore
    exact absurd hlength (Nat.ne_of_gt hmore)
  · intro hnames
    rw [← List.flatMap_singleton' (subjects.map fieldsOf), List.flatMap_map]
    exact List.flatMap_congr fun ranked hmem => split_tabLine_of_not_mem (hnames ranked hmem)

/-- Tabulators and other line ends in a name do no harm. -/
theorem readTabLines_of_tabulators :
    let subjects : List Ranked := [⟨"b\t2\ta", 1.5⟩, ⟨"\r", 0⟩]
    subjects ≠ [] ∧ (∀ ranked ∈ subjects, '\n' ∉ ranked.subject.toList) ∧
      readTabLines (tabLines subjects) = subjects.map fieldsOf := by
  intro subjects
  have hnames : ∀ ranked ∈ subjects, '\n' ∉ ranked.subject.toList := by
    simp only [subjects, List.forall_mem_cons]
    decide
  exact ⟨List.cons_ne_nil _ _, hnames, (readTabLines_tabLines_eq_iff (by simp [subjects])).2 hnames⟩

/-- A name that an inputs file can hold forges a row: with it, one subject has the same lines as two
others. -/
theorem tabLines_of_line_break :
    (Codec.standard.subjects "in.json" "[[\"b\\n1\\ta\", \x7b\x7d]]").toOption.map
        (·.map Subject.name) = some ["b\n1\ta"] ∧
      tabLines [⟨"b\n1\ta", 2⟩] = tabLines [⟨"b", 2⟩, ⟨"a", 1⟩] ∧
      readTabLines (tabLines [⟨"b\n1\ta", 2⟩]) = [("2", "b"), ("1", "a")] ∧
      readTabLines (tabLines [⟨"b\n1\ta", 2⟩]) ≠ [("2", "b\n1\ta")] := by
  decide +kernel

end Report

end Scorecard
