import Scorecard.Proofs.Acceptance
import Scorecard.Proofs.Outline

/-!
# What the fragments of a formula show of it

Written out from left to right, with a parenthesis on either side of a group, the fragments of a
formula are its tokens (`writeAll_fragments`). Their texts stand in the formula one behind the other
with blanks between them (`laidOut_fragments`), and the interior of a group is a formula of its own
with the fragments of the group (`nest_sourceAll`). So the same holds of the contents of every group
in turn. Main statement: `grouping_of_fragments`.
-/

namespace Scorecard

namespace Text

/-- A text of blanks. -/
def AllBlank (s : List Char) : Prop :=
  ∀ c ∈ s, isBlank c = true

theorem AllBlank.append {s t : List Char} (hs : AllBlank s) (ht : AllBlank t) :
    AllBlank (s ++ t) := by
  intro c hc
  rcases List.mem_append.1 hc with hc | hc
  · exact hs c hc
  · exact ht c hc

theorem allBlank_of_trim_eq_nil {s : List Char} (h : trim s = []) : AllBlank s := by
  obtain ⟨front, back, hs, hfront, hback⟩ := exists_eq_append_trim s
  rw [h, List.nil_append] at hs
  rw [hs]
  exact AllBlank.append hfront hback

end Text

namespace Formula

open Attempt Text

/-! ## Writing fragments out -/

section

variable (mark : Char → List (List Char))

mutual

/-- The tokens of a fragment, with a mark for either parenthesis of a group. -/
def Fragment.write : Fragment → List (List Char)
  | .run _ tokens => tokens
  | .group _ fragments => mark '(' ++ Fragment.writeAll fragments ++ mark ')'

/-- The tokens of several fragments one after the other. -/
def Fragment.writeAll : List Fragment → List (List Char)
  | [] => []
  | fragment :: rest => fragment.write ++ Fragment.writeAll rest

end

@[simp] theorem Fragment.writeAll_nil : Fragment.writeAll mark [] = [] := by
  rw [Fragment.writeAll]

@[simp] theorem Fragment.writeAll_cons (fragment : Fragment) (rest : List Fragment) :
    Fragment.writeAll mark (fragment :: rest) =
      fragment.write mark ++ Fragment.writeAll mark rest := by
  rw [Fragment.writeAll]

theorem Fragment.writeAll_append (first more : List Fragment) :
    Fragment.writeAll mark (first ++ more) =
      Fragment.writeAll mark first ++ Fragment.writeAll mark more := by
  induction first with
  | nil => simp
  | cons fragment first ih => simp [ih]

mutual

theorem writeAll_fragment : (item : Nesting) →
    Fragment.writeAll mark item.fragment = item.write tokens mark
  | .run text => by
    rw [Nesting.fragment, Nesting.write_run]
    cases tokens text with
    | nil => simp
    | cons token rest => simp [Fragment.write]
  | .group contents => by
    have hcontents := writeAll_fragments contents
    simp [Nesting.fragment, Fragment.write, hcontents]

/-- The fragments of a tree are written out as its stretches are. -/
theorem writeAll_fragments : (items : List Nesting) →
    Fragment.writeAll mark (Nesting.fragments items) = Nesting.writeAll tokens mark items
  | [] => by simp [Nesting.fragments]
  | item :: rest => by
    rw [Nesting.fragments, Fragment.writeAll_append, writeAll_fragment item,
      writeAll_fragments rest, Nesting.writeAll_cons]

end

end

/-! ## The interior of a group -/

/-- The parentheses of a tree, in the order in which they are written. -/
def Nesting.marks (items : List Nesting) : List Char :=
  writeAll (fun _ => []) (fun c => [c]) items

mutual

theorem balancedFrom_write_append (opened : Nat) (more : List Char) : (item : Nesting) →
    (BalancedFrom opened (item.write (fun _ => []) (fun c => [c]) ++ more) ↔
      BalancedFrom opened more)
  | .run text => by simp
  | .group contents => by
    rw [Nesting.write_group, List.append_assoc, List.append_assoc, List.singleton_append,
      balancedFrom_open_iff, ← Nesting.marks,
      balancedFrom_marks_append (opened + 1) _ contents, List.singleton_append,
      balancedFrom_close_iff]
    simp

/-- The parentheses of a tree close each other. -/
theorem balancedFrom_marks_append (opened : Nat) (more : List Char) : (items : List Nesting) →
    (BalancedFrom opened (Nesting.marks items ++ more) ↔ BalancedFrom opened more)
  | [] => by simp [Nesting.marks]
  | item :: rest => by
    rw [Nesting.marks, Nesting.writeAll_cons, List.append_assoc, ← Nesting.marks,
      balancedFrom_write_append opened _ item, balancedFrom_marks_append opened more rest]

end

theorem balanced_marks (items : List Nesting) : Balanced (Nesting.marks items) := by
  have h := balancedFrom_marks_append 0 [] items
  rw [List.append_nil] at h
  exact h.2 (balancedFrom_nil_iff.2 rfl)

/-- Closed contents end outside brackets. -/
theorem depthAfter_sourceAll {items : List Nesting} (h : Regular true items) :
    depthAfter 0 (Nesting.sourceAll items) = 0 := by
  generalize hclosed : true = closed at h
  induction h with
  | run _ hdepth => rw [sourceAll_run, hdepth hclosed.symm]
  | group _ hdepth _ _ ihcontents ihrest =>
    rw [sourceAll_group, depthAfter_append, hdepth, depthAfter_cons, depthAfter_append]
    rw [show bracketStep 0 '(' = 0 from rfl, ihcontents rfl, depthAfter_cons]
    exact ihrest hclosed

/-- The parentheses of a regular tree are those of its text outside brackets. -/
theorem outerParentheses_sourceAll {closed : Bool} {items : List Nesting}
    (h : Regular closed items) :
    outerParentheses (Nesting.sourceAll items) = Nesting.marks items := by
  unfold outerParentheses
  induction h with
  | run htext _ =>
    rw [sourceAll_run, htext]
    simp [Nesting.marks]
  | group htext hdepth hcontents _ ihcontents ihrest =>
    have hopen (s : List Char) :
        outerMarks isParenthesis 0 ('(' :: s) = '(' :: outerMarks isParenthesis 0 s := rfl
    have hclose (s : List Char) :
        outerMarks isParenthesis 0 (')' :: s) = ')' :: outerMarks isParenthesis 0 s := rfl
    rw [sourceAll_group, outerMarks_append, htext, hdepth, hopen, outerMarks_append, ihcontents,
      depthAfter_sourceAll hcontents, hclose, ihrest]
    simp [Nesting.marks]

/-- A regular tree is the tree of its text. -/
theorem nest_sourceAll {closed : Bool} {items : List Nesting} (h : Regular closed items) :
    nest (Nesting.sourceAll items) = .ok items := by
  have hbalanced : Balanced (outerParentheses (Nesting.sourceAll items)) := by
    rw [outerParentheses_sourceAll h]
    exact balanced_marks items
  obtain ⟨others, hothers⟩ := exists_nest_eq_ok_iff.2 hbalanced
  rw [hothers, ← outline_of_nest hothers, outline_sourceAll h]

theorem Regular.contents {closed : Bool} {items contents : List Nesting}
    (h : Regular closed items) (hmem : .group contents ∈ items) : Regular true contents := by
  induction h with
  | run _ _ => simp at hmem
  | group _ _ hcontents _ _ ihrest =>
    simp only [List.mem_cons, reduceCtorEq, Nesting.group.injEq, false_or] at hmem
    rcases hmem with rfl | hmem
    · exact hcontents
    · exact ihrest hmem

/-! ## The texts of the fragments -/

/-- The texts of some fragments make up a text in their order, with nothing but blanks before,
between and behind them. -/
inductive LaidOut : List Char → List Fragment → Prop where
  | nil {gap : List Char} (hgap : AllBlank gap) : LaidOut gap []
  | cons {gap source : List Char} {fragment : Fragment} {rest : List Fragment}
      (hgap : AllBlank gap) (hrest : LaidOut source rest) :
      LaidOut (gap ++ (fragment.text ++ source)) (fragment :: rest)

theorem LaidOut.blank_append {gap source : List Char} {entries : List Fragment}
    (hgap : AllBlank gap) (h : LaidOut source entries) : LaidOut (gap ++ source) entries := by
  cases h with
  | nil hmore => exact .nil (hgap.append hmore)
  | cons hmore hrest =>
    rw [← List.append_assoc]
    exact .cons (hgap.append hmore) hrest

/-- A text without tokens is blank. -/
theorem allBlank_of_tokens_eq_nil {s : List Char} (h : tokens s = []) : AllBlank s := by
  have hjoin := join_cut isSeparator 0 s
  unfold tokens at h
  generalize cut isSeparator 0 s = k at h hjoin
  obtain ⟨head, tail⟩ := k
  obtain ⟨hhead, htail⟩ := List.append_eq_nil_iff.1 h
  cases tail with
  | cons pair rest => cases htail
  | nil =>
    rw [← hjoin]
    have htrim : trim head = [] := by
      cases htrim : trim head with
      | nil => rfl
      | cons c more =>
        simp only [word, htrim] at hhead
        cases hhead
    rw [Cut.join_nil]
    exact allBlank_of_trim_eq_nil htrim

theorem sourceAll_cons (item : Nesting) (rest : List Nesting) :
    Nesting.sourceAll (item :: rest) = item.source ++ Nesting.sourceAll rest := by
  simp [Nesting.sourceAll_eq, Nesting.source, Nesting.sourceBefore_eq]

/-- The fragments of a tree stand in its text in their order. -/
theorem laidOut_fragments (items : List Nesting) :
    LaidOut (Nesting.sourceAll items) (Nesting.fragments items) := by
  induction items with
  | nil =>
    have hgap : AllBlank [] := by simp [AllBlank]
    exact LaidOut.nil hgap
  | cons item rest ih =>
    rw [sourceAll_cons, Nesting.fragments]
    have hnone : AllBlank [] := by simp [AllBlank]
    cases item with
    | group contents =>
      rw [Nesting.fragment]
      exact @LaidOut.cons [] _ (.group contents (Nesting.fragments contents)) _ hnone ih
    | run text =>
      have hsource : (Nesting.run text).source = text := by
        simp [Nesting.source, Nesting.sourceBefore]
      rw [hsource, Nesting.fragment]
      cases htokens : tokens text with
      | nil => exact ih.blank_append (allBlank_of_tokens_eq_nil htokens)
      | cons token more =>
        exact @LaidOut.cons [] _ (.run text (token :: more)) _ hnone ih

theorem mem_fragments_cases {items : List Nesting} {fragment : Fragment}
    (h : fragment ∈ Nesting.fragments items) :
    (∃ text, fragment = .run text (tokens text)) ∨
      ∃ contents, .group contents ∈ items ∧
        fragment = .group contents (Nesting.fragments contents) := by
  induction items with
  | nil => simp [Nesting.fragments] at h
  | cons item rest ih =>
    rw [Nesting.fragments] at h
    rcases List.mem_append.1 h with h | h
    · cases item with
      | group contents =>
        rw [Nesting.fragment, List.mem_singleton] at h
        exact .inr ⟨contents, List.mem_cons_self, h⟩
      | run text =>
        rw [Nesting.fragment] at h
        cases htokens : tokens text with
        | nil => simp [htokens] at h
        | cons token more =>
          simp only [htokens, List.mem_singleton] at h
          exact .inl ⟨text, by rw [h, htokens]⟩
    · rcases ih h with hrun | ⟨contents, hmem, hgroup⟩
      · exact .inl hrun
      · exact .inr ⟨contents, List.mem_cons_of_mem item hmem, hgroup⟩

theorem text_group (contents : List Nesting) (inner : List Fragment) :
    (Fragment.group contents inner).text = '(' :: (Nesting.sourceAll contents ++ [')']) := by
  simp [Fragment.text, Nesting.source, Nesting.sourceBefore, Nesting.sourceAllBefore_eq,
    Nesting.sourceAll_eq]

/-! ## Levels -/

/-- A level of a formula's fragments with the text that it groups: the whole formula, or the
contents of a group on some level with what its parentheses enclose. -/
inductive Level (formula : List Char) (entries : List Fragment) :
    List Char → List Fragment → Prop where
  | whole : Level formula entries formula entries
  | within {source interior : List Char} {others inner : List Fragment} {contents : List Nesting}
      (houter : Level formula entries source others) (hmem : .group contents inner ∈ others)
      (htext : (Fragment.group contents inner).text = '(' :: (interior ++ [')'])) :
      Level formula entries interior inner

theorem exists_nest_of_fragments {source : List Char} {entries : List Fragment}
    (h : fragments source = .ok entries) :
    ∃ items, nest source = .ok items ∧ entries = Nesting.fragments items := by
  unfold fragments at h
  cases hnest : nest source with
  | error e =>
    rw [hnest] at h
    cases h
  | ok items =>
    rw [hnest] at h
    cases h
    exact ⟨items, rfl, rfl⟩

/-- The contents of a group are the fragments of what its parentheses enclose. -/
theorem fragments_of_mem_group {source : List Char} {entries inner : List Fragment}
    {contents : List Nesting} (h : fragments source = .ok entries)
    (hmem : .group contents inner ∈ entries) :
    ∃ interior, (Fragment.group contents inner).text = '(' :: (interior ++ [')']) ∧
      fragments interior = .ok inner := by
  obtain ⟨items, hitems, rfl⟩ := exists_nest_of_fragments h
  rcases mem_fragments_cases hmem with ⟨text, hrun⟩ | ⟨others, hothers, hgroup⟩
  · cases hrun
  · cases hgroup
    refine ⟨Nesting.sourceAll contents, text_group contents _, ?_⟩
    have hregular := (regular_of_nest hitems).contents hothers
    simp [fragments, nest_sourceAll hregular, Except.map]

/-- Every level has the fragments of its text. -/
theorem Level.fragments {formula source : List Char} {entries others : List Fragment}
    (hlevel : Level formula entries source others) (h : fragments formula = .ok entries) :
    fragments source = .ok others := by
  induction hlevel with
  | whole => exact h
  | within _ hmem htext ih =>
    obtain ⟨interior, hinterior, hfragments⟩ := fragments_of_mem_group ih hmem
    rw [hinterior] at htext
    simp only [List.cons.injEq, true_and, List.append_cancel_right_eq] at htext
    rw [← htext]
    exact hfragments

theorem tokenize_filter_ne_parenthesis (formula : String) :
    (tokenize formula).filter (fun token => token ≠ "(" ∧ token ≠ ")") =
      ((tokens formula.toList).filter isProper).map String.ofList := by
  rw [tokenize, List.filter_map]
  refine congrArg (List.map String.ofList) (List.filter_congr fun token _ => ?_)
  rw [Function.comp_apply, Bool.eq_iff_iff, decide_eq_true_iff, ← not_or,
    ofList_eq_parenthesis_iff, Bool.not_eq_false]

/-- The fragments of a formula, written out in order with a parenthesis on either side of each
group, are its tokens; without the parentheses they are its other tokens. On every level the texts
of the fragments stand in the level's text one behind the other with nothing but blanks between
them, a run has the tokens of its text, and the text of a group is a pair of parentheses around a
text whose fragments are the contents of the group. -/
theorem grouping_of_fragments {formula : String} {entries : List Fragment}
    (h : fragments formula.toList = .ok entries) :
    (Fragment.writeAll (fun c => [[c]]) entries).map String.ofList = tokenize formula ∧
    (Fragment.writeAll (fun _ => []) entries).map String.ofList =
      (tokenize formula).filter (fun token => token ≠ "(" ∧ token ≠ ")") ∧
    ∀ source others, Level formula.toList entries source others →
      LaidOut source others ∧
      (∀ text words, .run text words ∈ others → words = tokens text) ∧
      ∀ contents inner, .group contents inner ∈ others →
        ∃ interior, (Fragment.group contents inner).text = '(' :: (interior ++ [')']) ∧
          fragments interior = .ok inner := by
  obtain ⟨items, hitems, hentries⟩ := exists_nest_of_fragments h
  refine ⟨?_, ?_, fun source others hlevel => ?_⟩
  · rw [hentries, writeAll_fragments, writeAll_tokens_of_nest hitems]
    rfl
  · rw [hentries, writeAll_fragments, tokenize_filter_ne_parenthesis, ← runTokens_of_nest hitems]
    rfl
  · have hothers := hlevel.fragments h
    obtain ⟨stretches, hstretches, rfl⟩ := exists_nest_of_fragments hothers
    refine ⟨?_, fun text words hmem => ?_, fun contents inner => fragments_of_mem_group hothers⟩
    · rw [← sourceAll_of_nest hstretches]
      exact laidOut_fragments stretches
    · rcases mem_fragments_cases hmem with ⟨other, hrun⟩ | ⟨contents, _, hgroup⟩
      · cases hrun
        rfl
      · cases hgroup

/-- The law at a formula with nested groups, an empty one, and parentheses within brackets. -/
theorem grouping_of_fragments_of_nested :
    ∃ entries, fragments "2 * ((1 + [A (b)]) + 3) ()".toList = .ok entries ∧
      (Fragment.writeAll (fun c => [[c]]) entries).map String.ofList =
        ["2", "*", "(", "(", "1", "+", "[A (b)]", ")", "+", "3", ")", "(", ")"] ∧
      LaidOut "2 * ((1 + [A (b)]) + 3) ()".toList entries := by
  have hsome : (fragments "2 * ((1 + [A (b)]) + 3) ()".toList).toOption.isSome = true := by
    decide +kernel
  have htokens : tokenize "2 * ((1 + [A (b)]) + 3) ()" =
      ["2", "*", "(", "(", "1", "+", "[A (b)]", ")", "+", "3", ")", "(", ")"] := by
    decide +kernel
  rcases exists_ok_or_error (fragments "2 * ((1 + [A (b)]) + 3) ()".toList) with
    ⟨entries, hentries⟩ | ⟨e, he⟩
  · obtain ⟨hwrite, _, hlevels⟩ := grouping_of_fragments hentries
    exact ⟨entries, hentries, hwrite.trans htokens, (hlevels _ _ .whole).1⟩
  · rw [he] at hsome
    cases hsome

end Formula

end Scorecard
