import Scorecard.Proofs.Parentheses

/-!
# The outline of a formula

The outline of a formula is read off by cutting it at its outermost parentheses outside square
brackets: what stands between two pairs of them is a run, and what stands within a pair is a group,
whose contents are the outline of its interior. Main statement: `outline_of_nest`, the tree of a
formula that nests is its outline. Both rest on what such trees look like: runs without parentheses
alternate with groups, and a run ends outside brackets where a parenthesis follows (`Regular`).
-/

namespace Scorecard.Formula

open Text

/-! ## Cutting at the outermost parentheses -/

/-- Cuts a text at its outermost parentheses outside square brackets. It starts at a bracket depth
and behind a number of parentheses that are still open. -/
def cutOutermost : (depth opened : Nat) → List Char → Cut
  | _, _, [] => ⟨[], []⟩
  | depth, opened, c :: s =>
    if depth = 0 ∧ c = '(' then
      let rest := cutOutermost 0 (opened + 1) s
      if opened = 0 then rest.mark c else rest.push c
    else if depth = 0 ∧ c = ')' then
      let rest := cutOutermost 0 (opened - 1) s
      if opened = 1 then rest.mark c else rest.push c
    else (cutOutermost (bracketStep depth c) opened s).push c

/-- Nothing of a text is lost. -/
theorem join_cutOutermost (depth opened : Nat) (s : List Char) :
    (cutOutermost depth opened s).join = s := by
  induction s generalizing depth opened with
  | nil => rfl
  | cons c s ih =>
    rw [cutOutermost]
    split
    · split
      · simp [ih]
      · simp [ih]
    · split
      · split
        · simp [ih]
        · simp [ih]
      · simp [ih]

/-- A piece behind a mark is shorter than the text. -/
theorem length_lt_of_mem_tail {k : Cut} {pair : Char × List Char} (h : pair ∈ k.tail) :
    pair.2.length < k.join.length := by
  obtain ⟨front, back, hsplit⟩ := List.append_of_mem h
  obtain ⟨mark, piece⟩ := pair
  simp only [Cut.join, hsplit, List.length_append, List.flatMap_append, List.flatMap_cons,
    List.length_cons]
  omega

/-- The outline of a formula: runs between its outermost parentheses, and groups within them. -/
def outline (formula : List Char) : List Nesting :=
  let pieces := cutOutermost 0 0 formula
  .run pieces.head :: pieces.tail.attach.map fun pair =>
    if pair.val.1 = '(' then .group (outline pair.val.2) else .run pair.val.2
termination_by formula.length
decreasing_by
  have hlength := length_lt_of_mem_tail pair.property
  rwa [join_cutOutermost] at hlength

theorem outline_eq (formula : List Char) :
    outline formula =
      .run (cutOutermost 0 0 formula).head ::
        (cutOutermost 0 0 formula).tail.map fun (mark, piece) =>
          if mark = '(' then .group (outline piece) else .run piece := by
  rw [outline]
  simp only [List.cons.injEq, true_and]
  exact List.attach_map_val (f := fun pair : Char × List Char =>
    if pair.1 = '(' then Nesting.group (outline pair.2) else .run pair.2)

/-! ## Trees that nest a text -/

/-- Runs alternate with groups, and no run has a parenthesis outside brackets. Where a parenthesis
follows, in particular at the end of closed contents, a run ends outside brackets. -/
inductive Regular : (closed : Bool) → List Nesting → Prop where
  | run {closed : Bool} {text : List Char} (htext : Unmarked isParenthesis 0 text)
      (hclosed : closed = true → depthAfter 0 text = 0) : Regular closed [.run text]
  | group {closed : Bool} {text : List Char} {contents rest : List Nesting}
      (htext : Unmarked isParenthesis 0 text) (hdepth : depthAfter 0 text = 0)
      (hcontents : Regular true contents) (hrest : Regular closed rest) :
      Regular closed (.run text :: .group contents :: rest)

/-- Stretches, last first, that a regular continuation completes. -/
def Extends (before : List Nesting) : Prop :=
  ∀ closed rest, Regular closed rest → Regular closed (before.reverse ++ rest)

/-- What stands before an open group ends with a run outside brackets. -/
def OpenGroup.IsRegular (group : OpenGroup) : Prop :=
  ∃ text before, group.before = .run text :: before ∧ Unmarked isParenthesis 0 text ∧
    depthAfter 0 text = 0 ∧ Extends before

theorem extends_nil : Extends [] :=
  fun _ _ h => h

theorem Extends.group {text : List Char} {before contents : List Nesting}
    (h : Extends before) (htext : Unmarked isParenthesis 0 text) (hdepth : depthAfter 0 text = 0)
    (hcontents : Regular true contents) :
    Extends (.group contents :: .run text :: before) := by
  intro closed rest hrest
  have hgroup := h closed _ (Regular.group htext hdepth hcontents hrest)
  simpa using hgroup

/-- The run that is read and the pieces behind it continue regular stretches to a regular tree. -/
theorem regular_of_nestFrom {tail : List (Char × List Char)} {position : Nat} {text : List Char}
    {before : List Nesting} {outer : List OpenGroup} {items : List Nesting}
    (hpieces : Pieces isParenthesis 0 text tail) (hbefore : Extends before)
    (houter : ∀ group ∈ outer, group.IsRegular)
    (h : nestFrom position (.run text :: before) outer tail = .ok items) : Regular false items := by
  -- the run that is read last may still grow, so it stays apart from what is regular already
  induction tail generalizing position text before outer with
  | nil =>
    rw [nestFrom] at h
    cases hlast : outer.getLast? with
    | none =>
      rw [hlast] at h
      cases h
      rw [List.reverse_cons]
      exact hbefore false _ (.run hpieces (by simp))
    | some group =>
      rw [hlast] at h
      cases h
  | cons pair rest ih =>
    obtain ⟨c, piece⟩ := pair
    obtain ⟨htext, hdepth, hmark, hrest⟩ := hpieces
    rcases eq_of_isParenthesis hmark with rfl | rfl
    · rw [nestFrom_open] at h
      refine ih hrest extends_nil ?_ h
      intro group hgroup
      rcases List.mem_cons.1 hgroup with rfl | hgroup
      · exact ⟨text, before, rfl, htext, hdepth, hbefore⟩
      · exact houter group hgroup
    · cases outer with
      | nil =>
        rw [nestFrom_close_nil] at h
        cases h
      | cons group outer =>
        rw [nestFrom_close_cons] at h
        obtain ⟨front, earlier, hgroup, hfront, hfrontDepth, hearlier⟩ :=
          houter group List.mem_cons_self
        have hcontents : Regular true (Nesting.run text :: before).reverse := by
          rw [List.reverse_cons]
          exact hbefore _ _ (.run htext fun _ => hdepth)
        rw [hgroup] at h
        exact ih hrest (hearlier.group hfront hfrontDepth hcontents)
          (fun other hother => houter other (List.mem_cons_of_mem _ hother)) h

/-- The tree of a formula is regular. -/
theorem regular_of_nest {formula : List Char} {items : List Nesting}
    (h : nest formula = .ok items) : Regular false items :=
  regular_of_nestFrom (pieces_cut bracketFree_isParenthesis 0 formula) extends_nil
    (by simp) h

/-! ## The outline of a regular tree -/

/-- Puts a text in front of a cut one. -/
def prepend (s : List Char) (k : Cut) : Cut :=
  { k with head := s ++ k.head }

/-- A run is read up to its end. -/
theorem cutOutermost_append_run {text : List Char} {depth : Nat}
    (htext : Unmarked isParenthesis depth text) (opened : Nat) (s : List Char) :
    cutOutermost depth opened (text ++ s) =
      prepend text (cutOutermost (depthAfter depth text) opened s) := by
  induction text generalizing depth with
  | nil => rfl
  | cons c text ih =>
    obtain ⟨hc, htext⟩ := unmarked_cons_iff.1 htext
    have hopen : ¬(depth = 0 ∧ c = '(') := by
      intro heq
      obtain ⟨rfl, rfl⟩ := heq
      exact absurd hc (by decide)
    have hclose : ¬(depth = 0 ∧ c = ')') := by
      intro heq
      obtain ⟨rfl, rfl⟩ := heq
      exact absurd hc (by decide)
    rw [List.cons_append, cutOutermost, if_neg hopen, if_neg hclose, ih htext]
    rfl

theorem cutOutermost_open (opened : Nat) (s : List Char) :
    cutOutermost 0 opened ('(' :: s) =
      if opened = 0 then (cutOutermost 0 (opened + 1) s).mark '('
      else (cutOutermost 0 (opened + 1) s).push '(' := by
  rw [cutOutermost]
  simp

theorem cutOutermost_close (opened : Nat) (s : List Char) :
    cutOutermost 0 opened (')' :: s) =
      if opened = 1 then (cutOutermost 0 (opened - 1) s).mark ')'
      else (cutOutermost 0 (opened - 1) s).push ')' := by
  rw [cutOutermost]
  simp

theorem sourceAll_run (text : List Char) : Nesting.sourceAll [.run text] = text := by
  simp [Nesting.sourceAll_eq]

theorem sourceAll_group (text : List Char) (contents rest : List Nesting) :
    Nesting.sourceAll (.run text :: .group contents :: rest) =
      text ++ '(' :: (Nesting.sourceAll contents ++ ')' :: Nesting.sourceAll rest) := by
  simp [Nesting.sourceAll_eq]

/-- Within a pair of parentheses, closed contents are read up to their end without a cut. -/
theorem cutOutermost_append_contents {contents : List Nesting} (h : Regular true contents)
    (opened : Nat) (s : List Char) :
    cutOutermost 0 (opened + 1) (Nesting.sourceAll contents ++ s) =
      prepend (Nesting.sourceAll contents) (cutOutermost 0 (opened + 1) s) := by
  generalize hclosed : true = closed at h
  induction h generalizing opened s with
  | run htext hdepth =>
    rw [sourceAll_run, cutOutermost_append_run htext, hdepth hclosed.symm]
  | @group _ text contents rest htext hdepth _ _ ihcontents ihrest =>
    rw [sourceAll_group, List.append_assoc, cutOutermost_append_run htext, hdepth,
      List.cons_append, cutOutermost_open, if_neg (Nat.succ_ne_zero opened), List.append_assoc,
      ihcontents _ _ rfl, List.cons_append, cutOutermost_close, if_neg (by omega),
      Nat.add_sub_cancel, ihrest _ _ hclosed]
    simp [prepend, Cut.push]

/-- The outline of what a regular tree is the tree of, is the tree. -/
theorem outline_sourceAll {closed : Bool} {items : List Nesting} (h : Regular closed items) :
    outline (Nesting.sourceAll items) = items := by
  induction h with
  | run htext _ =>
    rename_i text
    have hcut := cutOutermost_append_run htext 0 []
    rw [List.append_nil] at hcut
    rw [sourceAll_run, outline_eq, hcut]
    simp [prepend, cutOutermost]
  | @group _ text contents rest htext hdepth hcontents _ ihcontents ihrest =>
    have hcut : cutOutermost 0 0 (Nesting.sourceAll (.run text :: .group contents :: rest)) =
        ⟨text, ('(', Nesting.sourceAll contents) ::
          (')', (cutOutermost 0 0 (Nesting.sourceAll rest)).head) ::
            (cutOutermost 0 0 (Nesting.sourceAll rest)).tail⟩ := by
      rw [sourceAll_group, cutOutermost_append_run htext, hdepth, cutOutermost_open, if_pos rfl,
        cutOutermost_append_contents hcontents 0, cutOutermost_close, if_pos rfl]
      simp [prepend, Cut.mark]
    rw [outline_eq] at ihrest
    rw [outline_eq, hcut]
    simp [ihcontents, ihrest]

/-- The tree of a formula that nests is its outline. -/
theorem outline_of_nest {formula : List Char} {items : List Nesting}
    (h : nest formula = .ok items) : outline formula = items := by
  have hsource := outline_sourceAll (regular_of_nest h)
  rwa [sourceAll_of_nest h] at hsource

end Scorecard.Formula
