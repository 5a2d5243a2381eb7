import Scorecard.Proofs.Insertion
import Scorecard.Proofs.Reporting
import Scorecard.Proofs.Spacing

/-!
# References among other tokens

A reference to an element is one token, whatever characters the name has: none of them stands
outside the square brackets, so no mark of either kind is among them. It stays this token in every
formula in which it is detached, with nothing but blanks between it and the next separator or the
end on either side. For a text can be divided where there is such a gap: its tokens are those of the
two parts (`tokens_append_of_blank_before`, `tokens_append_of_blank_behind`). The run around the
reference is then an operand in a chain of the tree (`within_of_mem_runs`). Main statement:
`operand_of_reference`.

A minus is no separator, so nothing is detached by one: `[A] - [B]` is a single token.
-/

namespace Scorecard

/-! ## Next to a mark -/

namespace Text

section

variable {isMark : Char → Bool}

/-- What a text is cut into, without the marks. -/
def Cut.pieces (k : Cut) : List (List Char) :=
  k.head :: k.tail.map Prod.snd

/-- What follows the last mark of a text outside brackets, and all of it if there is none. -/
def behindLast (isMark : Char → Bool) (s : List Char) : List Char :=
  match (cut isMark 0 s).tail.getLast? with
  | none => s
  | some (_, piece) => piece

/-- What comes before the first mark of a text outside brackets, and all of it if there is none. -/
def beforeFirst (isMark : Char → Bool) (s : List Char) : List Char :=
  (cut isMark 0 s).head

theorem cut_append_of_unmarked {depth : Nat} {s : List Char} (h : Unmarked isMark depth s)
    (t : List Char) :
    cut isMark depth (s ++ t) =
      ⟨s ++ (cut isMark (depthAfter depth s) t).head,
        (cut isMark (depthAfter depth s) t).tail⟩ := by
  induction s generalizing depth with
  | nil => rfl
  | cons c s ih =>
    obtain ⟨hc, hs⟩ := unmarked_cons_iff.1 h
    rw [List.cons_append, cut_cons_push hc, ih hs]
    rfl

theorem beforeFirst_append_of_unmarked {s : List Char} (h : Unmarked isMark 0 s)
    (hdepth : depthAfter 0 s = 0) (t : List Char) :
    beforeFirst isMark (s ++ t) = s ++ beforeFirst isMark t := by
  unfold beforeFirst
  rw [cut_append_of_unmarked h, hdepth]

theorem beforeFirst_append_mark (hfree : BracketFree isMark) {s : List Char}
    (hdepth : depthAfter 0 s = 0) {c : Char} (hmark : isMark c = true) (t : List Char) :
    beforeFirst isMark (s ++ c :: t) = beforeFirst isMark s := by
  unfold beforeFirst
  rw [cut_append_mark hfree hdepth hmark]

theorem behindLast_of_unmarked {s : List Char} (h : Unmarked isMark 0 s) :
    behindLast isMark s = s := by
  unfold behindLast
  rw [cut_of_unmarked h]
  rfl

theorem behindLast_append_mark (hfree : BracketFree isMark) {s : List Char}
    (hdepth : depthAfter 0 s = 0) {c : Char} (hmark : isMark c = true) (t : List Char) :
    behindLast isMark (s ++ c :: t) = behindLast isMark t := by
  unfold behindLast
  rw [cut_append_mark hfree hdepth hmark, List.getLast?_append, List.getLast?_cons]
  cases hlast : (cut isMark 0 t).tail.getLast? with
  | some pair => simp
  | none =>
    rw [List.getLast?_eq_none_iff] at hlast
    have hjoin := join_cut isMark 0 t
    rw [Cut.join, hlast] at hjoin
    simpa using hjoin

/-- A text has no mark outside brackets, or what comes before the first one has none. -/
theorem beforeFirst_cases (hfree : BracketFree isMark) (s : List Char) :
    (Unmarked isMark 0 s ∧ beforeFirst isMark s = s) ∨
      ∃ c rest, s = beforeFirst isMark s ++ c :: rest ∧
        depthAfter 0 (beforeFirst isMark s) = 0 ∧ isMark c = true := by
  have hpieces := pieces_cut hfree 0 s
  have hjoin := join_cut isMark 0 s
  unfold beforeFirst
  generalize cut isMark 0 s = k at hpieces hjoin
  obtain ⟨head, _ | ⟨⟨c, piece⟩, rest⟩⟩ := k
  · rw [Cut.join_nil] at hjoin
    exact .inl ⟨hjoin ▸ hpieces, hjoin⟩
  · obtain ⟨_, hdepth, hmark, _⟩ := hpieces
    rw [Cut.join_cons] at hjoin
    exact .inr ⟨c, Cut.join ⟨piece, rest⟩, hjoin.symm, hdepth, hmark⟩

/-- A text has no mark outside brackets, or it divides at its last one. -/
theorem behindLast_cases (hfree : BracketFree isMark) (s : List Char) :
    (Unmarked isMark 0 s ∧ behindLast isMark s = s) ∨
      ∃ before c last, s = before ++ c :: last ∧ depthAfter 0 before = 0 ∧ isMark c = true ∧
        Unmarked isMark 0 last ∧ behindLast isMark s = last := by
  have hpieces := pieces_cut hfree 0 s
  rw [← join_cut isMark 0 s]
  generalize cut isMark 0 s = k at hpieces
  obtain ⟨head, tail⟩ := k
  induction tail generalizing head with
  | nil =>
    rw [Cut.join_nil]
    exact .inl ⟨hpieces, behindLast_of_unmarked hpieces⟩
  | cons pair rest ih =>
    obtain ⟨c, piece⟩ := pair
    obtain ⟨_, hdepth, hmark, hrest⟩ := hpieces
    rw [Cut.join_cons, behindLast_append_mark hfree hdepth hmark]
    rcases ih piece hrest with ⟨hunmarked, hbehind⟩ | ⟨before, d, last, hs, hbefore, hd, hlast⟩
    · exact .inr ⟨head, c, _, rfl, hdepth, hmark, hunmarked, hbehind⟩
    · refine .inr ⟨head ++ c :: before, d, last, by rw [hs]; simp, ?_, hd, hlast⟩
      rw [depthAfter_append, hdepth, depthAfter_cons, hfree c 0 hmark, hbefore]

/-- A text without a mark between two others is one piece with what stands next to it. -/
theorem mem_pieces_append (hfree : BracketFree isMark) {front middle : List Char}
    (hfront : depthAfter 0 (behindLast isMark front) = 0) (hmiddle : Unmarked isMark 0 middle)
    (hdepth : depthAfter 0 middle = 0) (back : List Char) :
    behindLast isMark front ++ (middle ++ beforeFirst isMark back) ∈
      (cut isMark 0 (front ++ (middle ++ back))).pieces := by
  have hpiece (last : List Char) (hlast : Unmarked isMark 0 last) (hend : depthAfter 0 last = 0) :
      (cut isMark 0 (last ++ (middle ++ back))).head =
        last ++ (middle ++ beforeFirst isMark back) := by
    have happend := beforeFirst_append_of_unmarked hlast hend (middle ++ back)
    rwa [beforeFirst_append_of_unmarked hmiddle hdepth] at happend
  unfold Cut.pieces
  rcases behindLast_cases hfree front with
    ⟨hunmarked, hbehind⟩ | ⟨before, c, last, hsplit, hbefore, hmark, hlast, hbehind⟩
  · rw [hbehind] at hfront
    rw [hbehind, hpiece front hunmarked hfront]
    exact List.mem_cons_self
  · rw [hbehind] at hfront
    rw [hbehind, hsplit, List.append_assoc, List.cons_append,
      cut_append_mark hfree hbefore hmark, hpiece last hlast hfront]
    simp

end

/-- Within brackets no mark counts. -/
theorem unmarked_of_bracketless (isMark : Char → Bool) {depth : Nat} (hdepth : 0 < depth)
    {s : List Char} (h : Bracketless s) : Unmarked isMark depth s := by
  induction s with
  | nil => exact unmarked_nil isMark depth
  | cons c s ih =>
    obtain ⟨⟨hopen, hclose⟩, hs⟩ := bracketless_cons_iff.1 h
    refine unmarked_cons_iff.2 ⟨?_, ?_⟩
    · have hne : depth ≠ 0 := Nat.ne_of_gt hdepth
      simp [hne]
    · rw [bracketStep_eq_self hopen hclose]
      exact ih hs

end Text

namespace Formula

open Text Attempt Element

/-! ## Where the tokens of a text divide -/

theorem tokens_of_allBlank {gap : List Char} (h : AllBlank gap) : tokens gap = [] := by
  have hspaced : Spaced (tokens []) gap := .nil h
  exact tokens_of_spaced hspaced

/-- Behind a separator and blanks, a text starts anew. -/
theorem tokens_append_of_blank_behind {s : List Char} (h : AllBlank (behindLast isSeparator s))
    (t : List Char) : tokens (s ++ t) = tokens s ++ tokens t := by
  have hblank {gap : List Char} (hgap : AllBlank gap) : tokens (gap ++ t) = tokens t :=
    tokens_of_spaced ((spaced_tokens t).blank_append hgap)
  rcases behindLast_cases bracketFree_isSeparator s with
    ⟨_, hbehind⟩ | ⟨before, c, last, hsplit, hdepth, hmark, _, hbehind⟩
  · rw [hbehind] at h
    rw [hblank h, tokens_of_allBlank h, List.nil_append]
  · rw [hbehind] at h
    rw [hsplit, List.append_assoc, List.cons_append, tokens_append_separator hdepth hmark,
      hblank h, tokens_append_separator hdepth hmark, tokens_of_allBlank h, List.append_assoc]
    rfl

/-- In front of blanks and a separator, a text that is outside brackets ends. -/
theorem tokens_append_of_blank_before {s t : List Char} (hdepth : depthAfter 0 s = 0)
    (h : AllBlank (beforeFirst isSeparator t)) : tokens (s ++ t) = tokens s ++ tokens t := by
  have hblank {gap : List Char} (hgap : AllBlank gap) : tokens (s ++ gap) = tokens s :=
    tokens_of_spaced ((spaced_tokens s).append_blank hgap)
  rcases beforeFirst_cases bracketFree_isSeparator t with
    ⟨_, hbefore⟩ | ⟨c, rest, hsplit, hend, hmark⟩
  · rw [hbefore] at h
    rw [hblank h, tokens_of_allBlank h, List.append_nil]
  · have hgap : depthAfter 0 (s ++ beforeFirst isSeparator t) = 0 := by
      rw [depthAfter_append, hdepth, hend]
    rw [hsplit, ← List.append_assoc, tokens_append_separator hgap hmark, hblank h,
      tokens_append_separator hend hmark, tokens_of_allBlank h, List.nil_append]

/-- What stands between two texts has nothing but blanks between it and the nearest separators, or
the ends. -/
structure Detached (front back : List Char) : Prop where
  front : AllBlank (behindLast isSeparator front)
  back : AllBlank (beforeFirst isSeparator back)

variable {front back : List Char}

theorem Detached.depthAfter (h : Detached front back) : depthAfter 0 front = 0 := by
  rcases behindLast_cases bracketFree_isSeparator front with
    ⟨_, hbehind⟩ | ⟨before, c, last, hsplit, hdepth, hmark, _, hbehind⟩
  · exact depthAfter_blanks (hbehind ▸ h.front) 0
  · rw [hsplit, depthAfter_append, hdepth, depthAfter_cons, bracketFree_isSeparator c 0 hmark]
    exact depthAfter_blanks (hbehind ▸ h.front) 0

theorem Detached.tokens (h : Detached front back) {middle : List Char}
    (hdepth : Text.depthAfter 0 middle = 0) :
    tokens (front ++ (middle ++ back)) = tokens front ++ (tokens middle ++ tokens back) := by
  rw [tokens_append_of_blank_behind h.front, tokens_append_of_blank_before hdepth h.back]

/-- What is detached is so within its run: a parenthesis is a separator. -/
theorem Detached.run (h : Detached front back) :
    Detached (behindLast isParenthesis front) (beforeFirst isParenthesis back) where
  front := by
    rcases behindLast_cases bracketFree_isParenthesis front with
      ⟨_, hbehind⟩ | ⟨before, c, last, hsplit, hdepth, hmark, _, hbehind⟩
    · rw [hbehind]
      exact h.front
    · have hfront := h.front
      rw [hsplit, behindLast_append_mark bracketFree_isSeparator hdepth
        (isSeparator_of_isParenthesis hmark)] at hfront
      rwa [hbehind]
  back := by
    rcases beforeFirst_cases bracketFree_isParenthesis back with
      ⟨_, hbefore⟩ | ⟨c, rest, hsplit, hdepth, hmark⟩
    · rw [hbefore]
      exact h.back
    · have hback := h.back
      rwa [hsplit, beforeFirst_append_mark bracketFree_isSeparator hdepth
        (isSeparator_of_isParenthesis hmark)] at hback

/-! ## References -/

/-- A name in square brackets. -/
def reference (name : String) : String :=
  "[" ++ name ++ "]"

theorem toList_reference (name : String) :
    (reference name).toList = '[' :: (name.toList ++ [']']) := by
  simp [reference]

section

variable {name : String}

/-- A name has no mark outside the brackets of its reference. -/
theorem unmarked_reference {isMark : Char → Bool} (hfree : BracketFree isMark)
    (h : isReferable name = true) : Unmarked isMark 0 (reference name).toList := by
  have hname := bracketless_of_isReferable h
  have hbracket : isMark '[' = false := by
    rw [← Bool.not_eq_true]
    intro hmark
    exact absurd (hfree '[' 0 hmark) (by decide)
  rw [toList_reference, unmarked_cons_iff, unmarked_append_iff]
  refine ⟨by simp [hbracket], unmarked_of_bracketless isMark Nat.zero_lt_one hname, ?_⟩
  rw [show bracketStep 0 '[' = 1 from rfl, hname.depthAfter, unmarked_cons_iff]
  exact ⟨rfl, unmarked_nil isMark _⟩

/-- A reference ends outside brackets. -/
theorem depthAfter_toList_reference (h : isReferable name = true) :
    depthAfter 0 (reference name).toList = 0 :=
  depthAfter_reference h

theorem trimmed_reference (name : String) : Trimmed (reference name).toList := by
  rw [toList_reference]
  constructor
  · intro c hc
    cases hc
    decide
  · intro c hc
    rw [← List.cons_append, List.getLast?_concat] at hc
    cases hc
    decide

theorem tokens_reference (h : isReferable name = true) :
    tokens (reference name).toList = [(reference name).toList] := by
  have htrim : trim (reference name).toList = (reference name).toList := by
    simpa using trim_append allBlank_nil (trimmed_reference name) allBlank_nil
  rw [tokens_of_unmarked (unmarked_reference bracketFree_isSeparator h), word, htrim,
    toList_reference]

variable {catalog : List Element} {element : Element}

/-- A reference stands for the element of its name in the catalog. -/
theorem classify_toList_reference (hfind : find? catalog name = some element) :
    classify catalog (reference name).toList = .ok element := by
  rw [toList_reference, classify_reference, String.ofList_toList, hfind]

end

/-! ## Runs as chains of the tree -/

section

variable {catalog : List Element} {text : List Char}

mutual

theorem within_of_mem_write (htext : tokens text ≠ []) : (item : Nesting) →
    {children : List Element} → Fragment.elements catalog item.fragment = .ok children →
    text ∈ item.write (fun run => [run]) (fun _ => []) →
    ∃ row, classifyAll catalog (tokens text) = .ok row ∧
      ∃ child ∈ children, Within (chain row).toElement child
  | .run other, children, h, hmem => by
    rw [Nesting.write_run, List.mem_singleton] at hmem
    subst hmem
    rw [Nesting.fragment] at h
    cases htokens : tokens text with
    | nil => exact absurd htokens htext
    | cons token rest =>
      simp only [htokens] at h
      rw [elements_singleton, Fragment.calculation] at h
      obtain ⟨calculation, hcalculation, hchildren⟩ := bind_eq_ok_iff.1 h
      obtain ⟨row, hrow, hchain⟩ := bind_eq_ok_iff.1 hcalculation
      cases hchain
      cases hchildren
      exact ⟨row, hrow, _, List.mem_singleton_self _, .here⟩
  | .group contents, children, h, hmem => by
    rw [Nesting.fragment, elements_singleton, Fragment.calculation] at h
    obtain ⟨calculation, hcalculation, hchildren⟩ := bind_eq_ok_iff.1 h
    obtain ⟨inner, hinner, hsum⟩ := bind_eq_ok_iff.1 hcalculation
    cases hsum
    cases hchildren
    have hruns : text ∈ Nesting.runs contents := by simpa [Nesting.runs] using hmem
    obtain ⟨row, hrow, child, hchild, hwithin⟩ := within_of_mem_runs htext contents hinner hruns
    exact ⟨row, hrow, _, List.mem_singleton_self _, .deeper hchild hwithin⟩

/-- The chain of each run that is not blank stands in the tree of the formula. -/
theorem within_of_mem_runs (htext : tokens text ≠ []) : (items : List Nesting) →
    {children : List Element} →
    Fragment.elements catalog (Nesting.fragments items) = .ok children →
    text ∈ Nesting.runs items →
    ∃ row, classifyAll catalog (tokens text) = .ok row ∧
      ∃ child ∈ children, Within (chain row).toElement child
  | [], _, _, hmem => by simp [Nesting.runs] at hmem
  | item :: rest, children, h, hmem => by
    rw [Nesting.fragments, elements_append] at h
    obtain ⟨first, hfirst, hmore⟩ := bind_eq_ok_iff.1 h
    obtain ⟨others, hothers, hchildren⟩ := bind_eq_ok_iff.1 hmore
    cases hchildren
    rw [Nesting.runs, Nesting.writeAll_cons, List.mem_append] at hmem
    rcases hmem with hmem | hmem
    · obtain ⟨row, hrow, child, hchild, hwithin⟩ := within_of_mem_write htext item hfirst hmem
      exact ⟨row, hrow, child, List.mem_append_left _ hchild, hwithin⟩
    · obtain ⟨row, hrow, child, hchild, hwithin⟩ := within_of_mem_runs htext rest hothers hmem
      exact ⟨row, hrow, child, List.mem_append_right _ hchild, hwithin⟩

end

theorem runs_of_nest {formula : List Char} {items : List Nesting} (h : nest formula = .ok items) :
    Nesting.runs items = (cut isParenthesis 0 formula).pieces := by
  rw [Nesting.runs, writeAll_of_nest _ _ h, writePieces, Cut.pieces, List.map_eq_flatMap]
  rfl

end

/-! ## A reference in a formula -/

section

variable {catalog : List Element} {name : String} {element : Element}

theorem chain_singleton (h : element.isLookup = true) : chain [element] = .of .add [element] := by
  cases element with
  | constant name value => cases h
  | banded name bands fallback => rfl
  | bounded name lower upper => rfl
  | node name operation children => cases h

theorem nest_of_unmarked {formula : List Char} (h : Unmarked isParenthesis 0 formula) :
    nest formula = .ok [.run formula] := by
  rw [nest, cut_of_unmarked h]
  rfl

theorem parse_reference (hname : isReferable name = true) (hlookup : element.isLookup = true)
    (hfind : find? catalog name = some element) :
    parse catalog (reference name) =
      .ok (.of .add [(Calculation.of .add [element]).toElement]) := by
  have hnest := nest_of_unmarked (unmarked_reference bracketFree_isParenthesis hname)
  have hfragments : Nesting.fragments [.run (reference name).toList] =
      [.run (reference name).toList [(reference name).toList]] := by
    rw [Nesting.fragments, Nesting.fragment, tokens_reference hname, Nesting.fragments]
    rfl
  have hrow : classifyAll catalog [(reference name).toList] = .ok [element] := by
    rw [classifyAll, List.mapM_cons, classify_toList_reference hfind]
    rfl
  refine parse_eq_ok_iff.2 ⟨_, _, hnest, ?_, rfl⟩
  rw [hfragments, elements_singleton, Fragment.calculation, hrow, ← chain_singleton hlookup]
  rfl

/-- A token stands for the same element wherever it stands. -/
theorem exists_of_classifyAll_append {before after : List (List Char)} {token : List Char}
    {elements : List Element} (htoken : classify catalog token = .ok element)
    (h : classifyAll catalog (before ++ token :: after) = .ok elements) :
    ∃ row more, classifyAll catalog before = .ok row ∧ classifyAll catalog after = .ok more ∧
      elements = row ++ element :: more := by
  rw [classifyAll, List.mapM_append] at h
  obtain ⟨row, hrow, hrest⟩ := bind_eq_ok_iff.1 h
  obtain ⟨others, hothers, helements⟩ := bind_eq_ok_iff.1 hrest
  rw [List.mapM_cons] at hothers
  obtain ⟨first, hfirst, hothers⟩ := bind_eq_ok_iff.1 hothers
  obtain ⟨more, hmore, hcons⟩ := bind_eq_ok_iff.1 hothers
  cases htoken.symm.trans hfirst
  cases hcons
  cases helements
  exact ⟨row, more, hrow, hmore, rfl⟩

/-- The tokens of a formula around a reference that is detached. -/
theorem tokens_insert_reference (h : Detached front back) (hname : isReferable name = true) :
    tokens (front ++ ((reference name).toList ++ back)) =
      tokens front ++ (reference name).toList :: tokens back := by
  rw [h.tokens (depthAfter_toList_reference hname), tokens_reference hname]
  rfl

/-- The brackets of a reference keep its parentheses from counting. -/
theorem outerParentheses_insert_reference (h : Detached front back)
    (hname : isReferable name = true) :
    outerParentheses (front ++ ((reference name).toList ++ back)) =
      outerParentheses front ++ outerParentheses back := by
  have hnone : outerMarks isParenthesis 0 (reference name).toList = [] :=
    unmarked_reference bracketFree_isParenthesis hname
  unfold outerParentheses
  rw [outerMarks_append, h.depthAfter, outerMarks_append, hnone, depthAfter_toList_reference hname,
    List.nil_append]

/-- Where a reference is detached, its element is an operand between the elements of the run around
it, in the chain of that run. -/
theorem within_insert_reference {before after : String} {root : Calculation}
    (h : Detached before.toList after.toList) (hname : isReferable name = true)
    (hfind : find? catalog name = some element)
    (hroot : parse catalog (before ++ reference name ++ after) = .ok root) :
    ∃ row more,
      classifyAll catalog (tokens (behindLast isParenthesis before.toList)) = .ok row ∧
      classifyAll catalog (tokens (beforeFirst isParenthesis after.toList)) = .ok more ∧
      Within (chain (row ++ element :: more)).toElement root.toElement := by
  obtain ⟨items, children, hitems, hchildren, rfl⟩ := parse_eq_ok_iff.1 hroot
  have hrun := tokens_insert_reference h.run hname
  have hmem : behindLast isParenthesis before.toList ++
      ((reference name).toList ++ beforeFirst isParenthesis after.toList) ∈ Nesting.runs items := by
    rw [runs_of_nest hitems, String.toList_append, String.toList_append, List.append_assoc]
    exact mem_pieces_append bracketFree_isParenthesis h.run.depthAfter
      (unmarked_reference bracketFree_isParenthesis hname) (depthAfter_toList_reference hname) _
  obtain ⟨elements, helements, child, hchild, hwithin⟩ :=
    within_of_mem_runs (by simp [hrun]) items hchildren hmem
  rw [hrun] at helements
  obtain ⟨row, more, hrow, hmore, rfl⟩ :=
    exists_of_classifyAll_append (classify_toList_reference hfind) helements
  exact ⟨row, more, hrow, hmore, .deeper hchild hwithin⟩

/-- The element of a detached reference is looked up between what the two sides refer to. -/
theorem lookups_insert_reference (hcatalog : LookupsOnly catalog) {before after : String}
    {root : Calculation} (h : Detached before.toList after.toList)
    (hname : isReferable name = true) (hfind : find? catalog name = some element)
    (hroot : parse catalog (before ++ reference name ++ after) = .ok root) :
    ∃ first last, root.lookups = first ++ element :: last ∧
      first.map Element.name = (tokenize before).filterMap referenceName? ∧
      last.map Element.name = (tokenize after).filterMap referenceName? := by
  rcases parse_cases catalog (before ++ reference name ++ after) with
    ⟨_, position, hposition⟩ | ⟨_, hfate⟩
  · rw [hposition] at hroot
    cases hroot
  obtain ⟨elements, helements, hlookups⟩ := hfate.ok_left hroot
  have hproper : isProper (reference name).toList = true := by
    simp [isProper, toList_reference]
  rw [String.toList_append, String.toList_append, List.append_assoc,
    tokens_insert_reference h hname, List.filter_append, List.filter_cons_of_pos hproper]
    at helements
  obtain ⟨row, more, hrow, hmore, rfl⟩ :=
    exists_of_classifyAll_append (classify_toList_reference hfind) helements
  have hnames {list : List (List Char)} {made : List Element}
      (hmade : classifyAll catalog (list.filter isProper) = .ok made) :
      (lookupsAll made).map Element.name =
        (list.map String.ofList).filterMap referenceName? := by
    rw [names_of_classifyAll hcatalog hmade, filterMap_filter_isProper]
  refine ⟨lookupsAll row, lookupsAll more, ?_, hnames hrow, hnames hmore⟩
  have hself := lookups_of_isLookup (hcatalog element (List.mem_of_find?_eq_some hfind))
  rw [hlookups, lookupsAll_append, lookupsAll_cons, hself]
  rfl

end

/-- In the catalog of some definitions, the element of each name is what its definition makes of
it, and the name in square brackets refers to it. The reference is one token, and as a formula it is
the sum of that element alone. Between two texts from which it is detached it is one token as well.
Such a formula parses exactly if the parentheses of the two texts are balanced one after the other
and their tokens pass. Its tree then has the chain of the run around the reference, with the element
as an operand there, and looks the element up between what the two texts refer to. -/
theorem operand_of_reference {definitions : NameMap Definition} {catalog : List Element}
    {name : String} {definition : Definition} (hcatalog : catalogOf definitions = .ok catalog)
    (hname : definitions.get? name = some definition) :
    ∃ element ∈ catalog, definition.element name = .ok element ∧
      tokenize (reference name) = [reference name] ∧
      parse catalog (reference name) =
        .ok (.of .add [(Calculation.of .add [element]).toElement]) ∧
      ∀ front back : String, Detached front.toList back.toList →
        tokenize (front ++ reference name ++ back) =
          tokenize front ++ reference name :: tokenize back ∧
        ((∃ root, parse catalog (front ++ reference name ++ back) = .ok root) ↔
          Balanced (outerParentheses front.toList ++ outerParentheses back.toList) ∧
            ∀ token ∈ tokenize front ++ tokenize back, Passes catalog token) ∧
        ∀ root, parse catalog (front ++ reference name ++ back) = .ok root →
          (∃ row more,
            classifyAll catalog (tokens (behindLast isParenthesis front.toList)) = .ok row ∧
            classifyAll catalog (tokens (beforeFirst isParenthesis back.toList)) = .ok more ∧
            Within (chain (row ++ element :: more)).toElement root.toElement) ∧
          ∃ first last, root.lookups = first ++ element :: last ∧
            first.map Element.name = (tokenize front).filterMap referenceName? ∧
            last.map Element.name = (tokenize back).filterMap referenceName? := by
  obtain ⟨element, hmem, helement⟩ :=
    exists_mem_mapM hcatalog (definitions.get?_eq_some_iff.1 hname)
  obtain ⟨hlookup, rfl⟩ := isLookup_and_name_of_element helement
  have hreferable := isReferable_of_element helement
  have hfind := find?_of_mem (pairwise_name_of_catalogOf hcatalog) hmem
  have htokens : tokenize (reference element.name) = [reference element.name] := by
    rw [tokenize, tokens_reference hreferable, List.map_singleton, String.ofList_toList]
  refine ⟨element, hmem, helement, htokens, parse_reference hreferable hlookup hfind,
    fun front back h => ?_⟩
  have htext : (front ++ reference element.name ++ back).toList =
      front.toList ++ ((reference element.name).toList ++ back.toList) := by simp
  have hinsert : tokenize (front ++ reference element.name ++ back) =
      tokenize front ++ reference element.name :: tokenize back := by
    rw [tokenize, htext, tokens_insert_reference h hreferable, List.map_append, List.map_cons,
      String.ofList_toList]
    rfl
  refine ⟨hinsert, ?_, fun root hroot => ⟨within_insert_reference h hreferable hfind hroot,
    lookups_insert_reference (lookupsOnly_of_catalogOf hcatalog) h hreferable hfind hroot⟩⟩
  rw [exists_parse_eq_ok_iff, htext, outerParentheses_insert_reference h hreferable, hinsert]
  refine and_congr_right fun _ => ?_
  have hpasses : Passes catalog (reference element.name) :=
    passes_reference_iff.2 (by simp [hfind])
  simp only [List.forall_mem_append, List.forall_mem_cons]
  simp [hpasses]

/-- A name with an operator, parentheses, a colon and blanks at the ends. -/
theorem operand_of_reference_of_marks :
    let element := bounded " a * (b): " (some 0) (some 1)
    catalogOf (.ofList [(" a * (b): ", .range [0, 1])]) = .ok [element] ∧
      Detached "2 * (3 + ".toList ") ^ -1".toList ∧
      tokenize "2 * (3 + [ a * (b): ]) ^ -1" =
        ["2", "*", "(", "3", "+", "[ a * (b): ]", ")", "^", "-1"] ∧
      ∃ root, parse [element] "2 * (3 + [ a * (b): ]) ^ -1" = .ok root ∧
        Within (Calculation.of .add [.constant "3" 3, element]).toElement root.toElement := by
  intro element
  have hcatalog : catalogOf (.ofList [(" a * (b): ", .range [0, 1])]) = .ok [element] := rfl
  have hfront : (behindLast isSeparator "2 * (3 + ".toList).all isBlank = true := by decide
  have hback : (beforeFirst isSeparator ") ^ -1".toList).all isBlank = true := by decide
  have hdetached : Detached "2 * (3 + ".toList ") ^ -1".toList :=
    ⟨List.all_eq_true.1 hfront, List.all_eq_true.1 hback⟩
  have hname : (NameMap.ofList [(" a * (b): ", Definition.range [0, 1])]).get? " a * (b): " =
      some (.range [0, 1]) := rfl
  obtain ⟨other, hmem, _, _, _, hformulas⟩ := operand_of_reference hcatalog hname
  obtain rfl : other = element := List.mem_singleton.1 hmem
  obtain ⟨htokens, hparses, hroots⟩ := hformulas "2 * (3 + " ") ^ -1" hdetached
  have hsome : (parse [element] "2 * (3 + [ a * (b): ]) ^ -1").toOption.isSome = true := by
    decide +kernel
  obtain ⟨root, hroot⟩ := Option.isSome_iff_exists.1 hsome
  have hroot := eq_ok_of_toOption hroot
  obtain ⟨⟨row, more, hrow, hmore, hwithin⟩, _⟩ := hroots root hroot
  have hthree : classifyAll [element] (tokens (behindLast isParenthesis "2 * (3 + ".toList)) =
      .ok [.constant "3" 3, .node "+" .add []] := rfl
  cases hthree.symm.trans hrow
  cases hmore
  exact ⟨hcatalog, hdetached, htokens, root, hroot, hwithin⟩

/-- Between two references a minus is no operator: nothing is detached by it. -/
theorem parse_minus_between_references :
    let catalog := [bounded "A" (some 0) (some 1), bounded "B" (some 0) (some 1)]
    catalogOf (.ofList [("A", .range [0, 1]), ("B", .range [0, 1])]) = .ok catalog ∧
      Operation.ofSymbol? "-" = some .subtract ∧
      tokenize "[A] - [B]" = ["[A] - [B]"] ∧
      parse catalog "[A] - [B]" = .error (.unknownElement "A] - [B") := by
  intro catalog
  exact ⟨rfl, by decide, by decide, rfl⟩

end Formula

end Scorecard
