import Scorecard.Proofs.Tokens

/-!
# Balanced parentheses

The parentheses of a formula nest it exactly if they are balanced: no beginning of the formula
closes more of them than it opens, and the whole closes as many as it opens
(`exists_nest_eq_ok_iff`, `nest_of_not_balanced`). The tree of a nested formula can be written out
again run by run and parenthesis by parenthesis. Written in characters it is the formula itself
(`sourceAll_of_nest`), written in tokens it gives the tokens of the formula
(`writeAll_tokens_of_nest`).
-/

namespace Scorecard.Formula

open Text

/-! ## Balance -/

/-- Parentheses that close as many as they and `opened` earlier ones open, and at no point more. -/
def BalancedFrom (opened : Nat) (marks : List Char) : Prop :=
  (∀ before after, marks = before ++ after → before.count ')' ≤ opened + before.count '(') ∧
    marks.count ')' = opened + marks.count '('

/-- Parentheses of which none lacks a partner. -/
def Balanced (marks : List Char) : Prop :=
  BalancedFrom 0 marks

/-- The parentheses of a formula outside square brackets, in their order. -/
def outerParentheses (formula : List Char) : List Char :=
  outerMarks isParenthesis 0 formula

theorem balancedFrom_nil_iff {opened : Nat} : BalancedFrom opened [] ↔ opened = 0 := by
  constructor
  · intro ⟨_, h⟩
    simpa using h.symm
  · intro heq
    subst heq
    refine ⟨fun before after h => ?_, rfl⟩
    obtain ⟨rfl, rfl⟩ := List.append_eq_nil_iff.1 h.symm
    simp

theorem balancedFrom_open_iff {opened : Nat} {marks : List Char} :
    BalancedFrom opened ('(' :: marks) ↔ BalancedFrom (opened + 1) marks := by
  constructor
  · intro ⟨hbefore, hall⟩
    refine ⟨fun before after h => ?_, ?_⟩
    · have hle := hbefore ('(' :: before) after (by rw [h, List.cons_append])
      simp only [List.count_cons, beq_iff_eq] at hle
      simp at hle
      omega
    · simp at hall
      omega
  · intro ⟨hbefore, hall⟩
    refine ⟨fun before after h => ?_, ?_⟩
    · cases before with
      | nil => simp
      | cons c before =>
        simp only [List.cons_append, List.cons.injEq] at h
        obtain ⟨rfl, rfl⟩ := h
        have hle := hbefore before after rfl
        simp
        omega
    · simp
      omega

theorem balancedFrom_close_iff {opened : Nat} {marks : List Char} :
    BalancedFrom opened (')' :: marks) ↔ 0 < opened ∧ BalancedFrom (opened - 1) marks := by
  constructor
  · intro ⟨hbefore, hall⟩
    have hopened := hbefore [')'] marks rfl
    simp at hopened
    refine ⟨hopened, fun before after h => ?_, ?_⟩
    · have hle := hbefore (')' :: before) after (by rw [h, List.cons_append])
      simp at hle
      omega
    · simp at hall
      omega
  · intro ⟨hopened, hbefore, hall⟩
    refine ⟨fun before after h => ?_, ?_⟩
    · cases before with
      | nil => simp
      | cons c before =>
        simp only [List.cons_append, List.cons.injEq] at h
        obtain ⟨rfl, rfl⟩ := h
        have hle := hbefore before after rfl
        simp
        omega
    · simp
      omega

/-! ## When a formula nests -/

/-- All marks of a cut are parentheses. -/
def Parenthesized (tail : List (Char × List Char)) : Prop :=
  ∀ pair ∈ tail, isParenthesis pair.1 = true

theorem eq_of_isParenthesis {c : Char} (h : isParenthesis c = true) : c = '(' ∨ c = ')' := by
  simpa [isParenthesis] using h

theorem parenthesized_of_pieces {depth : Nat} {head : List Char} {tail : List (Char × List Char)}
    (h : Pieces isParenthesis depth head tail) : Parenthesized tail := by
  induction tail generalizing depth head with
  | nil => simp [Parenthesized]
  | cons pair rest ih =>
    obtain ⟨_, _, hmark, hrest⟩ := h
    intro other hother
    rcases List.mem_cons.1 hother with rfl | hother
    · exact hmark
    · exact ih hrest other hother

section

variable {position : Nat} {done : List Nesting} {outer : List OpenGroup} {piece : List Char}
  {rest : List (Char × List Char)}

theorem nestFrom_open :
    nestFrom position done outer (('(', piece) :: rest) =
      nestFrom (position + '('.utf8Size + byteLength piece) [.run piece]
        (⟨position, done⟩ :: outer) rest := by
  simp [nestFrom]

theorem nestFrom_close_nil :
    nestFrom position done [] ((')', piece) :: rest) =
      .error (.unbalancedParentheses position) := by
  simp [nestFrom]

theorem nestFrom_close_cons {group : OpenGroup} :
    nestFrom position done (group :: outer) ((')', piece) :: rest) =
      nestFrom (position + ')'.utf8Size + byteLength piece)
        (.run piece :: .group done.reverse :: group.before) outer rest := by
  rw [nestFrom]
  rfl

end

/-- What follows the open groups nests if it is balanced with them; otherwise a parenthesis has no
partner. -/
theorem nestFrom_outcome {tail : List (Char × List Char)} (htail : Parenthesized tail)
    (position : Nat) (done : List Nesting) (outer : List OpenGroup) :
    (BalancedFrom outer.length (tail.map Prod.fst) →
        ∃ items, nestFrom position done outer tail = .ok items) ∧
      (¬BalancedFrom outer.length (tail.map Prod.fst) →
        ∃ at', nestFrom position done outer tail = .error (.unbalancedParentheses at')) := by
  -- one open group for each parenthesis that is still open
  induction tail generalizing position done outer with
  | nil =>
    rw [List.map_nil, balancedFrom_nil_iff, List.length_eq_zero_iff, nestFrom]
    cases hlast : outer.getLast? with
    | none =>
      rw [List.getLast?_eq_none_iff] at hlast
      simp [hlast]
    | some group =>
      have hne : outer ≠ [] := by
        intro heq
        subst heq
        cases hlast
      simp [hne]
  | cons pair rest ih =>
    obtain ⟨c, piece⟩ := pair
    have hrest : Parenthesized rest :=
      fun other hother => htail other (List.mem_cons_of_mem _ hother)
    rw [List.map_cons]
    rcases eq_of_isParenthesis (htail (c, piece) List.mem_cons_self) with rfl | rfl
    · rw [balancedFrom_open_iff, nestFrom_open]
      exact ih hrest _ _ (⟨position, done⟩ :: outer)
    · rw [balancedFrom_close_iff]
      cases outer with
      | nil => simp [nestFrom_close_nil]
      | cons group outer =>
        rw [nestFrom_close_cons]
        simpa using ih hrest _ _ outer

theorem nest_outcome (formula : List Char) :
    (Balanced (outerParentheses formula) → ∃ items, nest formula = .ok items) ∧
      (¬Balanced (outerParentheses formula) →
        ∃ position, nest formula = .error (.unbalancedParentheses position)) := by
  have hpieces := pieces_cut bracketFree_isParenthesis 0 formula
  have h := nestFrom_outcome (parenthesized_of_pieces hpieces)
    (byteLength (cut isParenthesis 0 formula).head) [.run (cut isParenthesis 0 formula).head] []
  rw [map_fst_tail_cut] at h
  exact h

/-- A formula nests exactly if its parentheses are balanced. -/
theorem exists_nest_eq_ok_iff {formula : List Char} :
    (∃ items, nest formula = .ok items) ↔ Balanced (outerParentheses formula) := by
  refine ⟨fun ⟨items, hitems⟩ => ?_, (nest_outcome formula).1⟩
  by_cases h : Balanced (outerParentheses formula)
  · exact h
  · obtain ⟨position, herror⟩ := (nest_outcome formula).2 h
    rw [hitems] at herror
    cases herror

/-- Otherwise a parenthesis has no partner. -/
theorem nest_of_not_balanced {formula : List Char} (h : ¬Balanced (outerParentheses formula)) :
    ∃ position, nest formula = .error (.unbalancedParentheses position) :=
  (nest_outcome formula).2 h

/-! ## Writing a tree out -/

section

variable {β : Type} (run : List Char → List β) (mark : Char → List β)

namespace Nesting

mutual

/-- Writes a stretch out: its runs in one way, the parentheses around its groups in another. -/
def write : Nesting → List β
  | .run text => run text
  | .group contents => mark '(' ++ writeAll contents ++ mark ')'

/-- Writes several stretches one after the other. -/
def writeAll : List Nesting → List β
  | [] => []
  | item :: rest => item.write ++ writeAll rest

end

@[simp] theorem writeAll_nil : writeAll run mark [] = [] := by
  rw [writeAll]

@[simp] theorem writeAll_cons (item : Nesting) (rest : List Nesting) :
    writeAll run mark (item :: rest) = item.write run mark ++ writeAll run mark rest := by
  rw [writeAll]

@[simp] theorem write_run (text : List Char) : write run mark (.run text) = run text := by
  rw [write]

@[simp] theorem write_group (contents : List Nesting) :
    write run mark (.group contents) = mark '(' ++ writeAll run mark contents ++ mark ')' := by
  rw [write]

@[simp] theorem writeAll_append (items more : List Nesting) :
    writeAll run mark (items ++ more) = writeAll run mark items ++ writeAll run mark more := by
  induction items with
  | nil => simp
  | cons item items ih => simp [ih]

mutual

/-- The source of a stretch is its characters. -/
theorem sourceBefore_eq (after : List Char) : (item : Nesting) →
    item.sourceBefore after = item.write id (fun c => [c]) ++ after
  | .run text => by simp [sourceBefore]
  | .group contents => by simp [sourceBefore, sourceAllBefore_eq (')' :: after) contents]

theorem sourceAllBefore_eq (after : List Char) : (items : List Nesting) →
    sourceAllBefore after items = writeAll id (fun c => [c]) items ++ after
  | [] => by simp [sourceAllBefore]
  | item :: rest => by
    rw [sourceAllBefore, sourceBefore_eq _ item, sourceAllBefore_eq after rest]
    simp

end

theorem sourceAll_eq (items : List Nesting) :
    sourceAll items = writeAll id (fun c => [c]) items := by
  simp [sourceAll, sourceAllBefore_eq]

end Nesting

/-- What the open groups hold, written out. -/
def writeOpen : List OpenGroup → List β
  | [] => []
  | group :: outer => writeOpen outer ++ Nesting.writeAll run mark group.before.reverse ++ mark '('

/-- The pieces of a cut with their marks, written out. -/
def writePieces (tail : List (Char × List Char)) : List β :=
  tail.flatMap fun (c, piece) => mark c ++ run piece

theorem writeAll_of_nestFrom {tail : List (Char × List Char)} (htail : Parenthesized tail)
    {position : Nat} {done : List Nesting} {outer : List OpenGroup} {items : List Nesting}
    (h : nestFrom position done outer tail = .ok items) :
    Nesting.writeAll run mark items =
      writeOpen run mark outer ++ Nesting.writeAll run mark done.reverse ++
        writePieces run mark tail := by
  induction tail generalizing position done outer with
  | nil =>
    rw [nestFrom] at h
    cases hlast : outer.getLast? with
    | none =>
      rw [List.getLast?_eq_none_iff] at hlast
      subst hlast
      cases h
      simp [writeOpen, writePieces]
    | some group =>
      rw [hlast] at h
      cases h
  | cons pair rest ih =>
    obtain ⟨c, piece⟩ := pair
    have hrest : Parenthesized rest :=
      fun other hother => htail other (List.mem_cons_of_mem _ hother)
    rcases eq_of_isParenthesis (htail (c, piece) List.mem_cons_self) with rfl | rfl
    · rw [nestFrom_open] at h
      simp [ih hrest h, writeOpen, writePieces]
    · cases outer with
      | nil =>
        rw [nestFrom_close_nil] at h
        cases h
      | cons group outer =>
        rw [nestFrom_close_cons] at h
        simp [ih hrest h, writeOpen, writePieces]

/-- The tree of a formula, written out, is the formula's pieces with their parentheses. -/
theorem writeAll_of_nest {formula : List Char} {items : List Nesting}
    (h : nest formula = .ok items) :
    Nesting.writeAll run mark items =
      run (cut isParenthesis 0 formula).head ++
        writePieces run mark (cut isParenthesis 0 formula).tail := by
  have hpieces := pieces_cut bracketFree_isParenthesis 0 formula
  have hwrite := writeAll_of_nestFrom run mark (parenthesized_of_pieces hpieces) h
  simpa [writeOpen] using hwrite

end

/-- Nothing of a formula is lost in its tree. -/
theorem sourceAll_of_nest {formula : List Char} {items : List Nesting}
    (h : nest formula = .ok items) : Nesting.sourceAll items = formula := by
  rw [Nesting.sourceAll_eq, writeAll_of_nest id _ h]
  exact join_cut isParenthesis 0 formula

/-- The tokens of the runs of a tree and its parentheses are the tokens of the formula. -/
theorem writeAll_tokens_of_nest {formula : List Char} {items : List Nesting}
    (h : nest formula = .ok items) :
    Nesting.writeAll tokens (fun c => [[c]]) items = tokens formula := by
  have hpieces := pieces_cut bracketFree_isParenthesis 0 formula
  have hjoin := tokens_join hpieces
  rw [show Cut.join ⟨_, _⟩ = formula from join_cut isParenthesis 0 formula] at hjoin
  rw [writeAll_of_nest tokens _ h, hjoin]
  rfl

/-- The runs of a tree have no parentheses outside brackets. -/
theorem unmarked_of_mem_runs {formula : List Char} {items : List Nesting}
    (h : nest formula = .ok items) :
    ∀ run ∈ Nesting.writeAll (fun text => [text]) (fun _ => []) items,
      Unmarked isParenthesis 0 run := by
  have hpieces := pieces_cut bracketFree_isParenthesis 0 formula
  rw [writeAll_of_nest _ _ h]
  generalize cut isParenthesis 0 formula = k at hpieces
  obtain ⟨head, tail⟩ := k
  induction tail generalizing head with
  | nil =>
    intro run hrun
    rcases List.mem_singleton.1 (by simpa [writePieces] using hrun) with rfl
    exact hpieces
  | cons pair rest ih =>
    obtain ⟨c, piece⟩ := pair
    obtain ⟨hhead, _, _, hrest⟩ := hpieces
    intro run hrun
    simp only [writePieces, List.flatMap_cons, List.nil_append, List.singleton_append,
      List.mem_cons] at hrun ih
    rcases hrun with rfl | hrun
    · exact hhead
    · exact ih piece hrest run hrun

end Scorecard.Formula
