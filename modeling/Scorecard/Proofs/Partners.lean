import Scorecard.Proofs.Parentheses

/-!
# Parentheses and their partners

Two parentheses of a formula are partners if those between them close each other. Where a
parenthesis is open, the text that closes it has its partner (`exists_close_behind`), and where one
may be closed, the text before it has its partner (`exists_open_before`).

A formula without balance divides at a parenthesis (`exists_breaksAt`). What stands before it is
balanced, and it either closes what is not open or opens what nothing behind it closes. So it is the
leftmost one without a partner (`BreaksAt.firstAlone`), and nesting reports its position
(`BreaksAt.nest_eq_error`).
-/

namespace Scorecard

namespace Text

/-- A text divides at each of its marks outside brackets. -/
theorem exists_split_of_outerMarks {isMark : Char → Bool} (hfree : BracketFree isMark)
    {depth : Nat} {s marks more : List Char} {c : Char}
    (h : outerMarks isMark depth s = marks ++ c :: more) :
    ∃ front back, s = front ++ c :: back ∧ depthAfter depth front = 0 ∧
      outerMarks isMark depth front = marks ∧ outerMarks isMark 0 back = more := by
  induction s generalizing depth marks with
  | nil =>
    rw [outerMarks] at h
    simp at h
  | cons d s ih =>
    rw [outerMarks] at h
    cases hd : depth == 0 && isMark d with
    | false =>
      rw [hd, if_neg Bool.false_ne_true] at h
      obtain ⟨front, back, hs, hdepth, hmarks, hmore⟩ := ih h
      refine ⟨d :: front, back, by rw [hs, List.cons_append], hdepth, ?_, hmore⟩
      rw [outerMarks, hd, if_neg Bool.false_ne_true]
      exact hmarks
    | true =>
      rw [hd, if_pos rfl] at h
      have hzero : depth = 0 ∧ isMark d = true := by simpa using hd
      have hstep : bracketStep depth d = 0 := by rw [hfree d depth hzero.2, hzero.1]
      cases marks with
      | nil =>
        rw [List.nil_append, List.cons.injEq] at h
        refine ⟨[], s, by rw [h.1, List.nil_append], hzero.1, rfl, ?_⟩
        rw [← h.2, hstep]
      | cons first marks =>
        rw [List.cons_append, List.cons.injEq] at h
        obtain ⟨front, back, hs, hdepth, hmarks, hmore⟩ := ih h.2
        refine ⟨d :: front, back, by rw [hs, List.cons_append], hdepth, ?_, hmore⟩
        rw [outerMarks, hd, if_pos rfl, hmarks, h.1]

end Text

namespace Formula

open Text

/-! ## Counting from the left -/

/-- At no point do these parentheses close more than they and `opened` earlier ones open. -/
def OpensFirst (opened : Nat) (marks : List Char) : Prop :=
  ∀ before after, marks = before ++ after → before.count ')' ≤ opened + before.count '('

theorem OpensFirst.count_le {opened : Nat} {marks : List Char} (h : OpensFirst opened marks) :
    marks.count ')' ≤ opened + marks.count '(' :=
  h marks [] (List.append_nil marks).symm

theorem BalancedFrom.opensFirst {opened : Nat} {marks : List Char} (h : BalancedFrom opened marks) :
    OpensFirst opened marks :=
  h.1

theorem opensFirst_nil (opened : Nat) : OpensFirst opened [] := by
  intro before after h
  obtain ⟨rfl, rfl⟩ := List.append_eq_nil_iff.1 h.symm
  exact Nat.zero_le _

theorem opensFirst_append_iff {opened : Nat} {marks more : List Char} :
    OpensFirst opened (marks ++ more) ↔
      OpensFirst opened marks ∧
        OpensFirst (opened + marks.count '(' - marks.count ')') more := by
  constructor
  · intro h
    have hmarks : OpensFirst opened marks := by
      intro before after heq
      exact h before (after ++ more) (by rw [heq, List.append_assoc])
    refine ⟨hmarks, ?_⟩
    intro before after heq
    have hle := h (marks ++ before) after (by rw [heq, List.append_assoc])
    have htotal := hmarks.count_le
    rw [List.count_append, List.count_append] at hle
    omega
  · intro h before after heq
    rcases List.append_eq_append_iff.1 heq with ⟨rest, rfl, hmore⟩ | ⟨rest, hmarks, rfl⟩
    · have htotal := h.1.count_le
      have hle := h.2 rest after hmore
      rw [List.count_append, List.count_append]
      omega
    · exact h.1 before rest hmarks

theorem balancedFrom_append_iff {opened : Nat} {marks more : List Char} :
    BalancedFrom opened (marks ++ more) ↔
      OpensFirst opened marks ∧
        BalancedFrom (opened + marks.count '(' - marks.count ')') more := by
  have hiff (n : Nat) (s : List Char) :
      BalancedFrom n s ↔ OpensFirst n s ∧ s.count ')' = n + s.count '(' := Iff.rfl
  rw [hiff, hiff, opensFirst_append_iff, List.count_append, List.count_append, and_assoc]
  apply and_congr_right
  intro hmarks
  have htotal := hmarks.count_le
  apply and_congr_right
  intro _
  omega

theorem opensFirst_open_iff {opened : Nat} {marks : List Char} :
    OpensFirst opened ('(' :: marks) ↔ OpensFirst (opened + 1) marks := by
  rw [← List.singleton_append, opensFirst_append_iff]
  refine and_iff_right ?_
  intro before after heq
  rcases List.append_eq_singleton_iff.1 heq.symm with ⟨rfl, _⟩ | ⟨rfl, _⟩ <;> simp

theorem opensFirst_close_iff {opened : Nat} {marks : List Char} :
    OpensFirst opened (')' :: marks) ↔ 0 < opened ∧ OpensFirst (opened - 1) marks := by
  rw [← List.singleton_append, opensFirst_append_iff]
  refine and_congr_left fun _ => ?_
  constructor
  · intro h
    exact Nat.lt_of_lt_of_le Nat.zero_lt_one h.count_le
  · intro h before after heq
    rcases List.append_eq_singleton_iff.1 heq.symm with ⟨rfl, _⟩ | ⟨rfl, _⟩
    · simp
    · exact h

theorem OpensFirst.mono {opened more : Nat} {marks : List Char} (h : OpensFirst opened marks)
    (hle : opened ≤ more) : OpensFirst more marks := by
  intro before after heq
  have hbefore := h before after heq
  omega

/-- A balanced word in parentheses with a balanced one behind it is balanced. -/
theorem balanced_group_append {inner rest : List Char} (hinner : Balanced inner)
    (hrest : Balanced rest) : Balanced ('(' :: (inner ++ ')' :: rest)) := by
  have htotal := hinner.2
  refine balancedFrom_open_iff.2 (balancedFrom_append_iff.2 ⟨hinner.opensFirst.mono (by omega), ?_⟩)
  rw [show 0 + 1 + inner.count '(' - inner.count ')' = 1 by omega]
  exact balancedFrom_close_iff.2 ⟨by omega, hrest⟩

/-- Where a parenthesis is open, what follows closes it behind a balanced word. -/
theorem exists_close_of_balancedFrom {opened : Nat} {marks : List Char}
    (hmarks : ∀ c ∈ marks, isParenthesis c = true) (h : BalancedFrom (opened + 1) marks) :
    ∃ inner rest, marks = inner ++ ')' :: rest ∧ Balanced inner ∧ BalancedFrom opened rest := by
  match marks with
  | [] => exact absurd (balancedFrom_nil_iff.1 h) (Nat.succ_ne_zero opened)
  | c :: marks =>
    obtain ⟨hc, hrest⟩ := List.forall_mem_cons.1 hmarks
    rcases eq_of_isParenthesis hc with rfl | rfl
    · -- one more is open, so two words are closed in turn
      obtain ⟨inner, behind, heq, hinner, hbehind⟩ :=
        exists_close_of_balancedFrom hrest (balancedFrom_open_iff.1 h)
      have hshorter : behind.length < marks.length := by simp [heq]; omega
      have hparentheses : ∀ d ∈ behind, isParenthesis d = true :=
        fun d hd => hrest d (by simp [heq, hd])
      obtain ⟨next, rest, rfl, hnext, hmore⟩ := exists_close_of_balancedFrom hparentheses hbehind
      exact ⟨'(' :: (inner ++ ')' :: next), rest, by simp [heq], balanced_group_append hinner hnext,
        hmore⟩
    · exact ⟨[], marks, rfl, balancedFrom_nil_iff.2 rfl, (balancedFrom_close_iff.1 h).2⟩
termination_by marks.length

/-- Where a parenthesis may be closed, what comes before opens it in front of a balanced word. -/
theorem exists_open_of_opensFirst {marks : List Char}
    (hmarks : ∀ c ∈ marks, isParenthesis c = true) (h : OpensFirst 0 (marks ++ [')'])) :
    ∃ front inner, marks = front ++ '(' :: inner ∧ Balanced inner := by
  rcases List.eq_nil_or_concat marks with rfl | ⟨earlier, c, hlast⟩
  · exact absurd (opensFirst_close_iff.1 h).1 (Nat.lt_irrefl 0)
  rw [List.concat_eq_append] at hlast
  have hearlier : ∀ d ∈ earlier, isParenthesis d = true :=
    fun d hd => hmarks d (by simp [hlast, hd])
  rcases eq_of_isParenthesis (hmarks c (by simp [hlast])) with rfl | rfl
  · exact ⟨earlier, [], hlast, balancedFrom_nil_iff.2 rfl⟩
  · -- the closing one before it takes a word off, and the search goes on before that
    rw [hlast] at h
    have hshorter : earlier.length < marks.length := by simp [hlast]
    obtain ⟨front, inner, heq, hinner⟩ :=
      exists_open_of_opensFirst hearlier (opensFirst_append_iff.1 h).1
    have hfront : OpensFirst 0 (front ++ [')']) := by
      have hle := h.count_le
      have htotal := hinner.2
      simp only [heq, List.count_append, List.count_cons, List.count_nil, beq_iff_eq,
        Char.reduceEq, ite_true, ite_false] at hle
      rw [heq, List.append_assoc, List.append_assoc, opensFirst_append_iff] at h
      refine opensFirst_append_iff.2 ⟨h.1, opensFirst_close_iff.2 ⟨by omega, opensFirst_nil _⟩⟩
    have hfrontShorter : front.length < marks.length := by simp [hlast, heq]
    obtain ⟨before, next, rfl, hnext⟩ :=
      exists_open_of_opensFirst (fun d hd => hearlier d (by simp [heq, hd])) hfront
    refine ⟨before, next ++ '(' :: (inner ++ [')']), by simp [hlast, heq], ?_⟩
    refine balancedFrom_append_iff.2 ⟨hnext.opensFirst, ?_⟩
    have htotal := hnext.2
    rw [show 0 + next.count '(' - next.count ')' = 0 by omega]
    exact balanced_group_append hinner (balancedFrom_nil_iff.2 rfl)
termination_by marks.length

/-- Either parentheses are balanced, or one is closed that is not open, or one is opened that is
never closed, or one of the `opened` earlier ones is never closed. -/
theorem balancedFrom_or_fault {marks : List Char}
    (hmarks : ∀ c ∈ marks, isParenthesis c = true) (opened : Nat) :
    BalancedFrom opened marks ∨
      (∃ before after, marks = before ++ ')' :: after ∧ BalancedFrom opened before) ∨
      (∃ before after, marks = before ++ '(' :: after ∧ BalancedFrom opened before ∧
        OpensFirst 0 after) ∨
      0 < opened ∧ OpensFirst (opened - 1) marks := by
  induction marks generalizing opened with
  | nil =>
    rw [balancedFrom_nil_iff]
    rcases Nat.eq_zero_or_pos opened with hzero | hpos
    · exact .inl hzero
    · exact .inr (.inr (.inr ⟨hpos, opensFirst_nil _⟩))
  | cons c marks ih =>
    obtain ⟨hc, hrest⟩ := List.forall_mem_cons.1 hmarks
    rcases eq_of_isParenthesis hc with rfl | rfl
    · rw [balancedFrom_open_iff]
      rcases ih hrest (opened + 1) with h | ⟨before, after, rfl, h⟩ | ⟨before, after, rfl, h⟩ | h
      · exact .inl h
      · exact .inr (.inl ⟨'(' :: before, after, rfl, balancedFrom_open_iff.2 h⟩)
      · exact .inr (.inr (.inl ⟨'(' :: before, after, rfl, balancedFrom_open_iff.2 h.1, h.2⟩))
      · rcases Nat.eq_zero_or_pos opened with rfl | hpos
        · exact .inr (.inr (.inl ⟨[], marks, rfl, balancedFrom_nil_iff.2 rfl, h.2⟩))
        · refine .inr (.inr (.inr ⟨hpos, opensFirst_open_iff.2 ?_⟩))
          rw [Nat.sub_add_cancel hpos]
          exact h.2
    · rw [balancedFrom_close_iff]
      rcases Nat.eq_zero_or_pos opened with rfl | hpos
      · exact .inr (.inl ⟨[], marks, rfl, balancedFrom_nil_iff.2 rfl⟩)
      rcases ih hrest (opened - 1) with h | ⟨before, after, rfl, h⟩ | ⟨before, after, rfl, h⟩ | h
      · exact .inl ⟨hpos, h⟩
      · exact .inr (.inl ⟨')' :: before, after, rfl, balancedFrom_close_iff.2 ⟨hpos, h⟩⟩)
      · exact .inr (.inr (.inl
          ⟨')' :: before, after, rfl, balancedFrom_close_iff.2 ⟨hpos, h.1⟩, h.2⟩))
      · exact .inr (.inr (.inr ⟨hpos, opensFirst_close_iff.2 h⟩))

/-! ## Partners in a text -/

/-- Two parentheses outside brackets that are partners: one behind `before` that opens, and one
behind `inner` that closes, with parentheses between them that close each other. -/
structure Partners (formula before inner after : List Char) : Prop where
  formula_eq : formula = before ++ '(' :: (inner ++ ')' :: after)
  outside : depthAfter 0 before = 0
  closed : depthAfter 0 inner = 0
  balanced : Balanced (outerParentheses inner)

/-- A parenthesis outside brackets, between `before` and `after`, that is the partner of none. -/
structure Alone (formula before : List Char) (c : Char) (after : List Char) : Prop where
  formula_eq : formula = before ++ c :: after
  outside : depthAfter 0 before = 0
  mark : isParenthesis c = true
  not_opens : c = '(' → ∀ inner rest, ¬Partners formula before inner rest
  not_closes : c = ')' → ∀ front inner, before = front ++ '(' :: inner →
    ¬Partners formula front inner after

/-- The leftmost parenthesis without a partner. It closes what is not open; or nothing in the
formula does, and it is the outermost one that is never closed. -/
structure FirstAlone (formula before : List Char) (c : Char) (after : List Char) : Prop
    extends Alone formula before c after where
  leftmost : ∀ before' c' after', Alone formula before' c' after' → before.length ≤ before'.length
  outermost : Balanced (outerParentheses before)
  stray : c = ')' ∨ c = '(' ∧ ∀ before' after', ¬Alone formula before' ')' after'

theorem isParenthesis_of_mem {s : List Char} {c : Char} (h : c ∈ outerParentheses s) :
    isParenthesis c = true :=
  mem_outerMarks h

theorem outerParentheses_append {s : List Char} (h : depthAfter 0 s = 0) (t : List Char) :
    outerParentheses (s ++ t) = outerParentheses s ++ outerParentheses t := by
  unfold outerParentheses
  rw [outerMarks_append, h]

theorem outerParentheses_cons {c : Char} (h : isParenthesis c = true) (s : List Char) :
    outerParentheses (c :: s) = c :: outerParentheses s := by
  unfold outerParentheses
  rw [outerMarks, bracketFree_isParenthesis c 0 h, h]
  rfl

/-- A parenthesis keeps a text outside brackets. -/
theorem depthAfter_cons_parenthesis {c : Char} (h : isParenthesis c = true) (s : List Char) :
    depthAfter 0 (c :: s) = depthAfter 0 s := by
  rw [depthAfter_cons, bracketFree_isParenthesis c 0 h]

/-- A formula divides at each of its parentheses outside brackets. -/
theorem exists_split_of_outerParentheses {s before after : List Char} {c : Char}
    (h : outerParentheses s = before ++ c :: after) :
    ∃ front back, s = front ++ c :: back ∧ depthAfter 0 front = 0 ∧
      outerParentheses front = before ∧ outerParentheses back = after :=
  exists_split_of_outerMarks bracketFree_isParenthesis h

/-- Where a parenthesis is open, a text that closes it has its partner. -/
theorem exists_close_behind {opened : Nat} {s : List Char}
    (h : BalancedFrom (opened + 1) (outerParentheses s)) :
    ∃ inner rest, s = inner ++ ')' :: rest ∧ depthAfter 0 inner = 0 ∧
      Balanced (outerParentheses inner) := by
  obtain ⟨inner, rest, heq, hinner, _⟩ :=
    exists_close_of_balancedFrom (fun _ => isParenthesis_of_mem) h
  obtain ⟨front, back, hs, hdepth, rfl, _⟩ := exists_split_of_outerParentheses heq
  exact ⟨front, back, hs, hdepth, hinner⟩

/-- Where a parenthesis may be closed, the text before it has its partner. -/
theorem exists_open_before {s : List Char} (hdepth : depthAfter 0 s = 0)
    (h : OpensFirst 0 (outerParentheses s ++ [')'])) :
    ∃ front inner, s = front ++ '(' :: inner ∧ depthAfter 0 front = 0 ∧ depthAfter 0 inner = 0 ∧
      Balanced (outerParentheses inner) := by
  obtain ⟨before, inner, heq, hinner⟩ :=
    exists_open_of_opensFirst (fun _ => isParenthesis_of_mem) h
  obtain ⟨front, back, rfl, hfront, _, rfl⟩ := exists_split_of_outerParentheses heq
  rw [depthAfter_append, hfront, depthAfter_cons_parenthesis rfl] at hdepth
  exact ⟨front, back, rfl, hfront, hdepth, hinner⟩

/-! ## Where balance breaks -/

/-- A formula that is balanced up to a parenthesis, which closes what is not open or opens what
nothing behind it closes. -/
structure BreaksAt (formula before : List Char) (c : Char) (after : List Char) : Prop where
  formula_eq : formula = before ++ c :: after
  outside : depthAfter 0 before = 0
  balanced : Balanced (outerParentheses before)
  fault : c = ')' ∨ c = '(' ∧ OpensFirst 0 (outerParentheses after)

/-- A formula without balance breaks at some parenthesis. -/
theorem exists_breaksAt {formula : List Char} (h : ¬Balanced (outerParentheses formula)) :
    ∃ before c after, BreaksAt formula before c after := by
  rcases balancedFrom_or_fault (fun _ => isParenthesis_of_mem) 0 with
    hbalanced | ⟨before, after, heq, hbefore⟩ | ⟨before, after, heq, hbefore, hafter⟩ | hopen
  · exact absurd hbalanced h
  · obtain ⟨front, back, hs, hdepth, rfl, _⟩ := exists_split_of_outerParentheses heq
    exact ⟨front, ')', back, hs, hdepth, hbefore, .inl rfl⟩
  · obtain ⟨front, back, hs, hdepth, rfl, rfl⟩ := exists_split_of_outerParentheses heq
    exact ⟨front, '(', back, hs, hdepth, hbefore, .inr ⟨rfl, hafter⟩⟩
  · exact absurd hopen.1 (Nat.lt_irrefl 0)

/-- A member of a text that is divided stands in the first or in the second part. -/
theorem append_cons_eq_append_cases {before' after' before rest : List Char} {c : Char}
    (h : before' ++ c :: after' = before ++ rest) :
    (∃ more, before = before' ++ c :: more ∧ after' = more ++ rest) ∨
      ∃ more, before' = before ++ more ∧ rest = more ++ c :: after' := by
  rcases List.append_eq_append_iff.1 h with ⟨more, hbefore, hmore⟩ | ⟨more, hbefore', hrest⟩
  · cases more with
    | nil => exact .inr ⟨[], by simpa using hbefore.symm, hmore.symm⟩
    | cons d more =>
      rw [List.cons_append, List.cons.injEq] at hmore
      exact .inl ⟨more, by rw [hbefore, hmore.1], hmore.2⟩
  · exact .inr ⟨more, hbefore', hrest⟩

/-- In the balanced beginning of a formula each parenthesis has its partner. -/
theorem Alone.length_le {formula before rest before' after' : List Char} {c' : Char}
    (h : Alone formula before' c' after') (hformula : formula = before ++ rest)
    (hbalanced : Balanced (outerParentheses before)) : before.length ≤ before'.length := by
  rcases append_cons_eq_append_cases (h.formula_eq.symm.trans hformula) with
    ⟨more, hbefore, hafter'⟩ | ⟨more, hbefore', _⟩
  case inr => simp [hbefore']
  exfalso
  rw [hbefore, outerParentheses_append h.outside, outerParentheses_cons h.mark] at hbalanced
  rcases eq_of_isParenthesis h.mark with hc | hc
  · rw [hc] at hbalanced
    have hopen := balancedFrom_open_iff.1 (balancedFrom_append_iff.1 hbalanced).2
    obtain ⟨inner, behind, hmore, hdepth, hinner⟩ := exists_close_behind hopen
    refine h.not_opens hc inner (behind ++ rest) ⟨?_, h.outside, hdepth, hinner⟩
    rw [h.formula_eq, hafter', hmore, hc]
    simp
  · rw [hc, ← List.singleton_append, ← List.append_assoc] at hbalanced
    obtain ⟨front, inner, hfront, hdepth, hinnerDepth, hinner⟩ :=
      exists_open_before h.outside (balancedFrom_append_iff.1 hbalanced).1
    refine h.not_closes hc front inner hfront ⟨?_, hdepth, hinnerDepth, hinner⟩
    rw [h.formula_eq, hfront, hc]
    simp

/-- A parenthesis that is closed behind a balanced beginning has no partner. -/
theorem alone_of_balanced_before {formula before after : List Char}
    (hformula : formula = before ++ ')' :: after) (hdepth : depthAfter 0 before = 0)
    (hbalanced : Balanced (outerParentheses before)) : Alone formula before ')' after := by
  refine ⟨hformula, hdepth, rfl, fun heq => absurd heq (by decide), fun _ front inner heq h => ?_⟩
  rw [heq, outerParentheses_append h.outside, outerParentheses_cons rfl] at hbalanced
  have htotal := hbalanced.2
  have hfront := (balancedFrom_append_iff.1 hbalanced).1.count_le
  have hinner := h.balanced.2
  simp only [List.count_append, List.count_cons, beq_iff_eq, Char.reduceEq, ite_true,
    ite_false] at htotal
  omega

/-- A parenthesis that nothing behind it closes has no partner. -/
theorem alone_of_opensFirst_after {formula before after : List Char}
    (hformula : formula = before ++ '(' :: after) (hdepth : depthAfter 0 before = 0)
    (hafter : OpensFirst 0 (outerParentheses after)) : Alone formula before '(' after := by
  refine ⟨hformula, hdepth, rfl, fun _ inner rest h => ?_, fun heq => absurd heq (by decide)⟩
  have heq : after = inner ++ ')' :: rest := by
    have hboth := hformula.symm.trans h.formula_eq
    simpa using hboth
  rw [heq, outerParentheses_append h.closed, outerParentheses_cons rfl] at hafter
  have hclose := (opensFirst_append_iff.1 hafter).2
  have htotal := h.balanced.2
  rw [show 0 + (outerParentheses inner).count '(' - (outerParentheses inner).count ')' = 0
    by omega] at hclose
  exact absurd (opensFirst_close_iff.1 hclose).1 (Nat.lt_irrefl 0)

/-- If nothing behind a parenthesis closes it, each one that closes has its partner. -/
theorem not_alone_close {formula before after before' after' : List Char}
    (hformula : formula = before ++ '(' :: after) (hdepth : depthAfter 0 before = 0)
    (hbalanced : Balanced (outerParentheses before))
    (hafter : OpensFirst 0 (outerParentheses after)) : ¬Alone formula before' ')' after' := by
  intro h
  have hlength := h.length_le hformula hbalanced
  have hsplit : ∃ more, before' = before ++ '(' :: more ∧ after = more ++ ')' :: after' := by
    rcases append_cons_eq_append_cases (h.formula_eq.symm.trans hformula) with
      ⟨more, hbefore, _⟩ | ⟨more, hbefore', hmore⟩
    · simp only [hbefore, List.length_append, List.length_cons] at hlength
      omega
    · cases more with
      | nil => simp at hmore
      | cons d more =>
        rw [List.cons_append, List.cons.injEq] at hmore
        exact ⟨more, by rw [hbefore', hmore.1], hmore.2⟩
  obtain ⟨more, hbefore', hmore⟩ := hsplit
  have hmoreDepth : depthAfter 0 more = 0 := by
    have houtside := h.outside
    rwa [hbefore', depthAfter_append, hdepth, depthAfter_cons_parenthesis rfl] at houtside
  rw [hmore, outerParentheses_append hmoreDepth, outerParentheses_cons rfl, ← List.singleton_append,
    ← List.append_assoc] at hafter
  obtain ⟨front, inner, hfront, hfrontDepth, hinnerDepth, hinner⟩ :=
    exists_open_before hmoreDepth (opensFirst_append_iff.1 hafter).1
  refine h.not_closes rfl (before ++ '(' :: front) inner ?_ ⟨?_, ?_, hinnerDepth, hinner⟩
  · rw [hbefore', hfront]
    simp
  · rw [hformula, hmore, hfront]
    simp
  · rw [depthAfter_append, hdepth, depthAfter_cons_parenthesis rfl, hfrontDepth]

/-- Where a formula breaks, its first parenthesis without a partner stands. -/
theorem BreaksAt.firstAlone {formula before after : List Char} {c : Char}
    (h : BreaksAt formula before c after) : FirstAlone formula before c after := by
  have hleftmost : ∀ before' c' after', Alone formula before' c' after' →
      before.length ≤ before'.length :=
    fun before' c' after' halone => halone.length_le h.formula_eq h.balanced
  have hformula := h.formula_eq
  rcases h.fault with rfl | ⟨rfl, hafter⟩
  · exact ⟨alone_of_balanced_before hformula h.outside h.balanced, hleftmost, h.balanced, .inl rfl⟩
  · refine ⟨alone_of_opensFirst_after hformula h.outside hafter, hleftmost, h.balanced,
      .inr ⟨rfl, fun before' after' => ?_⟩⟩
    exact not_alone_close hformula h.outside h.balanced hafter

/-! ## The position of the fault -/

/-- The number of bytes of the pieces of a cut with their marks. -/
def piecesLength (tail : List (Char × List Char)) : Nat :=
  byteLength (tail.flatMap fun (c, piece) => c :: piece)

@[simp] theorem piecesLength_nil : piecesLength [] = 0 := rfl

theorem piecesLength_cons (c : Char) (piece : List Char) (tail : List (Char × List Char)) :
    piecesLength ((c, piece) :: tail) = c.utf8Size + byteLength piece + piecesLength tail := by
  simp [piecesLength, byteLength, Nat.add_assoc]

/-- Pieces that close all that is open between them bring nesting back to the groups around. -/
theorem nestFrom_append {tail : List (Char × List Char)} (htail : Parenthesized tail)
    (position : Nat) (done : List Nesting) (inner : List OpenGroup)
    (hbalanced : BalancedFrom inner.length (tail.map Prod.fst)) (outer : List OpenGroup)
    (more : List (Char × List Char)) :
    ∃ done', nestFrom position done (inner ++ outer) (tail ++ more) =
      nestFrom (position + piecesLength tail) done' outer more := by
  induction tail generalizing position done inner with
  | nil =>
    have hnil : inner = [] := List.length_eq_zero_iff.1 (balancedFrom_nil_iff.1 hbalanced)
    exact ⟨done, by simp [hnil]⟩
  | cons pair rest ih =>
    obtain ⟨c, piece⟩ := pair
    have hrest : Parenthesized rest :=
      fun other hother => htail other (List.mem_cons_of_mem _ hother)
    rw [List.map_cons] at hbalanced
    rw [piecesLength_cons, ← Nat.add_assoc, ← Nat.add_assoc, List.cons_append]
    rcases eq_of_isParenthesis (htail (c, piece) List.mem_cons_self) with rfl | rfl
    · rw [balancedFrom_open_iff] at hbalanced
      rw [nestFrom_open]
      exact ih hrest _ _ (⟨position, done⟩ :: inner) hbalanced
    · rw [balancedFrom_close_iff] at hbalanced
      cases inner with
      | nil => exact absurd hbalanced.1 (Nat.lt_irrefl 0)
      | cons group inner =>
        rw [List.cons_append, nestFrom_close_cons]
        exact ih hrest _ _ inner (by simpa using hbalanced.2)

/-- Of the groups that stay open the outermost is at fault. -/
theorem nestFrom_of_opensFirst {tail : List (Char × List Char)} (htail : Parenthesized tail)
    (position : Nat) (done : List Nesting) (inner : List OpenGroup)
    (hopens : OpensFirst inner.length (tail.map Prod.fst)) (outermost : OpenGroup) :
    nestFrom position done (inner ++ [outermost]) tail =
      .error (.unbalancedParentheses outermost.position) := by
  induction tail generalizing position done inner with
  | nil => simp [nestFrom]
  | cons pair rest ih =>
    obtain ⟨c, piece⟩ := pair
    have hrest : Parenthesized rest :=
      fun other hother => htail other (List.mem_cons_of_mem _ hother)
    rw [List.map_cons] at hopens
    rcases eq_of_isParenthesis (htail (c, piece) List.mem_cons_self) with rfl | rfl
    · rw [opensFirst_open_iff] at hopens
      rw [nestFrom_open]
      exact ih hrest _ _ (⟨position, done⟩ :: inner) hopens
    · rw [opensFirst_close_iff] at hopens
      cases inner with
      | nil => exact absurd hopens.1 (Nat.lt_irrefl 0)
      | cons group inner =>
        rw [List.cons_append, nestFrom_close_cons]
        exact ih hrest _ _ inner (by simpa using hopens.2)

/-- Nesting reports the position at which a formula breaks. -/
theorem BreaksAt.nest_eq_error {formula before after : List Char} {c : Char}
    (h : BreaksAt formula before c after) :
    nest formula = .error (.unbalancedParentheses (byteLength before)) := by
  have hmark : isParenthesis c = true := h.firstAlone.mark
  have hparenthesized (s : List Char) : Parenthesized (cut isParenthesis 0 s).tail :=
    parenthesized_of_pieces (pieces_cut bracketFree_isParenthesis 0 s)
  have hmarks (s : List Char) :
      (cut isParenthesis 0 s).tail.map Prod.fst = outerParentheses s :=
    map_fst_tail_cut isParenthesis 0 s
  have hlength : byteLength (cut isParenthesis 0 before).head +
      piecesLength (cut isParenthesis 0 before).tail = byteLength before := by
    rw [piecesLength, ← byteLength_append]
    exact congrArg byteLength (join_cut isParenthesis 0 before)
  have hbalanced : BalancedFrom ([] : List OpenGroup).length
      ((cut isParenthesis 0 before).tail.map Prod.fst) := by
    rw [hmarks]
    exact h.balanced
  obtain ⟨done, hdone⟩ := nestFrom_append (hparenthesized before)
    (byteLength (cut isParenthesis 0 before).head) [.run (cut isParenthesis 0 before).head] []
    hbalanced [] ((c, (cut isParenthesis 0 after).head) :: (cut isParenthesis 0 after).tail)
  rw [nest, h.formula_eq, cut_append_mark bracketFree_isParenthesis h.outside hmark]
  rw [List.nil_append, hlength] at hdone
  show nestFrom (byteLength (cut isParenthesis 0 before).head) _ _ _ = _
  rw [hdone]
  rcases h.fault with rfl | ⟨rfl, hafter⟩
  · exact nestFrom_close_nil
  · rw [nestFrom_open]
    rw [← hmarks after] at hafter
    exact nestFrom_of_opensFirst (hparenthesized after) _ _ [] hafter
      ⟨byteLength before, done⟩

end Formula

end Scorecard
