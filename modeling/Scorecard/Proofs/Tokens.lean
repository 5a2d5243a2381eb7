import Scorecard.Formula.Nesting
import Scorecard.Proofs.Cuts

/-!
# The tokens of a formula

A separator that stands outside brackets divides the tokens of a formula: those of the text before
it, the separator, and those of the text behind it (`tokens_append_separator`). Parentheses are
separators, so the tokens of a formula are those of its runs with the parentheses between them
(`tokens_join`), and a run has no parenthesis among its own (`ne_of_mem_tokens`).
-/

namespace Scorecard

/-! ## Blanks at the ends -/

namespace Text

theorem all_blank_takeWhile (s : List Char) : ∀ c ∈ s.takeWhile isBlank, isBlank c = true :=
  List.all_eq_true.1 List.all_takeWhile

/-- Trimming takes blanks off both ends and nothing else. -/
theorem exists_eq_append_trim (s : List Char) :
    ∃ front back, s = front ++ (trim s ++ back) ∧ (∀ c ∈ front, isBlank c = true) ∧
      ∀ c ∈ back, isBlank c = true := by
  have hfront : s = s.takeWhile isBlank ++ trimStart s := (List.takeWhile_append_dropWhile).symm
  have hreverse := List.takeWhile_append_dropWhile (p := isBlank) (l := (trimStart s).reverse)
  have hback : trimStart s = trim s ++ ((trimStart s).reverse.takeWhile isBlank).reverse := by
    have h := congrArg List.reverse hreverse
    rw [List.reverse_append, List.reverse_reverse] at h
    exact h.symm
  refine ⟨s.takeWhile isBlank, ((trimStart s).reverse.takeWhile isBlank).reverse, ?_,
    all_blank_takeWhile s, fun c hc => ?_⟩
  · rw [← hback]
    exact hfront
  · exact all_blank_takeWhile _ c (List.mem_reverse.1 hc)

/-- Blanks keep the bracket depth. -/
theorem depthAfter_blanks {s : List Char} (h : ∀ c ∈ s, isBlank c = true) (depth : Nat) :
    depthAfter depth s = depth := by
  induction s generalizing depth with
  | nil => rfl
  | cons c s ih =>
    have hc := h c List.mem_cons_self
    have hstep : bracketStep depth c = depth := by
      refine bracketStep_eq_self ?_ ?_ depth
      · intro heq
        subst heq
        exact absurd hc (by decide)
      · intro heq
        subst heq
        exact absurd hc (by decide)
    rw [depthAfter_cons, hstep]
    exact ih (fun d hd => h d (List.mem_cons_of_mem c hd)) depth

/-- A trimmed text has no marks outside brackets if the text had none. -/
theorem Unmarked.trim {isMark : Char → Bool} {depth : Nat} {s : List Char}
    (h : Unmarked isMark depth s) : Unmarked isMark depth (trim s) := by
  obtain ⟨front, back, hs, hfront, _⟩ := exists_eq_append_trim s
  rw [hs] at h
  have hrest := (unmarked_append_iff.1 h).2
  rw [depthAfter_blanks hfront] at hrest
  exact (unmarked_append_iff.1 hrest).1

end Text

namespace Formula

open Text

/-! ## Separators -/

theorem bracketFree_isSeparator : BracketFree isSeparator := by
  intro c depth h
  refine bracketStep_eq_self ?_ ?_ depth
  · intro heq
    subst heq
    exact absurd h (by decide)
  · intro heq
    subst heq
    exact absurd h (by decide)

theorem isSeparator_of_isParenthesis {c : Char} (h : isParenthesis c = true) :
    isSeparator c = true := by
  unfold isParenthesis at h
  simp only [Bool.or_eq_true, beq_iff_eq] at h
  rcases h with rfl | rfl
  · decide
  · decide

theorem bracketFree_isParenthesis : BracketFree isParenthesis :=
  fun c depth h => bracketFree_isSeparator c depth (isSeparator_of_isParenthesis h)

/-- A separator outside brackets divides the tokens. -/
theorem tokens_append_separator {s : List Char} (hdepth : depthAfter 0 s = 0) {c : Char}
    (hc : isSeparator c = true) (t : List Char) :
    tokens (s ++ c :: t) = tokens s ++ [c] :: tokens t := by
  unfold tokens
  rw [cut_append_mark bracketFree_isSeparator hdepth hc]
  simp [wordsOf]

/-- The tokens of a formula are those of its runs with the parentheses between them. -/
theorem tokens_join {head : List Char} {tail : List (Char × List Char)}
    (h : Pieces isParenthesis 0 head tail) :
    tokens (Cut.join ⟨head, tail⟩) =
      tokens head ++ tail.flatMap fun (c, piece) => [c] :: tokens piece := by
  induction tail generalizing head with
  | nil => simp [Cut.join_nil]
  | cons pair rest ih =>
    obtain ⟨c, piece⟩ := pair
    obtain ⟨_, hdepth, hmark, hrest⟩ := h
    rw [Cut.join_cons, tokens_append_separator hdepth (isSeparator_of_isParenthesis hmark),
      ih hrest]
    simp

/-! ## What a token is -/

theorem mem_word_iff {piece token : List Char} :
    token ∈ word piece ↔ token = trim piece ∧ token ≠ [] := by
  unfold word
  cases h : trim piece with
  | nil =>
    constructor
    · intro hmem
      cases hmem
    · intro heq
      obtain ⟨rfl, hne⟩ := heq
      exact absurd rfl hne
  | cons c rest => simp +contextual

/-- A text is cut only at its marks outside brackets, and a piece has none left. -/
theorem mem_tokens_cases {s token : List Char} (h : token ∈ tokens s) :
    (∃ c ∈ outerMarks isSeparator 0 s, token = [c]) ∨
      token ≠ [] ∧ Unmarked isSeparator 0 token := by
  have hpieces := pieces_cut bracketFree_isSeparator 0 s
  rw [← map_fst_tail_cut]
  unfold tokens at h
  generalize cut isSeparator 0 s = k at h hpieces ⊢
  obtain ⟨head, tail⟩ := k
  simp only [wordsOf, List.mem_append] at h
  have hword {depth : Nat} {piece : List Char} (hdepth : depth = 0)
      (hpiece : Unmarked isSeparator depth piece) (hmem : token ∈ word piece) :
      token ≠ [] ∧ Unmarked isSeparator 0 token := by
    subst hdepth
    obtain ⟨rfl, hne⟩ := mem_word_iff.1 hmem
    exact ⟨hne, hpiece.trim⟩
  induction tail generalizing head with
  | nil =>
    simp only [List.flatMap_nil, List.not_mem_nil, or_false] at h
    exact .inr (hword rfl hpieces h)
  | cons pair rest ih =>
    obtain ⟨c, piece⟩ := pair
    obtain ⟨hhead, _, _, hrest⟩ := hpieces
    rcases h with h | h
    · exact .inr (hword rfl hhead h)
    · simp only [List.flatMap_cons, List.cons_append, List.mem_cons, List.mem_append] at h
      rcases h with rfl | h
      · exact .inl ⟨c, by simp, rfl⟩
      · rcases ih piece hrest h with ⟨d, hd, rfl⟩ | hword
        · exact .inl ⟨d, by simp at hd ⊢; exact .inr hd, rfl⟩
        · exact .inr hword

/-- A run has no parenthesis among its tokens. -/
theorem ne_of_mem_tokens {run token : List Char} (hrun : Unmarked isParenthesis 0 run)
    (h : token ∈ tokens run) {c : Char} (hc : isParenthesis c = true) : token ≠ [c] := by
  intro heq
  subst heq
  rcases mem_tokens_cases h with ⟨d, hd, heq⟩ | ⟨_, hunmarked⟩
  · cases heq
    have hmem := mem_outerMarks_of_mem hd hc
    rw [hrun] at hmem
    cases hmem
  · have hstep := (unmarked_cons_iff.1 hunmarked).1
    simp [isSeparator_of_isParenthesis hc] at hstep

end Formula

end Scorecard
