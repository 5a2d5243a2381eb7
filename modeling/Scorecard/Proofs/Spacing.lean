import Mathlib.Data.List.Chain
import Scorecard.Proofs.Grouping

/-!
# Blanks around tokens

A formula is its tokens in their order with blanks before, between and behind them
(`spaced_tokens`). Which blanks these are does not matter: any text that spaces the tokens of a
formula has these tokens and no others (`tokens_of_spaced`). For each token that a separator follows
ends outside square brackets, and between two separators stands at most one other token. Main
statement: `tokenize_stable`.
-/

namespace Scorecard

/-! ## Blanks at the ends of a text -/

namespace Text

/-- A text that neither starts nor ends with a blank. -/
def Trimmed (s : List Char) : Prop :=
  (∀ c, s.head? = some c → isBlank c = false) ∧ ∀ c, s.getLast? = some c → isBlank c = false

theorem trimStart_append {gap : List Char} (hgap : AllBlank gap) (s : List Char) :
    trimStart (gap ++ s) = trimStart s :=
  List.dropWhile_append_of_pos hgap

theorem trimStart_eq_self {s : List Char} (h : ∀ c, s.head? = some c → isBlank c = false) :
    trimStart s = s := by
  cases s with
  | nil => rfl
  | cons c s =>
    rw [trimStart, List.dropWhile_cons_of_neg]
    simp [h c rfl]

theorem not_isBlank_head_trimStart (s : List Char) :
    ∀ c, (trimStart s).head? = some c → isBlank c = false := by
  intro c hc
  have h := List.head?_dropWhile_not isBlank s
  rw [trimStart] at hc
  rw [hc] at h
  exact h

/-- What is left without the blanks at the end is a beginning of the text. -/
theorem exists_append_trimEnd (s : List Char) : ∃ back, trimEnd s ++ back = s := by
  have hsuffix : trimStart s.reverse <:+ s.reverse := List.dropWhile_suffix isBlank
  have hprefix := List.reverse_prefix.2 hsuffix
  rwa [List.reverse_reverse] at hprefix

/-- No blank is left at either end by trimming. -/
theorem trimmed_trim (s : List Char) : Trimmed (trim s) := by
  constructor
  · intro c hc
    obtain ⟨back, hback⟩ := exists_append_trimEnd (trimStart s)
    refine not_isBlank_head_trimStart s c ?_
    rw [← hback, List.head?_append, ← trim, hc]
    rfl
  · intro c hc
    refine not_isBlank_head_trimStart (trimStart s).reverse c ?_
    rw [trim, trimEnd, List.getLast?_reverse] at hc
    exact hc

/-- Blanks around a text without blanks at its ends are trimmed off. -/
theorem trim_append {front s back : List Char} (hfront : AllBlank front) (hs : Trimmed s)
    (hback : AllBlank back) : trim (front ++ (s ++ back)) = s := by
  have hbackReverse : AllBlank back.reverse := fun c hc => hback c (List.mem_reverse.1 hc)
  rw [trim, trimStart_append hfront]
  cases s with
  | nil =>
    have hnil := trimStart_append hback []
    rw [List.append_nil] at hnil
    rw [List.nil_append, hnil]
    rfl
  | cons c s =>
    have hstart : trimStart (c :: s ++ back) = c :: s ++ back :=
      trimStart_eq_self fun d hd => hs.1 d hd
    rw [hstart, trimEnd, List.reverse_append, trimStart_append hbackReverse,
      trimStart_eq_self, List.reverse_reverse]
    intro d hd
    rw [List.head?_reverse] at hd
    exact hs.2 d hd

theorem mem_of_mem_outerMarks {isMark : Char → Bool} {depth : Nat} {s : List Char} {c : Char}
    (h : c ∈ outerMarks isMark depth s) : c ∈ s := by
  induction s generalizing depth with
  | nil => cases h
  | cons d s ih =>
    rw [outerMarks] at h
    split at h
    · rcases List.mem_cons.1 h with rfl | h
      · exact List.mem_cons_self
      · exact List.mem_cons_of_mem d (ih h)
    · exact List.mem_cons_of_mem d (ih h)

end Text

namespace Formula

open Text

/-! ## Texts that space tokens -/

/-- A text in which tokens stand one behind the other, with blanks before, between and behind
them. -/
inductive Spaced : List (List Char) → List Char → Prop where
  | nil {gap : List Char} (hgap : AllBlank gap) : Spaced [] gap
  | cons {gap token source : List Char} {rest : List (List Char)} (hgap : AllBlank gap)
      (hrest : Spaced rest source) : Spaced (token :: rest) (gap ++ (token ++ source))

theorem allBlank_nil : AllBlank [] := by
  simp [AllBlank]

theorem Spaced.blank_append {gap source : List Char} {list : List (List Char)}
    (hgap : AllBlank gap) (h : Spaced list source) : Spaced list (gap ++ source) := by
  cases h with
  | nil hmore => exact .nil (hgap.append hmore)
  | cons hmore hrest =>
    rw [← List.append_assoc]
    exact .cons (hgap.append hmore) hrest

theorem Spaced.cons_self (token : List Char) {source : List Char} {rest : List (List Char)}
    (h : Spaced rest source) : Spaced (token :: rest) (token ++ source) := by
  rw [← List.nil_append (token ++ source)]
  exact .cons allBlank_nil h

theorem Spaced.append {first second : List (List Char)} {s t : List Char} (hs : Spaced first s)
    (ht : Spaced second t) : Spaced (first ++ second) (s ++ t) := by
  induction hs with
  | nil hgap => exact ht.blank_append hgap
  | cons hgap _ ih =>
    rw [List.append_assoc, List.append_assoc]
    exact .cons hgap ih

theorem Spaced.append_blank {gap source : List Char} {list : List (List Char)}
    (hgap : AllBlank gap) (h : Spaced list source) : Spaced list (source ++ gap) := by
  rw [← List.append_nil list]
  exact h.append (.nil hgap)

/-- A text that spaces tokens divides where the tokens do. -/
theorem Spaced.exists_append {first second : List (List Char)} {s : List Char}
    (h : Spaced (first ++ second) s) :
    ∃ front back, s = front ++ back ∧ Spaced first front ∧ Spaced second back := by
  induction first generalizing s with
  | nil => exact ⟨[], s, rfl, .nil allBlank_nil, h⟩
  | cons token first ih =>
    cases h with
    | @cons gap _ source _ hgap hrest =>
      obtain ⟨front, back, rfl, hfront, hback⟩ := ih hrest
      exact ⟨gap ++ (token ++ front), back, by simp, .cons hgap hfront, hback⟩

/-- Without its blanks, a text that spaces tokens is the tokens without theirs. -/
theorem Spaced.filter_eq {list : List (List Char)} {s : List Char} (h : Spaced list s) :
    s.filter (!isBlank ·) = list.flatten.filter (!isBlank ·) := by
  have hnone {gap : List Char} (hgap : AllBlank gap) : gap.filter (!isBlank ·) = [] := by
    rw [List.filter_eq_nil_iff]
    intro c hc
    simp [hgap c hc]
  induction h with
  | nil hgap => exact hnone hgap
  | cons hgap _ ih =>
    rw [List.filter_append, hnone hgap, List.filter_append, ih, List.flatten_cons,
      List.filter_append, List.nil_append]

/-- Tokens with the same blanks between each two of them. -/
theorem spaced_intercalate {gap : List Char} (hgap : AllBlank gap) (list : List (List Char)) :
    Spaced list (gap.intercalate list) := by
  induction list with
  | nil => exact .nil allBlank_nil
  | cons token rest ih =>
    cases rest with
    | nil =>
      rw [List.intercalate_singleton]
      simpa using Spaced.cons_self token (.nil allBlank_nil)
    | cons next rest =>
      rw [List.intercalate_cons_cons, List.append_assoc]
      exact .cons_self token (ih.blank_append hgap)

/-! ## The tokens of a text that spaces them -/

theorem spaced_word (piece : List Char) : Spaced (word piece) piece := by
  obtain ⟨front, back, hpiece, hfront, hback⟩ := exists_eq_append_trim piece
  unfold word
  split
  · rename_i htrim
    rw [htrim, List.nil_append] at hpiece
    rw [hpiece]
    exact .nil (AllBlank.append hfront hback)
  · conv => arg 2; rw [hpiece]
    exact .cons hfront (.nil hback)

/-- A formula spaces its tokens. -/
theorem spaced_tokens (formula : List Char) : Spaced (tokens formula) formula := by
  have hjoin := join_cut isSeparator 0 formula
  unfold tokens
  generalize cut isSeparator 0 formula = k at hjoin ⊢
  obtain ⟨head, tail⟩ := k
  rw [← hjoin]
  refine (spaced_word head).append ?_
  clear hjoin
  induction tail with
  | nil => exact .nil allBlank_nil
  | cons pair rest ih =>
    obtain ⟨c, piece⟩ := pair
    have hpiece : Spaced ([c] :: word piece) (c :: piece) :=
      .cons_self [c] (spaced_word piece)
    exact hpiece.append ih

theorem tokens_of_unmarked {s : List Char} (h : Unmarked isSeparator 0 s) : tokens s = word s := by
  rw [tokens, cut_of_unmarked h]
  simp [wordsOf]

theorem eq_of_isSeparator {c : Char} (h : isSeparator c = true) :
    c = '+' ∨ c = '*' ∨ c = '/' ∨ c = '^' ∨ c = '(' ∨ c = ')' := by
  simpa [isSeparator] using h

/-- No separator is a blank. -/
theorem not_isBlank_of_isSeparator {c : Char} (h : isSeparator c = true) : isBlank c = false := by
  rcases eq_of_isSeparator h with rfl | rfl | rfl | rfl | rfl | rfl <;> decide

theorem unmarked_of_allBlank {gap : List Char} (hgap : AllBlank gap) (depth : Nat) :
    Unmarked isSeparator depth gap := by
  unfold Unmarked
  rw [List.eq_nil_iff_forall_not_mem]
  intro c hc
  have hblank := hgap c (mem_of_mem_outerMarks hc)
  rw [not_isBlank_of_isSeparator (mem_outerMarks hc)] at hblank
  cases hblank

/-- A text that spaces the token of a piece is that token between blanks. -/
theorem Spaced.exists_trim {piece s : List Char} (h : Spaced (word piece) s) :
    ∃ front back, s = front ++ (trim piece ++ back) ∧ AllBlank front ∧ AllBlank back := by
  unfold word at h
  split at h
  · rename_i htrim
    cases h with
    | nil hgap => exact ⟨s, [], by simp [htrim], hgap, allBlank_nil⟩
  · cases h with
    | cons hgap hrest =>
      cases hrest with
      | nil hback => exact ⟨_, _, rfl, hgap, hback⟩

theorem Spaced.depthAfter_word {piece s : List Char} (h : Spaced (word piece) s) :
    depthAfter 0 s = depthAfter 0 piece := by
  have htrim {t : List Char} (ht : Spaced (word piece) t) :
      depthAfter 0 t = depthAfter 0 (trim piece) := by
    obtain ⟨front, back, rfl, hfront, hback⟩ := ht.exists_trim
    rw [depthAfter_append, depthAfter_blanks hfront, depthAfter_append, depthAfter_blanks hback]
  rw [htrim h, htrim (spaced_word piece)]

/-- A text that spaces the token of a piece has this token. -/
theorem tokens_of_spaced_word {piece s : List Char} (hpiece : Unmarked isSeparator 0 piece)
    (h : Spaced (word piece) s) : tokens s = word piece := by
  obtain ⟨front, back, rfl, hfront, hback⟩ := h.exists_trim
  have hunmarked : Unmarked isSeparator 0 (front ++ (trim piece ++ back)) := by
    rw [unmarked_append_iff, unmarked_append_iff, depthAfter_blanks hfront]
    exact ⟨unmarked_of_allBlank hfront 0, hpiece.trim, unmarked_of_allBlank hback _⟩
  rw [tokens_of_unmarked hunmarked, word, trim_append hfront (trimmed_trim piece) hback]
  rfl

/-- A text that spaces the tokens of some pieces has these tokens. -/
theorem tokens_of_spaced_pieces {head : List Char} {tail : List (Char × List Char)}
    (hpieces : Pieces isSeparator 0 head tail) {s : List Char}
    (h : Spaced (wordsOf ⟨head, tail⟩) s) : tokens s = wordsOf ⟨head, tail⟩ := by
  induction tail generalizing head s with
  | nil =>
    have hwords : wordsOf ⟨head, []⟩ = word head := by simp [wordsOf]
    rw [hwords] at h ⊢
    exact tokens_of_spaced_word hpieces h
  | cons pair rest ih =>
    obtain ⟨c, piece⟩ := pair
    obtain ⟨hhead, hdepth, hmark, hrest⟩ := hpieces
    have hwords : wordsOf ⟨head, (c, piece) :: rest⟩ =
        word head ++ [c] :: wordsOf ⟨piece, rest⟩ := by simp [wordsOf]
    rw [hwords] at h ⊢
    obtain ⟨front, back, rfl, hfront, hback⟩ := h.exists_append
    cases hback with
    | @cons gap _ source _ hgap hsource =>
      have hfront := hfront.append_blank hgap
      have hfrontDepth : depthAfter 0 (front ++ gap) = 0 := by
        rw [hfront.depthAfter_word, hdepth]
      rw [← List.append_assoc, List.singleton_append, tokens_append_separator hfrontDepth hmark,
        tokens_of_spaced_word hhead hfront, ih hrest hsource]

/-- A text that spaces the tokens of a formula has these tokens. -/
theorem tokens_of_spaced {formula s : List Char} (h : Spaced (tokens formula) s) :
    tokens s = tokens formula :=
  tokens_of_spaced_pieces (pieces_cut bracketFree_isSeparator 0 formula) h

/-! ## What tokens look like -/

/-- A token that is a single separator. -/
def IsMark (token : String) : Prop :=
  token ∈ ["+", "*", "/", "^", "(", ")"]

instance (token : String) : Decidable (IsMark token) :=
  inferInstanceAs (Decidable (token ∈ _))

theorem isMark_of_isSeparator {c : Char} (h : isSeparator c = true) :
    IsMark (String.ofList [c]) := by
  rcases eq_of_isSeparator h with rfl | rfl | rfl | rfl | rfl | rfl <;> decide

/-- No token has a blank at an end. -/
theorem trimmed_of_mem_tokens {formula token : List Char} (h : token ∈ tokens formula) :
    Trimmed token := by
  have hmarks : ∀ pair ∈ (cut isSeparator 0 formula).tail, isSeparator pair.1 = true := by
    intro pair hpair
    have hmark := List.mem_map_of_mem (f := Prod.fst) hpair
    rw [map_fst_tail_cut] at hmark
    exact mem_outerMarks hmark
  have hword {piece : List Char} (hmem : token ∈ word piece) : Trimmed token := by
    rw [(mem_word_iff.1 hmem).1]
    exact trimmed_trim piece
  rcases List.mem_append.1 h with hhead | htail
  · exact hword hhead
  · obtain ⟨⟨c, piece⟩, hpair, hmem⟩ := List.mem_flatMap.1 htail
    rcases List.mem_cons.1 hmem with rfl | hmem
    · have hc := not_isBlank_of_isSeparator (hmarks _ hpair)
      exact ⟨fun d hd => by simpa [← Option.some.inj hd] using hc,
        fun d hd => by simpa [← Option.some.inj hd] using hc⟩
    · exact hword hmem

/-- Between two separators stands at most one token. -/
theorem isChain_tokens (formula : List Char) :
    (tokens formula).IsChain fun first second =>
      IsMark (String.ofList first) ∨ IsMark (String.ofList second) := by
  have hpieces := pieces_cut bracketFree_isSeparator 0 formula
  unfold tokens
  generalize cut isSeparator 0 formula = k at hpieces
  obtain ⟨head, tail⟩ := k
  have hword (piece : List Char) : word piece = [] ∨ ∃ token, word piece = [token] := by
    unfold word
    split
    · exact .inl rfl
    · exact .inr ⟨_, rfl⟩
  induction tail generalizing head with
  | nil =>
    rcases hword head with heq | ⟨token, heq⟩ <;> simp [wordsOf, heq]
  | cons pair rest ih =>
    obtain ⟨c, piece⟩ := pair
    obtain ⟨_, _, hmark, hrest⟩ := hpieces
    have hc := isMark_of_isSeparator hmark
    have hbehind : ([c] :: wordsOf ⟨piece, rest⟩).IsChain fun first second =>
        IsMark (String.ofList first) ∨ IsMark (String.ofList second) :=
      List.isChain_cons.2 ⟨fun token _ => .inl hc, ih piece hrest⟩
    rcases hword head with heq | ⟨token, heq⟩
    · simpa [wordsOf, heq] using hbehind
    · rw [show wordsOf ⟨head, (c, piece) :: rest⟩ = token :: [c] :: wordsOf ⟨piece, rest⟩ by
        simp [wordsOf, heq]]
      exact List.isChain_cons_cons.2 ⟨.inr hc, hbehind⟩

/-- The tokens of a formula are what is left of it without the blanks around them. None is empty or
has a blank at an end; each is a single separator or has separators only within square brackets;
and of two neighbours one is a separator. Any text that spaces the tokens with blanks has the same
tokens, in particular that with the same blanks between each two of them. -/
theorem tokenize_stable (formula : String) :
    (∀ token ∈ tokenize formula, token ≠ "" ∧ Trimmed token.toList ∧
      (IsMark token ∨ Unmarked isSeparator 0 token.toList)) ∧
    ((tokenize formula).IsChain fun first second => IsMark first ∨ IsMark second) ∧
    formula.toList.filter (!isBlank ·) =
      (String.join (tokenize formula)).toList.filter (!isBlank ·) ∧
    (∀ gap : String, AllBlank gap.toList →
      tokenize (gap.intercalate (tokenize formula)) = tokenize formula) ∧
    ∀ spaced : String, Spaced (tokens formula.toList) spaced.toList →
      tokenize spaced = tokenize formula := by
  have hspaced : ∀ spaced : String, Spaced (tokens formula.toList) spaced.toList →
      tokenize spaced = tokenize formula := by
    intro spaced h
    rw [tokenize, tokenize, tokens_of_spaced h]
  have hlists : (tokenize formula).map String.toList = tokens formula.toList := by
    simp [tokenize, Function.comp_def]
  refine ⟨fun token htoken => ?_, ?_, ?_, fun gap hgap => hspaced _ ?_, hspaced⟩
  · obtain ⟨characters, hmem, rfl⟩ := List.mem_map.1 htoken
    have htrimmed := trimmed_of_mem_tokens hmem
    rw [String.toList_ofList]
    rcases mem_tokens_cases hmem with ⟨c, hc, rfl⟩ | ⟨hne, hunmarked⟩
    · exact ⟨by simp, htrimmed, .inl (isMark_of_isSeparator (mem_outerMarks hc))⟩
    · exact ⟨by simpa using hne, htrimmed, .inr hunmarked⟩
  · rw [tokenize, List.isChain_map]
    exact isChain_tokens formula.toList
  · rw [(spaced_tokens formula.toList).filter_eq, String.toList_join, List.flatMap_def, hlists]
  · rw [String.toList_intercalate, hlists]
    exact spaced_intercalate hgap _

/-- A bracket that is never closed takes the rest of the formula into its token. -/
example : tokenize " a] +  [b + c" = ["a]", "+", "[b + c"] := by decide

end Formula

end Scorecard
