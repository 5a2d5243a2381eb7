import Scorecard.Text.Cut

/-!
# How texts are cut

A text is cut at a mark exactly where the mark stands outside square brackets. Two facts carry the
theory of tokens and parentheses. The pieces of a cut have no marks left and end outside brackets
where another piece follows (`pieces_cut`), and this determines the cut (`cut_join`). And where a
text ends outside brackets, the cut of what is written behind a mark starts anew
(`cut_append_mark`).
-/

namespace Scorecard.Text

/-! ## The bracket depth after a text -/

/-- The bracket depth after a text. -/
def depthAfter (depth : Nat) (s : List Char) : Nat :=
  s.foldl bracketStep depth

@[simp] theorem depthAfter_nil (depth : Nat) : depthAfter depth [] = depth := rfl

@[simp] theorem depthAfter_cons (depth : Nat) (c : Char) (s : List Char) :
    depthAfter depth (c :: s) = depthAfter (bracketStep depth c) s := rfl

@[simp] theorem depthAfter_append (depth : Nat) (s t : List Char) :
    depthAfter depth (s ++ t) = depthAfter (depthAfter depth s) t := by
  simp [depthAfter]

/-- A character that is no bracket keeps the depth. -/
theorem bracketStep_eq_self {c : Char} (hopen : c ≠ '[') (hclose : c ≠ ']') (depth : Nat) :
    bracketStep depth c = depth := by
  unfold bracketStep
  split
  · exact absurd rfl hopen
  · exact absurd rfl hclose
  · rfl

/-! ## Marks outside brackets -/

/-- The marks of a text outside square brackets, in their order. -/
def outerMarks (isMark : Char → Bool) : (depth : Nat) → List Char → List Char
  | _, [] => []
  | depth, c :: s =>
    let rest := outerMarks isMark (bracketStep depth c) s
    if depth == 0 && isMark c then c :: rest else rest

theorem cut_cons_mark {isMark : Char → Bool} {c : Char} (h : isMark c = true) (s : List Char) :
    cut isMark 0 (c :: s) = (cut isMark (bracketStep 0 c) s).mark c := by
  simp [cut, h]

theorem cut_cons_push {isMark : Char → Bool} {depth : Nat} {c : Char}
    (h : (depth == 0 && isMark c) = false) (s : List Char) :
    cut isMark depth (c :: s) = (cut isMark (bracketStep depth c) s).push c := by
  simp [cut, h]

/-- The marks at which a text is cut are its marks outside brackets. -/
theorem map_fst_tail_cut (isMark : Char → Bool) (depth : Nat) (s : List Char) :
    (cut isMark depth s).tail.map Prod.fst = outerMarks isMark depth s := by
  induction s generalizing depth with
  | nil => rfl
  | cons c s ih =>
    rw [cut, outerMarks]
    split
    · simp [Cut.mark, ih]
    · simp [Cut.push, ih]

theorem mem_outerMarks {isMark : Char → Bool} {depth : Nat} {s : List Char} {c : Char}
    (h : c ∈ outerMarks isMark depth s) : isMark c = true := by
  induction s generalizing depth with
  | nil => cases h
  | cons d s ih =>
    rw [outerMarks] at h
    split at h
    · rename_i hd
      simp only [Bool.and_eq_true] at hd
      rcases List.mem_cons.1 h with rfl | h
      · exact hd.2
      · exact ih h
    · exact ih h

/-- The marks outside brackets that are of a narrower kind. -/
theorem mem_outerMarks_of_mem {isMark isFewer : Char → Bool} {depth : Nat} {s : List Char}
    {c : Char} (h : c ∈ outerMarks isMark depth s) (hc : isFewer c = true) :
    c ∈ outerMarks isFewer depth s := by
  induction s generalizing depth with
  | nil => cases h
  | cons d s ih =>
    rw [outerMarks] at h ⊢
    split at h
    · rename_i hd
      simp only [Bool.and_eq_true] at hd
      rcases List.mem_cons.1 h with rfl | h
      · simp [hd.1, hc]
      · have hmem := ih h
        split
        · exact List.mem_cons_of_mem d hmem
        · exact hmem
    · have hmem := ih h
      split
      · exact List.mem_cons_of_mem d hmem
      · exact hmem

theorem outerMarks_append (isMark : Char → Bool) (depth : Nat) (s t : List Char) :
    outerMarks isMark depth (s ++ t) =
      outerMarks isMark depth s ++ outerMarks isMark (depthAfter depth s) t := by
  induction s generalizing depth with
  | nil => rfl
  | cons c s ih =>
    rw [List.cons_append, outerMarks, outerMarks, ih]
    split <;> rfl

/-- No mark of a text stands outside brackets. -/
def Unmarked (isMark : Char → Bool) (depth : Nat) (s : List Char) : Prop :=
  outerMarks isMark depth s = []

@[simp] theorem unmarked_nil (isMark : Char → Bool) (depth : Nat) :
    Unmarked isMark depth [] := rfl

theorem unmarked_cons_iff {isMark : Char → Bool} {depth : Nat} {c : Char} {s : List Char} :
    Unmarked isMark depth (c :: s) ↔
      (depth == 0 && isMark c) = false ∧ Unmarked isMark (bracketStep depth c) s := by
  unfold Unmarked
  rw [outerMarks]
  cases h : depth == 0 && isMark c <;> simp

theorem unmarked_append_iff {isMark : Char → Bool} {depth : Nat} {s t : List Char} :
    Unmarked isMark depth (s ++ t) ↔
      Unmarked isMark depth s ∧ Unmarked isMark (depthAfter depth s) t := by
  unfold Unmarked
  rw [outerMarks_append, List.append_eq_nil_iff]

theorem cut_of_unmarked {isMark : Char → Bool} {depth : Nat} {s : List Char}
    (h : Unmarked isMark depth s) : cut isMark depth s = ⟨s, []⟩ := by
  induction s generalizing depth with
  | nil => rfl
  | cons c s ih =>
    obtain ⟨hc, hs⟩ := unmarked_cons_iff.1 h
    rw [cut_cons_push hc, ih hs]
    rfl

/-! ## Pieces -/

theorem Cut.join_nil (head : List Char) : Cut.join ⟨head, []⟩ = head := by
  simp [Cut.join]

theorem Cut.join_cons (head : List Char) (c : Char) (piece : List Char)
    (rest : List (Char × List Char)) :
    Cut.join ⟨head, (c, piece) :: rest⟩ = head ++ c :: Cut.join ⟨piece, rest⟩ := by
  simp [Cut.join]

/-- A first piece and further ones, each behind its mark, are what a text is cut into: no piece has
marks left, and a piece that another one follows ends outside brackets. -/
def Pieces (isMark : Char → Bool) : (depth : Nat) → List Char → List (Char × List Char) → Prop
  | depth, head, [] => Unmarked isMark depth head
  | depth, head, (c, piece) :: rest =>
    Unmarked isMark depth head ∧ depthAfter depth head = 0 ∧ isMark c = true ∧
      Pieces isMark 0 piece rest

/-- A kind of mark that has no brackets. -/
def BracketFree (isMark : Char → Bool) : Prop :=
  ∀ c depth, isMark c = true → bracketStep depth c = depth

theorem Pieces.push {isMark : Char → Bool} {depth : Nat} {c : Char} {head : List Char}
    {tail : List (Char × List Char)} (hc : (depth == 0 && isMark c) = false)
    (h : Pieces isMark (bracketStep depth c) head tail) :
    Pieces isMark depth (c :: head) tail := by
  cases tail with
  | nil => exact unmarked_cons_iff.2 ⟨hc, h⟩
  | cons pair rest =>
    obtain ⟨hhead, hdepth, hrest⟩ := h
    exact ⟨unmarked_cons_iff.2 ⟨hc, hhead⟩, hdepth, hrest⟩

/-- What a text is cut into are pieces. -/
theorem pieces_cut {isMark : Char → Bool} (hfree : BracketFree isMark) (depth : Nat)
    (s : List Char) : Pieces isMark depth (cut isMark depth s).head (cut isMark depth s).tail := by
  induction s generalizing depth with
  | nil => exact unmarked_nil isMark depth
  | cons c s ih =>
    cases hc : depth == 0 && isMark c with
    | true =>
      simp only [Bool.and_eq_true, beq_iff_eq] at hc
      obtain ⟨rfl, hmark⟩ := hc
      rw [cut_cons_mark hmark, hfree c 0 hmark]
      exact ⟨unmarked_nil isMark 0, rfl, hmark, ih 0⟩
    | false =>
      rw [cut_cons_push hc]
      exact (ih _).push hc

/-- A text that ends outside brackets is cut at a mark behind it, and what follows is cut anew. -/
theorem cut_append_mark {isMark : Char → Bool} (hfree : BracketFree isMark) {depth : Nat}
    {s : List Char} (hdepth : depthAfter depth s = 0) {c : Char} (hmark : isMark c = true)
    (t : List Char) :
    cut isMark depth (s ++ c :: t) =
      ⟨(cut isMark depth s).head,
        (cut isMark depth s).tail ++ (c, (cut isMark 0 t).head) :: (cut isMark 0 t).tail⟩ := by
  induction s generalizing depth with
  | nil =>
    rw [depthAfter_nil] at hdepth
    subst hdepth
    rw [List.nil_append, cut_cons_mark hmark, hfree c 0 hmark]
    rfl
  | cons d s ih =>
    rw [List.cons_append, cut, cut, ih hdepth]
    split
    · rfl
    · rfl

/-- Pieces are cut where they are joined. -/
theorem cut_join {isMark : Char → Bool} (hfree : BracketFree isMark) {depth : Nat}
    {head : List Char} {tail : List (Char × List Char)} (h : Pieces isMark depth head tail) :
    cut isMark depth (Cut.join ⟨head, tail⟩) = ⟨head, tail⟩ := by
  induction tail generalizing depth head with
  | nil =>
    rw [Cut.join_nil, cut_of_unmarked h]
  | cons pair rest ih =>
    obtain ⟨c, piece⟩ := pair
    obtain ⟨hhead, hdepth, hmark, hrest⟩ := h
    rw [Cut.join_cons, cut_append_mark hfree hdepth hmark, cut_of_unmarked hhead, ih hrest]
    rfl

end Scorecard.Text
