import Scorecard.Proofs.Grouping
import Scorecard.Proofs.Partners

/-!
# Grouping a formula by slices

The fragments of a formula can be found without a stack. One scan counts the parentheses that are
open; where an outermost pair is complete, the text within is sliced out by its byte positions and
grouped in turn (`groupAt`). A slice may fail to stand between characters and an interior may fail
to be balanced, so the scan has an error for either. Neither occurs: the scan finds the fragments of
every formula that nests (`groupAt_of_nest`), and of any other it reports the leftmost parenthesis
without a partner (`BreaksAt.groupAt_eq_error`). Main statement: `grouping_outcome`.
-/

namespace Scorecard

/-! ## Slices by byte positions -/

namespace Text

/-- Divides a text at a byte position. There is nothing to divide within a character and behind the
end. -/
def splitAtByte? : (position : Nat) → List Char → Option (List Char × List Char)
  | 0, s => some ([], s)
  | _ + 1, [] => none
  | position + 1, c :: s =>
    if c.utf8Size ≤ position + 1 then
      (splitAtByte? (position + 1 - c.utf8Size) s).map fun (front, back) => (c :: front, back)
    else none

/-- The text between two byte positions. -/
def slice? (start stop : Nat) (s : List Char) : Option (List Char) :=
  (splitAtByte? stop s).bind fun (front, _) => (splitAtByte? start front).map Prod.snd

theorem splitAtByte?_append (front back : List Char) :
    splitAtByte? (byteLength front) (front ++ back) = some (front, back) := by
  induction front with
  | nil => cases back <;> rfl
  | cons c front ih =>
    have hsize : 0 < c.utf8Size := c.utf8Size_pos
    obtain ⟨n, hn⟩ : ∃ n, c.utf8Size + byteLength front = n + 1 := ⟨_, (Nat.sub_add_cancel
      (show 1 ≤ c.utf8Size + byteLength front by omega)).symm⟩
    rw [byteLength, List.cons_append, hn, splitAtByte?, if_pos (by omega),
      show n + 1 - c.utf8Size = byteLength front by omega, ih]
    rfl

theorem append_of_splitAtByte? {position : Nat} {s front back : List Char}
    (h : splitAtByte? position s = some (front, back)) :
    s = front ++ back ∧ (0 < position → 0 < front.length) := by
  induction s generalizing position front with
  | nil =>
    cases position with
    | zero => cases h; simp
    | succ position => cases h
  | cons c s ih =>
    cases position with
    | zero => cases h; simp
    | succ position =>
      rw [splitAtByte?] at h
      split at h
      · obtain ⟨⟨rest, more⟩, hrest, heq⟩ := Option.map_eq_some_iff.1 h
        cases heq
        rw [(ih hrest).1]
        simp
      · cases h

/-- A slice between the ends of a part of a text is that part. -/
theorem slice?_append (front piece back : List Char) :
    slice? (byteLength front) (byteLength front + byteLength piece) (front ++ (piece ++ back)) =
      some piece := by
  rw [← byteLength_append, ← List.append_assoc, slice?, splitAtByte?_append]
  simp [splitAtByte?_append]

/-- A slice that does not start at the beginning is shorter than the text. -/
theorem length_lt_of_slice? {start stop : Nat} {s piece : List Char} (hstart : 0 < start)
    (h : slice? start stop s = some piece) : piece.length < s.length := by
  obtain ⟨⟨front, back⟩, hfront, hpiece⟩ := Option.bind_eq_some_iff.1 h
  obtain ⟨⟨skipped, rest⟩, hrest, heq⟩ := Option.map_eq_some_iff.1 hpiece
  cases heq
  have hs := (append_of_splitAtByte? hfront).1
  obtain ⟨hsplit, hpos⟩ := append_of_splitAtByte? hrest
  have hskipped := hpos hstart
  simp only [hs, hsplit, List.length_append]
  omega

end Text

namespace Formula

open Text

/-! ## The scan -/

/-- A fragment with the slice of the formula that it covers. -/
inductive Sliced where
  | run (text : List Char) (tokens : List (List Char))
  | group (text : List Char) (contents : List Sliced)

/-- Why a text cannot be grouped by slices. -/
inductive SliceError where
  /-- A parenthesis of the text has no partner; the position counts the bytes of the formula. -/
  | unbalanced (position : Nat)
  /-- The interior of a pair of parentheses cannot be grouped. -/
  | interior
  /-- A slice starts or ends within a character. -/
  | boundary

/-- What a scan knows of the text before it: how many parentheses and brackets are open, at which
byte the run or the outermost group starts that it is in, and the complete ones, last first. -/
structure Scan where
  opened : Nat
  brackets : Nat
  start : Nat
  done : List Sliced

/-- The entry of a run, none if it is blank. -/
def sliceRun (text : List Char) : List Sliced :=
  match tokens text with
  | [] => []
  | token :: rest => [.run text (token :: rest)]

mutual

/-- Groups a text that starts at a byte of the formula. -/
def groupAt (offset : Nat) (text : List Char) : Except SliceError (List Sliced) :=
  scanFrom offset text 0 ⟨0, 0, 0, []⟩ text
termination_by (text.length, text.length + 1)

/-- Scans the rest of a text from a byte of it on. -/
def scanFrom (offset : Nat) (text : List Char) (position : Nat) (scan : Scan) :
    (rest : List Char) → Except SliceError (List Sliced)
  | [] =>
    if 0 < scan.opened then .error (.unbalanced (offset + scan.start))
    else match slice? scan.start (byteLength text) text with
      | some run => .ok (sliceRun run ++ scan.done).reverse
      | none => .error .boundary
  | c :: rest =>
    let next := position + c.utf8Size
    if c = '(' ∧ scan.brackets = 0 then
      if scan.opened = 0 then
        match slice? scan.start position text with
        | some run => scanFrom offset text next ⟨1, 0, position, sliceRun run ++ scan.done⟩ rest
        | none => .error .boundary
      else scanFrom offset text next { scan with opened := scan.opened + 1 } rest
    else if c = ')' ∧ scan.brackets = 0 then
      if scan.opened = 0 then .error (.unbalanced (offset + position))
      else if scan.opened = 1 then
        match _h : slice? (scan.start + 1) position text, slice? scan.start next text with
        | some interior, some group =>
          match groupAt (offset + (scan.start + 1)) interior with
          | .ok contents =>
            scanFrom offset text next ⟨0, 0, next, .group group contents :: scan.done⟩ rest
          | .error _ => .error .interior
        | _, _ => .error .boundary
      else scanFrom offset text next { scan with opened := scan.opened - 1 } rest
    else scanFrom offset text next { scan with brackets := bracketStep scan.brackets c } rest
termination_by rest => (text.length, rest.length)
decreasing_by
  all_goals simp_wf
  all_goals first
    | omega
    | exact .left _ _ (length_lt_of_slice? (Nat.succ_pos _) _h)

end

section

variable {offset position start opened brackets : Nat} {text rest : List Char} {scan : Scan}
  {done : List Sliced} {c : Char}

theorem utf8Size_open : '('.utf8Size = 1 := rfl

theorem utf8Size_close : ')'.utf8Size = 1 := rfl

theorem scanFrom_other (h : (scan.brackets == 0 && isParenthesis c) = false) :
    scanFrom offset text position scan (c :: rest) =
      scanFrom offset text (position + c.utf8Size)
        { scan with brackets := bracketStep scan.brackets c } rest := by
  have hopen : ¬(c = '(' ∧ scan.brackets = 0) := by
    rintro ⟨rfl, hzero⟩
    rw [hzero] at h
    cases h
  have hclose : ¬(c = ')' ∧ scan.brackets = 0) := by
    rintro ⟨rfl, hzero⟩
    rw [hzero] at h
    cases h
  rw [scanFrom, if_neg hopen, if_neg hclose]

theorem scanFrom_open_outermost {run : List Char} (hrun : slice? start position text = some run) :
    scanFrom offset text position ⟨0, 0, start, done⟩ ('(' :: rest) =
      scanFrom offset text (position + 1) ⟨1, 0, position, sliceRun run ++ done⟩ rest := by
  rw [scanFrom]
  simp [hrun, utf8Size_open]

theorem scanFrom_open_inner :
    scanFrom offset text position ⟨opened + 1, 0, start, done⟩ ('(' :: rest) =
      scanFrom offset text (position + 1) ⟨opened + 2, 0, start, done⟩ rest := by
  rw [scanFrom]
  simp [utf8Size_open]

theorem scanFrom_close_stray :
    scanFrom offset text position ⟨0, 0, start, done⟩ (')' :: rest) =
      .error (.unbalanced (offset + position)) := by
  rw [scanFrom]
  simp

theorem scanFrom_close_inner :
    scanFrom offset text position ⟨opened + 2, 0, start, done⟩ (')' :: rest) =
      scanFrom offset text (position + 1) ⟨opened + 1, 0, start, done⟩ rest := by
  rw [scanFrom]
  simp [utf8Size_close]

theorem scanFrom_close_outermost {interior group : List Char} {contents : List Sliced}
    (hinterior : slice? (start + 1) position text = some interior)
    (hgroup : slice? start (position + 1) text = some group)
    (hcontents : groupAt (offset + (start + 1)) interior = .ok contents) :
    scanFrom offset text position ⟨1, 0, start, done⟩ (')' :: rest) =
      scanFrom offset text (position + 1)
        ⟨0, 0, position + 1, .group group contents :: done⟩ rest := by
  have hopen (zero : Prop) : ¬(')' = '(' ∧ zero) := fun h => absurd h.1 (by decide)
  rw [scanFrom, if_neg (hopen _), if_pos ⟨rfl, rfl⟩, if_neg Nat.one_ne_zero, if_pos rfl]
  simp only [utf8Size_close]
  split
  · rename_i interior' group' hinterior' hgroup'
    rw [hinterior] at hinterior'
    rw [hgroup] at hgroup'
    cases hinterior'
    cases hgroup'
    rw [hcontents]
  · rename_i hnone
    exact absurd hgroup (hnone interior group hinterior)

theorem scanFrom_nil {run : List Char} (hrun : slice? start (byteLength text) text = some run) :
    scanFrom offset text position ⟨0, brackets, start, done⟩ [] =
      .ok (sliceRun run ++ done).reverse := by
  rw [scanFrom]
  simp [hrun]

/-- A scan passes over a run. -/
theorem scanFrom_run {run : List Char} (h : Unmarked isParenthesis scan.brackets run) :
    scanFrom offset text position scan (run ++ rest) =
      scanFrom offset text (position + byteLength run)
        { scan with brackets := depthAfter scan.brackets run } rest := by
  induction run generalizing position scan with
  | nil => rfl
  | cons d run ih =>
    obtain ⟨hd, hrun⟩ := unmarked_cons_iff.1 h
    rw [List.cons_append, scanFrom_other hd, ih hrun, byteLength, Nat.add_assoc]
    rfl

/-- Within a pair of parentheses a scan passes over all that is closed. -/
theorem scanFrom_contents {contents : List Nesting} (h : Regular true contents) :
    scanFrom offset text position ⟨opened + 1, 0, start, done⟩
        (Nesting.sourceAll contents ++ rest) =
      scanFrom offset text (position + byteLength (Nesting.sourceAll contents))
        ⟨opened + 1, 0, start, done⟩ rest := by
  generalize hclosed : true = closed at h
  induction h generalizing opened position rest with
  | run hrun hdepth =>
    rw [sourceAll_run, scanFrom_run hrun, hdepth hclosed.symm]
  | @group _ run inner more hrun hdepth _ _ ihinner ihmore =>
    rw [sourceAll_group, List.append_assoc, scanFrom_run hrun, hdepth, List.cons_append,
      scanFrom_open_inner, List.append_assoc, ihinner rfl, List.cons_append, scanFrom_close_inner,
      ihmore hclosed]
    simp [byteLength, Nat.add_assoc, utf8Size_open, utf8Size_close]

/-- A parenthesis that nothing in the rest of a text closes is at fault. -/
theorem scanFrom_of_opensFirst
    (h : OpensFirst opened (outerMarks isParenthesis brackets rest)) :
    scanFrom offset text position ⟨opened + 1, brackets, start, done⟩ rest =
      .error (.unbalanced (offset + start)) := by
  induction rest generalizing opened brackets position with
  | nil =>
    rw [scanFrom]
    simp
  | cons c rest ih =>
    rw [outerMarks] at h
    cases hc : brackets == 0 && isParenthesis c with
    | false =>
      rw [hc, if_neg Bool.false_ne_true] at h
      rw [scanFrom_other hc]
      exact ih h
    | true =>
      rw [hc, if_pos rfl] at h
      simp only [Bool.and_eq_true, beq_iff_eq] at hc
      obtain ⟨rfl, hmark⟩ := hc
      rw [bracketFree_isParenthesis c 0 hmark] at h
      rcases eq_of_isParenthesis hmark with rfl | rfl
      · rw [scanFrom_open_inner]
        exact ih (opensFirst_open_iff.1 h)
      · obtain ⟨hpos, hrest⟩ := opensFirst_close_iff.1 h
        obtain ⟨less, rfl⟩ := Nat.exists_eq_add_one.2 hpos
        rw [scanFrom_close_inner]
        exact ih hrest

end

/-! ## The scan of a regular tree -/

mutual

/-- A fragment with its text. -/
def Fragment.sliced : Fragment → Sliced
  | .run text tokens => .run text tokens
  | .group contents fragments =>
    .group (Fragment.group contents fragments).text (Fragment.slicedAll fragments)

/-- Several fragments with their texts. -/
def Fragment.slicedAll : List Fragment → List Sliced
  | [] => []
  | fragment :: rest => fragment.sliced :: Fragment.slicedAll rest

end

theorem Fragment.slicedAll_append (first more : List Fragment) :
    Fragment.slicedAll (first ++ more) = Fragment.slicedAll first ++ Fragment.slicedAll more := by
  induction first with
  | nil => rw [List.nil_append, Fragment.slicedAll, List.nil_append]
  | cons fragment first ih =>
    rw [List.cons_append, Fragment.slicedAll, Fragment.slicedAll, ih, List.cons_append]

theorem reverse_sliceRun (text : List Char) :
    (sliceRun text).reverse = Fragment.slicedAll (Nesting.run text).fragment := by
  rw [sliceRun, Nesting.fragment]
  cases tokens text with
  | nil => simp [Fragment.slicedAll]
  | cons token rest => simp [Fragment.slicedAll, Fragment.sliced]

/-- A scan that stands at the start of some stretches passes over them. It is in their last run
then, and has the fragments before that. -/
def ScansOver (items : List Nesting) : Prop :=
  ∀ offset text front rest done, text = front ++ (Nesting.sourceAll items ++ rest) →
    ∃ before last done',
      front ++ Nesting.sourceAll items = before ++ last ∧
      depthAfter 0 last = depthAfter 0 (Nesting.sourceAll items) ∧
      (sliceRun last ++ done').reverse =
        done.reverse ++ Fragment.slicedAll (Nesting.fragments items) ∧
      scanFrom offset text (byteLength front) ⟨0, 0, byteLength front, done⟩
          (Nesting.sourceAll items ++ rest) =
        scanFrom offset text (byteLength (front ++ Nesting.sourceAll items))
          ⟨0, depthAfter 0 last, byteLength before, done'⟩ rest

/-- Stretches that a scan passes over are grouped. -/
theorem ScansOver.groupAt {items : List Nesting} (h : ScansOver items) (offset : Nat) :
    groupAt offset (Nesting.sourceAll items) =
      .ok (Fragment.slicedAll (Nesting.fragments items)) := by
  obtain ⟨before, last, done, hsplit, _, hdone, hscan⟩ :=
    h offset (Nesting.sourceAll items) [] [] [] (by simp)
  rw [List.nil_append] at hsplit
  have hlast : slice? (byteLength before) (byteLength (Nesting.sourceAll items))
      (Nesting.sourceAll items) = some last := by
    have hslice := slice?_append before last []
    rwa [List.append_nil, ← byteLength_append, ← hsplit] at hslice
  rw [List.append_nil] at hscan
  rw [Formula.groupAt]
  show scanFrom offset _ (byteLength []) ⟨0, 0, byteLength [], []⟩ _ = _
  rw [hscan, scanFrom_nil hlast, hdone]
  rfl

theorem scansOver_run {run : List Char} (h : Unmarked isParenthesis 0 run) :
    ScansOver [.run run] := by
  intro offset text front rest done _
  refine ⟨front, run, done, by rw [sourceAll_run], by rw [sourceAll_run], ?_, ?_⟩
  · rw [List.reverse_append, reverse_sliceRun, Nesting.fragments, Nesting.fragments,
      List.append_nil]
  · rw [sourceAll_run, scanFrom_run h, byteLength_append]

/-- A scan slices a run off before a group, and then the interior of the group. -/
theorem scansOver_group {run : List Char} {contents more : List Nesting}
    (hrun : Unmarked isParenthesis 0 run) (hdepth : depthAfter 0 run = 0)
    (hcontents : Regular true contents) (hinner : ScansOver contents) (hmore : ScansOver more) :
    ScansOver (.run run :: .group contents :: more) := by
  intro offset text front rest done htext
  rw [sourceAll_group] at htext ⊢
  have hwhole : front ++ (run ++ '(' :: (Nesting.sourceAll contents ++ [')'])) ++
      (Nesting.sourceAll more ++ rest) = text := by
    rw [htext]
    simp
  obtain ⟨before, last, done', hsplit, hlast, hdone, hscan⟩ :=
    hmore offset text (front ++ (run ++ '(' :: (Nesting.sourceAll contents ++ [')']))) rest
      (.group ('(' :: (Nesting.sourceAll contents ++ [')']))
        (Fragment.slicedAll (Nesting.fragments contents)) :: (sliceRun run ++ done)) hwhole.symm
  refine ⟨before, last, done', ?_, ?_, ?_, ?_⟩
  · rw [← hsplit]
    simp
  · rw [hlast, depthAfter_append, hdepth, depthAfter_cons_parenthesis rfl, depthAfter_append,
      depthAfter_sourceAll hcontents, depthAfter_cons_parenthesis rfl]
  · rw [hdone, List.reverse_cons, List.reverse_append, reverse_sliceRun, Nesting.fragments,
      Nesting.fragments, Fragment.slicedAll_append, Fragment.slicedAll_append, Nesting.fragment,
      Nesting.fragment, Fragment.slicedAll, Fragment.slicedAll, Fragment.sliced, text_group]
    simp
  · have hrunSlice : slice? (byteLength front) (byteLength front + byteLength run) text =
        some run := by
      rw [← hwhole]
      simpa using slice?_append front run
        ('(' :: (Nesting.sourceAll contents ++ ')' :: (Nesting.sourceAll more ++ rest)))
    have hinterior : slice? (byteLength front + byteLength run + 1)
        (byteLength front + byteLength run + 1 + byteLength (Nesting.sourceAll contents)) text =
          some (Nesting.sourceAll contents) := by
      rw [← hwhole]
      simpa [byteLength, Nat.add_assoc, utf8Size_open] using slice?_append (front ++ run ++ ['('])
        (Nesting.sourceAll contents) (')' :: (Nesting.sourceAll more ++ rest))
    have hgroup : slice? (byteLength front + byteLength run)
        (byteLength front + byteLength run + 1 + byteLength (Nesting.sourceAll contents) + 1) text =
          some ('(' :: (Nesting.sourceAll contents ++ [')'])) := by
      rw [← hwhole]
      simpa [byteLength, Nat.add_assoc, utf8Size_open, utf8Size_close] using
        slice?_append (front ++ run) ('(' :: (Nesting.sourceAll contents ++ [')']))
          (Nesting.sourceAll more ++ rest)
    have hposition : byteLength (front ++ (run ++ '(' :: (Nesting.sourceAll contents ++ [')']))) =
        byteLength front + byteLength run + 1 + byteLength (Nesting.sourceAll contents) + 1 := by
      simp [byteLength, Nat.add_assoc, utf8Size_open, utf8Size_close]
    rw [hposition] at hscan
    rw [List.append_assoc, List.cons_append, List.append_assoc, List.cons_append, scanFrom_run hrun,
      hdepth, scanFrom_open_outermost hrunSlice, scanFrom_contents hcontents,
      scanFrom_close_outermost hinterior hgroup (hinner.groupAt _)]
    refine hscan.trans ?_
    simp

theorem scansOver_of_regular {closed : Bool} {items : List Nesting} (h : Regular closed items) :
    ScansOver items := by
  induction h with
  | run hrun _ => exact scansOver_run hrun
  | group hrun hdepth hcontents _ ihcontents ihrest =>
    exact scansOver_group hrun hdepth hcontents ihcontents ihrest

/-! ## The outcome of grouping -/

/-- A formula that nests is grouped into its fragments. -/
theorem groupAt_of_nest {formula : List Char} {items : List Nesting}
    (h : nest formula = .ok items) :
    groupAt 0 formula = .ok (Fragment.slicedAll (Nesting.fragments items)) := by
  have hscans := scansOver_of_regular (regular_of_nest h)
  rw [← hscans.groupAt 0, sourceAll_of_nest h]

/-- Where a formula breaks, the scan of the whole formula ends. -/
theorem BreaksAt.groupAt_eq_error {formula before after : List Char} {c : Char}
    (h : BreaksAt formula before c after) :
    groupAt 0 formula = .error (.unbalanced (byteLength before)) := by
  obtain ⟨items, hitems⟩ := exists_nest_eq_ok_iff.2 h.balanced
  have hsource := sourceAll_of_nest hitems
  obtain ⟨front, last, done, hsplit, hlast, _, hscan⟩ :=
    scansOver_of_regular (regular_of_nest hitems) 0 formula [] (c :: after) []
      (by rw [hsource, h.formula_eq, List.nil_append])
  rw [hsource, List.nil_append] at hsplit hscan
  rw [hsource, h.outside] at hlast
  have hstart : groupAt 0 formula =
      scanFrom 0 formula (byteLength before) ⟨0, 0, byteLength front, done⟩ (c :: after) := by
    rw [groupAt]
    rw [hlast, ← h.formula_eq] at hscan
    exact hscan
  rw [hstart]
  rcases h.fault with rfl | ⟨rfl, hafter⟩
  · rw [scanFrom_close_stray, Nat.zero_add]
  · have hrun : slice? (byteLength front) (byteLength before) formula = some last := by
      rw [h.formula_eq, hsplit, byteLength_append, List.append_assoc]
      exact slice?_append front last _
    rw [scanFrom_open_outermost hrun, scanFrom_of_opensFirst hafter, Nat.zero_add]

/-- A formula has fragments exactly if its parentheses outside square brackets are balanced. Then
grouping by slices finds the same fragments. Otherwise both report the byte position of the leftmost
parenthesis without a partner, which closes what is not open or, if none does, is the outermost one
that is never closed. So no slice ever starts or ends within a character, and the interior of a pair
of parentheses can always be grouped. -/
theorem grouping_outcome (formula : String) :
    ((∃ entries, fragments formula.toList = .ok entries) ↔
      Balanced (outerParentheses formula.toList)) ∧
    (∀ entries, fragments formula.toList = .ok entries →
      groupAt 0 formula.toList = .ok (Fragment.slicedAll entries)) ∧
    (¬Balanced (outerParentheses formula.toList) →
      ∃ before c after, FirstAlone formula.toList before c after ∧
        fragments formula.toList = .error (.unbalancedParentheses (byteLength before)) ∧
        groupAt 0 formula.toList = .error (.unbalanced (byteLength before))) := by
  refine ⟨?_, fun entries hentries => ?_, fun hnot => ?_⟩
  · rw [← exists_nest_eq_ok_iff]
    constructor
    · intro ⟨entries, hentries⟩
      obtain ⟨items, hitems, _⟩ := exists_nest_of_fragments hentries
      exact ⟨items, hitems⟩
    · intro ⟨items, hitems⟩
      exact ⟨Nesting.fragments items, by rw [fragments, hitems]; rfl⟩
  · obtain ⟨items, hitems, rfl⟩ := exists_nest_of_fragments hentries
    exact groupAt_of_nest hitems
  · obtain ⟨before, c, after, hbreaks⟩ := exists_breaksAt hnot
    refine ⟨before, c, after, hbreaks.firstAlone, ?_, hbreaks.groupAt_eq_error⟩
    rw [fragments, hbreaks.nest_eq_error]
    rfl

end Formula

end Scorecard
