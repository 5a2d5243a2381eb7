/-!
# Splitting a text at a character

`split` divides a text at every occurrence of a character. There is always one piece more than
occurrences, and joining the pieces gives the text back.
-/

namespace Scorecard.Text

/-- Puts a character in front of the first piece. -/
def pushPiece (c : Char) : List (List Char) → List (List Char)
  | [] => [[c]]
  | piece :: rest => (c :: piece) :: rest

/-- The pieces between the occurrences of a character. -/
def split (separator : Char) : List Char → List (List Char)
  | [] => [[]]
  | c :: rest =>
    if c == separator then [] :: split separator rest else pushPiece c (split separator rest)

theorem split_ne_nil (separator : Char) (s : List Char) : split separator s ≠ [] := by
  cases s with
  | nil => simp [split]
  | cons c rest =>
    rw [split]
    split
    · simp
    · unfold pushPiece
      split <;> simp

theorem split_append_separator (separator : Char) (s t : List Char) :
    split separator (s ++ separator :: t) = split separator s ++ split separator t := by
  induction s with
  | nil => simp [split]
  | cons c s ih =>
    rw [List.cons_append, split, split, ih]
    split
    · rfl
    · cases hpieces : split separator s with
      | nil => exact absurd hpieces (split_ne_nil separator s)
      | cons piece rest => rfl

/-- Writes pieces with a character between them. -/
def join (separator : Char) : List (List Char) → List Char
  | [] => []
  | [piece] => piece
  | piece :: rest => piece ++ separator :: join separator rest

theorem join_split (separator : Char) (s : List Char) :
    join separator (split separator s) = s := by
  induction s with
  | nil => rfl
  | cons c rest ih =>
    rw [split]
    have hne := split_ne_nil separator rest
    cases hpieces : split separator rest with
    | nil => exact absurd hpieces hne
    | cons piece pieces =>
      rw [hpieces] at ih
      split
      · rename_i hc
        rw [join, List.nil_append, ih, eq_of_beq hc]
        simp
      · cases pieces with
        | nil => simpa [pushPiece, join] using ih
        | cons next more => simpa [pushPiece, join] using ih

end Scorecard.Text
