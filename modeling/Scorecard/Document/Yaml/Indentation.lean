/-!
# Indentation

A block is a list or a record whose items or fields start in one column. Blocks stand inside each
other with rising columns. What stands on a line of its own for an item or a field starts further in
than the block; this room for a value is a level too, until a block takes it.
-/

namespace Scorecard.Document.Yaml

/-- A level of indentation. -/
structure Level where
  /-- The first column of what stands at the level. -/
  column : Nat
  /-- Whether a block starts at the column, or it is room for a value. -/
  isBlock : Bool
  deriving Repr, DecidableEq

/-- The open levels, from the innermost out. -/
abbrev Levels := List Level

namespace Levels

/-- The column of the innermost level, zero if there is none. -/
def column : Levels → Nat
  | [] => 0
  | level :: _ => level.column

/-- The first column behind the one of the innermost level. -/
def margin : Levels → Nat
  | [] => 0
  | level :: _ => level.column + 1

/-- Whether a block is innermost and starts in a column. -/
def isBlockAt (column : Nat) : Levels → Bool
  | [] => false
  | level :: _ => level.isBlock && level.column == column

/-- Leaves the levels that start behind a column. Says how many blocks end so. -/
def leave (column : Nat) : Levels → Nat × Levels
  | [] => (0, [])
  | level :: rest =>
    if column < level.column then
      let (ended, rest) := leave column rest
      (if level.isBlock then ended + 1 else ended, rest)
    else (0, level :: rest)

/-- The number of blocks. -/
def blocks (levels : Levels) : Nat :=
  levels.countP (·.isBlock)

/-- Enters a block at a column; none if it does not start further in than the innermost one. Room
for a value gives way to it. -/
def enter? (column : Nat) : Levels → Option Levels
  | [] => some [⟨column, true⟩]
  | level :: rest =>
    if level.isBlock then
      if level.column < column then some (⟨column, true⟩ :: level :: rest) else none
    else if level.column ≤ column then some (⟨column, true⟩ :: rest)
    else none

/-- Makes room for a value behind the column of the innermost block. -/
def makeRoom : Levels → Levels
  | [] => []
  | level :: rest =>
    if level.isBlock then ⟨level.column + 1, false⟩ :: level :: rest else level :: rest

/-- Leaves room for values. -/
def dropRoom (levels : Levels) : Levels :=
  levels.dropWhile (!·.isBlock)

end Levels

end Scorecard.Document.Yaml
