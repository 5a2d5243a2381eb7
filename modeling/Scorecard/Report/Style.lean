/-!
# Styles of text

Reports for a terminal set parts of a text off by colour or weight; reports for a file do not.
-/

namespace Scorecard.Report

/-- How a part of a text is set off. -/
inductive Emphasis where
  | name
  | strong
  | faint
  deriving Repr, DecidableEq

/-- The codes that start and end an emphasis. -/
def Emphasis.codes : Emphasis → String × String
  | name => ("\x1b[36m", "\x1b[39m")
  | strong => ("\x1b[1m", "\x1b[0m")
  | faint => ("\x1b[2m", "\x1b[0m")

/-- Sets a text off if colours are asked for. -/
def paint (colors : Bool) (emphasis : Emphasis) (text : String) : String :=
  if colors then emphasis.codes.1 ++ text ++ emphasis.codes.2 else text

/-- Fills a text up with blanks at its end to a width in characters. -/
def padEnd (width : Nat) (text : String) : String :=
  text ++ String.ofList (List.replicate (width - text.length) ' ')

/-- Fills a text up with blanks at its start to a width in characters. -/
def padStart (width : Nat) (text : String) : String :=
  String.ofList (List.replicate (width - text.length) ' ') ++ text

/-- Lines with a line break between them. -/
def joinLines (lines : List String) : String :=
  "\n".intercalate lines

end Scorecard.Report
