import Scorecard.Codec.Standard
import Scorecard.CommandLine.Run

/-!
# The program

Reads the arguments, runs the request on the files of the system, and prints the outcome.
-/

namespace Scorecard.CommandLine

/-- Whether an action runs without an error. -/
def succeeds {α : Type} (action : IO α) : IO Bool := do
  try
    let _ ← action
    return true
  catch _ => return false

/-- The files of the system. A file is replaced by writing a new one beside it and renaming that. -/
def systemFiles : FileSystem IO where
  exists? path := succeeds (IO.FS.Handle.mk path .read)
  read? path := do
    try return some (← IO.FS.readFile path)
    catch _ => return none
  makeDirectories path := succeeds (IO.FS.createDirAll path)
  replace path text := do
    let beside := path ++ ".new"
    if ← succeeds (IO.FS.writeFile beside text) then
      if ← succeeds (IO.FS.rename beside path) then return .done
      else return .isDirectory
    else return .notOpened

/-- Prints an outcome and gives its exit code. -/
def Outcome.report (outcome : Outcome) : IO UInt32 := do
  for diagnostic in outcome.diagnostics do
    IO.eprintln diagnostic.text
  IO.print outcome.output
  return outcome.exit.code.toUInt32

/-- Runs the program on its arguments. -/
def runProgram (arguments : List String) : IO UInt32 := do
  (← respond .standard systemFiles (← IO.getEnv "HOME") arguments).report

end Scorecard.CommandLine

/-- The program. -/
def main (arguments : List String) : IO UInt32 :=
  Scorecard.CommandLine.runProgram arguments
