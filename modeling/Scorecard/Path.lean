import Scorecard.Text.Split

/-!
# Paths

A path is a text of components between slashes. Empty components and single dots mean nothing; a
slash in front starts at the root.
-/

namespace Scorecard.Path

/-- The components of a path, empty ones included. -/
def components (path : String) : List String :=
  (Text.split '/' path.toList).map String.ofList

/-- Drops slashes and single-dot components at the start of a path that is written backwards. -/
def dropIdle : List Char → List Char
  | '/' :: rest => dropIdle rest
  | '.' :: '/' :: rest => dropIdle rest
  | rest => rest

/-- A path without the components at its end that mean nothing. -/
def withoutIdleEnd (path : List Char) : List Char :=
  (dropIdle path.reverse).reverse

/-- A path as it is written without the components at its end that mean nothing. -/
def bare (path : String) : String :=
  String.ofList (withoutIdleEnd path.toList)

/-- The path up to its last component; none if there is no component. The path of a single
component has the empty path in front. -/
def parent? (path : String) : Option String :=
  match withoutIdleEnd path.toList with
  | [] => none
  | rest =>
    let front := withoutIdleEnd (rest.reverse.dropWhile (· != '/')).reverse
    if front = [] ∧ rest.head? = some '/' then some "/" else some (String.ofList front)

/-- The last component of a path. -/
def fileName (path : String) : List Char :=
  ((withoutIdleEnd path.toList).reverse.takeWhile (· != '/')).reverse

/-- What follows the last point of a file's name; none without a point, or if the only one stands
in front. -/
def extension? (path : String) : Option (List Char) :=
  let name := fileName path
  let stem := (name.reverse.dropWhile (· != '.')).drop 1
  if stem = [] ∨ name = ['.', '.'] then none
  else some (name.reverse.takeWhile (· != '.')).reverse

end Scorecard.Path
