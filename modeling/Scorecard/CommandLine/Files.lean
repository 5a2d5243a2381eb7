import Scorecard.Path

/-!
# Files

What the program does with files, in any monad: it asks whether a path exists, reads a text, makes
directories and replaces a file as a whole. `Store` is a file system as a value, and `Store.system`
the operations on it.
-/

namespace Scorecard.CommandLine

/-- How replacing a file can end. -/
inductive Replacement where
  | done
  /-- The new file could not be opened beside the old one. -/
  | notOpened
  /-- The new file could not take the place of a directory. -/
  | isDirectory
  deriving Repr, DecidableEq

/-- The operations on files. -/
structure FileSystem (m : Type → Type) where
  /-- Whether there is a file or a directory. -/
  exists? : (path : String) → m Bool
  /-- The text of a file, if it can be read. -/
  read? : (path : String) → m (Option String)
  /-- Makes a directory and those above it; false if that fails. -/
  makeDirectories : (path : String) → m Bool
  /-- Gives a file a new text, all at once. -/
  replace : (path text : String) → m Replacement

/-! ## File systems as values -/

/-- The names on the way from the root. -/
abbrev Location := List String

/-- What is at a location. -/
inductive Entry where
  | directory
  | file (text : String)
  /-- A file whose bytes are no text. -/
  | binary (bytes : List UInt8)
  deriving Repr, DecidableEq

/-- The contents of a file system, and the directory where relative paths start. -/
structure Store where
  contents : Location → Option Entry
  workingDirectory : Location

namespace Store

/-- A file system of directories alone. -/
def ofDirectories (directories : List Location) (workingDirectory : Location) : Store where
  contents location :=
    if location = [] ∨ location ∈ directories then some .directory else none
  workingDirectory := workingDirectory

/-- Puts an entry at a location. -/
def put (store : Store) (location : Location) (entry : Entry) : Store :=
  { store with
    contents := fun other => if other = location then some entry else store.contents other }

@[simp] theorem contents_put (store : Store) (location other : Location) (entry : Entry) :
    (store.put location entry).contents other =
      if other = location then some entry else store.contents other := rfl

/-- Follows components from a location. Each step starts in a directory. -/
def walk (store : Store) (location : Location) : List String → Option Location
  | [] => some location
  | component :: rest =>
    if store.contents location = some .directory then
      if component = "" ∨ component = "." then store.walk location rest
      else if component = ".." then store.walk location.dropLast rest
      else store.walk (location ++ [component]) rest
    else none

/-- The location that a path names. The last component need not be there; the empty path names
nothing. -/
def locate? (store : Store) (path : String) : Option Location :=
  if path = "" then none
  else
    let start := if path.toList.head? = some '/' then [] else store.workingDirectory
    store.walk start (Path.components path)

/-- The entry that a path names. -/
def find? (store : Store) (path : String) : Option Entry :=
  (store.locate? path).bind store.contents

/-- The text of the file that a path names. -/
def text? (store : Store) (path : String) : Option String :=
  match store.find? path with
  | some (.file text) => some text
  | _ => none

/-- Makes the directories that are missing on the way along components, and says whether the way is
then there. If a file is in the way, what was made before stays. -/
def makeAlong (store : Store) (location : Location) : List String → Bool × Store
  | [] => (store.contents location = some .directory, store)
  | component :: rest =>
    if component = "" ∨ component = "." then store.makeAlong location rest
    else
      let next := if component = ".." then location.dropLast else location ++ [component]
      match store.contents next with
      | some .directory => store.makeAlong next rest
      | some _ => (false, store)
      | none => (store.put next .directory).makeAlong next rest

/-- Makes the directory of a path and those above it. -/
def makeDirectories (store : Store) (path : String) : Bool × Store :=
  let start := if path.toList.head? = some '/' then [] else store.workingDirectory
  store.makeAlong start (Path.components path)

/-- Gives the file of a path a new text. Its directory must be there, and the last component must
name the file. What stands idle at the end of the path does not count. -/
def replace (store : Store) (path text : String) : Replacement × Store :=
  if Path.fileName path = ['.'] ∨ Path.fileName path = ['.', '.'] then (.notOpened, store)
  else match store.locate? (Path.bare path) with
    | none => (.notOpened, store)
    | some location =>
      match store.contents location with
      | some .directory => (.isDirectory, store)
      | some _ => (.done, store.put location (.file text))
      | none =>
        if store.contents location.dropLast = some .directory then
          (.done, store.put location (.file text))
        else (.notOpened, store)

/-- The operations on a file system that is a value. -/
def system : FileSystem (StateM Store) where
  exists? path := do return ((← get).find? path).isSome
  read? path := do return (← get).text? path
  makeDirectories path := do
    let (made, store) := (← get).makeDirectories path
    set store
    return made
  replace path text := do
    let (replacement, store) := (← get).replace path text
    set store
    return replacement

@[simp] theorem run_exists? (store : Store) (path : String) :
    (system.exists? path).run store = pure ((store.find? path).isSome, store) := rfl

@[simp] theorem run_read? (store : Store) (path : String) :
    (system.read? path).run store = pure (store.text? path, store) := rfl

@[simp] theorem run_makeDirectories (store : Store) (path : String) :
    (system.makeDirectories path).run store = pure (store.makeDirectories path) := rfl

@[simp] theorem run_replace (store : Store) (path text : String) :
    (system.replace path text).run store = pure (store.replace path text) := rfl

end Store

end Scorecard.CommandLine
