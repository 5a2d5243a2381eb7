import Mathlib.Tactic.SplitIfs
import Scorecard.CommandLine.Files

/-!
# File systems

A walk along a path steps from directory to directory, so what a path names does not change where
directories are only added (`KeepsDirectories.locate?`), and a file is found only by a path without
an idle end, such as a slash (`find?_eq_none_of_bare_ne`). What the program relies on in the files
of a system is `FileSystem.Lawful`: looking changes nothing, and a file is replaced as a whole or
stays as it is.
-/

namespace Scorecard

namespace Path

/-- What is dropped in front of a path that is written backwards ends with a slash. -/
theorem dropIdle_cases (s : List Char) :
    dropIdle s = s ∨ ∃ idle, s.reverse = (dropIdle s).reverse ++ '/' :: idle := by
  fun_induction dropIdle s with
  | case1 rest ih =>
    right
    rcases ih with heq | ⟨idle, heq⟩
    · exact ⟨[], by rw [List.reverse_cons, heq]⟩
    · exact ⟨idle ++ ['/'], by rw [List.reverse_cons, heq]; simp⟩
  | case2 rest ih =>
    right
    rcases ih with heq | ⟨idle, heq⟩
    · exact ⟨['.'], by simp [heq]⟩
    · exact ⟨idle ++ ['/', '.'], by rw [List.reverse_cons, List.reverse_cons, heq]; simp⟩
  | case3 rest => exact .inl rfl

/-- A path is bare, or a slash follows the bare path. -/
theorem bare_cases (path : String) :
    bare path = path ∨ ∃ idle, path.toList = (bare path).toList ++ '/' :: idle := by
  unfold bare withoutIdleEnd
  rcases dropIdle_cases path.toList.reverse with heq | ⟨idle, heq⟩
  · rw [heq, List.reverse_reverse]
    exact .inl String.ofList_toList
  · rw [List.reverse_reverse] at heq
    exact .inr ⟨idle, by simpa using heq⟩

example : bare "a/b.yaml/./" = "a/b.yaml" := by decide +kernel

end Path

namespace CommandLine.Store

variable {store : Store}

theorem walk_append (location : Location) (way rest : List String) :
    store.walk location (way ++ rest) =
      (store.walk location way).bind fun reached => store.walk reached rest := by
  induction way generalizing location with
  | nil => rfl
  | cons component way ih =>
    rw [List.cons_append, walk, walk]
    split
    · split
      · exact ih _
      · split <;> exact ih _
    · rfl

/-- No step leads on from what is no directory. -/
theorem walk_eq_none {location : Location} (h : store.contents location ≠ some .directory)
    {way : List String} (hway : way ≠ []) : store.walk location way = none := by
  cases way with
  | nil => exact absurd rfl hway
  | cons component rest => rw [walk, if_neg h]

/-- A path that is not bare names nothing if its bare path names no directory. -/
theorem find?_eq_none_of_bare_ne {path : String} {location : Location}
    (hidle : Path.bare path ≠ path) (hbare : store.locate? (Path.bare path) = some location)
    (h : store.contents location ≠ some .directory) : store.find? path = none := by
  obtain ⟨idle, hpath⟩ := (Path.bare_cases path).resolve_left hidle
  have hne : Path.bare path ≠ "" := by
    intro hempty
    rw [locate?, if_pos hempty] at hbare
    cases hbare
  have hhead : path.toList.head? = (Path.bare path).toList.head? := by
    rw [hpath]
    cases hchars : (Path.bare path).toList with
    | nil => exact absurd (String.toList_eq_nil_iff.1 hchars) hne
    | cons c rest => rfl
  have hcomponents : Path.components path =
      Path.components (Path.bare path) ++ (Text.split '/' idle).map String.ofList := by
    rw [Path.components, hpath, Text.split_append_separator, List.map_append]
    rfl
  have hmore : (Text.split '/' idle).map String.ofList ≠ [] := by
    rw [ne_eq, List.map_eq_nil_iff]
    exact Text.split_ne_nil '/' idle
  have hnone : store.locate? path = none := by
    rw [locate?, if_neg hne] at hbare
    unfold locate?
    split
    · rfl
    · simp only [hhead, hcomponents, walk_append]
      simp only at hbare
      rw [hbare]
      exact walk_eq_none h hmore
  rw [find?, hnone]
  rfl

/-! ## Adding directories -/

/-- The contents of the file at a location; none if there is no file. -/
def fileAt? (store : Store) (location : Location) : Option Entry :=
  (store.contents location).filter (· ≠ .directory)

theorem contents_of_fileAt? {location : Location} {entry : Entry}
    (h : store.fileAt? location = some entry) : store.contents location = some entry :=
  (Option.filter_eq_some_iff.1 h).1

/-- A file system where directories may stand in places that were free. -/
structure AddsDirectories (store made : Store) : Prop where
  workingDirectory : made.workingDirectory = store.workingDirectory
  contents : ∀ location, made.contents location = store.contents location ∨
    store.contents location = none ∧ made.contents location = some .directory

namespace AddsDirectories

variable {store made last : Store}

theorem refl (store : Store) : AddsDirectories store store :=
  ⟨rfl, fun _ => .inl rfl⟩

theorem trans (h : AddsDirectories store made) (h' : AddsDirectories made last) :
    AddsDirectories store last := by
  refine ⟨h'.workingDirectory.trans h.workingDirectory, fun location => ?_⟩
  rcases h.contents location with hsame | ⟨hfree, hnew⟩
  · rw [← hsame]
    exact h'.contents location
  · rcases h'.contents location with hsame' | ⟨hfree', _⟩
    · exact .inr ⟨hfree, hsame'.trans hnew⟩
    · rw [hnew] at hfree'
      cases hfree'

theorem fileAt? (h : AddsDirectories store made) (location : Location) :
    made.fileAt? location = store.fileAt? location := by
  unfold Store.fileAt?
  rcases h.contents location with hsame | ⟨hfree, hnew⟩
  · rw [hsame]
  · rw [hfree, hnew]
    rfl

end AddsDirectories

/-- Directories stay, and relative paths start where they did. -/
structure KeepsDirectories (store after : Store) : Prop where
  workingDirectory : after.workingDirectory = store.workingDirectory
  contents : ∀ location, store.contents location = some .directory →
    after.contents location = some .directory

namespace KeepsDirectories

variable {store after last : Store}

theorem refl (store : Store) : KeepsDirectories store store :=
  ⟨rfl, fun _ h => h⟩

theorem trans (h : KeepsDirectories store after) (h' : KeepsDirectories after last) :
    KeepsDirectories store last :=
  ⟨h'.workingDirectory.trans h.workingDirectory,
    fun location hlocation => h'.contents location (h.contents location hlocation)⟩

theorem walk (h : KeepsDirectories store after) {location reached : Location} {way : List String}
    (hwalk : store.walk location way = some reached) :
    after.walk location way = some reached := by
  induction way generalizing location with
  | nil => exact hwalk
  | cons component rest ih =>
    rw [Store.walk] at hwalk ⊢
    split at hwalk
    · rename_i hdirectory
      rw [if_pos (h.contents location hdirectory)]
      split_ifs at hwalk ⊢ <;> exact ih hwalk
    · cases hwalk

/-- A path goes on naming the location that it names. -/
theorem locate? (h : KeepsDirectories store after) {path : String} {location : Location}
    (hlocate : store.locate? path = some location) : after.locate? path = some location := by
  unfold Store.locate? at hlocate ⊢
  split
  · rename_i hempty
    rw [if_pos hempty] at hlocate
    cases hlocate
  · rename_i hne
    rw [if_neg hne] at hlocate
    rw [h.workingDirectory]
    exact h.walk hlocate

end KeepsDirectories

theorem AddsDirectories.keepsDirectories {store made : Store} (h : AddsDirectories store made) :
    KeepsDirectories store made := by
  refine ⟨h.workingDirectory, fun location hdirectory => ?_⟩
  rcases h.contents location with hsame | ⟨hfree, _⟩
  · exact hsame.trans hdirectory
  · rw [hfree] at hdirectory
    cases hdirectory

theorem keepsDirectories_put {store : Store} {location : Location} (entry : Entry)
    (h : store.contents location ≠ some .directory) :
    KeepsDirectories store (store.put location entry) := by
  refine ⟨rfl, fun other hdirectory => ?_⟩
  rw [contents_put, if_neg]
  · exact hdirectory
  · rintro rfl
    exact h hdirectory

theorem addsDirectories_put {store : Store} {location : Location}
    (h : store.contents location = none) :
    AddsDirectories store (store.put location .directory) := by
  refine ⟨rfl, fun other => ?_⟩
  rw [contents_put]
  split
  · rename_i heq
    exact .inr ⟨heq ▸ h, rfl⟩
  · exact .inl rfl

theorem addsDirectories_makeAlong (store : Store) (location : Location) (way : List String) :
    AddsDirectories store (store.makeAlong location way).2 := by
  fun_induction makeAlong store location way with
  | case1 => exact .refl _
  | case2 => assumption
  | case3 => assumption
  | case4 => exact .refl _
  | case5 store location component rest _ next hfree ih =>
    exact (addsDirectories_put hfree).trans ih

theorem addsDirectories_makeDirectories (store : Store) (path : String) :
    AddsDirectories store (store.makeDirectories path).2 :=
  addsDirectories_makeAlong store _ _

/-! ## Writing a file -/

/-- A file is replaced at the location of its bare path, or nothing changes. -/
theorem replace_cases (store : Store) (path text : String) :
    (∃ location, store.locate? (Path.bare path) = some location ∧
      store.contents location ≠ some .directory ∧
      store.replace path text = (.done, store.put location (.file text))) ∨
    ∃ replacement, replacement ≠ .done ∧ store.replace path text = (replacement, store) := by
  unfold replace
  split
  · exact .inr ⟨.notOpened, nofun, rfl⟩
  · cases hlocation : store.locate? (Path.bare path) with
    | none => exact .inr ⟨.notOpened, nofun, rfl⟩
    | some location =>
      dsimp only
      split
      · exact .inr ⟨.isDirectory, nofun, rfl⟩
      · rename_i entry hne hentry
        refine .inl ⟨location, rfl, fun hdirectory => ?_, rfl⟩
        exact hne (Option.some_inj.1 (hentry.symm.trans hdirectory))
      · rename_i hfree
        split
        · exact .inl ⟨location, rfl, by simp [hfree], rfl⟩
        · exact .inr ⟨.notOpened, nofun, rfl⟩

end CommandLine.Store

namespace CommandLine.FileSystem

/-- What is relied on in a file system whose states show a store. Looking changes nothing and tells
what is there. Making directories adds nothing else, even where it fails. A file is replaced as a
whole at the location of its bare path, or everything stays as it is. -/
structure Lawful {σ : Type} (files : FileSystem (StateM σ)) (view : σ → Store) : Prop where
  exists? : ∀ path state,
    (files.exists? path).run state = pure (((view state).find? path).isSome, state)
  read? : ∀ path state, (files.read? path).run state = pure ((view state).text? path, state)
  makeDirectories : ∀ path state,
    (view state).AddsDirectories (view ((files.makeDirectories path).run state).2)
  replace : ∀ path text state,
    ((files.replace path text).run state).1 = .done ∧
        (∃ location, (view state).locate? (Path.bare path) = some location ∧
          (view state).contents location ≠ some .directory ∧
          view ((files.replace path text).run state).2 =
            (view state).put location (.file text)) ∨
      ((files.replace path text).run state).1 ≠ .done ∧
        view ((files.replace path text).run state).2 = view state

/-- The operations on a store are lawful. -/
theorem lawful_system : Lawful Store.system id where
  exists? path store := Store.run_exists? store path
  read? path store := Store.run_read? store path
  makeDirectories path store := by
    rw [Store.run_makeDirectories]
    exact store.addsDirectories_makeDirectories path
  replace path text store := by
    rcases store.replace_cases path text with
      ⟨location, hlocation, hfile, hreplace⟩ | ⟨replacement, hne, hreplace⟩
    · rw [Store.run_replace, hreplace]
      exact .inl ⟨rfl, location, hlocation, hfile, rfl⟩
    · rw [Store.run_replace, hreplace]
      exact .inr ⟨hne, rfl⟩

end CommandLine.FileSystem

end Scorecard
