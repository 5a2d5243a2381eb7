/-!
# Maps from names

A finite map from names to values, kept as one list of entries in strictly ascending order of the
names (by code point). The order and the uniqueness of the names are part of the type, so every
listing of a map is in name order. Main statements: `get?_insert` and `get?_ofList`.
-/

namespace Scorecard

namespace NameMap

/-- Puts an entry at its place in an ascending list, in place of an entry of the same name. -/
def place {α : Type} (name : String) (value : α) : List (String × α) → List (String × α)
  | [] => [(name, value)]
  | (other, old) :: rest =>
    if name < other then (name, value) :: (other, old) :: rest
    else if other < name then (other, old) :: place name value rest
    else (name, value) :: rest

theorem eq_of_not_lt {a b : String} (hab : ¬a < b) (hba : ¬b < a) : a = b :=
  String.le_antisymm (String.not_lt.1 hba) (String.not_lt.1 hab)

theorem mem_place {α : Type} {name : String} {value : α} {entries : List (String × α)}
    {entry : String × α} (h : entry ∈ place name value entries) :
    entry = (name, value) ∨ entry ∈ entries := by
  induction entries with
  | nil => simpa [place] using h
  | cons first rest ih =>
    obtain ⟨other, old⟩ := first
    rw [place] at h
    split at h
    · simpa using h
    · split at h
      · rcases List.mem_cons.1 h with h | h
        · simp [h]
        · rcases ih h with h | h <;> simp [h]
      · rcases List.mem_cons.1 h with h | h <;> simp [h]

theorem pairwise_place {α : Type} (name : String) (value : α) {entries : List (String × α)}
    (h : entries.Pairwise fun a b => a.1 < b.1) :
    (place name value entries).Pairwise fun a b => a.1 < b.1 := by
  induction entries with
  | nil => simp [place]
  | cons first rest ih =>
    obtain ⟨other, old⟩ := first
    obtain ⟨hfirst, hrest⟩ := List.pairwise_cons.1 h
    rw [place]
    split
    · rename_i hlt
      refine List.pairwise_cons.2 ⟨fun entry hentry => ?_, h⟩
      rcases List.mem_cons.1 hentry with rfl | hentry
      · exact hlt
      · exact String.lt_trans hlt (hfirst entry hentry)
    · rename_i hge
      split
      · rename_i hgt
        refine List.pairwise_cons.2 ⟨fun entry hentry => ?_, ih hrest⟩
        rcases mem_place hentry with rfl | hentry
        · exact hgt
        · exact hfirst entry hentry
      · rename_i hle
        have heq : name = other := eq_of_not_lt hge hle
        exact List.pairwise_cons.2 ⟨fun entry hentry => heq ▸ hfirst entry hentry, hrest⟩

end NameMap

/-- A finite map from names to values. -/
structure NameMap (α : Type) where
  entries : List (String × α)
  ascending : entries.Pairwise fun a b => a.1 < b.1
  deriving DecidableEq

namespace NameMap

variable {α : Type}

/-- The map without entries. -/
def empty : NameMap α :=
  ⟨[], .nil⟩

instance : Inhabited (NameMap α) :=
  ⟨empty⟩

/-- The value of a name. -/
def get? (map : NameMap α) (name : String) : Option α :=
  map.entries.lookup name

/-- Whether a name has a value. -/
def contains (map : NameMap α) (name : String) : Bool :=
  (map.get? name).isSome

/-- Gives a name a value, in place of an earlier one. -/
def insert (map : NameMap α) (name : String) (value : α) : NameMap α :=
  ⟨place name value map.entries, pairwise_place name value map.ascending⟩

/-- Enters pairs one after the other; the last value of a name wins. -/
def insertMany (map : NameMap α) (pairs : List (String × α)) : NameMap α :=
  pairs.foldl (fun map (name, value) => map.insert name value) map

/-- The map of a list of pairs; the last value of a name wins. -/
def ofList (pairs : List (String × α)) : NameMap α :=
  empty.insertMany pairs

theorem lookup_cons_eq (key name : String) (value : α) (entries : List (String × α)) :
    ((key, value) :: entries).lookup name =
      if name = key then some value else entries.lookup name := by
  by_cases h : name = key <;> simp [List.lookup_cons, h, beq_eq_false_iff_ne.2]

theorem lookup_place (name other : String) (value : α) {entries : List (String × α)} :
    (place name value entries).lookup other =
      if other = name then some value else entries.lookup other := by
  induction entries with
  | nil => rw [place, lookup_cons_eq]
  | cons first rest ih =>
    obtain ⟨key, old⟩ := first
    rw [place]
    split
    · simp only [lookup_cons_eq]
    · rename_i hge
      split
      · rename_i hgt
        have hne : key ≠ name := fun heq => String.lt_irrefl name (heq ▸ hgt)
        rw [lookup_cons_eq, lookup_cons_eq, ih]
        by_cases h : other = key <;> simp [h, hne]
      · rename_i hle
        have heq : name = key := eq_of_not_lt hge hle
        subst heq
        rw [lookup_cons_eq, lookup_cons_eq]
        by_cases h : other = name <;> simp [h]

theorem lookup_eq_some_iff {name : String} {value : α} {entries : List (String × α)}
    (h : entries.Pairwise fun a b => a.1 < b.1) :
    entries.lookup name = some value ↔ (name, value) ∈ entries := by
  induction entries with
  | nil => simp
  | cons first rest ih =>
    obtain ⟨key, old⟩ := first
    obtain ⟨hfirst, hrest⟩ := List.pairwise_cons.1 h
    rw [lookup_cons_eq, List.mem_cons, Prod.mk.injEq]
    split
    · rename_i heq
      have hnot : (name, value) ∉ rest := fun hmem =>
        String.lt_irrefl name (heq ▸ hfirst (name, value) hmem)
      simp [heq ▸ hnot, heq, eq_comm]
    · rename_i hne
      rw [ih hrest]
      simp [hne]

/-- A name has the value of its entry. -/
theorem get?_eq_some_iff {map : NameMap α} {name : String} {value : α} :
    map.get? name = some value ↔ (name, value) ∈ map.entries :=
  lookup_eq_some_iff map.ascending

/-- After an entry its name has the new value, and every other name what it had. -/
@[simp] theorem get?_insert (map : NameMap α) (name other : String) (value : α) :
    (map.insert name value).get? other = if other = name then some value else map.get? other :=
  lookup_place name other value

/-- A name has its last value among the pairs, and else what it had. -/
theorem get?_insertMany (map : NameMap α) (pairs : List (String × α)) (name : String) :
    (map.insertMany pairs).get? name = (pairs.reverse.lookup name <|> map.get? name) := by
  induction pairs generalizing map with
  | nil => simp [insertMany]
  | cons pair rest ih =>
    obtain ⟨key, value⟩ := pair
    have hstep : map.insertMany ((key, value) :: rest) = (map.insert key value).insertMany rest :=
      rfl
    rw [hstep, ih, get?_insert, List.reverse_cons, List.lookup_append, lookup_cons_eq]
    by_cases h : name = key <;> cases rest.reverse.lookup name <;> simp [h]

/-- The value of a name in the map of a list is the last one in the list. -/
theorem get?_ofList (pairs : List (String × α)) (name : String) :
    (ofList pairs).get? name = pairs.reverse.lookup name := by
  rw [ofList, get?_insertMany]
  simp [get?, empty]

end NameMap

end Scorecard
