import Scorecard.Catalog
import Scorecard.Proofs.Attempt

/-!
# The elements of a catalog

The elements of a catalog are lookups, one for each definition and of its name
(`isLookup_of_mem_catalog`, `exists_mem_catalog`).
-/

namespace Scorecard

open Attempt

/-- A definition gives a lookup of its name. -/
theorem isLookup_and_name_of_element {name : String} {definition : Definition} {element : Element}
    (h : definition.element name = .ok element) :
    element.isLookup = true ∧ element.name = name := by
  unfold Definition.element at h
  split at h
  · split at h
    · split at h
      · cases h
        exact ⟨rfl, rfl⟩
      · cases h
    · cases h
    · cases h
    · cases h
    · cases h
    · obtain ⟨bands, _, hbands⟩ := bind_eq_ok_iff.1 h
      cases hbands
      exact ⟨rfl, rfl⟩
  · cases h

section

variable {definitions : NameMap Definition} {catalog : List Element}

/-- The elements of a catalog are those of the definitions, one by one. -/
theorem forall₂_of_catalogOf (h : catalogOf definitions = .ok catalog) :
    List.Forall₂ (fun (entry : String × Definition) element =>
      entry.2.element entry.1 = .ok element) definitions.entries catalog :=
  mapM_eq_ok_iff.1 h

theorem isLookup_of_mem_catalog (h : catalogOf definitions = .ok catalog) {element : Element}
    (hmem : element ∈ catalog) : element.isLookup = true := by
  obtain ⟨entry, _, helement⟩ := exists_of_mem_mapM h hmem
  exact (isLookup_and_name_of_element helement).1

/-- Every defined name has an element. -/
theorem exists_mem_catalog (h : catalogOf definitions = .ok catalog) {name : String}
    (hname : definitions.contains name = true) : ∃ element ∈ catalog, element.name = name := by
  obtain ⟨definition, hget⟩ := Option.isSome_iff_exists.1 hname
  obtain ⟨element, hcatalog, helement⟩ := exists_mem_mapM h (NameMap.get?_eq_some_iff.1 hget)
  exact ⟨element, hcatalog, (isLookup_and_name_of_element helement).2⟩

end

end Scorecard
