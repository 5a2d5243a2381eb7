import Scorecard.Proofs.Composition

/-!
# The references of a formula

A token in square brackets refers to an element by its name. The tree of a formula looks up exactly
what its tokens refer to, from left to right and as often as they do. Main statement:
`names_of_parse`.
-/

namespace Scorecard.Formula

open Attempt Element

/-- The name that a token refers to. -/
def referenceName? (token : String) : Option String :=
  (reference? token.toList).map String.ofList

theorem referenceName?_eq_some_iff {token name : String} :
    referenceName? token = some name ↔ token = "[" ++ name ++ "]" := by
  unfold referenceName?
  simp only [Option.map_eq_some_iff, reference?_eq_some_iff]
  constructor
  · intro ⟨inner, htoken, hname⟩
    rw [← hname, ← ofList_bracketed, ← htoken, String.ofList_toList]
  · intro htoken
    refine ⟨name.toList, ?_, String.ofList_toList⟩
    rw [htoken]
    simp

theorem mem_filterMap_referenceName?_iff {tokens : List String} {name : String} :
    name ∈ tokens.filterMap referenceName? ↔ "[" ++ name ++ "]" ∈ tokens := by
  simp only [List.mem_filterMap, referenceName?_eq_some_iff]
  exact exists_eq_right

section

variable {catalog : List Element}

theorem name_of_find? {name : String} {element : Element} (h : find? catalog name = some element) :
    element.name = name := by
  have hname := List.find?_some h
  exact eq_of_beq hname

/-- A token looks up what it refers to. -/
theorem names_of_classify (hcatalog : LookupsOnly catalog) {token : List Char} {element : Element}
    (h : classify catalog token = .ok element) :
    element.lookups.map Element.name = (referenceName? (String.ofList token)).toList := by
  unfold referenceName?
  rw [String.toList_ofList]
  unfold classify at h
  split at h
  · rename_i href
    rw [href]
    split at h
    · rename_i found hfind
      cases h
      rw [lookups_of_isLookup (hcatalog _ (List.mem_of_find?_eq_some hfind)), List.map_singleton,
        name_of_find? hfind]
      rfl
    · cases h
  · rename_i href
    rw [href]
    split at h
    · cases h
      rw [Calculation.toElement, lookups_node, Calculation.of, lookupsAll_nil]
      rfl
    · split at h
      · cases h
        rfl
      · cases h

theorem names_of_classifyAll (hcatalog : LookupsOnly catalog) {tokens : List (List Char)}
    {elements : List Element} (h : classifyAll catalog tokens = .ok elements) :
    (lookupsAll elements).map Element.name =
      (tokens.map String.ofList).filterMap referenceName? := by
  have hpairs := mapM_eq_ok_iff.1 h
  clear h
  induction hpairs with
  | nil => simp
  | cons hclassify _ ih =>
    rw [lookupsAll_cons, List.map_append, names_of_classify hcatalog hclassify, ih, List.map_cons]
    cases hname : referenceName? _ with
    | none => rw [List.filterMap_cons_none hname, Option.toList_none, List.nil_append]
    | some name => rw [List.filterMap_cons_some hname, Option.toList_some, List.singleton_append]

/-- A parenthesis refers to nothing. -/
theorem filterMap_filter_isProper (tokens : List (List Char)) :
    ((tokens.filter isProper).map String.ofList).filterMap referenceName? =
      (tokens.map String.ofList).filterMap referenceName? := by
  induction tokens with
  | nil => rfl
  | cons token rest ih =>
    cases hproper : isProper token with
    | true =>
      rw [List.filter_cons_of_pos hproper, List.map_cons, List.map_cons, List.filterMap_cons,
        List.filterMap_cons, ih]
    | false =>
      have hnone : referenceName? (String.ofList token) = none := by
        rcases ofList_eq_parenthesis_iff.2 hproper with htoken | htoken
        · rw [htoken]
          decide
        · rw [htoken]
          decide
      rw [List.filter_cons_of_neg (by simp [hproper]), ih, List.map_cons,
        List.filterMap_cons_none hnone]

/-- The tree of a formula looks up what its tokens refer to, in the same order. -/
theorem names_of_parse (hcatalog : LookupsOnly catalog) {formula : String} {root : Calculation}
    (h : parse catalog formula = .ok root) :
    root.lookups.map Element.name = (tokenize formula).filterMap referenceName? := by
  rcases parse_cases catalog formula with ⟨_, position, hposition⟩ | ⟨_, hfate⟩
  · rw [hposition] at h
    cases h
  · obtain ⟨elements, helements, hlookups⟩ := hfate.ok_left h
    rw [hlookups, names_of_classifyAll hcatalog helements, filterMap_filter_isProper]
    rfl

end

end Scorecard.Formula
