import Scorecard.Document.Json.Reader

/-!
# JSON values

A document that is read from a JSON text has no plain words: all its words, the keys of its records
among them, are marked as text (`isJson_of_read?`). So its keys can be taken as text, and it can be
read as a text, as a number, or as a list of these, only if it is written as one.
-/

namespace Scorecard.Document

/-! ## Documents without plain words -/

/-- A document as JSON can have it: all words in it are marked as text. -/
inductive IsJson : Document → Prop where
  | null : IsJson .null
  | bool (value : Bool) : IsJson (.bool value)
  | number (value : Float) : IsJson (.number value)
  | text (content : String) : IsJson (.text content)
  | list {items : List Document} (hitems : ∀ item ∈ items, IsJson item) : IsJson (.list items)
  | record {fields : List (Word × Document)}
      (hkeys : ∀ field ∈ fields, ∃ key, field.1 = .text key)
      (hvalues : ∀ field ∈ fields, IsJson field.2) : IsJson (.record fields)

theorem allHaveNames_iff {items : List Document} :
    allHaveNames items = true ↔ ∀ item ∈ items, item.hasNames = true := by
  induction items with
  | nil => simp [allHaveNames]
  | cons item rest ih => simp [allHaveNames, ih]

theorem fieldsHaveNames_iff {fields : List (Word × Document)} :
    fieldsHaveNames fields = true ↔
      ∀ field ∈ fields, field.1.spelling?.isSome = true ∧ field.2.hasNames = true := by
  induction fields with
  | nil => simp [fieldsHaveNames]
  | cons field rest ih =>
    obtain ⟨key, value⟩ := field
    simp [fieldsHaveNames, ih]

/-- The keys in a JSON value are texts. -/
theorem IsJson.hasNames {document : Document} (h : document.IsJson) : document.hasNames = true := by
  induction h with
  | null => rfl
  | bool value => rfl
  | number value => rfl
  | text content => rfl
  | list _ ih => rwa [Document.hasNames, allHaveNames_iff]
  | record hkeys _ ih =>
    rw [Document.hasNames, fieldsHaveNames_iff]
    intro field hfield
    obtain ⟨key, hkey⟩ := hkeys field hfield
    exact ⟨by simp [hkey], ih field hfield⟩

/-- A JSON value is a text exactly if it is written as one. -/
theorem IsJson.text?_eq_some_iff {document : Document} (h : document.IsJson) {content : String} :
    document.text? = some content ↔ document = .text content := by
  cases h with
  | text other => simp [text?]
  | _ => simp [text?]

/-- A JSON value is a number exactly if it is written as one. -/
theorem IsJson.number?_eq_some_iff {document : Document} (h : document.IsJson) {value : Float} :
    document.number? = some value ↔ document = .number value := by
  cases h with
  | text other => simp [number?, Word.number?, Word.look]
  | _ => simp [number?]

/-! ## Lists of texts and of numbers -/

/-- Items that are read one by one are read as a list exactly if each of them is written as what is
read of it. -/
theorem mapM_eq_some_iff {α : Type} {read? : Document → Option α} {write : α → Document}
    {p : α → Prop} {items : List Document}
    (h : ∀ item ∈ items, ∀ a, read? item = some a ↔ item = write a ∧ p a) {as : List α} :
    items.mapM read? = some as ↔ items = as.map write ∧ ∀ a ∈ as, p a := by
  induction items generalizing as with
  | nil =>
    rw [List.mapM_nil]
    cases as <;> simp
  | cons item rest ih =>
    obtain ⟨hitem, hrest⟩ := List.forall_mem_cons.1 h
    simp only [List.mapM_cons, Option.bind_eq_bind, Option.bind_eq_some_iff, Option.pure_def,
      Option.some.injEq, hitem, ih hrest]
    cases as with
    | nil => simp
    | cons a as =>
      rw [List.map_cons, List.cons.injEq, List.forall_mem_cons]
      constructor
      · rintro ⟨b, ⟨hb, hpb⟩, bs, ⟨hbs, hpbs⟩, heq⟩
        cases heq
        exact ⟨⟨hb, hbs⟩, hpb, hpbs⟩
      · rintro ⟨⟨ha, has⟩, hpa, hpas⟩
        exact ⟨a, ⟨ha, hpa⟩, as, ⟨has, hpas⟩, rfl⟩

theorem mapM_text?_eq_some_iff {items : List Document} (h : ∀ item ∈ items, item.IsJson)
    {contents : List String} :
    items.mapM text? = some contents ↔ items = contents.map .text := by
  have hread : items.mapM text? = some contents ↔
      items = contents.map .text ∧ ∀ content ∈ contents, True :=
    mapM_eq_some_iff fun item hitem content => by
      rw [(h item hitem).text?_eq_some_iff, and_true]
  simpa using hread

theorem mapM_number?_eq_some_iff {items : List Document} (h : ∀ item ∈ items, item.IsJson)
    {values : List Float} :
    (items.mapM fun item => item.number?.filter Float.isFinite) = some values ↔
      items = values.map .number ∧ ∀ value ∈ values, value.isFinite = true :=
  mapM_eq_some_iff fun item hitem value => by
    rw [Option.filter_eq_some_iff, (h item hitem).number?_eq_some_iff]

/-! ## What is read from a text -/

namespace Json

/-- Fields as JSON can have them. -/
def FieldsAreJson (fields : List (Word × Document)) : Prop :=
  ∀ field ∈ fields, (∃ key, field.1 = .text key) ∧ field.2.IsJson

theorem FieldsAreJson.isJson {fields : List (Word × Document)} (h : FieldsAreJson fields) :
    IsJson (.record fields) :=
  .record (fun field hfield => (h field hfield).1) fun field hfield => (h field hfield).2

/-- With some fuel, only JSON values are split off. -/
structure SplitsJson (fuel : Nat) : Prop where
  value : ∀ s document rest, value? fuel s = some (document, rest) → document.IsJson
  items : ∀ s items rest, items? fuel s = some (items, rest) → ∀ item ∈ items, item.IsJson
  fields : ∀ s fields rest, fields? fuel s = some (fields, rest) → FieldsAreJson fields

section

variable {fuel : Nat} {s rest : List Char}

theorem SplitsJson.value_succ (h : SplitsJson fuel) {document : Document}
    (hread : value? (fuel + 1) s = some (document, rest)) : document.IsJson := by
  rw [value?] at hread
  split at hread
  · split at hread
    · cases hread
      exact .record (by simp) (by simp)
    · obtain ⟨⟨fields, _⟩, hfields, heq⟩ := Option.map_eq_some_iff.1 hread
      cases heq
      exact (h.fields _ _ _ hfields).isJson
  · split at hread
    · cases hread
      exact .list (by simp)
    · obtain ⟨⟨items, _⟩, hitems, heq⟩ := Option.map_eq_some_iff.1 hread
      cases heq
      exact .list (h.items _ _ _ hitems)
  · obtain ⟨⟨content, _⟩, _, heq⟩ := Option.map_eq_some_iff.1 hread
    cases heq
    exact .text content
  · cases hread
    exact .bool true
  · cases hread
    exact .bool false
  · cases hread
    exact .null
  · obtain ⟨⟨x, _⟩, _, heq⟩ := Option.map_eq_some_iff.1 hread
    cases heq
    exact .number x

theorem SplitsJson.items_succ (h : SplitsJson fuel) {items : List Document}
    (hread : items? (fuel + 1) s = some (items, rest)) : ∀ item ∈ items, item.IsJson := by
  rw [items?] at hread
  simp only [Option.bind_eq_bind, Option.bind_eq_some_iff, Prod.exists] at hread
  obtain ⟨item, more, hitem, hread⟩ := hread
  have hjson := h.value _ _ _ hitem
  split at hread
  · simp only [Option.bind_eq_some_iff, Prod.exists] at hread
    obtain ⟨others, _, hothers, hread⟩ := hread
    cases hread
    exact List.forall_mem_cons.2 ⟨hjson, h.items _ _ _ hothers⟩
  · cases hread
    exact List.forall_mem_singleton.2 hjson
  · cases hread

theorem SplitsJson.fields_succ (h : SplitsJson fuel) {fields : List (Word × Document)}
    (hread : fields? (fuel + 1) s = some (fields, rest)) : FieldsAreJson fields := by
  rw [fields?] at hread
  simp only [Option.bind_eq_bind, Option.bind_eq_some_iff, Prod.exists] at hread
  obtain ⟨name, _, _, value, more, hvalue, hread⟩ := hread
  have hjson := h.value _ _ _ hvalue
  split at hread
  · simp only [Option.bind_eq_some_iff, Prod.exists] at hread
    obtain ⟨others, _, hothers, hread⟩ := hread
    cases hread
    exact List.forall_mem_cons.2 ⟨⟨⟨name, rfl⟩, hjson⟩, h.fields _ _ _ hothers⟩
  · cases hread
    exact List.forall_mem_singleton.2 ⟨⟨name, rfl⟩, hjson⟩
  · cases hread

end

theorem splitsJson (fuel : Nat) : SplitsJson fuel := by
  induction fuel with
  | zero =>
    exact ⟨by simp [value?], by simp [items?], by simp [fields?]⟩
  | succ fuel ih =>
    exact ⟨fun _ _ _ => ih.value_succ, fun _ _ _ => ih.items_succ, fun _ _ _ => ih.fields_succ⟩

/-- What is read from a JSON text is a JSON value. -/
theorem isJson_of_read? {s : String} {document : Document} (h : read? s = some document) :
    document.IsJson := by
  unfold read? at h
  simp only at h
  split at h
  · rename_i hread
    split at h
    · cases h
      exact (splitsJson _).value _ _ _ hread
    · cases h
  · cases h

end Json

end Scorecard.Document
