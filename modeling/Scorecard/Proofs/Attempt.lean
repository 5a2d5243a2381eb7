import Mathlib.Data.List.Forall2

/-!
# Attempts

An attempt is a computation that gives a value or an error. A sequence of attempts succeeds if each
of them does, and otherwise ends with the error of the first one that fails. Main statements:
`mapM_eq_ok_iff` and `mapM_eq_error_iff`.
-/

namespace Scorecard.Attempt

universe u

variable {ε : Type} {α β : Type u}

@[simp] theorem ok_bind (x : α) (f : α → Except ε β) : (Except.ok x >>= f) = f x := rfl

@[simp] theorem error_bind (e : ε) (f : α → Except ε β) :
    ((Except.error e : Except ε α) >>= f) = .error e := rfl

@[simp] theorem pure_eq_ok (x : α) : (pure x : Except ε α) = .ok x := rfl

theorem bind_eq_ok_iff {x : Except ε α} {f : α → Except ε β} {b : β} :
    (x >>= f) = .ok b ↔ ∃ a, x = .ok a ∧ f a = .ok b := by
  cases x with
  | error e => simp
  | ok a => simp

theorem bind_eq_error_iff {x : Except ε α} {f : α → Except ε β} {e : ε} :
    (x >>= f) = .error e ↔ x = .error e ∨ ∃ a, x = .ok a ∧ f a = .error e := by
  cases x with
  | error e' => simp
  | ok a => simp

theorem exists_ok_or_error (x : Except ε α) : (∃ a, x = .ok a) ∨ ∃ e, x = .error e := by
  cases x with
  | error e => exact .inr ⟨e, rfl⟩
  | ok a => exact .inl ⟨a, rfl⟩

theorem eq_ok_of_toOption {x : Except ε α} {a : α} (h : x.toOption = some a) : x = .ok a := by
  cases x with
  | error e => cases h
  | ok b => exact congrArg Except.ok (Option.some_inj.1 h)

/-- An attempt of whose value something is known has a value. -/
theorem exists_ok_of_map_toOption {x : Except ε α} {f : α → β} {b : β}
    (h : x.toOption.map f = some b) : ∃ a, x = .ok a ∧ f a = b := by
  cases x with
  | error e => cases h
  | ok a => exact ⟨a, rfl, Option.some_inj.1 h⟩

/-- An attempt ends with the first of some faults, and with a value if there are none. -/
def Reports (faults : List ε) (x : Except ε α) : Prop :=
  match faults with
  | [] => ∃ a, x = .ok a
  | e :: _ => x = .error e

theorem Reports.bind {faults rest : List ε} {x : Except ε α} {f : α → Except ε β}
    (hx : Reports faults x) (hf : ∀ a, Reports rest (f a)) :
    Reports (faults ++ rest) (x >>= f) := by
  cases faults with
  | nil =>
    obtain ⟨a, rfl⟩ := hx
    exact hf a
  | cons e faults =>
    have hx : x = .error e := hx
    rw [hx]
    rfl

theorem Reports.error_mem {faults : List ε} {x : Except ε α} {e : ε} (h : Reports faults x)
    (hx : x = .error e) : e ∈ faults := by
  subst hx
  cases faults with
  | nil => obtain ⟨a, ha⟩ := h; cases ha
  | cons e' faults => cases h; exact List.mem_cons_self

theorem Reports.eq_error_iff {faults : List ε} {x : Except ε α} {e : ε} (h : Reports faults x) :
    x = .error e ↔ faults.head? = some e := by
  cases faults with
  | nil =>
    obtain ⟨a, rfl⟩ := h
    simp
  | cons e' faults =>
    have hx : x = .error e' := h
    simp [hx]

theorem Reports.exists_ok_iff {faults : List ε} {x : Except ε α} (h : Reports faults x) :
    (∃ a, x = .ok a) ↔ faults = [] := by
  cases faults with
  | nil =>
    obtain ⟨a, rfl⟩ := h
    simp
  | cons e faults =>
    have hx : x = .error e := h
    simp [hx]

/-- Two attempts fail with the same error, or they both succeed and their values agree. -/
def SameFate (agree : α → β → Prop) : Except ε α → Except ε β → Prop
  | .ok a, .ok b => agree a b
  | .error e, .error e' => e = e'
  | _, _ => False

theorem SameFate.bind {agree : α → β → Prop} {γ δ : Type u} {agree' : γ → δ → Prop}
    {x : Except ε α} {y : Except ε β} {f : α → Except ε γ} {g : β → Except ε δ}
    (h : SameFate agree x y) (hfg : ∀ a b, agree a b → SameFate agree' (f a) (g b)) :
    SameFate agree' (x >>= f) (y >>= g) := by
  cases x with
  | error e =>
    cases y with
    | error e' => exact h
    | ok b => exact h.elim
  | ok a =>
    cases y with
    | error e' => exact h.elim
    | ok b => exact hfg a b h

theorem SameFate.ok {agree : α → β → Prop} {x : Except ε α} {y : Except ε β}
    (h : SameFate agree x y) {b : β} (hy : y = .ok b) : ∃ a, x = .ok a ∧ agree a b := by
  subst hy
  cases x with
  | error e => exact h.elim
  | ok a => exact ⟨a, rfl, h⟩

theorem SameFate.error {agree : α → β → Prop} {x : Except ε α} {y : Except ε β}
    (h : SameFate agree x y) {e : ε} (hy : y = .error e) : x = .error e := by
  subst hy
  cases x with
  | error e' => exact congrArg Except.error h
  | ok a => exact h.elim

theorem SameFate.ok_left {agree : α → β → Prop} {x : Except ε α} {y : Except ε β}
    (h : SameFate agree x y) {a : α} (hx : x = .ok a) : ∃ b, y = .ok b ∧ agree a b := by
  subst hx
  cases y with
  | error e => exact h.elim
  | ok b => exact ⟨b, rfl, h⟩

theorem SameFate.error_left {agree : α → β → Prop} {x : Except ε α} {y : Except ε β}
    (h : SameFate agree x y) {e : ε} (hx : x = .error e) : y = .error e := by
  subst hx
  cases y with
  | error e' => exact congrArg Except.error (Eq.symm h)
  | ok b => exact h.elim

/-! ## Sequences -/

/-- `first` is the first of some attempts that fails, those of `before` all having succeeded. -/
def FailsFirst {γ : Type} (f : γ → Except ε β) (xs before : List γ) (first : γ) (e : ε) : Prop :=
  (∃ after, xs = before ++ first :: after) ∧ (∀ x ∈ before, ∃ b, f x = .ok b) ∧
    f first = .error e

variable {γ : Type} {δ : Type} {f : γ → Except ε δ}

theorem mapM_eq_ok_iff {xs : List γ} {ys : List δ} :
    xs.mapM f = .ok ys ↔ List.Forall₂ (fun x y => f x = .ok y) xs ys := by
  induction xs generalizing ys with
  | nil => cases ys <;> simp
  | cons x xs ih =>
    rw [List.mapM_cons, bind_eq_ok_iff]
    constructor
    · intro ⟨y, hy, hrest⟩
      obtain ⟨rest, hxs, hys⟩ := bind_eq_ok_iff.1 hrest
      cases hys
      exact .cons hy (ih.1 hxs)
    · intro h
      cases h with
      | cons hy hrest => exact ⟨_, hy, bind_eq_ok_iff.2 ⟨_, ih.2 hrest, rfl⟩⟩

theorem mapM_eq_error_iff {xs : List γ} {e : ε} :
    xs.mapM f = .error e ↔ ∃ before first, FailsFirst f xs before first e := by
  induction xs with
  | nil => simp [FailsFirst]
  | cons x xs ih =>
    rw [List.mapM_cons, bind_eq_error_iff]
    constructor
    · intro hcases
      rcases hcases with hx | ⟨y, hy, hrest⟩
      · exact ⟨[], x, ⟨xs, rfl⟩, by simp, hx⟩
      · have hxs : xs.mapM f = .error e := by
          rcases bind_eq_error_iff.1 hrest with h | ⟨_, _, h⟩
          · exact h
          · cases h
        obtain ⟨before, first, ⟨after, rfl⟩, hbefore, hfirst⟩ := ih.1 hxs
        refine ⟨x :: before, first, ⟨after, rfl⟩, ?_, hfirst⟩
        intro z hz
        rcases List.mem_cons.1 hz with rfl | hz
        · exact ⟨y, hy⟩
        · exact hbefore z hz
    · intro ⟨before, first, ⟨after, hxs⟩, hbefore, hfirst⟩
      cases before with
      | nil =>
        cases hxs
        exact .inl hfirst
      | cons z before =>
        cases hxs
        obtain ⟨y, hy⟩ := hbefore x List.mem_cons_self
        have hrest : (before ++ first :: after).mapM f = .error e :=
          ih.2 ⟨before, first, ⟨after, rfl⟩,
            fun z hz => hbefore z (List.mem_cons_of_mem x hz), hfirst⟩
        exact .inr ⟨y, hy, bind_eq_error_iff.2 (.inl hrest)⟩

theorem mapM_congr {g : γ → Except ε δ} {xs : List γ} (h : ∀ x ∈ xs, f x = g x) :
    xs.mapM f = xs.mapM g := by
  induction xs with
  | nil => rfl
  | cons x xs ih =>
    obtain ⟨hx, hxs⟩ := List.forall_mem_cons.1 h
    rw [List.mapM_cons, List.mapM_cons, hx, ih hxs]

/-- Each value of a sequence comes from a member. -/
theorem exists_of_mem_mapM {xs : List γ} {ys : List δ} (h : xs.mapM f = .ok ys) {y : δ}
    (hy : y ∈ ys) : ∃ x ∈ xs, f x = .ok y := by
  have hpairs := mapM_eq_ok_iff.1 h
  obtain ⟨i, hi, rfl⟩ := List.getElem_of_mem hy
  have hi' : i < xs.length := hpairs.length_eq ▸ hi
  exact ⟨xs[i], List.getElem_mem hi', hpairs.get hi' hi⟩

/-- Each member of a sequence has a value. -/
theorem exists_mem_mapM {xs : List γ} {ys : List δ} (h : xs.mapM f = .ok ys) {x : γ}
    (hx : x ∈ xs) : ∃ y ∈ ys, f x = .ok y := by
  have hpairs := mapM_eq_ok_iff.1 h
  obtain ⟨i, hi, rfl⟩ := List.getElem_of_mem hx
  have hi' : i < ys.length := hpairs.length_eq ▸ hi
  exact ⟨ys[i], List.getElem_mem hi', hpairs.get hi hi'⟩

theorem exists_mapM_eq_ok_iff {xs : List γ} :
    (∃ ys, xs.mapM f = .ok ys) ↔ ∀ x ∈ xs, ∃ y, f x = .ok y := by
  constructor
  · intro ⟨ys, hys⟩ x hx
    obtain ⟨y, _, hy⟩ := exists_mem_mapM hys hx
    exact ⟨y, hy⟩
  · intro h
    rcases exists_ok_or_error (xs.mapM f) with hok | ⟨e, he⟩
    · exact hok
    · obtain ⟨before, first, ⟨after, rfl⟩, _, hfirst⟩ := mapM_eq_error_iff.1 he
      obtain ⟨y, hy⟩ := h first (by simp)
      rw [hy] at hfirst
      cases hfirst

end Scorecard.Attempt
