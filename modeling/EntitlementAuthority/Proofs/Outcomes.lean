import EntitlementAuthority.Fault
import Mathlib.Data.List.Basic

/-!
# Outcomes of lists

Something that may fail is done for each member of a list; it succeeds exactly if it succeeds for
each.

* `mapM_cons_eq_ok` — the first member and the others.
* `mem_of_mapM_eq_ok` — what comes of it.
* `exists_mapM_eq_ok_iff` — when it succeeds.
* `fault?_mapM` — how it fails.
-/

namespace EntitlementAuthority

variable {ε α β : Type} {f : α → Except ε β} {x : α} {xs : List α} {y : β} {ys : List β}

theorem except_error_bind (e : ε) (f : α → Except ε β) :
    ((Except.error e : Except ε α) >>= f) = .error e := rfl

theorem except_bind_eq_ok {x : Except ε α} {y : β} :
    (x >>= f) = .ok y ↔ ∃ a, x = .ok a ∧ f a = .ok y := by
  cases x with
  | error e =>
    refine iff_of_false (fun h => by cases h) ?_
    rintro ⟨a, h, -⟩
    cases h
  | ok a =>
    constructor
    · intro h
      exact ⟨a, rfl, h⟩
    · rintro ⟨a', h, hf⟩
      cases h
      exact hf

theorem mapM_cons_eq_ok : (x :: xs).mapM f = .ok ys ↔
    ∃ first rest, f x = .ok first ∧ xs.mapM f = .ok rest ∧ ys = first :: rest := by
  rw [List.mapM_cons, except_bind_eq_ok]
  constructor
  · rintro ⟨first, hfirst, h⟩
    obtain ⟨rest, hrest, h⟩ := except_bind_eq_ok.1 h
    cases h
    exact ⟨first, rest, hfirst, hrest, rfl⟩
  · rintro ⟨first, rest, hfirst, hrest, rfl⟩
    exact ⟨first, hfirst, except_bind_eq_ok.2 ⟨rest, hrest, rfl⟩⟩

/-- What comes of a list is what comes of its members. -/
theorem mem_of_mapM_eq_ok (h : xs.mapM f = .ok ys) : y ∈ ys ↔ ∃ x ∈ xs, f x = .ok y := by
  induction xs generalizing ys with
  | nil =>
    cases h
    simp
  | cons x xs ih =>
    obtain ⟨first, rest, hfirst, hrest, rfl⟩ := mapM_cons_eq_ok.1 h
    rw [List.mem_cons, ih hrest, List.exists_mem_cons_iff, hfirst, Except.ok.injEq, eq_comm]

/-- It succeeds for a list exactly if it does for each member. -/
theorem exists_mapM_eq_ok_iff : (∃ ys, xs.mapM f = .ok ys) ↔ ∀ x ∈ xs, ∃ y, f x = .ok y := by
  induction xs with
  | nil => exact iff_of_true ⟨[], rfl⟩ nofun
  | cons x xs ih =>
    simp only [mapM_cons_eq_ok, List.forall_mem_cons, ← ih]
    constructor
    · rintro ⟨-, first, rest, hfirst, hrest, -⟩
      exact ⟨⟨first, hfirst⟩, ⟨rest, hrest⟩⟩
    · rintro ⟨⟨first, hfirst⟩, ⟨rest, hrest⟩⟩
      exact ⟨_, first, rest, hfirst, hrest, rfl⟩

/-- It fails if it can only fail in one way and does for some member. -/
theorem mapM_eq_error {e : ε} (h : ∀ x ∈ xs, f x = .error e ∨ ∃ y, f x = .ok y)
    (hfails : ∃ x ∈ xs, f x = .error e) : xs.mapM f = .error e := by
  induction xs with
  | nil =>
    obtain ⟨x, hx, -⟩ := hfails
    cases hx
  | cons x xs ih =>
    rw [List.forall_mem_cons] at h
    rw [List.mapM_cons]
    obtain ⟨hfirst | ⟨y, hfirst⟩, hrest⟩ := h
    · rw [hfirst, except_error_bind]
    · have hlater : ∃ x ∈ xs, f x = .error e := by
        obtain ⟨x', hx', hfails⟩ := hfails
        rcases List.mem_cons.1 hx' with rfl | hx'
        · rw [hfirst] at hfails
          cases hfails
        · exact ⟨x', hx', hfails⟩
      rw [hfirst, ih hrest hlater]
      rfl

/-- What went wrong, if something did. -/
def fault? : Except ε α → Option ε
  | .ok _ => none
  | .error e => some e

/-- It fails with the first fault that there is. -/
theorem fault?_mapM : fault? (xs.mapM f) = xs.findSome? fun x => fault? (f x) := by
  induction xs with
  | nil => rfl
  | cons x xs ih =>
    rw [List.mapM_cons, List.findSome?_cons, ← ih]
    cases f x with
    | error e => rfl
    | ok y => cases xs.mapM f <;> rfl

end EntitlementAuthority
