import EntitlementAuthority.Fault

/-!
# Requests

A request answers or fails, and either way leaves a state behind.

* `Request` — a request on a state.
* `Request.ofOutcome`, `Request.read`, `Request.fail` — requests that change nothing.
* `Request.update`, `Request.state` — requests that cannot fail.
* `Request.attempt` — a request whose fault is an answer.
* `Request.within` — a request on a part of a larger state.
-/

namespace EntitlementAuthority

/-- A request on a state of type `σ` that answers with an `α`. What was done before a fault is
not undone. -/
def Request (σ α : Type) : Type :=
  σ → Outcome α × σ

namespace Request

variable {σ τ α β : Type}

/-- Does two things, the second only if the first did not fail. -/
def andThen (r : Request σ α) (f : α → Request σ β) : Request σ β := fun s =>
  match r s with
  | (.ok a, s) => f a s
  | (.error e, s) => (.error e, s)

instance : Monad (Request σ) where
  pure a := fun s => (.ok a, s)
  bind := andThen

theorem pure_apply (a : α) (s : σ) : (pure a : Request σ α) s = (.ok a, s) := rfl

theorem bind_apply (r : Request σ α) (f : α → Request σ β) (s : σ) :
    (r >>= f) s = match r s with
      | (.ok a, s) => f a s
      | (.error e, s) => (.error e, s) := rfl

theorem bind_ok {r : Request σ α} {f : α → Request σ β} {s t : σ} {a : α} (h : r s = (.ok a, t)) :
    (r >>= f) s = f a t := by
  simp [bind_apply, h]

theorem bind_error {r : Request σ α} {f : α → Request σ β} {s t : σ} {e : Fault}
    (h : r s = (.error e, t)) : (r >>= f) s = (.error e, t) := by
  simp [bind_apply, h]

/-- A request that has succeeded so far went through its first part. -/
theorem bind_eq_ok {r : Request σ α} {f : α → Request σ β} {s u : σ} {b : β} :
    (r >>= f) s = (.ok b, u) ↔ ∃ a t, r s = (.ok a, t) ∧ f a t = (.ok b, u) := by
  rw [bind_apply]
  constructor
  · intro h
    split at h
    · rename_i a t ht
      exact ⟨a, t, ht, h⟩
    · simp at h
  · rintro ⟨a, t, ht, h⟩
    simp [ht, h]

/-- An answer that is known. -/
def ofOutcome (o : Outcome α) : Request σ α := fun s => (o, s)

/-- Fails. -/
def fail (e : Fault) : Request σ α := fun s => (.error e, s)

/-- An answer that depends on the state. -/
def read (f : σ → Outcome α) : Request σ α := fun s => (f s, s)

/-- The state. -/
def get (f : σ → α) : Request σ α := fun s => (.ok (f s), s)

/-- Changes the state. -/
def update (f : σ → σ) : Request σ Unit := fun s => (.ok (), f s)

/-- Answers and changes the state. -/
def state (f : σ → α × σ) : Request σ α := fun s => ((.ok (f s).1), (f s).2)

/-- Does something and answers with how it went. -/
def attempt (r : Request σ α) : Request σ (Outcome α) := fun s => (.ok (r s).1, (r s).2)

/-- A request on a part of the state. -/
def within (part : σ → τ) (put : τ → σ → σ) (r : Request τ α) : Request σ α := fun s =>
  let (a, t) := r (part s)
  (a, put t s)

@[simp] theorem ofOutcome_apply (o : Outcome α) (s : σ) : ofOutcome o s = (o, s) := rfl
@[simp] theorem fail_apply (e : Fault) (s : σ) : (fail e : Request σ α) s = (.error e, s) := rfl
@[simp] theorem read_apply (f : σ → Outcome α) (s : σ) : read f s = (f s, s) := rfl
@[simp] theorem get_apply (f : σ → α) (s : σ) : get f s = (.ok (f s), s) := rfl
@[simp] theorem update_apply (f : σ → σ) (s : σ) : update f s = (.ok (), f s) := rfl
@[simp] theorem state_apply (f : σ → α × σ) (s : σ) : state f s = (.ok (f s).1, (f s).2) := rfl
@[simp] theorem attempt_apply (r : Request σ α) (s : σ) :
    attempt r s = (.ok (r s).1, (r s).2) := rfl
@[simp] theorem within_apply (part : σ → τ) (put : τ → σ → σ) (r : Request τ α) (s : σ) :
    within part put r s = ((r (part s)).1, put (r (part s)).2 s) := rfl

theorem within_ok {part : σ → τ} {put : τ → σ → σ} {r : Request τ α} {s : σ} {a : α} {t : τ}
    (h : r (part s) = (.ok a, t)) : within part put r s = (.ok a, put t s) := by
  rw [within_apply, h]

end Request

end EntitlementAuthority
