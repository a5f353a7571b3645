import EntitlementAuthority.Proofs.Issuance.Turn
import Mathlib.Data.List.Chain

/-!
# The moments of a run

A run passes through one state after the other, the ones inside of an operation that issues several
certificates included.

* `Operation.IsOrdinary` — what may be asked of the authority.
* `Operation.moments`, `Authority.later` — the states that an operation and a run pass through.
* `Authority.later_chain` — each is a turn away from the one before.
-/

namespace EntitlementAuthority

/-- What may be asked of the authority by anyone; revoking a serial by hand is not. -/
def Operation.IsOrdinary : Operation → Prop
  | revokeSerial _ => False
  | _ => True

namespace Authority

/-- The states that come after each item when something is done for one item after the other. -/
def momentsOfEach (f : String → Request Authority Unit) : List String → Authority → List Authority
  | [], _ => []
  | id :: ids, a =>
    match f id a with
    | (.ok _, b) => b :: momentsOfEach f ids b
    | (.error _, b) => [b]

/-- A new certificate for an entitlement, without an answer. -/
def regenerateOne (putOff : Bool) (now : Instant) (id : String) : Request Authority Unit := do
  let _ ← regenerate (.entitlement id) putOff now
  pure ()

end Authority

open Authority

/-- The states that an operation passes through: one for every certificate that is asked for. -/
def Operation.moments (now : Instant) : Operation → Authority → List Authority
  | regenerateForEnvironment environmentId contentIds putOff, a =>
    match affectedBy a.directory environmentId contentIds with
    | .error _ => []
    | .ok affected => momentsOfEach (regenerateOne putOff now) affected a
  | operation, a => [operation.apply now a]

namespace Authority

/-- The states that a run passes through after the first. -/
def later : List (Instant × Operation) → Authority → List Authority
  | [], _ => []
  | (now, operation) :: run, a => operation.moments now a ++ later run (operation.apply now a)

variable {a b : Authority} {now : Instant}

theorem getLastD_momentsOfEach (f : String → Request Authority Unit) (ids : List String)
    (a : Authority) : (momentsOfEach f ids a).getLastD a = (forEach f ids a).2 := by
  induction ids generalizing a with
  | nil => rfl
  | cons id ids ih =>
    unfold momentsOfEach forEach
    rcases hf : f id a with ⟨o, b⟩
    cases o with
    | error e =>
      rw [Request.bind_error hf]
      rfl
    | ok u =>
      rw [Request.bind_ok hf, ← ih b]
      exact List.getLastD_cons ..

/-- The last moment of an operation is the state that it leaves behind. -/
theorem getLastD_moments (operation : Operation) (now : Instant) (a : Authority) :
    (operation.moments now a).getLastD a = operation.apply now a := by
  cases operation with
  | regenerateForEnvironment environmentId contentIds putOff =>
    simp only [Operation.moments, Operation.apply]
    unfold regenerateForEnvironment
    cases haffected : affectedBy a.directory environmentId contentIds with
    | error e =>
      rw [Request.bind_error (by rw [Request.read_apply, haffected])]
      rfl
    | ok affected =>
      rw [Request.bind_ok (by rw [Request.read_apply, haffected])]
      dsimp only
      rw [getLastD_momentsOfEach]
      show _ = ((forEach (regenerateOne putOff now) affected >>= fun _ => pure affected) a).2
      rcases hs : forEach (regenerateOne putOff now) affected a with ⟨o, b⟩
      cases o with
      | error e => rw [Request.bind_error hs]
      | ok u =>
        rw [Request.bind_ok hs]
        rfl
  | _ => rfl

/-- A run leaves the state of its last moment behind. -/
theorem getLastD_later (run : List (Instant × Operation)) (a : Authority) :
    (later run a).getLastD a = run.foldl (fun b x => x.2.apply x.1 b) a := by
  induction run generalizing a with
  | nil => rfl
  | cons x run ih =>
    obtain ⟨now, operation⟩ := x
    unfold later
    rw [List.foldl_cons, ← ih, List.getLastD_eq_getLast?, List.getLast?_append,
      List.getLastD_eq_getLast?, ← getLastD_moments operation now a, List.getLastD_eq_getLast?]
    cases (later run _).getLast? <;> rfl

theorem regenerateOne_leads (putOff : Bool) (now : Instant) (id : String) (a : Authority) :
    Leads a (regenerateOne putOff now id a).2 :=
  Leads.bind (regenerate_leads (.entitlement id) putOff now a) fun _ b _ _ => Leads.refl b

theorem regenerateOne_turn (ha : a.Consistent) (putOff : Bool) (now : Instant) (id : String) :
    Turn a (regenerateOne putOff now id a).2 :=
  .bind_kept (regenerate_turn ha (.entitlement id) putOff now) fun _ b => .refl b

theorem momentsOfEach_chain (ha : a.Consistent) (putOff : Bool) (now : Instant)
    (ids : List String) :
    List.IsChain Turn (a :: momentsOfEach (regenerateOne putOff now) ids a) := by
  induction ids generalizing a with
  | nil => exact List.isChain_singleton a
  | cons id ids ih =>
    have hturn := regenerateOne_turn ha putOff now id
    have hconsistent := (regenerateOne_leads putOff now id a).consistent ha
    unfold momentsOfEach
    rcases hs : regenerateOne putOff now id a with ⟨o, b⟩
    rw [hs] at hturn hconsistent
    cases o with
    | error e => exact List.isChain_pair.2 hturn
    | ok u => exact List.isChain_cons_cons.2 ⟨hturn, ih hconsistent⟩

/-- Every moment of an operation is a turn away from the one before. -/
theorem moments_chain (ha : a.Consistent) {operation : Operation} (h : operation.IsOrdinary)
    (now : Instant) : List.IsChain Turn (a :: operation.moments now a) := by
  cases operation with
  | change c => exact List.isChain_pair.2 (.kept ⟨⟨rfl, rfl⟩, rfl⟩)
  | generate role => exact List.isChain_pair.2 (generate_turn ha role now)
  | regenerate role putOff => exact List.isChain_pair.2 (regenerate_turn ha role putOff now)
  | plainContentAccess consumerId =>
    exact List.isChain_pair.2 (plainContentAccess_turn ha consumerId now)
  | contentPayload consumerId =>
    exact List.isChain_pair.2 (.kept (contentPayloadFor_sameIssued consumerId now a))
  | flagDrifted consumerIds before after =>
    exact List.isChain_pair.2 (.kept (flagDrifted_sameIssued consumerIds before after a))
  | regenerateForEnvironment environmentId contentIds putOff =>
    simp only [Operation.moments]
    cases affectedBy a.directory environmentId contentIds with
    | error e => exact List.isChain_singleton a
    | ok affected => exact momentsOfEach_chain ha putOff now affected
  | revokeSerial id => exact h.elim
  | clearAnonymousContent => exact List.isChain_pair.2 (.kept ⟨⟨rfl, rfl⟩, rfl⟩)

/-- Chains are put together at the end of the first. -/
theorem isChain_append {α : Type} {R : α → α → Prop} {x : α} {l l' : List α}
    (h : List.IsChain R (x :: l)) (h' : List.IsChain R (l.getLastD x :: l')) :
    List.IsChain R (x :: (l ++ l')) := by
  induction l generalizing x with
  | nil => exact h'
  | cons y l ih =>
    obtain ⟨hxy, hl⟩ := List.isChain_cons_cons.1 h
    rw [List.getLastD_cons] at h'
    exact List.isChain_cons_cons.2 ⟨hxy, ih hl h'⟩

/-- **A run is a chain of turns.** -/
theorem later_chain (ha : a.Consistent) {run : List (Instant × Operation)}
    (h : ∀ x ∈ run, x.2.IsOrdinary) : List.IsChain Turn (a :: later run a) := by
  induction run generalizing a with
  | nil => exact List.isChain_singleton a
  | cons x run ih =>
    obtain ⟨now, operation⟩ := x
    have hfirst := moments_chain ha (h _ List.mem_cons_self) now
    have hrest := ih ((Operation.apply_leads operation now a).consistent ha)
      fun y hy => h y (List.mem_cons_of_mem _ hy)
    exact isChain_append hfirst ((getLastD_moments operation now a).symm ▸ hrest)

end Authority

end EntitlementAuthority
