/-!
# Faults

What a request of the entitlement authority can fail with, and the one text each fault is
reported by.

* `Fault` — the twelve classes of failure with their details, and breaking off.
* `Fault.message` — the text shown to the caller.
* `Fault.isRecoverable` — whether the caller is expected to re-read and carry on.
-/

namespace EntitlementAuthority

/-- Why a request was not carried out. -/
inductive Fault where
  /-- A file could not be read. -/
  | io (detail : String)
  /-- A JSON text could not be read as the value it should hold. -/
  | serialization (detail : String)
  /-- A configuration text could not be read. -/
  | configuration (detail : String)
  /-- A configuration was read but one of its values is not allowed. -/
  | invalidConfiguration (detail : String)
  /-- A store refused to answer. -/
  | storage (detail : String)
  /-- The record that the request names does not exist. -/
  | notFound (what : String)
  /-- The request itself is not acceptable. -/
  | validation (detail : String)
  /-- A certificate cannot be made. -/
  | creation (reason : String)
  /-- A legacy certificate would carry more content sets than allowed. -/
  | tooManyContentSets (product : String) (count limit : Nat)
  /-- Another request created the row first, and it could not be read back. -/
  | creationConflict (key : String)
  /-- Entitlement data does not have the form it should have. -/
  | malformed (detail : String)
  /-- A signature is not one made by the key in use. -/
  | badSignature (detail : String)
  /-- There is no answer: the request broke off in the middle. -/
  | brokenOff (detail : String)
deriving DecidableEq, Repr

namespace Fault

/-- The text a fault is reported by. -/
def message : Fault → String
  | io d => "IO error: " ++ d
  | serialization d => "Serialization error: " ++ d
  | configuration d => "Configuration error: " ++ d
  | invalidConfiguration d => "Invalid configuration: " ++ d
  | storage d => "Storage error: " ++ d
  | notFound w => "Not found: " ++ w
  | validation d => "Validation error: " ++ d
  | creation r => "Certificate creation failed: " ++ r
  | tooManyContentSets p n l =>
    "Too many content sets for certificate " ++ p ++ ": " ++ toString n ++ " exceeds the limit of "
      ++ toString l ++ ". A newer client supporting compact certificates may be available to "
      ++ "address this problem"
  | creationConflict k => "Concurrent creation conflict for key: " ++ k
  | malformed d => "Malformed entitlement data: " ++ d
  | badSignature d => "Signature verification failed: " ++ d
  | brokenOff d => d

/-- Only a lost creation race is expected: the row is there, and the caller reads it again. -/
def isRecoverable : Fault → Bool
  | creationConflict _ => true
  | _ => false

/-- Whether a legacy certificate was refused for its size. -/
def isTooLarge : Fault → Bool
  | tooManyContentSets .. => true
  | _ => false

theorem isRecoverable_iff (f : Fault) : f.isRecoverable = true ↔ ∃ k, f = creationConflict k := by
  cases f <;> simp [isRecoverable]

end Fault

/-- The answer of a request that may fail. -/
abbrev Outcome (α : Type) := Except Fault α

theorem Outcome.ok_bind {α β : Type} (x : α) (f : α → Outcome β) : (Except.ok x >>= f) = f x := rfl

theorem Outcome.bind_eq_ok {α β : Type} {x : Outcome α} {f : α → Outcome β} {b : β} :
    (x >>= f) = .ok b ↔ ∃ a, x = .ok a ∧ f a = .ok b := by
  cases x with
  | error e =>
    constructor
    · intro h
      cases h
    · rintro ⟨a, h, -⟩
      cases h
  | ok a =>
    constructor
    · intro h
      exact ⟨a, rfl, h⟩
    · rintro ⟨a', h, hf⟩
      cases h
      exact hf

end EntitlementAuthority
