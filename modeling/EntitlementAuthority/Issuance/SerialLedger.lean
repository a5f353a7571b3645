import EntitlementAuthority.Request
import EntitlementAuthority.Table
import EntitlementAuthority.Time.Instant

/-!
# The ledger of serials

Every certificate has a serial of its own, entered in the ledger before the certificate is
signed. A counter gives serials their numbers, from 1 on. Serials are never removed.

* `Serial` — a serial with its number.
* `SerialLedger` — all serials and the counter; `SerialLedger.get?` is its view.
* `SerialLedger.allocate`, `SerialLedger.revoke` — its changes.
-/

namespace EntitlementAuthority

/-- A serial. -/
structure Serial where
  id : Nat
  expiration : Instant
  revoked : Bool
deriving DecidableEq, Repr

/-- Whether the serial is expired at some instant. -/
def Serial.isExpired (s : Serial) (now : Instant) : Bool :=
  s.expiration ≤ now

/-- All serials, and the number of the next one. -/
structure SerialLedger where
  nextId : Nat
  /-- The serials by their numbers, in the order in which they were entered. -/
  entries : Table Nat Serial
  id_eq : ∀ id s, entries.get? id = some s → s.id = id
  lt_nextId : ∀ id s, entries.get? id = some s → id < nextId

namespace SerialLedger

/-- The ledger without serials. -/
def empty : SerialLedger where
  nextId := 1
  entries := .empty
  id_eq := nofun
  lt_nextId := nofun

/-- How many serials there are. -/
def size (l : SerialLedger) : Nat :=
  l.entries.size

/-- The serial with a number. -/
def get? (l : SerialLedger) (id : Nat) : Option Serial :=
  l.entries.get? id

/-- Enters a serial. -/
def allocate (expiration : Instant) (l : SerialLedger) : Serial × SerialLedger :=
  let s : Serial := ⟨l.nextId, expiration, false⟩
  (s,
    { nextId := l.nextId + 1
      entries := l.entries.insert l.nextId s
      id_eq := Table.forall_insert l.id_eq rfl
      lt_nextId := Table.forall_insert (fun id s h => Nat.lt_succ_of_lt (l.lt_nextId id s h))
        (Nat.lt_succ_self _) })

/-- Marks the serial with a number, if there is one. -/
def markRevoked (id : Nat) (l : SerialLedger) : SerialLedger where
  nextId := l.nextId
  entries := l.entries.adjust id fun s => { s with revoked := true }
  id_eq := Table.forall_adjust l.id_eq fun _ _ h => h
  lt_nextId := Table.forall_adjust l.lt_nextId fun _ _ h => h

/-- Revokes a serial for good. -/
def revoke (id : Nat) : Request SerialLedger Unit := fun l =>
  match l.get? id with
  | some _ => (.ok (), l.markRevoked id)
  | none => (.error (.notFound ("serial " ++ toString id)), l)

/-- All serials. -/
def serials (l : SerialLedger) : List Serial :=
  l.entries.values

/-- The revoked serials by their numbers. -/
def revoked (l : SerialLedger) : List Serial :=
  (l.serials.filter (·.revoked)).mergeSort fun s t => s.id ≤ t.id

theorem get?_allocate (expiration : Instant) (l : SerialLedger) (id : Nat) :
    (l.allocate expiration).2.get? id =
      if id = l.nextId then some (l.allocate expiration).1 else l.get? id := by
  simp only [get?, allocate, Table.get?_insert, eq_comm]

theorem get?_markRevoked (id id' : Nat) (l : SerialLedger) :
    (l.markRevoked id).get? id' =
      if id = id' then (l.get? id').map fun s => { s with revoked := true } else l.get? id' := by
  simp only [get?, markRevoked, Table.get?_adjust, eq_comm]

end SerialLedger

end EntitlementAuthority
