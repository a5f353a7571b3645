import EntitlementAuthority.Registry.Environment
import EntitlementAuthority.Registry.Owner
import EntitlementAuthority.Request
import EntitlementAuthority.Table

/-!
# The payload cache

Content payloads are kept by owner and payload key. A request looks for a row, builds a payload
if there is none or only a stale one, and puts it in. Two requests for one key may race: the
row that comes first stays, and the loser reads it back.

* `PayloadRow`, `PayloadRow.isStale` — a kept payload, and whether it may be outdated.
* `PayloadStore` — what the cache asks of the place where rows are kept; `PayloadRows` keeps them
  in a table.
* `PayloadCache.consult`, `PayloadCache.settle`, `PayloadCache.readBack` — the steps of a request.
* `PayloadCache.getOrCreate` — a request that nobody races with.
* `PayloadCall.advance` — the next step of a request that others race with.
-/

namespace EntitlementAuthority

/-- A kept payload. -/
structure PayloadRow where
  ownerId : String
  key : String
  /-- When the payload was begun. -/
  timestamp : Instant
  payload : String
deriving DecidableEq, Repr

/-- A row is stale if the owner's content changed when it was begun or later, or an environment
changed later. -/
def PayloadRow.isStale (row : PayloadRow) (owner : Owner) (environments : List Environment) :
    Bool :=
  row.timestamp ≤ owner.contentUpdated
    || environments.any fun e => row.timestamp < e.contentUpdated

/-! ### Where rows are kept -/

/-- What the cache asks of the place where rows are kept. -/
class PayloadStore (σ : Type) where
  /-- The row of an owner for a key. -/
  lookup : String → String → Request σ (Option PayloadRow)
  /-- Puts a row in, unless there is one for its owner and key; says whether it did. -/
  createUnique : PayloadRow → Request σ Bool
  /-- Puts a row in the place of the one for its owner and key. -/
  replace : PayloadRow → Request σ Unit

/-- Rows by owner and key. -/
abbrev PayloadRows := Table (String × String) PayloadRow

namespace PayloadRows

/-- Puts a row in, unless there is one. -/
def createUnique (row : PayloadRow) (rows : PayloadRows) : Bool × PayloadRows :=
  if rows.contains (row.ownerId, row.key) then (false, rows)
  else (true, rows.insert (row.ownerId, row.key) row)

end PayloadRows

instance : PayloadStore PayloadRows where
  lookup ownerId key := Request.get fun rows => Table.get? rows (ownerId, key)
  createUnique row := Request.state (PayloadRows.createUnique row)
  replace row := Request.update fun rows => Table.insert rows (row.ownerId, row.key) row

/-! ### The cache -/

/-- What happened so far. -/
structure CacheCounts where
  hits : Nat := 0
  misses : Nat := 0
  /-- Stale rows that were replaced. -/
  regenerations : Nat := 0
  /-- Rows that another request put in first. -/
  conflicts : Nat := 0
deriving DecidableEq, Repr

/-- Kept rows and what happened to them. -/
structure PayloadCache (σ : Type) where
  store : σ
  counts : CacheCounts

/-- What a request finds. -/
inductive Consultation where
  | fresh (row : PayloadRow)
  | stale
  | absent
deriving DecidableEq, Repr

/-- What becomes of a payload that was built. -/
inductive Settlement where
  /-- The row is in the store. -/
  | stored (row : PayloadRow)
  /-- Another request was first. -/
  | conflict
deriving DecidableEq, Repr

namespace PayloadCache

variable {σ : Type} [PayloadStore σ]

/-- The cache around a store. -/
def ofStore (store : σ) : PayloadCache σ := ⟨store, {}⟩

/-- A request on the store. -/
def onStore {α : Type} (r : Request σ α) : Request (PayloadCache σ) α :=
  Request.within PayloadCache.store (fun store c => { c with store }) r

/-- Counts something. -/
def count (f : CacheCounts → CacheCounts) : Request (PayloadCache σ) Unit :=
  Request.update fun c => { c with counts := f c.counts }

/-- The row for a key, stale or not. -/
def get (ownerId key : String) : Request (PayloadCache σ) (Option PayloadRow) :=
  onStore (PayloadStore.lookup ownerId key)

/-- Looks for a row that is not stale. -/
def consult (owner : Owner) (key : String) (environments : List Environment) :
    Request (PayloadCache σ) Consultation := do
  match ← get owner.id key with
  | none => pure .absent
  | some row =>
    if row.isStale owner environments then pure .stale
    else
      count fun c => { c with hits := c.hits + 1 }
      pure (.fresh row)

/-- Puts a row in, where a stale one was or none. -/
def settle (wasStale : Bool) (row : PayloadRow) : Request (PayloadCache σ) Settlement := do
  if wasStale then
    -- whoever replaces the row last wins; both payloads are newer than the stale one
    count fun c => { c with regenerations := c.regenerations + 1 }
    onStore (PayloadStore.replace row)
    pure (.stored row)
  else
    count fun c => { c with misses := c.misses + 1 }
    if ← onStore (PayloadStore.createUnique row) then pure (.stored row)
    else
      count fun c => { c with conflicts := c.conflicts + 1 }
      pure .conflict

/-- Reads the row that another request put in. -/
def readBack (ownerId key : String) : Request (PayloadCache σ) PayloadRow := do
  match ← get ownerId key with
  | some row => pure row
  | none => Request.fail (.creationConflict key)

/-- Puts a row in and gives the one that counts. -/
def finish (wasStale : Bool) (row : PayloadRow) : Request (PayloadCache σ) PayloadRow := do
  match ← settle wasStale row with
  | .stored row => pure row
  | .conflict => readBack row.ownerId row.key

/-- The row for a key, begun now if it has to be built. The cache is a part of a larger state, on
which a payload may be built. -/
def getOrCreate {τ : Type} (part : τ → PayloadCache σ) (put : PayloadCache σ → τ → τ)
    (owner : Owner) (key : String) (environments : List Environment) (now : Instant)
    (build : Request τ String) : Request τ PayloadRow := do
  match ← Request.within part put (consult owner key environments) with
  | .fresh row => pure row
  | found =>
    -- the stamp is from before the building, so a change in between makes the row stale
    let payload ← build
    Request.within part put
      (finish (found = .stale) { ownerId := owner.id, key, timestamp := now, payload })

end PayloadCache

/-! ### Requests that others race with -/

/-- How far a request for a payload has come. -/
inductive PayloadCall.Stage where
  /-- It has not looked for a row yet. -/
  | called
  /-- It found no row, or a stale one, and builds a payload. -/
  | building (wasStale : Bool)
  /-- It has a row to put in. -/
  | built (wasStale : Bool) (row : PayloadRow)
  /-- Another request was first, so it reads the row of that one. -/
  | reading
  | answered (answer : Outcome PayloadRow)

/-- A request for a payload, with its own copy of the owner and the environments. -/
structure PayloadCall where
  owner : Owner
  environments : List Environment

namespace PayloadCall

/-- The row for a payload that a request began to build at some instant. -/
def rowOf (call : PayloadCall) (key : String) (begun : Instant) (payload : String) : PayloadRow :=
  { ownerId := call.owner.id, key, timestamp := begun, payload }

/-- What a request for a key does next. If it builds, `payload` is what it builds and `begun` is
when it begins to. -/
def advance (call : PayloadCall) (key : String) (begun : Instant) (payload : String) :
    Stage → Request (PayloadCache PayloadRows) Stage
  | .called => do
    match ← PayloadCache.consult call.owner key call.environments with
    | .fresh row => pure (.answered (.ok row))
    | found => pure (.building (found = .stale))
  | .building wasStale => pure (.built wasStale (call.rowOf key begun payload))
  | .built wasStale row => do
    match ← PayloadCache.settle wasStale row with
    | .stored row => pure (.answered (.ok row))
    | .conflict => pure .reading
  | .reading => do
    let answer ← Request.attempt (PayloadCache.readBack call.owner.id key)
    pure (.answered answer)
  | .answered answer => pure (.answered answer)

/-- Whether a request has answered. -/
def Stage.isAnswered : Stage → Bool
  | .answered _ => true
  | _ => false

end PayloadCall

end EntitlementAuthority
