import EntitlementAuthority.Catalog.Pool
import EntitlementAuthority.Registry.Consumer
import EntitlementAuthority.Registry.Entitlement
import EntitlementAuthority.Registry.Environment
import EntitlementAuthority.Registry.Owner
import EntitlementAuthority.Request

/-!
# The directory

All records that certificates are made from.

* `Directory` — the records by their ids.
* `Directory.owner`, `Directory.consumer`, … — looks a record up; a missing one is a fault.
* `Directory.entitledProductIds`, `Directory.activeContent` — what a consumer is entitled to and
  what an owner has.
* `Directory.setDirty`, `Directory.deleteEnvironment` — changes that may fail.
-/

namespace EntitlementAuthority

/-- The records by their ids; anonymous consumers by their uuids. -/
structure Directory where
  owners : Table String Owner
  consumers : Table String Consumer
  anonymousConsumers : Table String AnonymousConsumer
  environments : Table String Environment
  products : Table String Product
  pools : Table String Pool
  entitlements : Table String Entitlement

namespace Directory

/-- The directory without records. -/
def empty : Directory :=
  ⟨Table.empty, Table.empty, Table.empty, Table.empty, Table.empty, Table.empty, Table.empty⟩

/-! ### Looking records up -/

/-- The record with an id, or a fault that names it. -/
def find {α : Type} (what : String) (records : Table String α) (id : String) : Outcome α :=
  match records.get? id with
  | some a => .ok a
  | none => .error (.notFound (what ++ " " ++ id))

/-- The owner with an id. -/
def owner (d : Directory) (id : String) : Outcome Owner :=
  find "owner" d.owners id

/-- The consumer with an id. -/
def consumer (d : Directory) (id : String) : Outcome Consumer :=
  find "consumer" d.consumers id

/-- The anonymous consumer with a uuid. -/
def anonymousConsumer (d : Directory) (uuid : String) : Outcome AnonymousConsumer :=
  find "anonymous consumer" d.anonymousConsumers uuid

/-- The environment with an id. -/
def environment (d : Directory) (id : String) : Outcome Environment :=
  find "environment" d.environments id

/-- The product with an id. -/
def product (d : Directory) (id : String) : Outcome Product :=
  find "product" d.products id

/-- The pool with an id. -/
def pool (d : Directory) (id : String) : Outcome Pool :=
  find "pool" d.pools id

/-- The entitlement with an id. -/
def entitlement (d : Directory) (id : String) : Outcome Entitlement :=
  find "entitlement" d.entitlements id

/-- The products with the given ids; unknown ids are skipped. -/
def productsOf (d : Directory) (ids : List String) : List Product :=
  ids.filterMap d.products.get?

/-- The environments of a consumer, the one that wins first; unknown ids are skipped. -/
def environmentsOf (d : Directory) (c : Consumer) : List Environment :=
  c.environmentIds.filterMap d.environments.get?

/-- The consumers in an environment, by id. -/
def consumersIn (d : Directory) (environmentId : String) : List Consumer :=
  (d.consumers.values.filter fun c => c.environmentIds.contains environmentId).mergeSort
    fun a b => a.id ≤ b.id

/-- The entitlements of a consumer, by id. -/
def entitlementsOf (d : Directory) (consumerId : String) : List Entitlement :=
  (d.entitlements.values.filter fun e => e.consumerId == consumerId).mergeSort
    fun a b => a.id ≤ b.id

/-- The products that the entitlements of a consumer reach; missing pools are skipped. -/
def entitledProductIds (d : Directory) (consumerId : String) : List String :=
  Text.sortedSet ((d.entitlementsOf consumerId).flatMap fun e =>
    match d.pools.get? e.poolId with
    | some pool => pool.product.reach.map (·.id)
    | none => [])

/-- The contents of all pools of an owner, derived products included. -/
def activeContent (d : Directory) (ownerId : String) : List ProductContent :=
  mergeContents ((d.pools.values.filter fun p => p.ownerId == ownerId).flatMap fun p =>
    p.product.graph.flatMap (·.contents))

/-! ### Changing records -/

/-- Adds an owner, in the place of one with the same id. -/
def addOwner (o : Owner) (d : Directory) : Directory :=
  { d with owners := d.owners.insert o.id o }

/-- Adds a consumer, in the place of one with the same id. -/
def addConsumer (c : Consumer) (d : Directory) : Directory :=
  { d with consumers := d.consumers.insert c.id c }

/-- Adds an anonymous consumer, in the place of one with the same uuid. -/
def addAnonymousConsumer (c : AnonymousConsumer) (d : Directory) : Directory :=
  { d with anonymousConsumers := d.anonymousConsumers.insert c.uuid c }

/-- Adds an environment, in the place of one with the same id. -/
def addEnvironment (e : Environment) (d : Directory) : Directory :=
  { d with environments := d.environments.insert e.id e }

/-- Adds a product, in the place of one with the same id. -/
def addProduct (p : Product) (d : Directory) : Directory :=
  { d with products := d.products.insert p.id p }

/-- Adds a pool, in the place of one with the same id. -/
def addPool (p : Pool) (d : Directory) : Directory :=
  { d with pools := d.pools.insert p.id p }

/-- Adds an entitlement, in the place of one with the same id. -/
def addEntitlement (e : Entitlement) (d : Directory) : Directory :=
  { d with entitlements := d.entitlements.insert e.id e }

/-- Changes an owner. -/
def updateOwner (id : String) (f : Owner → Owner) : Request Directory Unit := do
  let o ← Request.read fun d => d.owner id
  Request.update fun d => { d with owners := d.owners.insert id (f o) }

/-- Changes a consumer. -/
def updateConsumer (id : String) (f : Consumer → Consumer) : Request Directory Unit := do
  let c ← Request.read fun d => d.consumer id
  Request.update fun d => { d with consumers := d.consumers.insert id (f c) }

/-- Changes an environment. -/
def updateEnvironment (id : String) (f : Environment → Environment) : Request Directory Unit := do
  let e ← Request.read fun d => d.environment id
  Request.update fun d => { d with environments := d.environments.insert id (f e) }

/-- Says whether the certificate of an entitlement is outdated. -/
def setDirty (id : String) (dirty : Bool) : Request Directory Unit := do
  let e ← Request.read fun d => d.entitlement id
  Request.update fun d => { d with entitlements := d.entitlements.insert id { e with dirty } }

/-- A consumer that is no longer in an environment. -/
def leave (environmentId : String) (c : Consumer) : Consumer :=
  { c with environmentIds := c.environmentIds.filter (· != environmentId) }

/-- Whether a consumer is in one environment and no other. -/
def isOnlyIn (environmentId : String) (c : Consumer) : Bool :=
  !c.environmentIds.isEmpty && (leave environmentId c).environmentIds.isEmpty

/-- The ids of the consumers that are in one environment and no other, one for each of them. -/
def onlyIn (environmentId : String) (d : Directory) : List String :=
  ((d.consumersIn environmentId).filter (isOnlyIn environmentId)).map (·.id)

/-- The directory without an environment, without the consumers that were in no other, and
without the entitlements of those. -/
def withoutEnvironment (id : String) (d : Directory) : Directory :=
  let removed := d.onlyIn id
  { d with
    environments := d.environments.erase id
    consumers := (d.consumers.filter fun key _ => !removed.contains key).mapValues (leave id)
    entitlements := d.entitlements.filter fun _ e => !removed.contains e.consumerId }

/-- Deletes an environment and answers with the ids of the consumers that had to go. What is stored
under such an id goes, whatever id the record has. -/
def deleteEnvironment (id : String) : Request Directory (List String) := do
  let _ ← Request.read fun d => d.environment id
  let removed ← Request.get (onlyIn id)
  Request.update (withoutEnvironment id)
  pure removed

end Directory

end EntitlementAuthority
