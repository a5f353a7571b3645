import EntitlementAuthority.Issuance.AnonymousAccess
import EntitlementAuthority.Issuance.ContentAccess
import EntitlementAuthority.Promotion.Drift

/-!
# What can be asked of the authority

* `Authority.generate` — the certificate of a role, issued if there is none that is valid.
* `Authority.regenerate` — a new certificate for a role.
* `Authority.flagDrifted` — flags the entitlements whose certificates a change of environments
  left outdated.
* `Authority.regenerateForEnvironment` — new certificates for those who see some contents.
* `DirectoryChange` — a change of the records that certificates are issued from.
* `Operation` — a change of the records, or something that is asked of the authority.
-/

namespace EntitlementAuthority

namespace Authority

/-! ### Issuing -/

/-- What the certificate of a role will say. -/
def plan (role : Role) (now : Instant) : Request Authority Plan :=
  match role.kind with
  | .entitlement => Request.read fun a => entitlementPlan a.config a.directory role.subject now
  | .identity => Request.read fun a => identityPlan a.config a.directory role.subject now
  | .product => Request.read fun a => productPlan a.config a.directory role.subject now
  | .ueber => Request.read fun a => ueberPlan a.config a.directory role.subject now
  | .anonymousContentAccess => anonymousPlan role.subject now
  | .contentAccess => Request.read fun a => do
    match ← ContentAccess.find a.directory role.subject with
    | some x => .ok (x.plan a.config now)
    | none =>
      .error (.creation ("consumer " ++ role.subject
        ++ " is not eligible for a content access certificate"))

/-- Issues a certificate for a role. -/
def issue (role : Role) (now : Instant) : Request Authority IssuedCertificate := do
  let plan ← plan role now
  sign plan now

/-- The stored certificate of a role, if it is valid. -/
def reusable (a : Authority) (role : Role) (now : Instant) :
    Outcome (Option IssuedCertificate) :=
  match a.current? role with
  | none => .ok none
  | some c => (a.standing c now).map fun s => if s = .valid then some c else none

/-- The certificate of a role, issued if there is none that is valid. There is none for a consumer
that does not get one for content access. -/
def generate (role : Role) (now : Instant) : Request Authority (Option IssuedCertificate) :=
  if role.kind = .contentAccess then contentAccess role.subject false now
  else do
    match ← Request.read fun a => a.reusable role now with
    | some c => pure (some c)
    | none =>
      let fresh ← issue role now
      some <$> supersede fresh

/-- Puts a new certificate in the place of that of a role. If it does not fit into a legacy
certificate, the one before stays. -/
def renew (role : Role) (now : Instant) : Request Authority (Option IssuedCertificate) := do
  let previous ← Request.get fun a => a.current? role
  match ← Request.attempt (issue role now), previous with
  | .ok fresh, _ => some <$> supersede fresh
  -- any other fault is passed on, even if there is a certificate
  | .error (.tooManyContentSets ..), some c => pure (some c)
  | .error e, _ => Request.fail e

/-- A new certificate for a role. For an entitlement that may be put off: it is only flagged, and
what is asked for next is issued anew. -/
def regenerate (role : Role) (putOff : Bool) (now : Instant) :
    Request Authority (Option IssuedCertificate) :=
  match role.kind, putOff with
  | .contentAccess, _ => contentAccess role.subject true now
  | .entitlement, true => do
    onDirectory (Directory.setDirty role.subject true)
    Request.get fun a => a.current? role
  | _, _ => renew role now

/-! ### Changes of environments -/

/-- The entitlements of the consumer with some id, with the contents that they carry for a record of
the consumer. -/
def carriedBy (d : Directory) (consumerId : String) (consumer : Consumer) :
    Outcome (List EntitlementContent) :=
  (d.entitlementsOf consumerId).mapM fun e => do
    let pool ← d.pool e.poolId
    .ok ⟨e.id, consumer.id, grantedContentIds pool consumer⟩

/-- The entitlements of several consumers with the contents that they carry. They are looked up by
the ids that were asked for, whatever ids the records have. -/
def carriedByAll (d : Directory) (consumerIds : List String) :
    Outcome (List EntitlementContent) := do
  let carried ← consumerIds.mapM fun id => do
    let consumer ← d.consumer id
    carriedBy d id consumer
  .ok carried.flatten

/-- Does something for one item after the other, up to the first fault. -/
def forEach (f : String → Request Authority Unit) : List String → Request Authority Unit
  | [] => pure ()
  | id :: ids => do
    f id
    forEach f ids

/-- Flags the entitlements of consumers that carry a content whose winning environment differs
between two orderings, and answers with them. -/
def flagDrifted (consumerIds : List String) (before after : List EnvironmentPromotions) :
    Request Authority (List String) := do
  let carried ← Request.read fun a => carriedByAll a.directory consumerIds
  let drifted := driftedEntitlements carried before after
  forEach (fun id => onDirectory (Directory.setDirty id true)) drifted
  pure drifted

/-- The entitlements of the consumers in an environment that carry one of some contents. They are
looked up by the ids of the records. -/
def affectedBy (d : Directory) (environmentId : String) (contentIds : List String) :
    Outcome (List String) := do
  let carried ← (d.consumersIn environmentId).mapM fun consumer => carriedBy d consumer.id consumer
  .ok (Text.sortedSet ((carried.flatten.filter fun e =>
    Text.intersects e.contentIds contentIds).map (·.entitlementId)))

/-- Issues new certificates for the entitlements that carry one of some contents, across the
consumers in an environment, and answers with those entitlements. -/
def regenerateForEnvironment (environmentId : String) (contentIds : List String) (putOff : Bool)
    (now : Instant) : Request Authority (List String) := do
  let affected ← Request.read fun a => affectedBy a.directory environmentId contentIds
  forEach
    (fun id => do
      let _ ← regenerate (.entitlement id) putOff now
      pure ())
    affected
  pure affected

/-- The promotions of environments, in the order of their ids. -/
def promotionsOf (d : Directory) (environmentIds : List String) :
    Outcome (List EnvironmentPromotions) :=
  environmentIds.mapM fun id => (d.environment id).map Environment.reduced

end Authority

/-! ### What can happen -/

/-- A change of the records. -/
inductive DirectoryChange where
  | addOwner (o : Owner)
  | addConsumer (c : Consumer)
  | addAnonymousConsumer (c : AnonymousConsumer)
  | addEnvironment (e : Environment)
  | addProduct (p : Product)
  | addPool (p : Pool)
  | addEntitlement (e : Entitlement)
  | updateOwner (id : String) (f : Owner → Owner)
  | updateConsumer (id : String) (f : Consumer → Consumer)
  /-- Promotions and their withdrawals among others. -/
  | updateEnvironment (id : String) (f : Environment → Environment)
  | setDirty (id : String) (dirty : Bool)
  | deleteEnvironment (id : String)

namespace DirectoryChange

/-- The request that makes the change. -/
def request : DirectoryChange → Request Directory Unit
  | addOwner o => Request.update (Directory.addOwner o)
  | addConsumer c => Request.update (Directory.addConsumer c)
  | addAnonymousConsumer c => Request.update (Directory.addAnonymousConsumer c)
  | addEnvironment e => Request.update (Directory.addEnvironment e)
  | addProduct p => Request.update (Directory.addProduct p)
  | addPool p => Request.update (Directory.addPool p)
  | addEntitlement e => Request.update (Directory.addEntitlement e)
  | updateOwner id f => Directory.updateOwner id f
  | updateConsumer id f => Directory.updateConsumer id f
  | updateEnvironment id f => Directory.updateEnvironment id f
  | setDirty id dirty => Directory.setDirty id dirty
  | deleteEnvironment id => do
    let _ ← Directory.deleteEnvironment id
    pure ()

/-- The records after the change; a change that fails leaves them as they were. -/
def apply (c : DirectoryChange) (d : Directory) : Directory :=
  (c.request d).2

end DirectoryChange

/-- Something that happens to the authority. -/
inductive Operation where
  | change (c : DirectoryChange)
  | generate (role : Role)
  | regenerate (role : Role) (putOff : Bool)
  | plainContentAccess (consumerId : String)
  | contentPayload (consumerId : String)
  | flagDrifted (consumerIds : List String) (before after : List EnvironmentPromotions)
  | regenerateForEnvironment (environmentId : String) (contentIds : List String) (putOff : Bool)
  | revokeSerial (id : Nat)
  | clearAnonymousContent

/-- The state that an operation leaves behind, whether it fails or not. -/
def Operation.apply (now : Instant) : Operation → Authority → Authority
  | change c, a => (Authority.onDirectory c.request a).2
  | generate role, a => (Authority.generate role now a).2
  | regenerate role putOff, a => (Authority.regenerate role putOff now a).2
  | plainContentAccess consumerId, a => (Authority.plainContentAccess consumerId now a).2
  | contentPayload consumerId, a => (Authority.contentPayloadFor consumerId now a).2
  | flagDrifted consumerIds before after, a => (Authority.flagDrifted consumerIds before after a).2
  | regenerateForEnvironment environmentId contentIds putOff, a =>
    (Authority.regenerateForEnvironment environmentId contentIds putOff now a).2
  | revokeSerial id, a => (Authority.onSerials (SerialLedger.revoke id) a).2
  | clearAnonymousContent, a =>
    (Authority.onAnonymousContent (Request.update AnonymousCache.clear) a).2

end EntitlementAuthority
