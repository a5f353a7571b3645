import EntitlementAuthority.Issuance.Authority
import EntitlementAuthority.Issuance.Plans
import EntitlementAuthority.Payload.Key

/-!
# Certificates for content access

A consumer whose owner uses simple content access needs no entitlements. Its certificate names
the directories of its environments; the payload lists everything the owner has. Consumers that
see the same share the payload.

* `ContentAccess` — a consumer that gets such a certificate, with its owner and environments.
* `ContentAccess.containerPaths` — the directories.
* `Authority.contentAccessCertificate` — the certificate, made again when it no longer holds.
* `Authority.contentPayload` — the payload.
* `Authority.changedSince` — whether any of it changed after some instant.
-/

namespace EntitlementAuthority

/-- A consumer that gets a certificate for content access. -/
structure ContentAccess where
  consumer : Consumer
  owner : Owner
  /-- The environments of the consumer, the one that wins first. -/
  environments : List Environment

namespace ContentAccess

/-- The consumer with an id, if it gets such a certificate: its owner has to use simple content
access, and it has to read compact certificates. -/
def find (d : Directory) (consumerId : String) : Outcome (Option ContentAccess) := do
  let consumer ← d.consumer consumerId
  let owner ← d.owner consumer.ownerId
  if owner.usesSimpleAccess && consumer.readsCompact then
    .ok (some ⟨consumer, owner, d.environmentsOf consumer⟩)
  else .ok none

/-- The product that stands for everything that a consumer has access to. -/
def productId : String := "content_access"

/-- The name of that product. -/
def productName : String := "Content Access"

/-- The directories that a consumer has access to: those of its environments, or that of its
owner if it has none. -/
def containerPaths (owner : Owner) (environments : List Environment) : List String :=
  let directory := "/" ++ Text.encodeSegment owner.key
  if environments.isEmpty then [directory]
  else environments.map fun e => directory ++ "/" ++ Text.encodeSegment e.name

/-- A directory as a content. -/
def container (path : String) : ContentModel :=
  { id := productId
    type := "yum"
    name := productName
    label := productId
    vendor := ""
    path
    gpgUrl := none
    enabled := none
    metadataExpire := none
    requiredTags := []
    arches := [] }

/-- The body of the certificate. -/
def containerBody (x : ContentAccess) : EntitlementBody :=
  .contentOnly x.consumer.uuid
    [.plain productId productName ((containerPaths x.owner x.environments).map container)]

/-- The plan of the certificate. -/
def plan (config : Config) (x : ContentAccess) (now : Instant) : Plan where
  role := .contentAccess x.consumer.id
  subject := ⟨x.consumer.uuid, some x.owner.key⟩
  validity := Validity.days (config.backdated now) config.certificates.contentAccessDays
  keySubject := x.consumer.uuid
  body := some x.containerBody
  extensions := compactExtensions x.containerBody .organisation
    config.certificates.entitlementVersion none
  environmentIds := x.consumer.environmentIds

/-- What decides what the consumer sees. -/
def view (config : Config) (x : ContentAccess) : ContentView where
  consumer := some x.consumer
  promoted := ⟨config.template x.owner, x.environments⟩
  environmentFiltering := config.content.environmentFiltering
  simpleAccess := true
  entitledProductIds := []

/-- The product with everything that an owner has. -/
def everything (d : Directory) (owner : Owner) : Product :=
  { id := productId
    name := productName
    attributes := Table.empty
    contents := d.activeContent owner.id
    provided := []
    derived := none
    branding := []
    productNamespace := none }

/-- The body of the payload. It is shared, so it names no consumer. -/
def payloadBody (config : Config) (d : Directory) (x : ContentAccess) : EntitlementBody :=
  let product := everything d x.owner
  .contentOnly "" [(x.view config).mapProduct product product none]

/-- The key under which the payload is kept. -/
def payloadKey (config : Config) (x : ContentAccess) : String :=
  payloadKeyFor config.cache.payloadKeyVersion x.consumer x.consumer.environmentIds

end ContentAccess

namespace Authority

/-- The stored certificate of a consumer, if it still goes with the environments of the consumer
and, unless a new one is `forced`, is valid. -/
def keptContentAccess (a : Authority) (x : ContentAccess) (forced : Bool) (now : Instant) :
    Outcome (Option IssuedCertificate) :=
  match a.current? (.contentAccess x.consumer.id) with
  | none => .ok none
  | some c =>
    -- the directories in the certificate are those of the environments
    if c.environmentIds ≠ x.consumer.environmentIds ∨ forced then .ok none
    else (a.standing c now).map fun s => if s = .valid then some c else none

/-- The certificate of a consumer without the payload, made if there is none to keep. -/
def contentAccessCertificate (x : ContentAccess) (forced : Bool) (now : Instant) :
    Request Authority IssuedCertificate := do
  match ← Request.read fun a => a.keptContentAccess x forced now with
  | some c => pure c
  | none =>
    let config ← Request.get Authority.config
    let fresh ← sign (x.plan config now) now
    supersede fresh

/-- Builds and signs the payload of a consumer. -/
def buildContentPayload (x : ContentAccess) : Request Authority String := do
  let body ← Request.get fun a => x.payloadBody a.config a.directory
  signBody body

/-- The payload of a consumer. -/
def contentPayload (x : ContentAccess) (now : Instant) : Request Authority PayloadRow := do
  let config ← Request.get Authority.config
  PayloadCache.getOrCreate Authority.payloads (fun payloads a => { a with payloads })
    x.owner (x.payloadKey config) x.environments now (buildContentPayload x)

/-- The certificate of a consumer with the payload; none if the consumer does not get one. -/
def contentAccess (consumerId : String) (forced : Bool) (now : Instant) :
    Request Authority (Option IssuedCertificate) := do
  match ← Request.read fun a => ContentAccess.find a.directory consumerId with
  | none => pure none
  | some x =>
    let c ← contentAccessCertificate x forced now
    let row ← contentPayload x now
    pure (some { c with payload := some row.payload })

/-- The certificate of a consumer without the payload. -/
def plainContentAccess (consumerId : String) (now : Instant) :
    Request Authority (Option IssuedCertificate) := do
  match ← Request.read fun a => ContentAccess.find a.directory consumerId with
  | none => pure none
  | some x => some <$> contentAccessCertificate x false now

/-- The payload alone. -/
def contentPayloadFor (consumerId : String) (now : Instant) :
    Request Authority (Option String) := do
  match ← Request.read fun a => ContentAccess.find a.directory consumerId with
  | none => pure none
  | some x => (fun row => some row.payload) <$> contentPayload x now

/-- Whether anything that the certificate of a consumer is made from, or the certificate itself,
changed after an instant. A missing or expired certificate counts, and so does one for other
environments. -/
def changedSince (a : Authority) (consumerId : String) (since now : Instant) : Outcome Bool := do
  match ← ContentAccess.find a.directory consumerId with
  | none => .ok false
  | some x =>
    .ok (since < x.owner.contentUpdated
      || x.environments.any (fun e => since < e.contentUpdated)
      || match a.current? (.contentAccess x.consumer.id) with
        | none => true
        | some c =>
          since < c.updated || c.serial.isExpired now
            || c.environmentIds != x.consumer.environmentIds)

end Authority

end EntitlementAuthority
