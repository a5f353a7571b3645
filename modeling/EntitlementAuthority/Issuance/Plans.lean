import EntitlementAuthority.Body.Assembly
import EntitlementAuthority.Extension.Compact
import EntitlementAuthority.Extension.Legacy
import EntitlementAuthority.Extension.ProductAttributes
import EntitlementAuthority.Issuance.Certificate
import EntitlementAuthority.Registry.Directory

/-!
# What certificates say

A plan is read off the directory and the configuration alone; making one changes nothing.

* `entitlementView`, `entitlementProducts` — what the consumer of an entitlement sees.
* `entitlementPlan`, `identityPlan`, `productPlan`, `ueberPlan` — the plans of certificates that
  need nothing else.
-/

namespace EntitlementAuthority

/-- The instant at which certificates issued now start. -/
def Config.backdated (c : Config) (now : Instant) : Instant :=
  now.addSeconds (-(60 * c.certificates.backdateMinutes))

/-- The template for the content paths of an owner. -/
def Config.template (c : Config) (owner : Owner) : PathTemplate :=
  PathTemplate.ofOwner owner c.content.defaultPrefix

/-! ### Entitlements -/

/-- How long a pool for guests without a known host serves a guest. -/
def unmappedGuestDays : Nat := 7

/-- The validity of an entitlement. A pool that started a short while ago is backdated, so that
clocks that are behind can read the certificate; one for guests without a known host ends a week
after the guest came. -/
def entitlementValidity (pool : Pool) (consumer : Consumer) (now backdated : Instant) :
    Validity where
  notBefore := if backdated < pool.startDate ∧ pool.startDate ≤ now then backdated
    else pool.startDate
  notAfter := if pool.attributeFlag "unmapped_guests_only" then
      Instant.earlier (consumer.created.addDays unmappedGuestDays) pool.endDate
    else pool.endDate

/-- What decides what a consumer sees of its entitlements. -/
def entitlementView (config : Config) (d : Directory) (consumer : Consumer) (owner : Owner) :
    ContentView where
  consumer := some consumer
  promoted := ⟨config.template owner, d.environmentsOf consumer⟩
  environmentFiltering := config.content.environmentFiltering
  simpleAccess := false
  entitledProductIds := d.entitledProductIds consumer.id

/-- The products in the certificate of an entitlement. -/
def entitlementProducts (config : Config) (d : Directory) (consumer : Consumer) (owner : Owner)
    (pool : Pool) : List ProductModel :=
  (entitlementView config d consumer owner).createProducts pool.product
    (grantedProducts pool consumer) (some pool)

/-- The plan of the certificate of an entitlement. Consumers that can read compact certificates
get one; the others get a legacy certificate, which must not have too many contents. -/
def entitlementPlan (config : Config) (d : Directory) (id : String) (now : Instant) :
    Outcome Plan := do
  let entitlement ← d.entitlement id
  let consumer ← d.consumer entitlement.consumerId
  let owner ← d.owner consumer.ownerId
  let pool ← d.pool entitlement.poolId
  pool.product.validateGraph
  let subject : DistinguishedName := ⟨entitlement.id, some owner.key⟩
  let validity := entitlementValidity pool consumer now (config.backdated now)
  validateSubject subject none validity
  let body := entitlementBody consumer.uuid pool entitlement.quantity
    (entitlementProducts config d consumer owner pool)
  let plan : Plan :=
    { role := .entitlement entitlement.id
      subject
      validity
      keySubject := consumer.uuid
      body := some body
      extensions := [] }
  if consumer.readsCompact then
    .ok { plan with
      extensions := compactExtensions body .basic config.certificates.entitlementVersion
        pool.productNamespace
      payload := .ofBody body }
  else
    .ok { plan with
      extensions := ← legacyExtensions body config.certificates.legacyContentLimit }

/-! ### Identities and products -/

/-- The plan of the certificate that says who a consumer is. -/
def identityPlan (config : Config) (d : Directory) (consumerId : String) (now : Instant) :
    Outcome Plan := do
  let consumer ← d.consumer consumerId
  let owner ← d.owner consumer.ownerId
  .ok {
    role := ⟨.identity, consumerId⟩
    subject := ⟨consumer.uuid, some owner.key⟩
    alternateName := some consumer.name
    validity := Validity.days (config.backdated now) config.certificates.identityDays
    keySubject := consumer.uuid
    extensions := [] }

/-- The plan of the certificate that describes a product. -/
def productPlan (config : Config) (d : Directory) (productId : String) (now : Instant) :
    Outcome Plan := do
  let product ← d.product productId
  let extensions ← productExtensions (productModel product none)
  .ok {
    role := ⟨.product, productId⟩
    subject := ⟨product.id, none⟩
    validity := Validity.days (config.backdated now) config.certificates.productDays
    keySubject := "product:" ++ product.id
    extensions }

/-! ### Everything that an owner has -/

/-- The name on the certificates for everything that an owner has. -/
def ueberName : String := "ueber_cert_consumer"

/-- The product that stands for everything that an owner has. -/
def ueberProductId (owner : Owner) : String :=
  owner.key ++ "_ueber_product"

/-- Contents with the paths that they have outside of all environments. -/
def unscopedModels (template : PathTemplate) (contents : List ProductContent) :
    List ContentModel :=
  contents.map fun pc =>
    contentModel pc.content ((PromotedContent.unscoped template).path pc.content) pc.enabled []

/-- The body of the certificate for everything that an owner has. -/
def ueberBody (config : Config) (d : Directory) (owner : Owner) : EntitlementBody :=
  let id := ueberProductId owner
  .contentOnly ueberName
    [.plain id id (unscopedModels (config.template owner) (d.activeContent owner.id))]

/-- The plan of the certificate for everything that an owner has. -/
def ueberPlan (config : Config) (d : Directory) (ownerId : String) (now : Instant) :
    Outcome Plan := do
  let owner ← d.owner ownerId
  let body := ueberBody config d owner
  .ok {
    role := ⟨.ueber, ownerId⟩
    subject := ⟨ueberName, some owner.key⟩
    validity := Validity.days (config.backdated now) (365 * config.certificates.ueberYears)
    keySubject := ueberName ++ ":" ++ owner.key
    body := some body
    extensions := compactExtensions body .basic config.certificates.entitlementVersion none
    payload := .ofBody body }

end EntitlementAuthority
