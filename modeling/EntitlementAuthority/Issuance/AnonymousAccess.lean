import EntitlementAuthority.Issuance.Authority
import EntitlementAuthority.Issuance.Plans

/-!
# Certificates of anonymous consumers

Anonymous consumers with the same products share their content and its signed payload.

* `providedContents` — what products and those that they provide carry, each content once.
* `Authority.anonymousContentFor` — the shared content of a product set.
* `Authority.anonymousPlan` — the plan of a certificate with it.
-/

namespace EntitlementAuthority

/-- The product that stands for what anonymous consumers get. -/
def anonymousProductId : String := "anonymous_cloud_content_access"

/-- A body with the content that anonymous consumers get. -/
def anonymousBody (consumer : String) (contents : List ContentModel) : EntitlementBody :=
  .contentOnly consumer [.plain anonymousProductId anonymousProductId contents]

/-- The contents of products and everything they provide, each once. -/
def providedContents (products : List Product) : List ProductContent :=
  mergeContents (products.flatMap fun p => p.reach.flatMap (·.contents))

/-- The contents of products and everything they provide, as anonymous consumers see them. -/
def anonymousModels (config : Config) (products : List Product) : List ContentModel :=
  unscopedModels (PathTemplate.ofText config.content.defaultPrefix) (providedContents products)

namespace Authority

/-- Builds and signs the content of a product set. -/
def buildAnonymousContent (productIds : List String) : Request Authority AnonymousContent := do
  let contents ← Request.read fun a =>
    match a.directory.productsOf productIds with
    | [] =>
      .error (.creation ("no products found for anonymous consumer products ["
        ++ anonymousKey productIds ++ "]"))
    | products => .ok (anonymousModels a.config products)
  -- the payload is shared, so it names no consumer
  let payload ← signBody (anonymousBody "" contents)
  pure ⟨contents, payload⟩

/-- The content of a product set, built if it is not kept. -/
def anonymousContentFor (productIds : List String) (now : Instant) :
    Request Authority AnonymousContent := do
  match ← onAnonymousContent (Request.state (AnonymousCache.get productIds now)) with
  | some content => pure content
  | none =>
    let content ← buildAnonymousContent productIds
    onAnonymousContent (Request.update (AnonymousCache.put productIds content now))
    pure content

/-- The plan of the certificate of an anonymous consumer. -/
def anonymousPlan (uuid : String) (now : Instant) : Request Authority Plan := do
  let config ← Request.get Authority.config
  if !config.content.hosted then
    Request.fail (.creation "anonymous certificates are only issued by hosted deployments")
  let consumer ← Request.read fun a => a.directory.anonymousConsumer uuid
  let subject : DistinguishedName := ⟨consumer.uuid, none⟩
  let validity := Validity.days (config.backdated now) config.certificates.anonymousDays
  Request.ofOutcome (validateSubject subject none validity)
  let content ← anonymousContentFor consumer.productIds now
  let body := anonymousBody consumer.uuid content.contents
  pure {
    role := ⟨.anonymousContentAccess, consumer.uuid⟩
    subject
    validity
    keySubject := consumer.uuid
    body := some body
    extensions := compactExtensions body .basic config.certificates.entitlementVersion none
    payload := .signed content.payload }

end Authority

end EntitlementAuthority
