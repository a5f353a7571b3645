import EntitlementAuthority.Body.Basic
import EntitlementAuthority.Catalog.Arch
import EntitlementAuthority.Catalog.Pool
import EntitlementAuthority.Promotion.ContentPath
import EntitlementAuthority.Registry.Consumer
import EntitlementAuthority.Text.Integer
import EntitlementAuthority.Time.Rfc3339

/-!
# Assembling entitlement bodies

What a consumer sees of a product depends on the consumer, on its environments and on what else
it is entitled to.

* `grantedProducts`, `grantedContentIds` — what an entitlement to a pool grants.
* `ContentView` — everything that decides which content a consumer sees and how.
* `ContentView.visibleContent` — the contents of a product that pass every filter.
* `ContentView.createProducts` — the products of a certificate; no content occurs twice.
* `entitlementBody` — the body of an entitlement to a pool.
-/

namespace EntitlementAuthority

/-! ### What an entitlement grants -/

/-- Keeps the first product with every id. -/
def firstById (seen : List String) : List Product → List Product
  | [] => []
  | p :: ps => if seen.contains p.id then firstById seen ps else p :: firstById (p.id :: seen) ps

/-- The product of the pool and those it provides; for a distributor, unless the pool was made
from another, also the derived product and those that one provides. -/
def grantedProducts (pool : Pool) (consumer : Consumer) : List Product :=
  let own := pool.product :: pool.product.provided
  let derived :=
    if consumer.kind = .distributor ∧ ¬ pool.isDerived then
      pool.product.derived.toList.flatMap fun p => p :: p.provided
    else []
  firstById [] (own ++ derived)

/-- The contents of the products that an entitlement grants. -/
def grantedContentIds (pool : Pool) (consumer : Consumer) : List String :=
  Text.sortedSet ((grantedProducts pool consumer).flatMap Product.ownContentIds)

/-! ### What a consumer sees -/

/-- Everything that decides which content a consumer sees and how. -/
structure ContentView where
  consumer : Option Consumer
  promoted : PromotedContent
  /-- Whether content that no environment promotes is hidden. -/
  environmentFiltering : Bool
  simpleAccess : Bool
  /-- The products the consumer is entitled to. -/
  entitledProductIds : List String

/-- Keeps the first occurrence of every content. -/
def firstContents (seen : List String) : List ProductContent → List ProductContent
  | [] => []
  | pc :: rest =>
    if seen.contains pc.content.id then firstContents seen rest
    else pc :: firstContents (pc.content.id :: seen) rest

namespace ContentView

/-- Whether the consumer is in any environment. -/
def hasEnvironments (v : ContentView) : Bool :=
  v.consumer.any fun c => !c.environmentIds.isEmpty

/-- Content that modifies products is for those who are entitled to one of them. -/
def isEntitled (v : ContentView) (c : Content) : Bool :=
  v.simpleAccess || c.modifiedProductIds.isEmpty
    || Text.intersects c.modifiedProductIds v.entitledProductIds

/-- Content of a consumer with environments has to be promoted to one of them. -/
def isUnhidden (v : ContentView) (c : Content) : Bool :=
  v.simpleAccess || !v.environmentFiltering || !v.hasEnvironments || v.promoted.isPromoted c.id

/-- Content has to be for the architecture of the consumer. -/
def fitsArch (v : ContentView) (c : Content) : Bool :=
  Arch.isCompatible (Arch.parseList c.arches) (v.consumer.bind Consumer.arch)

/-- The contents of a product that the consumer is entitled to and that are promoted to it. -/
def filterContent (v : ContentView) (p : Product) : List ProductContent :=
  (firstContents [] p.contents).filter fun pc => v.isEntitled pc.content && v.isUnhidden pc.content

/-- The contents of a product that the consumer sees. -/
def visibleContent (v : ContentView) (p : Product) : List ProductContent :=
  (v.filterContent p).filter fun pc => v.fitsArch pc.content

/-- Whether a content is enabled: by the winning environment if it says so, else by the
subscription product, else by the product that carries it. -/
def contentEnabled (v : ContentView) (sku : Product) (pc : ProductContent) : Bool :=
  -- the list of enabled contents comes before that of disabled ones
  let bySku :=
    if sku.enabledContentIds.contains pc.content.id then true
    else if sku.disabledContentIds.contains pc.content.id then false
    else pc.enabled
  if v.environmentFiltering && v.hasEnvironments then
    (v.promoted.enabled? pc.content.id).getD bySku
  else bySku

end ContentView

/-! ### Models -/

/-- A content with its path; its architectures are those of its product if it names none. -/
def contentModel (c : Content) (path : String) (enabled : Bool) (productArches : List String) :
    ContentModel :=
  let arches := Arch.parseList c.arches
  { id := c.id
    type := c.type
    name := c.name
    label := c.label
    vendor := c.vendor
    path
    gpgUrl := Text.nonBlank? c.gpgUrl
    enabled := enabledMark enabled
    metadataExpire := c.metadataExpire
    requiredTags := (c.requiredTags.map Text.listItems).getD []
    arches := if arches.isEmpty then productArches else arches }

/-- The architectures of a product. -/
def Product.arches (p : Product) : List String :=
  Arch.parseList (p.attr? "arch")

/-- A product without its contents; its brand is the first that the pool has for it. -/
def productModel (p : Product) (pool : Option Pool) : ProductModel :=
  let brand := pool.bind fun pool => pool.product.branding.find? (·.productId == p.id)
  { id := p.id
    name := p.name
    variant := p.attr? "variant"
    version := p.attr? "version"
    brandType := brand.map (·.type)
    brandName := brand.map (·.name)
    architectures := p.arches
    contents := [] }

namespace ContentView

/-- The contents of a product as the consumer sees them. -/
def contentModels (v : ContentView) (sku p : Product) : List ContentModel :=
  (v.visibleContent p).map fun pc =>
    contentModel pc.content (v.promoted.path pc.content) (v.contentEnabled sku pc) p.arches

/-- A product as the consumer sees it. -/
def mapProduct (v : ContentView) (p sku : Product) (pool : Option Pool) : ProductModel :=
  { productModel p pool with contents := v.contentModels sku p }

/-- Takes the contents with known ids out. -/
def dropSeen (seen : List String) : List ContentModel → List ContentModel
  | [] => []
  | c :: cs => if seen.contains c.id then dropSeen seen cs else c :: dropSeen (c.id :: seen) cs

/-- Leaves every content under the first product that has it. -/
def firstUnder (seen : List String) : List ProductModel → List ProductModel
  | [] => []
  | p :: ps =>
    let contents := dropSeen seen p.contents
    -- a product stays even if all its contents stand further up
    { p with contents } :: firstUnder (contents.map (·.id) ++ seen) ps

/-- The engineering products among those given, as the consumer sees them. -/
def createProducts (v : ContentView) (sku : Product) (products : List Product)
    (pool : Option Pool) : List ProductModel :=
  firstUnder [] ((products.filter Product.isEngineering).map fun p => v.mapProduct p sku pool)

end ContentView

/-! ### Bodies -/

/-- An attribute that is a whole number; anything else is ignored. -/
def Product.intAttr? (p : Product) (name : String) : Option Int :=
  (p.attr? name).bind fun s => Text.readInt64? (Text.trim s)

/-- Says yes or nothing. -/
def trueMark (b : Bool) : Option Bool :=
  if b then some true else none

/-- The support that a product comes with, if any. -/
def Product.service? (p : Product) : Option ServiceModel :=
  match p.attr? "support_level", p.attr? "support_type" with
  | none, none => none
  | level, type => some ⟨level, type⟩

/-- The subscription behind a pool. -/
def subscriptionModel (pool : Pool) : SubscriptionModel :=
  let p := pool.product
  { sku := p.id
    name := p.name
    warning := (p.intAttr? "warning_period").filter (· ≠ 0)
    sockets := p.intAttr? "sockets"
    ram := p.intAttr? "ram"
    cores := p.intAttr? "cores"
    management := trueMark (attributeFlag (p.attr? "management_enabled"))
    stackingId := p.attr? "stacking_id"
    virtOnly := trueMark (pool.attributeFlag "virt_only")
    service := p.service?
    usage := p.attr? "usage"
    roles := (p.attr? "roles").map Text.listItems
    addons := (p.attr? "addons").map Text.listItems }

/-- The order behind a pool; blank numbers are left out. -/
def orderModel (pool : Pool) : OrderModel :=
  { number := Text.nonBlank? pool.orderNumber
    quantity := pool.quantity
    startDate := pool.startDate.rfc3339Seconds
    endDate := pool.endDate.rfc3339Seconds
    contract := Text.nonBlank? pool.contractNumber
    account := Text.nonBlank? pool.accountNumber }

/-- The body of an entitlement to a pool. -/
def entitlementBody (consumerUuid : String) (pool : Pool) (quantity : Int)
    (products : List ProductModel) : EntitlementBody :=
  { consumer := consumerUuid
    quantity := some quantity
    subscription := some (subscriptionModel pool)
    order := some (orderModel pool)
    pool := some pool.id
    products }

end EntitlementAuthority
