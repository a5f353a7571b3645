/-!
# Entitlement bodies

The body of an entitlement says what a certificate grants to whom.

* `EntitlementBody` and its parts.
* `EntitlementBody.contentPaths` — the paths of all contents.
* `ContentModel.isEnabled` — contents are enabled unless they say otherwise.
-/

namespace EntitlementAuthority

/-- A content as it is shown to a consumer. -/
structure ContentModel where
  id : String
  type : String
  name : String
  label : String
  vendor : String
  path : String
  gpgUrl : Option String
  /-- Only said of contents that are not enabled. -/
  enabled : Option Bool
  metadataExpire : Option Int
  requiredTags : List String
  arches : List String
deriving DecidableEq, Repr, Inhabited

/-- Whether the content is enabled. -/
def ContentModel.isEnabled (c : ContentModel) : Bool :=
  c.enabled.getD true

/-- How a flag is said: nothing is said of enabled contents. -/
def enabledMark (enabled : Bool) : Option Bool :=
  if enabled then none else some false

@[simp] theorem getD_enabledMark (enabled : Bool) : (enabledMark enabled).getD true = enabled := by
  cases enabled <;> rfl

/-- A product as it is shown to a consumer. -/
structure ProductModel where
  id : String
  name : String
  variant : Option String
  version : Option String
  brandType : Option String
  brandName : Option String
  architectures : List String
  contents : List ContentModel
deriving DecidableEq, Repr, Inhabited

/-- A product without attributes. -/
def ProductModel.plain (id name : String) (contents : List ContentModel) : ProductModel :=
  { id, name, variant := none, version := none, brandType := none, brandName := none,
    architectures := [], contents }

/-- The support that comes with a subscription. -/
structure ServiceModel where
  level : Option String
  type : Option String
deriving DecidableEq, Repr

/-- The subscription behind an entitlement. -/
structure SubscriptionModel where
  sku : String
  name : String
  warning : Option Int
  sockets : Option Int
  ram : Option Int
  cores : Option Int
  management : Option Bool
  stackingId : Option String
  virtOnly : Option Bool
  service : Option ServiceModel
  usage : Option String
  roles : Option (List String)
  addons : Option (List String)
deriving DecidableEq, Repr

/-- The order behind an entitlement. -/
structure OrderModel where
  number : Option String
  quantity : Int
  /-- RFC 3339 in Universal Time. -/
  startDate : String
  /-- RFC 3339 in Universal Time. -/
  endDate : String
  contract : Option String
  account : Option String
deriving DecidableEq, Repr

/-- What a certificate grants to whom. -/
structure EntitlementBody where
  /-- The consumer; empty where a payload is shared. -/
  consumer : String
  quantity : Option Int
  subscription : Option SubscriptionModel
  order : Option OrderModel
  /-- The id of the pool. -/
  pool : Option String
  products : List ProductModel
deriving DecidableEq, Repr

namespace EntitlementBody

/-- A body of products only. -/
def contentOnly (consumer : String) (products : List ProductModel) : EntitlementBody :=
  { consumer, quantity := none, subscription := none, order := none, pool := none, products }

/-- The paths of all contents, in the order of the products. -/
def contentPaths (b : EntitlementBody) : List String :=
  b.products.flatMap fun p => p.contents.map (·.path)

end EntitlementBody

end EntitlementAuthority
