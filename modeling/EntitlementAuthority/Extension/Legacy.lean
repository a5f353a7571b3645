import EntitlementAuthority.Extension.ProductAttributes

/-!
# Legacy certificates

A legacy certificate has one text extension for every attribute of every product and content,
so that only so many contents fit.

* `encodableProducts`, `contentAttributes` — products and contents that an identifier can name.
* `orderAttributes` — what is said of subscription, order and pool.
* `legacyExtensions` — all extensions of a legacy certificate.
-/

namespace EntitlementAuthority

/-- The products of a body that an identifier can name, with their numbers. -/
def encodableProducts (b : EntitlementBody) : List (Nat × ProductModel) :=
  b.products.filterMap fun p => (numericId? p.id).map fun id => (id, p)

/-- The extensions that describe a content; none if no identifier can name it. -/
def contentAttributes (c : ContentModel) : List Extension :=
  match numericId? c.id, contentTypeArc? c.type with
  | some id, some typeArc =>
    let base := Oid.content id typeArc
    let oid := base.child
    [Extension.text base c.type,
      Extension.text (oid ContentField.name) c.name,
      Extension.text (oid ContentField.label) c.label,
      Extension.text (oid ContentField.vendor) c.vendor,
      Extension.text (oid ContentField.path) c.path,
      Extension.text (oid ContentField.enabled) (Extension.flag c.isEnabled)]
      ++ Extension.text? (oid ContentField.gpgUrl) c.gpgUrl
      ++ Extension.text? (oid ContentField.metadataExpire) (c.metadataExpire.map toString)
      ++ Extension.texts (oid ContentField.requiredTags) c.requiredTags
      ++ Extension.texts (oid ContentField.arches) c.arches
  | _, _ => []

/-- The extensions that describe a product and its contents. -/
def productWithContents (productId : Nat) (p : ProductModel) : List Extension :=
  productAttributes productId p ++ p.contents.flatMap contentAttributes

/-- The extensions that describe a subscription. -/
def subscriptionAttributes (s : SubscriptionModel) : List Extension :=
  [Extension.text (Oid.order OrderField.name) s.name,
    Extension.text (Oid.order OrderField.sku) s.sku]
    ++ Extension.text? (Oid.order OrderField.sockets) (s.sockets.map toString)
    ++ Extension.text? (Oid.order OrderField.warningPeriod) (s.warning.map toString)
    ++ [Extension.text (Oid.order OrderField.management)
        (Extension.flag (s.management.getD false))]
    ++ Extension.text? (Oid.order OrderField.supportLevel) (s.service.bind (·.level))
    ++ Extension.text? (Oid.order OrderField.supportType) (s.service.bind (·.type))
    ++ Extension.text? (Oid.order OrderField.stackingId) s.stackingId
    ++ Extension.text? (Oid.order OrderField.virtOnly) (s.virtOnly.map Extension.flag)

/-- The extensions that describe an order. -/
def purchaseAttributes (o : OrderModel) : List Extension :=
  Extension.text? (Oid.order OrderField.number) o.number
    ++ [Extension.text (Oid.order OrderField.quantity) (toString o.quantity),
      Extension.text (Oid.order OrderField.startDate) o.startDate,
      Extension.text (Oid.order OrderField.endDate) o.endDate]
    ++ Extension.text? (Oid.order OrderField.contract) o.contract
    ++ Extension.text? (Oid.order OrderField.account) o.account

/-- The extensions that describe what stands behind an entitlement. -/
def orderAttributes (b : EntitlementBody) : List Extension :=
  (b.subscription.map subscriptionAttributes).getD []
    ++ (b.order.map purchaseAttributes).getD []
    ++ Extension.text? (Oid.order OrderField.subscription) b.pool
    ++ Extension.text? (Oid.order OrderField.quantityUsed) (b.quantity.map toString)

/-- How many contents stand under products that an identifier can name. -/
def legacyContentCount (b : EntitlementBody) : Nat :=
  ((encodableProducts b).map fun (_, p) => p.contents.length).foldr (· + ·) 0

/-- What a certificate is called when it is refused for its size. -/
def legacyName (b : EntitlementBody) : String :=
  ((b.subscription.map (·.name)).or (b.products.head?.map (·.name))).getD ""

/-- The extensions of a legacy certificate, which may have at most `limit` contents. -/
def legacyExtensions (b : EntitlementBody) (limit : Nat) : Outcome (List Extension) :=
  let count := legacyContentCount b
  if limit < count then .error (.tooManyContentSets (legacyName b) count limit)
  else
    .ok ((encodableProducts b).flatMap (fun (id, p) => productWithContents id p)
      ++ orderAttributes b ++ [Extension.text Oid.consumer b.consumer])

end EntitlementAuthority
