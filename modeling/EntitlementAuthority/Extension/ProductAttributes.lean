import EntitlementAuthority.Body.Basic
import EntitlementAuthority.Extension.Basic
import EntitlementAuthority.Fault

/-!
# Extensions of products

* `productAttributes` — the extensions that describe a product.
* `productExtensions` — those of a product certificate, which needs a numeric product id.
-/

namespace EntitlementAuthority

/-- The extensions that describe a product. -/
def productAttributes (productId : Nat) (p : ProductModel) : List Extension :=
  let oid := Oid.product productId
  [Extension.text (oid ProductField.name) p.name]
    ++ Extension.text? (oid ProductField.variant) p.variant
    ++ Extension.texts (oid ProductField.arches) p.architectures
    ++ Extension.text? (oid ProductField.version) p.version
    ++ Extension.text? (oid ProductField.brandType) p.brandType
    ++ Extension.text? (oid ProductField.brandName) p.brandName

/-- The extensions of a product certificate. -/
def productExtensions (p : ProductModel) : Outcome (List Extension) :=
  match numericId? p.id with
  | some id => .ok (productAttributes id p)
  | none =>
    .error (.validation ("product id '" ++ p.id ++ "' cannot be encoded in a certificate"))

end EntitlementAuthority
