import EntitlementAuthority.Catalog.Product
import EntitlementAuthority.Time.Instant

/-!
# Pools

A pool is a quantity of entitlements to a product, bought by an owner for some time.

* `Pool` — the pool.
* `Pool.attr?`, `Pool.hasAttribute`, `Pool.attributeFlag` — its attributes.
-/

namespace EntitlementAuthority

/-- A quantity of entitlements to a product. -/
structure Pool where
  id : String
  ownerId : String
  product : Product
  quantity : Int
  startDate : Instant
  endDate : Instant
  orderNumber : Option String
  contractNumber : Option String
  accountNumber : Option String
  attributes : Table String String

namespace Pool

/-- An attribute, unless it is blank. -/
def attr? (p : Pool) (name : String) : Option String :=
  Text.nonBlank? (p.attributes.get? name)

/-- Whether an attribute is there, blank or not. -/
def hasAttribute (p : Pool) (name : String) : Bool :=
  p.attributes.contains name

/-- Whether an attribute stands for yes. -/
def attributeFlag (p : Pool) (name : String) : Bool :=
  EntitlementAuthority.attributeFlag (p.attr? name)

/-- Whether the pool was made from another pool. -/
def isDerived (p : Pool) : Bool :=
  p.hasAttribute "pool_derived"

/-- The namespace of the product, unless it is blank. -/
def productNamespace (p : Pool) : Option String :=
  Text.nonBlank? p.product.productNamespace

/-- The contents that the pool grants, derived products left out. -/
def contentIds (p : Pool) : List String :=
  p.product.contentIds

end Pool

end EntitlementAuthority
