import EntitlementAuthority.Time.Instant

/-!
# Owners

* `Owner` — an organisation that owns pools, environments and consumers.
-/

namespace EntitlementAuthority

/-- How the consumers of an owner get access to content. -/
inductive AccessMode where
  /-- By entitlements to pools. -/
  | entitlement
  /-- To everything the owner has, scoped by environments. -/
  | orgEnvironment
deriving DecidableEq, Repr

/-- An organisation. -/
structure Owner where
  id : String
  key : String
  /-- Stands in front of every content path and may name the environment. -/
  contentPrefix : Option String
  accessMode : AccessMode
  /-- When the content of the owner last changed. -/
  contentUpdated : Instant

/-- Whether the consumers of the owner need no entitlements. -/
def Owner.usesSimpleAccess (o : Owner) : Bool :=
  o.accessMode == .orgEnvironment

end EntitlementAuthority
