/-!
# Entitlements

* `Entitlement` — a consumer's share of a pool.
-/

namespace EntitlementAuthority

/-- A consumer's share of a pool. -/
structure Entitlement where
  id : String
  consumerId : String
  poolId : String
  quantity : Int
  /-- Whether the certificate no longer shows what the consumer should see. -/
  dirty : Bool
deriving DecidableEq, Repr

end EntitlementAuthority
