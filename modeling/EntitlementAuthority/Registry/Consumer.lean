import EntitlementAuthority.Table
import EntitlementAuthority.Text.Fields
import EntitlementAuthority.Time.Instant

/-!
# Consumers

* `Consumer` — a machine that certificates are issued to.
* `Consumer.allArches` — the architectures it names.
* `Consumer.readsCompact` — whether it can read compact certificates.
* `AnonymousConsumer` — a cloud machine known only by its products.
-/

namespace EntitlementAuthority

/-- What a consumer is. -/
inductive ConsumerKind where
  | system
  | hypervisor
  /-- Hands content on to other systems. -/
  | distributor
deriving DecidableEq, Repr

/-- A machine that certificates are issued to. -/
structure Consumer where
  id : String
  uuid : String
  name : String
  ownerId : String
  kind : ConsumerKind
  facts : Table String String
  capabilities : List String
  /-- Its environments, the one that wins first. -/
  environmentIds : List String
  created : Instant

namespace Consumer

/-- What the consumer said about itself. -/
def fact (c : Consumer) (name : String) : Option String :=
  c.facts.get? name

/-- The architecture of the machine. -/
def arch (c : Consumer) : Option String :=
  c.fact "uname.machine"

/-- The architecture of the machine and those it supports besides. -/
def allArches (c : Consumer) : List String :=
  c.arch.toList ++ ((c.fact "supported_architectures").map Text.listItems).getD []

/-- Whether the consumer can read compact certificates: distributors say so by a capability,
systems by a version fact, and hypervisors use no content, so that any form will do. -/
def readsCompact (c : Consumer) : Bool :=
  match c.kind with
  | .distributor => c.capabilities.contains "cert_v3"
  | .hypervisor => true
  | .system => (c.fact "system.certificate_version").any fun v => ['3', '.'].isPrefixOf v.toList

end Consumer

/-- A cloud machine that is known only by the products it may use. -/
structure AnonymousConsumer where
  uuid : String
  /-- A set of product ids. -/
  productIds : List String

end EntitlementAuthority
