import EntitlementAuthority.Issuance.Requests

/-!
# A sample

One entitlement with everything that it needs, for looking at what is issued.

* `Sample.uuidOfBytes` — a name for the consumer.
* `Sample.directory` — an owner, a consumer, a pool and an entitlement.
* `Sample.issue` — the certificate for the entitlement.
-/

namespace EntitlementAuthority.Sample

/-- A uuid made of sixteen bytes, marked as one that was made at random. -/
def uuidOfBytes (bytes : Bytes) : String :=
  let marked := bytes.mapIdx fun i b =>
    if i = 6 then b &&& 0x0F ||| 0x40 else if i = 8 then b &&& 0x3F ||| 0x80 else b
  let part (first count : Nat) : String := Bytes.toHex ((marked.drop first).take count)
  Text.joinWith "-" [part 0 4, part 4 2, part 6 2, part 8 2, part 10 6]

/-- The owner. -/
def owner (now : Instant) : Owner where
  id := "sample-owner"
  key := "sample"
  contentPrefix := none
  accessMode := .entitlement
  contentUpdated := now

/-- The consumer; one that is not legacy says that it reads compact certificates. -/
def consumer (uuid : String) (legacy : Bool) (now : Instant) : Consumer where
  id := "sample-consumer"
  uuid := uuid
  name := "sample-box"
  ownerId := "sample-owner"
  kind := .system
  facts := Table.ofList (if legacy then [] else [("system.certificate_version", "3.4")])
  capabilities := []
  environmentIds := []
  created := now

/-- The content with a number. Every other one is enabled. -/
def content (n : Nat) : ProductContent :=
  let id := toString (1000 + n)
  { content :=
      { id
        type := "yum"
        name := "sample-" ++ id
        label := "sample-" ++ id
        vendor := "test-vendor"
        url := "/content/dist/sample/" ++ id
        gpgUrl := none
        arches := none
        metadataExpire := none
        requiredTags := none
        modifiedProductIds := [] }
    enabled := n % 2 == 0 }

/-- The product that carries the contents. -/
def system (contents : Nat) : Product where
  id := "100"
  name := "Sample OS"
  attributes := Table.ofList [("version", "1.0")]
  contents := (List.range contents).map content
  provided := []
  derived := none
  branding := []
  productNamespace := none

/-- The product that is sold. -/
def sku (contents : Nat) : Product where
  id := "MKT-SAMPLE"
  name := "Sample Subscription"
  attributes := Table.empty
  contents := []
  provided := [system contents]
  derived := none
  branding := []
  productNamespace := none

/-- The pool: a year, of which a day has passed. -/
def pool (contents : Nat) (now : Instant) : Pool where
  id := "sample-pool"
  ownerId := "sample-owner"
  product := sku contents
  quantity := 10
  startDate := now.addDays (-1)
  endDate := now.addDays 365
  orderNumber := some "sample-order"
  contractNumber := none
  accountNumber := none
  attributes := Table.empty

/-- The entitlement. -/
def entitlement : Entitlement where
  id := "sample-entitlement"
  consumerId := "sample-consumer"
  poolId := "sample-pool"
  quantity := 1
  dirty := false

/-- Everything that the entitlement needs. -/
def directory (uuid : String) (contents : Nat) (legacy : Bool) (now : Instant) : Directory :=
  Directory.empty
    |>.addOwner (owner now)
    |>.addConsumer (consumer uuid legacy now)
    |>.addPool (pool contents now)
    |>.addEntitlement entitlement

/-- Issues the certificate for the entitlement. -/
def issue (config : Config) (uuid : String) (contents : Nat) (legacy : Bool) (now : Instant) :
    Outcome IssuedCertificate := do
  let authority ← Authority.create .numbered config now
  let stocked := { authority with directory := directory uuid contents legacy now }
  match (Authority.generate (.entitlement entitlement.id) now stocked).1 with
  | .ok (some c) => .ok c
  | .ok none => .error (.creation "no certificate issued")
  | .error e => .error e

end EntitlementAuthority.Sample
