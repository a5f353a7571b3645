import EntitlementAuthority.Fault
import EntitlementAuthority.Signature.Scheme
import EntitlementAuthority.Text.Blank

/-!
# Configuration

* `Config` — all settings, in four sections; what is not set has its default.
* `Config.validate` — refuses settings that nothing could be issued with.
-/

namespace EntitlementAuthority

/-- How certificates are issued. -/
structure CertificateSettings where
  /-- A certificate is renewed when it has fewer days left than this. -/
  renewalThresholdDays : Nat := 30
  /-- How many contents a legacy certificate may have. -/
  legacyContentLimit : Nat := 185
  /-- The version that compact certificates name. -/
  entitlementVersion : String := "3.4"
  keyAlgorithm : KeyAlgorithm := .ecdsaP256
  identityDays : Nat := 365
  productDays : Nat := 3650
  ueberYears : Nat := 1
  contentAccessDays : Nat := 365
  anonymousDays : Nat := 2
  /-- Certificates start this much earlier, for clocks that are behind. -/
  backdateMinutes : Nat := 60
deriving DecidableEq, Repr

/-- How content is shown. -/
structure ContentSettings where
  /-- Whether content that no environment promotes is hidden from consumers in environments. -/
  environmentFiltering : Bool := true
  /-- Whether anonymous consumers are served. -/
  hosted : Bool := true
  /-- The template of owners that have none. -/
  defaultPrefix : Option String := none
deriving DecidableEq, Repr

/-- What is kept, and for how long. -/
structure CacheSettings where
  /-- The version in payload keys. -/
  payloadKeyVersion : Nat := 1
  /-- How many product sets are kept for anonymous consumers. -/
  anonymousEntries : Nat := 1000
  /-- For how many seconds they are kept. -/
  anonymousSeconds : Nat := 3600
deriving DecidableEq, Repr

/-- The certificate authority. -/
structure AuthoritySettings where
  commonName : String := "Entitlement Signing CA"
  organization : String := "Entitlement PKI"
  years : Nat := 10
deriving DecidableEq, Repr

/-- All settings. -/
structure Config where
  certificates : CertificateSettings := {}
  content : ContentSettings := {}
  cache : CacheSettings := {}
  authority : AuthoritySettings := {}
deriving DecidableEq, Repr

instance : Inhabited Config := ⟨{}⟩

/-- Refuses a number that is zero. -/
def requirePositive (name : String) (n : Nat) : Outcome Unit :=
  if n = 0 then .error (.invalidConfiguration (name ++ " must be greater than 0")) else .ok ()

/-- Refuses text that is blank. -/
def requireText (name s : String) : Outcome Unit :=
  if Text.isBlank s then .error (.invalidConfiguration (name ++ " cannot be empty")) else .ok ()

/-- Refuses certificates without contents, without a version and without a validity. -/
def CertificateSettings.validate (s : CertificateSettings) : Outcome Unit := do
  requirePositive "certificates.v1_content_limit" s.legacyContentLimit
  requireText "certificates.entitlement_version" s.entitlementVersion
  requirePositive "certificates.identity_validity_days" s.identityDays
  requirePositive "certificates.product_validity_days" s.productDays
  requirePositive "certificates.ueber_validity_years" s.ueberYears
  requirePositive "certificates.sca_validity_days" s.contentAccessDays
  requirePositive "certificates.anonymous_validity_days" s.anonymousDays

/-- Refuses a cache that cannot hold anything. -/
def CacheSettings.validate (s : CacheSettings) : Outcome Unit := do
  requirePositive "cache.anonymous_max_entries" s.anonymousEntries
  requirePositive "cache.anonymous_ttl_seconds" s.anonymousSeconds

/-- Refuses an authority without a name or a validity. -/
def AuthoritySettings.validate (s : AuthoritySettings) : Outcome Unit := do
  requireText "ca.common_name" s.commonName
  requirePositive "ca.validity_years" s.years

/-- Refuses settings that nothing could be issued with; the first fault counts. -/
def Config.validate (c : Config) : Outcome Unit := do
  c.certificates.validate
  c.cache.validate
  c.authority.validate

end EntitlementAuthority
