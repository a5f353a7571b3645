import EntitlementAuthority.Config.Basic

/-!
# Reading a configuration

Settings come from several formats. What they have in common is a record of four sections with
named fields, any of which may be missing.

* `SettingReader` — how single settings are read in some format.
* `Config.read?` — reads all settings.
-/

namespace EntitlementAuthority

/-- How settings are read from values of type `β`. -/
structure SettingReader (β : Type) where
  /-- The values of named fields, in the order of the names. -/
  fields? : List String → β → Option (List (Option β))
  text? : β → Option String
  /-- Text, or something that says that there is none. -/
  optionalText? : β → Option (Option String)
  bool? : β → Option Bool
  /-- A natural number that has to fit below a bound. -/
  natBelow? : Nat → β → Option Nat
  algorithm? : β → Option KeyAlgorithm

variable {β : Type}

/-- What a field holds, or a default if it is missing. -/
def settingOr? {γ : Type} (default : γ) (f : β → Option γ) : Option β → Option γ
  | none => some default
  | some v => f v

namespace SettingReader

/-- A number of 32 bits. -/
def word32? (r : SettingReader β) : β → Option Nat :=
  r.natBelow? (Nat.pow 2 32)

/-- A number of 64 bits. -/
def word64? (r : SettingReader β) : β → Option Nat :=
  r.natBelow? (Nat.pow 2 64)

end SettingReader

namespace CertificateSettings

/-- The names of the fields. -/
def fieldNames : List String :=
  ["renewal_threshold_days", "v1_content_limit", "entitlement_version", "key_algorithm",
    "identity_validity_days", "product_validity_days", "ueber_validity_years",
    "sca_validity_days", "anonymous_validity_days", "backdate_minutes"]

/-- Reads the section. -/
def read? (r : SettingReader β) (v : β) : Option CertificateSettings := do
  let d : CertificateSettings := {}
  match ← r.fields? fieldNames v with
  | [threshold, limit, version, algorithm, identity, product, ueber, contentAccess, anonymous,
      backdate] =>
    some {
      renewalThresholdDays := ← settingOr? d.renewalThresholdDays r.word32? threshold
      legacyContentLimit := ← settingOr? d.legacyContentLimit r.word64? limit
      entitlementVersion := ← settingOr? d.entitlementVersion r.text? version
      keyAlgorithm := ← settingOr? d.keyAlgorithm r.algorithm? algorithm
      identityDays := ← settingOr? d.identityDays r.word32? identity
      productDays := ← settingOr? d.productDays r.word32? product
      ueberYears := ← settingOr? d.ueberYears r.word32? ueber
      contentAccessDays := ← settingOr? d.contentAccessDays r.word32? contentAccess
      anonymousDays := ← settingOr? d.anonymousDays r.word32? anonymous
      backdateMinutes := ← settingOr? d.backdateMinutes r.word32? backdate }
  | _ => none

end CertificateSettings

namespace ContentSettings

/-- The names of the fields. -/
def fieldNames : List String :=
  ["environment_filtering", "hosted", "default_content_prefix"]

/-- Reads the section. -/
def read? (r : SettingReader β) (v : β) : Option ContentSettings := do
  let d : ContentSettings := {}
  match ← r.fields? fieldNames v with
  | [filtering, hosted, defaultPrefix] =>
    some {
      environmentFiltering := ← settingOr? d.environmentFiltering r.bool? filtering
      hosted := ← settingOr? d.hosted r.bool? hosted
      defaultPrefix := ← settingOr? d.defaultPrefix r.optionalText? defaultPrefix }
  | _ => none

end ContentSettings

namespace CacheSettings

/-- The names of the fields. -/
def fieldNames : List String :=
  ["payload_key_version", "anonymous_max_entries", "anonymous_ttl_seconds"]

/-- Reads the section. -/
def read? (r : SettingReader β) (v : β) : Option CacheSettings := do
  let d : CacheSettings := {}
  match ← r.fields? fieldNames v with
  | [version, entries, seconds] =>
    some {
      payloadKeyVersion := ← settingOr? d.payloadKeyVersion r.word32? version
      anonymousEntries := ← settingOr? d.anonymousEntries r.word64? entries
      anonymousSeconds := ← settingOr? d.anonymousSeconds r.word64? seconds }
  | _ => none

end CacheSettings

namespace AuthoritySettings

/-- The names of the fields. -/
def fieldNames : List String :=
  ["common_name", "organization", "validity_years"]

/-- Reads the section. -/
def read? (r : SettingReader β) (v : β) : Option AuthoritySettings := do
  let d : AuthoritySettings := {}
  match ← r.fields? fieldNames v with
  | [commonName, organization, years] =>
    some {
      commonName := ← settingOr? d.commonName r.text? commonName
      organization := ← settingOr? d.organization r.text? organization
      years := ← settingOr? d.years r.word32? years }
  | _ => none

end AuthoritySettings

namespace Config

/-- The names of the sections. -/
def sectionNames : List String :=
  ["certificates", "content", "cache", "ca"]

/-- Reads all settings. -/
def read? (r : SettingReader β) (v : β) : Option Config := do
  match ← r.fields? sectionNames v with
  | [certificates, content, cache, authority] =>
    some {
      certificates := ← settingOr? {} (CertificateSettings.read? r) certificates
      content := ← settingOr? {} (ContentSettings.read? r) content
      cache := ← settingOr? {} (CacheSettings.read? r) cache
      authority := ← settingOr? {} (AuthoritySettings.read? r) authority }
  | _ => none

end Config

end EntitlementAuthority
