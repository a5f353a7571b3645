import EntitlementAuthority.Config.Reader
import EntitlementAuthority.Json.Record

/-!
# Configurations in JSON

* `SettingReader.json` — settings in JSON: numbers are written as numbers, an algorithm as its
  name or as an object with its name and null.
* `Config.ofJson`, `Config.toJson` — reads and writes a configuration.
-/

namespace EntitlementAuthority

/-- Reads an algorithm. -/
def KeyAlgorithm.ofJson? : Json → Option KeyAlgorithm
  | .string raw => (Json.unescape? raw).bind KeyAlgorithm.ofName?
  | .object [(name, .null)] => (Json.unescape? name).bind KeyAlgorithm.ofName?
  | _ => none

/-- Settings in JSON. -/
def SettingReader.json : SettingReader Json where
  fields? := Json.fields?
  text? := Json.text?
  optionalText? := Json.optional? Json.text?
  bool? := Json.bool?
  natBelow? := Json.natBelow?
  algorithm? := KeyAlgorithm.ofJson?

namespace Config

/-- Reads a configuration; it is not validated. -/
def ofJson (v : Json) : Outcome Config :=
  match read? SettingReader.json v with
  | some c => .ok c
  | none => .error (.serialization "not a configuration")

/-- A record of which all fields are there. -/
def record (names : List String) (values : List Json) : Json :=
  Json.ofFields ((names.zip values).map fun (name, v) => (name, some v))

/-- A number. -/
def number (n : Nat) : Json :=
  Json.ofInt n

/-- The configuration with all settings. -/
def toJson (c : Config) : Json :=
  record sectionNames [
    record CertificateSettings.fieldNames [
      number c.certificates.renewalThresholdDays,
      number c.certificates.legacyContentLimit,
      Json.ofText c.certificates.entitlementVersion,
      Json.ofText c.certificates.keyAlgorithm.name,
      number c.certificates.identityDays,
      number c.certificates.productDays,
      number c.certificates.ueberYears,
      number c.certificates.contentAccessDays,
      number c.certificates.anonymousDays,
      number c.certificates.backdateMinutes],
    record ContentSettings.fieldNames [
      .bool c.content.environmentFiltering,
      .bool c.content.hosted,
      (c.content.defaultPrefix.map Json.ofText).getD .null],
    record CacheSettings.fieldNames [
      number c.cache.payloadKeyVersion,
      number c.cache.anonymousEntries,
      number c.cache.anonymousSeconds],
    record AuthoritySettings.fieldNames [
      Json.ofText c.authority.commonName,
      Json.ofText c.authority.organization,
      number c.authority.years]]

end Config

end EntitlementAuthority
