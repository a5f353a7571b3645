import EntitlementAuthority.Certificate.X509
import EntitlementAuthority.Der.ExtensionValue
import EntitlementAuthority.Oid

/-!
# Looking into certificates

* `RawExtension.underBase?` — what an entitlement extension of a certificate holds.
* `RawExtension.alternateNames?` — the names in an extension of alternate names.
-/

namespace EntitlementAuthority.RawExtension

/-- The identifier of an entitlement extension, and its value as it can be read; `none` for other
extensions. -/
def underBase? (e : RawExtension) : Option (Oid × Outcome ExtensionValue) :=
  match Oid.ofDerContents? e.identifier with
  | some o => if o.isUnder Oid.base then some (o, ExtensionValue.ofDer e.value) else none
  | none => none

/-- The number of the tag of a directory name among alternate names. -/
def directoryNameNumber : Nat := 4

/-- Takes an alternate name that is a directory name. -/
def takeDirectoryName? : Der.Reader Name := fun input => do
  let (e, rest) ← Der.next? input
  if e.tag.number = directoryNameNumber then
    let (name, _) ← Name.take? e.contents
    some (name, rest)
  else none

/-- The directory names among alternate names. -/
def alternateNames? (e : RawExtension) : Option (List Name) :=
  (Der.within? Der.sequenceTag (Der.readAll? takeDirectoryName?) e.value).map (·.1)

end EntitlementAuthority.RawExtension
