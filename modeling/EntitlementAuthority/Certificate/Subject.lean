import EntitlementAuthority.Fault
import EntitlementAuthority.Text.Blank
import EntitlementAuthority.Time.Rfc3339

/-!
# Subjects of certificates

* `DistinguishedName` — whom a certificate names.
* `Validity` — from when until when it holds.
* `validateSubject` — refuses names and windows that no certificate can have.
-/

namespace EntitlementAuthority

/-- Whom a certificate names. -/
structure DistinguishedName where
  commonName : String
  organization : Option String
deriving DecidableEq, Repr

namespace DistinguishedName

/-- The characters that a value must not begin with. -/
def isSpecial (c : Char) : Bool :=
  [',', '=', '+', '<', '>', '#', ';', '"'].contains c

/-- A value with a backslash in front if it begins with a special character. -/
def escapeValue (value : String) : String :=
  match value.toList with
  | c :: _ => if isSpecial c then "\\" ++ value else value
  | [] => value

/-- The name in one line. -/
def text (n : DistinguishedName) : String :=
  "CN=" ++ escapeValue n.commonName
    ++ (n.organization.map fun o => ", O=" ++ escapeValue o).getD ""

end DistinguishedName

/-- From when until when a certificate holds. -/
structure Validity where
  notBefore : Instant
  notAfter : Instant
deriving DecidableEq, Repr

namespace Validity

/-- The window of some days from a start. -/
def days (start : Instant) (count : Nat) : Validity :=
  ⟨start, start.addDays count⟩

/-- The last year, before and after year 0, that is in range. -/
def yearLimit : Nat := 9999

/-- Whether the year of an instant has at most four digits. -/
def isInRange (t : Instant) : Bool :=
  t.civil.date.year.natAbs ≤ yearLimit

/-- Whether a certificate can name an instant that is in range: it has no sign for a year. -/
def isExpressible (t : Instant) : Bool :=
  0 ≤ t.civil.date.year

/-- Refuses a window with an instant out of range, and breaks off at one before year 0. -/
def checkRange (v : Validity) : Outcome Unit :=
  if !(isInRange v.notBefore && isInRange v.notAfter) then
    .error (.validation "validity out of range: the year has more than four digits")
  else if !(isExpressible v.notBefore && isExpressible v.notAfter) then
    .error (.brokenOff "a certificate cannot express a year before 0")
  else .ok ()

end Validity

/-- Refuses a subject without a name, an empty window and a blank alternate name. -/
def validateSubject (subject : DistinguishedName) (alternateName : Option String)
    (validity : Validity) : Outcome Unit :=
  if Text.isBlank subject.commonName then
    .error (.validation "certificate subject requires a common name")
  else if validity.notAfter ≤ validity.notBefore then
    .error (.validation ("validity window is empty: " ++ validity.notBefore.spelled ++ " .. "
      ++ validity.notAfter.spelled))
  else if alternateName.any Text.isBlank then
    .error (.validation "subject alternative name cannot be blank")
  else .ok ()

end EntitlementAuthority
