import EntitlementAuthority.Body.Basic
import EntitlementAuthority.Certificate.Authority
import EntitlementAuthority.Issuance.Role
import EntitlementAuthority.Issuance.SerialLedger

/-!
# Issued certificates

* `Plan` — everything that a certificate will say, before it has a serial.
* `IssuedCertificate` — a certificate with its key, its serial and its payload.
-/

namespace EntitlementAuthority

/-- The payload that goes with a certificate. -/
inductive PlannedPayload where
  | none
  /-- One that was signed before. -/
  | signed (text : String)
  /-- One that holds a body and is still to be signed. -/
  | ofBody (body : EntitlementBody)

/-- Everything that a certificate will say. Its serial is allocated once nothing else is open. -/
structure Plan where
  role : Role
  subject : DistinguishedName
  alternateName : Option String := .none
  validity : Validity
  /-- Whom the key pair belongs to. -/
  keySubject : String
  /-- What the certificate gives access to, if that is what it is for. -/
  body : Option EntitlementBody := .none
  extensions : List Extension
  payload : PlannedPayload := .none
  /-- The environments that the certificate depends on. -/
  environmentIds : List String := []

/-- A certificate that has been issued. -/
structure IssuedCertificate where
  role : Role
  key : KeyPair
  certificate : BuiltCertificate
  body : Option EntitlementBody
  payload : Option String
  /-- The serial as it was allocated. -/
  serial : Serial
  environmentIds : List String
  /-- When it was issued. -/
  updated : Instant

/-- What is handed out: the certificate, and the payload behind it. -/
def IssuedCertificate.artifact (c : IssuedCertificate) : String :=
  c.certificate.pem ++ c.payload.getD ""

end EntitlementAuthority
