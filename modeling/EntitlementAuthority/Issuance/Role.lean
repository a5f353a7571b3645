/-!
# Roles

* `CertificateKind` — what a certificate is for.
* `Role` — what to issue a certificate for.
-/

namespace EntitlementAuthority

/-- What a certificate is for. -/
inductive CertificateKind where
  | entitlement
  | identity
  | product
  /-- Everything that an owner has. -/
  | ueber
  | anonymousContentAccess
  | contentAccess
deriving DecidableEq, Repr

/-- The name of a kind. -/
def CertificateKind.text : CertificateKind → String
  | entitlement => "entitlement"
  | identity => "identity"
  | product => "product"
  | ueber => "ueber"
  | anonymousContentAccess => "anonymous-content-access"
  | contentAccess => "content-access"

/-- What to issue a certificate for. There is one current certificate for every role. -/
structure Role where
  kind : CertificateKind
  /-- The id of an entitlement, a consumer, a product or an owner, or the uuid of an anonymous
  consumer. -/
  subject : String
deriving DecidableEq, Repr

namespace Role

/-- The role of an entitlement. -/
def entitlement (id : String) : Role := ⟨.entitlement, id⟩

/-- The role of a consumer in which it has its content access certificate. -/
def contentAccess (consumerId : String) : Role := ⟨.contentAccess, consumerId⟩

/-- The role in one line. -/
def text (r : Role) : String :=
  r.kind.text ++ " " ++ r.subject

end Role

end EntitlementAuthority
