import EntitlementAuthority.Issuance.Role
import EntitlementAuthority.Table
import EntitlementAuthority.Text.Sorted

/-!
# The store of certificates

There is one current certificate for every kind and subject.

* `CertificateStore` — the certificates by kind and subject.
* `CertificateStore.put` — puts a certificate in and gives back the one it replaces.
-/

namespace EntitlementAuthority

/-- The current certificates. -/
structure CertificateStore (α : Type) where
  rows : Table (CertificateKind × String) α

namespace CertificateStore

variable {α : Type}

/-- The store without certificates. -/
def empty : CertificateStore α := ⟨Table.empty⟩

/-- The certificate of a kind for a subject. -/
def get? (s : CertificateStore α) (kind : CertificateKind) (subject : String) : Option α :=
  s.rows.get? (kind, subject)

/-- Puts a certificate in; gives back the one it replaces. -/
def put (kind : CertificateKind) (subject : String) (certificate : α) (s : CertificateStore α) :
    Option α × CertificateStore α :=
  (s.get? kind subject, ⟨s.rows.insert (kind, subject) certificate⟩)

/-- Takes a certificate out. -/
def remove (kind : CertificateKind) (subject : String) (s : CertificateStore α) :
    Option α × CertificateStore α :=
  (s.get? kind subject, ⟨s.rows.erase (kind, subject)⟩)

/-- The subjects and certificates of a kind. -/
def list (s : CertificateStore α) (kind : CertificateKind) : List (String × α) :=
  s.rows.entries.filterMap fun (key, certificate) =>
    if key.1 = kind then some (key.2, certificate) else none

theorem get?_put (kind kind' : CertificateKind) (subject subject' : String) (certificate : α)
    (s : CertificateStore α) :
    (s.put kind subject certificate).2.get? kind' subject' =
      if kind = kind' ∧ subject = subject' then some certificate else s.get? kind' subject' := by
  simp only [put, get?, Table.get?_insert, Prod.mk.injEq]

end CertificateStore

end EntitlementAuthority
