import EntitlementAuthority.Digest.Sha256
import EntitlementAuthority.Extension.Basic

/-!
# Key identifiers

The identifier of the subject's key is a digest over the key and all extensions, so that a
change of either shows. The order of the extensions does not count.

* `keyIdentifierInput` — the bytes that the digest is taken of.
* `subjectKeyIdentifier` — the first twenty bytes of the digest.
-/

namespace EntitlementAuthority

namespace Extension

/-- Compares bytes as a dictionary does. -/
def bytesLe : Bytes → Bytes → Bool
  | [], _ => true
  | _ :: _, [] => false
  | a :: as, b :: bs => a < b || (a == b && bytesLe as bs)

/-- Extensions are sorted by the text of the identifier, then uncritical ones first, then by the
bytes of the value. -/
def keyOrder (a b : Extension) : Bool :=
  let s := a.oid.text
  let t := b.oid.text
  s < t || (s == t && ((!a.critical && b.critical)
    || (a.critical == b.critical && bytesLe a.value.der b.value.der)))

/-- What an extension adds to the digest. -/
def keyBytes (e : Extension) : Bytes :=
  let value := e.value.der
  Bytes.ofText e.oid.text ++ [if e.critical then 1 else 0] ++ Bytes.bigEndian 8 value.length ++ value

end Extension

/-- The bytes that the digest is taken of. -/
def keyIdentifierInput (publicKey : Bytes) (extensions : List Extension) : Bytes :=
  publicKey ++ (extensions.mergeSort Extension.keyOrder).flatMap Extension.keyBytes

/-- How many bytes an identifier has. -/
def keyIdentifierLength : Nat := 20

/-- The identifier of a key in a certificate with the given extensions. -/
def subjectKeyIdentifier (publicKey : Bytes) (extensions : List Extension) : Bytes :=
  (Sha256.digest (keyIdentifierInput publicKey extensions)).take keyIdentifierLength

theorem length_subjectKeyIdentifier (publicKey : Bytes) (extensions : List Extension) :
    (subjectKeyIdentifier publicKey extensions).length = 20 := by
  simp [subjectKeyIdentifier, Sha256.length_digest, keyIdentifierLength]

end EntitlementAuthority
