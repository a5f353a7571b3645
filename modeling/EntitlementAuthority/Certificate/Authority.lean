import EntitlementAuthority.Certificate.KeyIdentifier
import EntitlementAuthority.Certificate.Pem
import EntitlementAuthority.Certificate.X509
import EntitlementAuthority.Config.Basic
import EntitlementAuthority.Signature.KeyPair

/-!
# The certificate authority

* `CertificateAuthority` — a name with a key pair; `CertificateAuthority.signer` signs with it and
  `CertificateAuthority.certificate` is its own certificate.
* `CertificateRequest` — everything a certificate needs.
* `CertificateAuthority.build` — the certificate for a request.

Certificates are for clients: every one carries the markers of a client certificate, the
identifiers of both keys and, if there is an alternate name, the subject and that name.
-/

namespace EntitlementAuthority

/-! ### Extensions that every certificate has -/

namespace RawExtension

/-- An extension with the given identifier. -/
def ofOid (oid : Oid) (critical : Bool) (value : Bytes) : RawExtension :=
  ⟨oid.derContents, critical, value⟩

/-- The identifier of the subject's key. -/
def subjectKey (identifier : Bytes) : RawExtension :=
  ofOid ⟨[2, 5, 29, 14]⟩ false (Der.octets identifier)

/-- What a key may be used for, as the bits of a BIT STRING. -/
def keyUsage (unusedBits bits : UInt8) : RawExtension :=
  ofOid ⟨[2, 5, 29, 15]⟩ true (Der.element Der.bitStringTag [unusedBits, bits])

/-- The names that a subject has besides. -/
def alternateNames (names : List Name) : RawExtension :=
  ofOid ⟨[2, 5, 29, 17]⟩ false (Der.sequence (names.map fun n => Der.tagged 4 n.der))

/-- Whether the subject is an authority. -/
def basicConstraints (isAuthority : Bool) : RawExtension :=
  ofOid ⟨[2, 5, 29, 19]⟩ true (Der.sequence (if isAuthority then [Der.boolean true] else []))

/-- The identifier of the authority's key. -/
def authorityKey (identifier : Bytes) : RawExtension :=
  ofOid ⟨[2, 5, 29, 35]⟩ false (Der.sequence [Der.element 0x80 identifier])

/-- That the key is for clients. -/
def clientPurpose : RawExtension :=
  ofOid ⟨[2, 5, 29, 37]⟩ false (Der.sequence [Oid.der ⟨[1, 3, 6, 1, 5, 5, 7, 3, 2]⟩])

/-- That the certificate is for clients and for mail. -/
def clientType : RawExtension :=
  ofOid ⟨[2, 16, 840, 1, 113730, 1, 1]⟩ false (Der.element Der.bitStringTag [5, 0xA0])

end RawExtension

/-- The extension as it stands in a certificate. -/
def Extension.raw (e : Extension) : RawExtension :=
  RawExtension.ofOid e.oid e.critical e.value.der

/-! ### Keys -/

namespace KeyAlgorithm

/-- The element that names the algorithm of a key. -/
def keyAlgorithmDer : KeyAlgorithm → Bytes
  | ecdsaP256 =>
    Der.sequence [Oid.der ⟨[1, 2, 840, 10045, 2, 1]⟩, Oid.der ⟨[1, 2, 840, 10045, 3, 1, 7]⟩]
  | ecdsaP384 => Der.sequence [Oid.der ⟨[1, 2, 840, 10045, 2, 1]⟩, Oid.der ⟨[1, 3, 132, 0, 34]⟩]
  | ed25519 => Der.sequence [Oid.der ⟨[1, 3, 101, 112]⟩]

/-- The element that names the algorithm of a signature. -/
def signatureAlgorithmDer : KeyAlgorithm → Bytes
  | ecdsaP256 => Der.sequence [Oid.der ⟨[1, 2, 840, 10045, 4, 3, 2]⟩]
  | ecdsaP384 => Der.sequence [Oid.der ⟨[1, 2, 840, 10045, 4, 3, 3]⟩]
  | ed25519 => Der.sequence [Oid.der ⟨[1, 3, 101, 112]⟩]

end KeyAlgorithm

/-- The element that holds the public key of a pair. -/
def KeyPair.publicKeyDer (k : KeyPair) : Bytes :=
  Der.sequence [k.algorithm.keyAlgorithmDer, Der.bits k.publicKey]

/-- The identifier of a key alone. -/
def KeyPair.identifier (k : KeyPair) : Bytes :=
  (Sha256.digest k.publicKeyDer).take keyIdentifierLength

/-! ### The authority -/

/-- A name with a key pair that signs. -/
structure CertificateAuthority where
  /-- The library that signs. -/
  cryptography : Cryptography
  subject : DistinguishedName
  validity : Validity
  key : KeyPair

/-- Everything a certificate needs. -/
structure CertificateRequest where
  subject : DistinguishedName
  /-- A second name of the subject. -/
  alternateName : Option String
  validity : Validity
  key : KeyPair
  serial : Nat
  extensions : List Extension

/-- A certificate that has been made. -/
structure BuiltCertificate where
  certificate : X509
  signature : Bytes
  keyIdentifier : Bytes
deriving DecidableEq, Repr

/-- The certificate as text. -/
def BuiltCertificate.pem (b : BuiltCertificate) : String :=
  Pem.encode (b.certificate.der b.signature)

namespace CertificateAuthority

/-- An authority with the given key; it starts an hour early, for clocks that are behind. -/
def create (cryptography : Cryptography) (settings : AuthoritySettings) (key : KeyPair)
    (now : Instant) : Outcome CertificateAuthority := do
  settings.validate
  .ok {
    cryptography
    subject := ⟨settings.commonName, some settings.organization⟩
    validity := ⟨now.addSeconds (-3600), now.addDays (365 * settings.years)⟩
    key }

/-- The signer with the authority's key. -/
def signer (ca : CertificateAuthority) : Signer :=
  ca.cryptography.signer ca.key

theorem signer_sound (ca : CertificateAuthority) : ca.signer.Sound :=
  ca.cryptography.signer_sound ca.key

/-- The authority's own certificate. -/
def certificate (ca : CertificateAuthority) : X509 where
  version := 2
  serial := Bytes.ofBigEndian ca.key.identifier
  signatureAlgorithm := ca.key.algorithm.signatureAlgorithmDer
  issuer := ca.subject.name
  validity := ca.validity
  subject := ca.subject.name
  publicKey := ca.key.publicKeyDer
  extensions :=
    [RawExtension.keyUsage 1 0x86, RawExtension.subjectKey ca.key.identifier,
      RawExtension.basicConstraints true]

/-- The extensions of a certificate. -/
def requestExtensions (ca : CertificateAuthority) (r : CertificateRequest)
    (keyIdentifier : Bytes) : List RawExtension :=
  [RawExtension.authorityKey ca.key.identifier, RawExtension.keyUsage 4 0xB0,
    RawExtension.clientPurpose, RawExtension.subjectKey keyIdentifier,
    RawExtension.basicConstraints false, RawExtension.clientType]
    ++ (r.alternateName.map fun name =>
      RawExtension.alternateNames [r.subject.name, (DistinguishedName.mk name none).name]).toList
    ++ r.extensions.map Extension.raw

/-- The certificate for a request, without checks. -/
def assemble (ca : CertificateAuthority) (r : CertificateRequest) : BuiltCertificate :=
  let keyIdentifier := subjectKeyIdentifier r.key.publicKeyDer r.extensions
  let certificate : X509 :=
    { version := 2
      serial := r.serial
      signatureAlgorithm := ca.key.algorithm.signatureAlgorithmDer
      issuer := ca.subject.name
      validity := r.validity
      subject := r.subject.name
      publicKey := r.key.publicKeyDer
      extensions := ca.requestExtensions r keyIdentifier }
  { certificate, signature := ca.signer.sign certificate.signedPart, keyIdentifier }

/-- The certificate for a request that can be fulfilled. -/
def build (ca : CertificateAuthority) (r : CertificateRequest) : Outcome BuiltCertificate := do
  validateSubject r.subject r.alternateName r.validity
  r.validity.checkRange
  .ok (ca.assemble r)

end CertificateAuthority

end EntitlementAuthority
