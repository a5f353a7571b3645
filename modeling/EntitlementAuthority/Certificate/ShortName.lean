import EntitlementAuthority.Oid

/-!
# Short names of identifiers

People know the attributes of a name by short names. Identifiers of extensions and algorithms
have them too and may stand in the place of an attribute.

* `shortNames` — the identifiers that have a short name.
-/

namespace EntitlementAuthority

/-- The arcs above the attributes of a directory. -/
def directoryArcs : List Nat := [2, 5, 4]

/-- The arcs above the extensions of a certificate. -/
def extensionArcs : List Nat := [2, 5, 29]

/-- The arcs above the methods of signing and encrypting with RSA. -/
def rsaArcs : List Nat := [1, 2, 840, 113549, 1, 1]

/-- The arcs above the attributes of messages and requests. -/
def messageArcs : List Nat := [1, 2, 840, 113549, 1, 9]

/-- The arcs above the attributes of people and machines in a network. -/
def networkArcs : List Nat := [0, 9, 2342, 19200300, 100, 1]

/-- The arcs above the places where a company is registered. -/
def jurisdictionArcs : List Nat := [1, 3, 6, 1, 4, 1, 311, 60, 2, 1]

/-- The arcs above elliptic curves and the signatures with them. -/
def curveArcs : List Nat := [1, 2, 840, 10045]

/-- The arcs above elliptic curves that are known by name alone. -/
def namedCurveArcs : List Nat := [1, 3, 132, 0]

/-- The arcs above the ways to find out more about a certificate. -/
def accessArcs : List Nat := [1, 3, 6, 1, 5, 5, 7, 1]

/-- The arcs above signatures with Edwards curves. -/
def edwardsArcs : List Nat := [1, 3, 101]

/-- The arcs above digests. -/
def digestArcs : List Nat := [2, 16, 840, 1, 101, 3, 4, 2]

/-- Names of the identifiers below some arcs. -/
def namesBelow (above : List Nat) (names : List (List Nat × String)) : List (Oid × String) :=
  names.map fun (arcs, name) => (⟨above ++ arcs⟩, name)

/-- The identifiers that have a short name. -/
def shortNames : List (Oid × String) :=
  namesBelow directoryArcs [
      ([3], "CN"), ([6], "C"), ([7], "L"), ([8], "ST"), ([10], "O"), ([11], "OU"),
      ([0], "objectClass"), ([1], "aliasedEntryName"), ([2], "knowledgeInformation"),
      ([4], "surname"), ([5], "serialNumber"), ([9], "streetAddress"), ([12], "title"),
      ([13], "description"), ([14], "searchGuide"), ([15], "businessCategory"),
      ([16], "postalAddress"), ([17], "postalCode"), ([41], "name"), ([42], "givenName"),
      ([43], "initials"), ([44], "generationQualifier"), ([45], "uniqueIdentifier"),
      ([46], "dnQualifier"), ([], "x509")]
    ++ namesBelow networkArcs [([25], "DC"), ([1], "uid")]
    ++ namesBelow messageArcs [
      ([1], "Email"), ([2], "unstructuredName"), ([3], "contentType"), ([4], "id-messageDigest"),
      ([5], "signing-time"), ([7], "challengePassword"), ([14], "extensionRequest"),
      ([15], "smimeCapabilities"), ([20], "friendlyName")]
    ++ namesBelow jurisdictionArcs [
      ([1], "jurisdictionLocality"), ([2], "jurisdictionStateOrProvince"),
      ([3], "jurisdictionCountry")]
    ++ namesBelow extensionArcs [
      ([14], "subjectKeyIdentifier"), ([15], "keyUsage"), ([16], "privateKeyUsagePeriod"),
      ([17], "subjectAltName"), ([18], "issuerAltName"), ([19], "basicConstraints"),
      ([20], "crlNumber"), ([21], "reasonCode"), ([24], "invalidityDate"),
      ([27], "deltaCRLIndicator"), ([28], "issuingDistributionPoint"), ([30], "nameConstraints"),
      ([31], "crlDistributionPoints"), ([32], "certificatePolicies"), ([33], "policyMappings"),
      ([35], "authorityKeyIdentifier"), ([36], "policyConstraints"), ([37], "extendedKeyUsage"),
      ([46], "freshestCRL"), ([54], "inhibitAnyPolicy")]
    ++ namesBelow rsaArcs [
      ([1], "rsaEncryption"), ([2], "md2WithRSAEncryption"), ([3], "md4WithRSAEncryption"),
      ([4], "md5WithRSAEncryption"), ([5], "sha1WithRSAEncryption"), ([8], "id-mgf1"), ([10], "rsassa-pss"),
      ([11], "sha256WithRSAEncryption"), ([12], "sha384WithRSAEncryption"),
      ([13], "sha512WithRSAEncryption"), ([14], "sha224WithRSAEncryption")]
    ++ namesBelow curveArcs [
      ([2, 1], "id-ecPublicKey"), ([3, 1, 7], "prime256v1"), ([4, 3, 1], "ecdsa-with-SHA224"),
      ([4, 3, 2], "ecdsa-with-SHA256"), ([4, 3, 3], "ecdsa-with-SHA384"),
      ([4, 3, 4], "ecdsa-with-SHA512")]
    ++ namesBelow namedCurveArcs [([34], "secp384r1"), ([35], "secp521r1")]
    ++ namesBelow digestArcs [([1], "sha256"), ([2], "sha384"), ([3], "sha512")]
    ++ namesBelow accessArcs [([1], "authorityInfoAccess"), ([11], "subjectInfoAccess")]
    ++ namesBelow edwardsArcs [([112], "ed25519"), ([113], "ed448")]

end EntitlementAuthority
