import EntitlementAuthority.Certificate.Name
import EntitlementAuthority.Der.Integer
import EntitlementAuthority.Der.Time

/-!
# X.509 certificates

* `X509` — what a certificate says.
* `X509.der` — the certificate with a signature.
* `X509.ofDer?` — reads a certificate; its signature is not checked. Classes of tags and whether
  an element is made of elements count only where the readers ask for them.
-/

namespace EntitlementAuthority

/-- An extension as it stands in a certificate: the contents of its identifier and its value. -/
structure RawExtension where
  identifier : Bytes
  critical : Bool
  value : Bytes
deriving DecidableEq, Repr

namespace RawExtension

/-- The extension as an element. -/
def der (e : RawExtension) : Bytes :=
  Der.sequence
    ([Der.element Der.identifierTag e.identifier]
      ++ (if e.critical then [Der.boolean true] else []) ++ [Der.octets e.value])

/-- Takes a truth value, if one stands in front; anything but zero is true. -/
def takeCritical (input : Bytes) : Bool × Bytes :=
  match Der.within? Der.booleanTag (fun | [b] => some (b != 0) | _ => none) input with
  | some (critical, rest) => (critical, rest)
  | none => (false, input)

/-- Takes an extension; it is not critical unless it says so, and what stands behind its value
does not count. -/
def take? : Der.Reader RawExtension :=
  Der.within? Der.sequenceTag fun contents => do
    let (identifier, rest) ← Oid.take? contents
    let (critical, rest) := takeCritical rest
    let (value, _) ← Der.next? rest
    some ⟨identifier, critical, ← value.primitive? Der.octetStringTag⟩

end RawExtension

/-- By how many minutes the clocks that a validity was read from are ahead of Universal Time, in
which it is written. -/
structure Clocks where
  notBefore : Int := 0
  notAfter : Int := 0
deriving DecidableEq, Repr

/-- What a certificate says. -/
structure X509 where
  /-- One less than the number of the version. -/
  version : Nat
  serial : Nat
  /-- The element that names the algorithm of the signature. -/
  signatureAlgorithm : Bytes
  issuer : Name
  validity : Validity
  subject : Name
  /-- The element that holds the public key of the subject. -/
  publicKey : Bytes
  extensions : List RawExtension
  /-- The clocks of the validity. -/
  clocks : Clocks := {}
deriving DecidableEq, Repr

namespace X509

/-! ### Writing -/

/-- The part of a certificate that is signed. -/
def signedPart (c : X509) : Bytes :=
  Der.sequence
    [Der.tagged 0 (Der.natural c.version), Der.natural c.serial, c.signatureAlgorithm,
      c.issuer.der, Der.sequence [Der.time c.validity.notBefore, Der.time c.validity.notAfter],
      c.subject.der, c.publicKey,
      Der.tagged 3 (Der.sequence (c.extensions.map RawExtension.der))]

/-- The certificate with its signature. -/
def der (c : X509) (signature : Bytes) : Bytes :=
  Der.sequence [c.signedPart, c.signatureAlgorithm, Der.bits signature]

/-! ### Reading -/

/-- Reads the element that holds a version, a number of 32 bits. -/
def version? (e : Der.Element) : Option Nat := do
  let version ← Der.shortestNatural? (← e.primitive? Der.integerTag)
  if version < Nat.pow 2 32 then some version else none

/-- Takes the version, which is the first one if nothing is said. -/
def takeVersion? : Der.Reader Nat := fun input => do
  let (e, rest) ← Der.next? input
  if e.tag.number ≠ 0 then some (0, input)
  else if e.tag.tagClass = .context then
    let (inner, _) ← Der.next? e.contents
    some (← version? inner, rest)
  else none

/-- Whether bytes begin with an identifier and go on with an element, or end there. -/
def isAlgorithm (contents : Bytes) : Bool :=
  match Oid.take? contents with
  | some (_, parameter) => parameter.isEmpty || (Der.next? parameter).isSome
  | none => false

/-- Takes an element that names an algorithm. -/
def takeAlgorithm? : Der.Reader Bytes := fun input => do
  let (e, rest) ← Der.next? input
  if e.isNumbered Der.sequenceTag && isAlgorithm e.contents then some (e.der, rest) else none

/-- Takes a validity. -/
def takeValidity? : Der.Reader (Validity × Clocks) :=
  Der.within? Der.sequenceTag fun contents => do
    let (notBefore, rest) ← Der.takeTime? contents
    let (notAfter, _) ← Der.takeTime? rest
    some (⟨notBefore.instant, notAfter.instant⟩, ⟨notBefore.ahead, notAfter.ahead⟩)

/-- Takes the contents of a BIT STRING. -/
def takeBits? : Der.Reader Bytes := fun input => do
  let (e, rest) ← Der.next? input
  let contents ← e.primitive? Der.bitStringTag
  if Der.isBits contents then some (contents, rest) else none

/-- Takes an element that holds a public key. -/
def takePublicKey? : Der.Reader Bytes := fun input => do
  let (e, rest) ← Der.next? input
  let (_, key) ← takeAlgorithm? e.contents
  let _ ← takeBits? key
  if e.isNumbered Der.sequenceTag then some (e.der, rest) else none

/-- What follows an identifier of the issuer or the subject that stands in front under a tag of
the context. -/
def skipUniqueIdentifier? (number : Nat) (input : Bytes) : Option Bytes := do
  if input.isEmpty then some []
  else
    let (e, rest) ← Der.next? input
    if e.tag.number = number ∧ e.tag.tagClass = .context then
      if e.contents.isEmpty then none else some rest
    else some input

/-- The number of the tag in front of extensions. -/
def extensionsNumber : Nat := 3

/-- Reads the extensions, with which a certificate ends; there may be none. There is a length
behind their tag, but it does not count. -/
def readExtensions? (input : Bytes) : Option (List RawExtension) := do
  if input.isEmpty then some []
  else
    let (tag, rest) ← Der.takeTag? input
    let (extent, rest) ← Der.takeExtent? rest
    if tag.number ≠ extensionsNumber ∨ extent = .indefinite then none
    else
      match ← Der.within? Der.sequenceTag (Der.readAll? RawExtension.take?) rest with
      | (extensions, []) => some extensions
      | _ => none

/-- Reads the signed part. -/
def ofSignedPart? (contents : Bytes) : Option X509 := do
  let (version, rest) ← takeVersion? contents
  let (serial, rest) ← Der.takeUnsigned? rest
  let (signatureAlgorithm, rest) ← takeAlgorithm? rest
  let (issuer, rest) ← Name.take? rest
  let ((validity, clocks), rest) ← takeValidity? rest
  let (subject, rest) ← Name.take? rest
  let (publicKey, rest) ← takePublicKey? rest
  let rest ← skipUniqueIdentifier? 1 rest
  let rest ← skipUniqueIdentifier? 2 rest
  let extensions ← readExtensions? rest
  some { version, serial, signatureAlgorithm, issuer, validity, subject, publicKey, extensions,
         clocks }

/-- Reads the certificate at the front of some bytes; what stands behind its signature does not
count. -/
def ofDer? (input : Bytes) : Option X509 := do
  let (outer, _) ← Der.next? input
  if outer.isNumbered Der.sequenceTag then
    let (certificate, rest) ← Der.within? Der.sequenceTag ofSignedPart? outer.contents
    let (_, rest) ← takeAlgorithm? rest
    let _ ← takeBits? rest
    some certificate
  else none

end X509

end EntitlementAuthority
