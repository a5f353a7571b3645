import EntitlementAuthority.Anonymous.Cache
import EntitlementAuthority.Issuance.Certificate
import EntitlementAuthority.Issuance.CertificateStore
import EntitlementAuthority.Payload.Cache
import EntitlementAuthority.Payload.Frame
import EntitlementAuthority.Registry.Directory
import EntitlementAuthority.Signature.KeyRing

/-!
# The entitlement authority

* `Authority` — everything that the authority keeps.
* `Authority.sign` — makes a certificate of a plan.
* `Authority.supersede` — puts a certificate in the place of the one before, in three steps.
* `Authority.standing` — whether a certificate can still be handed out.
-/

namespace EntitlementAuthority

/-- Everything that the authority keeps. -/
structure Authority where
  config : Config
  ca : CertificateAuthority
  /-- How often the key of the certificate authority was used. -/
  signatures : Nat
  directory : Directory
  serials : SerialLedger
  certificates : CertificateStore IssuedCertificate
  payloads : PayloadCache PayloadRows
  anonymousContent : AnonymousCache
  keys : KeyRing

namespace Authority

/-- An authority that has not issued anything. -/
def create (cryptography : Cryptography) (config : Config) (now : Instant) : Outcome Authority := do
  let algorithm := config.certificates.keyAlgorithm
  let ca ← CertificateAuthority.create cryptography config.authority (cryptography.draw algorithm 0)
    now
  let anonymousContent ←
    AnonymousCache.create config.cache.anonymousEntries config.cache.anonymousSeconds
  .ok {
    config
    ca
    signatures := 0
    directory := .empty
    serials := .empty
    certificates := .empty
    payloads := .ofStore Table.empty
    anonymousContent
    keys := .empty cryptography algorithm }

variable {α : Type}

/-! ### Parts -/

/-- A request on the directory. -/
def onDirectory (r : Request Directory α) : Request Authority α :=
  Request.within Authority.directory (fun directory a => { a with directory }) r

/-- A request on the serials. -/
def onSerials (r : Request SerialLedger α) : Request Authority α :=
  Request.within Authority.serials (fun serials a => { a with serials }) r

/-- A request on the current certificates. -/
def onCertificates (r : Request (CertificateStore IssuedCertificate) α) : Request Authority α :=
  Request.within Authority.certificates (fun certificates a => { a with certificates }) r

/-- A request on the cache for anonymous consumers. -/
def onAnonymousContent (r : Request AnonymousCache α) : Request Authority α :=
  Request.within Authority.anonymousContent (fun anonymousContent a => { a with anonymousContent }) r

/-- A request on the key pairs. -/
def onKeys (r : Request KeyRing α) : Request Authority α :=
  Request.within Authority.keys (fun keys a => { a with keys }) r

/-- The current certificate of a role. -/
def current? (a : Authority) (role : Role) : Option IssuedCertificate :=
  a.certificates.get? role.kind role.subject

/-! ### Signing -/

/-- Signs a body. -/
def signBody (body : EntitlementBody) : Request Authority String := fun a =>
  (.ok (Payload.ofBody a.ca.signer body), { a with signatures := a.signatures + 1 })

/-- Signs the payload of a plan, if that is still to be done. -/
def signPayload : PlannedPayload → Request Authority (Option String)
  | .none => pure none
  | .signed text => pure (some text)
  | .ofBody body => some <$> signBody body

/-- Signs a certificate, unless it cannot be made. -/
def certify (r : CertificateRequest) : Request Authority BuiltCertificate := fun a =>
  match a.ca.build r with
  | .ok built => (.ok built, { a with signatures := a.signatures + 1 })
  | .error e => (.error e, a)

/-- Makes a certificate of a plan: checks the subject, signs the payload, takes the key pair,
allocates the serial and signs. -/
def sign (plan : Plan) (now : Instant) : Request Authority IssuedCertificate := do
  -- nothing is signed and no serial is used up for a subject that cannot be certified
  Request.ofOutcome (validateSubject plan.subject plan.alternateName plan.validity)
  let payload ← signPayload plan.payload
  let key ← onKeys (KeyRing.keyFor plan.keySubject)
  let serial ← onSerials (Request.state (SerialLedger.allocate plan.validity.notAfter))
  let certificate ← certify
    { subject := plan.subject
      alternateName := plan.alternateName
      validity := plan.validity
      key
      serial := serial.id
      extensions := plan.extensions }
  pure {
    role := plan.role
    key
    certificate
    body := plan.body
    payload
    serial
    environmentIds := plan.environmentIds
    updated := now }

/-! ### Superseding -/

/-- Stores a certificate and answers with the one that it replaces. -/
def store (fresh : IssuedCertificate) : Request Authority (Option IssuedCertificate) :=
  onCertificates (Request.state (CertificateStore.put fresh.role.kind fresh.role.subject fresh))

/-- Revokes the serial of a certificate that was replaced. -/
def retire : Option IssuedCertificate → Request Authority Unit
  | none => pure ()
  | some previous => onSerials (SerialLedger.revoke previous.serial.id)

/-- An entitlement with a new certificate is no longer dirty. -/
def markClean (fresh : IssuedCertificate) : Request Authority Unit :=
  if fresh.role.kind = .entitlement then onDirectory (Directory.setDirty fresh.role.subject false)
  else pure ()

/-- Puts a certificate in the place of the one before, whose serial is revoked. -/
def supersede (fresh : IssuedCertificate) : Request Authority IssuedCertificate := do
  -- stored before the old one is revoked, so that a valid certificate is always at hand
  let previous ← store fresh
  retire previous
  markClean fresh
  pure fresh

/-! ### Standing -/

end Authority

/-- How things stand with the certificate of a role. -/
inductive CertificateState where
  | absent
  | valid
  /-- It is replaced when it is next asked for. -/
  | stale
  /-- Its serial has been revoked. -/
  | superseded
deriving DecidableEq, Repr

/-- The name of a state. -/
def CertificateState.text : CertificateState → String
  | absent => "Absent"
  | valid => "Valid"
  | stale => "Stale"
  | superseded => "Superseded"

namespace Authority

/-- How many days before its end a certificate is renewed; those for content access only when
they have ended. -/
def renewalDays (config : Config) : CertificateKind → Nat
  | .contentAccess => 0
  | .anonymousContentAccess => 0
  | _ => config.certificates.renewalThresholdDays

/-- Whether the serial of a certificate has been revoked. -/
def isRevoked (a : Authority) (c : IssuedCertificate) : Bool :=
  ((a.serials.get? c.serial.id).map (·.revoked)).getD c.serial.revoked

/-- Whether a certificate is for an entitlement that is dirty. -/
def isDirty (a : Authority) (c : IssuedCertificate) : Outcome Bool :=
  if c.role.kind = .entitlement then (a.directory.entitlement c.role.subject).map (·.dirty)
  else .ok false

/-- How things stand with a certificate, wherever its consumer is. -/
def standing (a : Authority) (c : IssuedCertificate) (now : Instant) :
    Outcome CertificateState :=
  if a.isRevoked c then .ok .superseded
  else if c.serial.isExpired (now.addDays (renewalDays a.config c.role.kind)) then .ok .stale
  else (a.isDirty c).map fun dirty => if dirty then .stale else .valid

/-- How things stand with the certificate of a role. The certificate for content access goes with
the environments of the consumer. -/
def state (a : Authority) (role : Role) (now : Instant) : Outcome CertificateState :=
  match a.current? role with
  | none => .ok .absent
  | some c => do
    if role.kind = .contentAccess then
      let consumer ← a.directory.consumer role.subject
      if c.environmentIds ≠ consumer.environmentIds then return .stale
    a.standing c now

end Authority

end EntitlementAuthority
