import EntitlementAuthority.Issuance.Requests

/-!
# Requests for a certificate, one step at a time

A request for a certificate reads and changes one part of the authority after the other. Between
two of its steps other requests may do theirs.

* `IssueCall` — what is asked for, and `IssueCall.request`, which does it in one go.
* `IssueStage`, `Issuer` — how far a request has come.
* `Issuer.advance` — the next step of a request.
-/

namespace EntitlementAuthority

/-- A request for a certificate. -/
inductive IssueCall where
  | generate (role : Role)
  | regenerate (role : Role) (putOff : Bool)

namespace IssueCall

/-- Whose certificate is asked for. -/
def role : IssueCall → Role
  | generate role => role
  | regenerate role _ => role

/-- Whether a valid certificate would not do. -/
def isForced : IssueCall → Bool
  | generate _ => false
  | regenerate _ _ => true

/-- The whole request. -/
def request (now : Instant) : IssueCall → Request Authority (Option IssuedCertificate)
  | generate role => Authority.generate role now
  | regenerate role putOff => Authority.regenerate role putOff now

end IssueCall

/-- How far a request has come. -/
inductive IssueStage where
  | called
  /-- The entitlement is flagged, and its certificate is read. -/
  | flagged
  /-- The certificate for content access is looked up. -/
  | looking (x : ContentAccess)
  /-- There is a certificate, and it is decided whether it still holds. -/
  | judging (c : IssuedCertificate)
  | planning
  /-- The subject is checked, the payload is signed and the key pair is taken. -/
  | preparing (plan : Plan)
  /-- The serial is entered. -/
  | allocating (plan : Plan) (payload : Option String) (key : KeyPair)
  | certifying (plan : Plan) (payload : Option String) (key : KeyPair) (serial : Serial)
  | storing (fresh : IssuedCertificate)
  /-- The serial of the certificate that was replaced is revoked. -/
  | retiring (fresh : IssuedCertificate) (previous : Option IssuedCertificate)
  /-- The entitlement is unflagged. -/
  | clearing (fresh : IssuedCertificate)
  /-- The payload for content access is added. -/
  | attaching (x : ContentAccess) (c : IssuedCertificate)
  | answered (answer : Outcome (Option IssuedCertificate))

/-- A request and how far it has come. -/
structure Issuer where
  call : IssueCall
  /-- The consumer, if the certificate is for content access. -/
  access : Option ContentAccess
  /-- The certificate that stays if a new one would be too large. -/
  fallback : Option IssuedCertificate
  stage : IssueStage

namespace Issuer

/-- A request that has not done anything. -/
def ofCall (call : IssueCall) : Issuer where
  call := call
  access := none
  fallback := none
  stage := .called

variable {α : Type}

/-- The request at another stage. -/
def atStage (t : Issuer) (stage : IssueStage) : Issuer :=
  { t with stage }

/-- A fault is the answer. -/
def fails (t : Issuer) (e : Fault) : Issuer :=
  t.atStage (.answered (.error e))

/-- If no certificate can be issued because it would be too large, the one before is the answer. -/
def issueFails (t : Issuer) (e : Fault) : Issuer :=
  match e, t.fallback with
  | .tooManyContentSets .., some c => t.atStage (.answered (.ok (some c)))
  | e, _ => t.fails e

/-- There is a certificate to answer with; for content access the payload is still missing. -/
def finishes (t : Issuer) (c : IssuedCertificate) : Issuer :=
  match t.access with
  | none => t.atStage (.answered (.ok (some c)))
  | some x => t.atStage (.attaching x c)

/-- Does something and goes on with what comes of it. -/
def after (r : Request Authority α) (fails : Fault → Issuer) (next : α → Issuer) (a : Authority) :
    Issuer × Authority :=
  match r a with
  | (.ok x, b) => (next x, b)
  | (.error e, b) => (fails e, b)

section After

variable {r : Request Authority α} {fails : Fault → Issuer} {next : α → Issuer} {a b : Authority}

theorem after_ok {x : α} (h : r a = (.ok x, b)) : after r fails next a = (next x, b) := by
  rw [after, h]

theorem after_error {e : Fault} (h : r a = (.error e, b)) :
    after r fails next a = (fails e, b) := by
  rw [after, h]

end After

end Issuer

namespace Authority

/-- Everything that comes before the serial: checks the subject, signs the payload and takes the
key pair. -/
def prepare (plan : Plan) : Request Authority (Option String × KeyPair) := do
  Request.ofOutcome (validateSubject plan.subject plan.alternateName plan.validity)
  let payload ← signPayload plan.payload
  let key ← onKeys (KeyRing.keyFor plan.keySubject)
  pure (payload, key)

/-- Enters the serial of a certificate. -/
def allocate (plan : Plan) : Request Authority Serial :=
  onSerials (Request.state (SerialLedger.allocate plan.validity.notAfter))

/-- Signs the certificate of a plan. -/
def certifyPlan (plan : Plan) (key : KeyPair) (serial : Serial) :
    Request Authority BuiltCertificate :=
  certify
    { subject := plan.subject
      alternateName := plan.alternateName
      validity := plan.validity
      key
      serial := serial.id
      extensions := plan.extensions }

/-- Issues a certificate for content access. -/
def issueContentAccess (x : ContentAccess) (now : Instant) : Request Authority IssuedCertificate :=
  (Request.get fun a => x.plan a.config now) >>= fun plan => sign plan now

end Authority

/-- The certificate of a plan, once it is signed. -/
def Plan.certified (plan : Plan) (payload : Option String) (key : KeyPair) (serial : Serial)
    (now : Instant) (certificate : BuiltCertificate) : IssuedCertificate where
  role := plan.role
  key := key
  certificate := certificate
  body := plan.body
  payload := payload
  serial := serial
  environmentIds := plan.environmentIds
  updated := now

namespace Issuer

open Authority

/-- What the certificate will say. -/
def plan (t : Issuer) (now : Instant) : Request Authority Plan :=
  match t.access with
  | some x => Request.get fun a => x.plan a.config now
  | none => Authority.plan t.call.role now

/-- The first step of a request. -/
def begins (t : Issuer) : Authority → Issuer × Authority :=
  if t.call.role.kind = .contentAccess then
    after (Request.read fun a => ContentAccess.find a.directory t.call.role.subject) t.fails
      fun
        | none => t.atStage (.answered (.ok none))
        | some x => { t with access := some x, stage := .looking x }
  else
    match t.call with
    | .generate role =>
      after (Request.get fun a => a.current? role) t.fails
        fun
          | none => t.atStage .planning
          | some c => t.atStage (.judging c)
    | .regenerate role putOff =>
      if role.kind = .entitlement ∧ putOff = true then
        after (onDirectory (Directory.setDirty role.subject true)) t.fails
          fun _ => t.atStage .flagged
      else
        after (Request.get fun a => a.current? role) t.fails
          fun previous => { t with fallback := previous, stage := .planning }

/-- **The next step of a request**, done at some instant. -/
def advance (t : Issuer) (now : Instant) : Authority → Issuer × Authority :=
  match t.stage with
  | .called => t.begins
  | .flagged =>
    after (Request.get fun a => a.current? t.call.role) t.fails
      fun c => t.atStage (.answered (.ok c))
  | .looking x =>
    after (Request.get fun a => a.current? (.contentAccess x.consumer.id)) t.fails
      fun
        | none => t.atStage .planning
        | some c =>
          if c.environmentIds ≠ x.consumer.environmentIds ∨ t.call.isForced then t.atStage .planning
          else t.atStage (.judging c)
  | .judging c =>
    after (Request.read fun a => a.standing c now) t.fails
      fun s => if s = .valid then t.finishes c else t.atStage .planning
  | .planning => after (t.plan now) t.issueFails fun plan => t.atStage (.preparing plan)
  | .preparing plan =>
    after (prepare plan) t.issueFails
      fun prepared => t.atStage (.allocating plan prepared.1 prepared.2)
  | .allocating plan payload key =>
    after (allocate plan) t.issueFails fun serial => t.atStage (.certifying plan payload key serial)
  | .certifying plan payload key serial =>
    after (certifyPlan plan key serial) t.issueFails
      fun certificate => t.atStage (.storing (plan.certified payload key serial now certificate))
  | .storing fresh =>
    after (store fresh) t.fails fun previous => t.atStage (.retiring fresh previous)
  | .retiring fresh previous => after (retire previous) t.fails fun _ => t.atStage (.clearing fresh)
  | .clearing fresh => after (markClean fresh) t.fails fun _ => t.finishes fresh
  | .attaching x c =>
    after (contentPayload x now) t.fails
      fun row => t.atStage (.answered (.ok (some { c with payload := some row.payload })))
  | .answered _ => fun a => (t, a)

end Issuer

end EntitlementAuthority
