import EntitlementAuthority.Certificate.Inspection
import EntitlementAuthority.Certificate.Pem
import EntitlementAuthority.Json.Indented
import EntitlementAuthority.PathTree.Decode
import EntitlementAuthority.Payload.Frame

/-!
# Listing certificates

What a certificate says, for people to read: whom it is for, its entitlement extensions, and the
payload behind it.

* `Listing` — text up to the first part that cannot be shown.
* `Listing.ofArtifact` — lists a certificate and its payload.
-/

namespace EntitlementAuthority

/-- A text of several parts. -/
structure Listing where
  text : String
  /-- Why there is no more; nothing if all is there. -/
  fault : Option Fault
deriving DecidableEq, Repr

namespace Listing

/-- The parts up to the first that cannot be shown. -/
def ofParts : List (Outcome String) → Listing
  | [] => ⟨"", none⟩
  | .ok part :: parts =>
    let rest := ofParts parts
    ⟨part ++ rest.text, rest.fault⟩
  | .error e :: _ => ⟨"", some e⟩

/-- A line. -/
def line (s : String) : String :=
  s ++ "\n"

/-! ### The certificate -/

/-- The names of the months. -/
def monthNames : List String :=
  ["Jan", "Feb", "Mar", "Apr", "May", "Jun", "Jul", "Aug", "Sep", "Oct", "Nov", "Dec"]

/-- A day of the month in two columns. -/
def dayText (day : Nat) : String :=
  (if day < 10 then " " else "") ++ toString day

/-- By how many minutes a clock is ahead of Universal Time, in hours and minutes. -/
def aheadText (ahead : Int) : String :=
  (if ahead < 0 then "-" else "+") ++ Time.padded 2 (ahead.natAbs / 60) ++ ":"
    ++ Time.padded 2 (ahead.natAbs % 60)

/-- An instant as it is listed, by a clock that is ahead of Universal Time. -/
def instantText (t : Instant) (ahead : Int) : String :=
  let c := (t.addSeconds (60 * ahead)).civil
  monthNames.getD (c.date.month - 1) "" ++ " " ++ dayText c.date.day ++ " " ++ Time.timeText c
    ++ " " ++ toString c.date.year ++ " " ++ aheadText ahead

/-- Whom a certificate is for, and from when until when. -/
def header (c : X509) : String :=
  line ("Subject:    " ++ c.subject.text)
    ++ line ("Issuer:     " ++ c.issuer.text)
    ++ line ("Serial:     " ++ toString c.serial)
    ++ line ("Not before: " ++ instantText c.validity.notBefore c.clocks.notBefore)
    ++ line ("Not after:  " ++ instantText c.validity.notAfter c.clocks.notAfter)

/-- The paths of a content tree. -/
def pathLines (id : String) (tree : Bytes) : Outcome String :=
  (PathTree.decode tree).map fun paths =>
    line (id ++ ": " ++ toString paths.length ++ " content paths (" ++ toString tree.length
      ++ " bytes)")
      ++ String.join (paths.map fun path => line ("    " ++ path))

/-- An entitlement extension. -/
def extensionLines (o : Oid) : ExtensionValue → Outcome String
  | .text s => .ok (line (o.text ++ ": " ++ s))
  | .bytes b =>
    if o = Oid.contentTree then pathLines o.text b
    else .ok (line (o.text ++ ": " ++ Bytes.toHex b))

/-- The entitlement extensions, in the order of the certificate. -/
def extensionParts (c : X509) : List (Outcome String) :=
  c.extensions.filterMap fun e => e.underBase?.map fun (o, value) => value.bind (extensionLines o)

/-! ### The payload -/

/-- The body of a payload on many lines. -/
def bodyLines (json : Bytes) : Outcome String :=
  match Json.indentedText? json with
  | some s => .ok (line s)
  | none => .error (.serialization "the payload is not JSON")

/-- The payload behind a certificate, if there is one. -/
def payloadParts (artifact : String) : List (Outcome String) :=
  match SignedPayload.parse artifact with
  | .error e => [.error e]
  | .ok none => []
  | .ok (some p) =>
    [.ok (line ("Signature:  " ++ p.scheme.label ++ " (" ++ toString p.signature.length
      ++ " bytes)")), bodyLines p.json]

/-! ### Both -/

/-- The certificate that a text begins with. -/
def certificate (artifact : String) : Outcome X509 :=
  match Pem.decode? artifact with
  | none => .error (.malformed "no PEM certificate found")
  | some der =>
    match X509.ofDer? der with
    | none => .error (.malformed "invalid X.509 certificate")
    | some c => .ok c

/-- Lists a certificate, and the payload behind it if that is asked for. -/
def ofArtifact (withPayload : Bool) (artifact : String) : Listing :=
  match certificate artifact with
  | .error e => ⟨"", some e⟩
  | .ok c =>
    ofParts (.ok (header c) :: extensionParts c
      ++ (if withPayload then payloadParts artifact else []))

end Listing

end EntitlementAuthority
