import EntitlementAuthority.Body.Codec
import EntitlementAuthority.Bytes.Base64
import EntitlementAuthority.Signature.Signer
import EntitlementAuthority.Text.Fields
import EntitlementAuthority.Zlib.Inflate
import EntitlementAuthority.Zlib.Store

/-!
# Signed payloads

The body of an entitlement stands behind the certificate: compressed, in base64 and between
markers, and then a signature over the text of the body. The markers of the signature name its
scheme.

* `compress`, `decompress` — the middle of the data block.
* `Payload.frame`, `Payload.ofBody` — what is put behind a certificate; `Payload.frameWith` and
  `Payload.ofBodyWith` with any compressor.
* `SignedPayload.parse` — splits a certificate with a payload into its parts.
* `SignedPayload.verify` — checks scheme and signature.
-/

namespace EntitlementAuthority

/-! ### The data block -/

/-- Compresses bytes and writes them in base64, on a single line. -/
def compress (bytes : Bytes) : String :=
  Base64.encode (Zlib.deflate bytes)

/-- Reads what `compress` writes, with blanks around it. -/
def decompress (encoded : String) : Outcome Bytes :=
  match Base64.decode? (Text.trim encoded) with
  | none => .error (.malformed "invalid base64: not canonical base64")
  | some compressed =>
    match Zlib.inflate? compressed with
    | none => .error (.malformed "invalid deflate stream: corrupt deflate stream")
    | some (bytes, _) => .ok bytes

/-! ### Markers -/

namespace Payload

/-- Stands in front of the data. -/
def dataBegin : String := "-----BEGIN ENTITLEMENT DATA-----"

/-- Stands behind the data. -/
def dataEnd : String := "-----END ENTITLEMENT DATA-----"

/-- What a signature block begins with, up to the label. -/
def labelBegin : String := "-----BEGIN "

/-- What follows the label. -/
def labelEnd : String := " SIGNATURE-----"

/-- Stands behind a signature. -/
def signatureEnd (scheme : SignatureScheme) : String :=
  "-----END " ++ scheme.label ++ labelEnd

/-! ### Writing -/

/-- The data block and the signature block for some text. -/
def frame (signer : Signer) (json : Bytes) : String :=
  dataBegin ++ "\n" ++ compress json ++ "\n" ++ dataEnd ++ "\n"
    ++ labelBegin ++ signer.scheme.label ++ labelEnd ++ "\n"
    ++ Base64.encode (signer.sign json) ++ "\n" ++ signatureEnd signer.scheme ++ "\n"

/-- The payload of a body. -/
def ofBody (signer : Signer) (body : EntitlementBody) : String :=
  frame signer body.bytes

/-- The data block and the signature block for some text, written with any compressor. -/
def frameWith (deflate : Bytes → Bytes) (signer : Signer) (json : Bytes) : String :=
  dataBegin ++ "\n" ++ Base64.encode (deflate json) ++ "\n" ++ dataEnd ++ "\n"
    ++ labelBegin ++ signer.scheme.label ++ labelEnd ++ "\n"
    ++ Base64.encode (signer.sign json) ++ "\n" ++ signatureEnd signer.scheme ++ "\n"

/-- The payload of a body, written with any compressor. -/
def ofBodyWith (deflate : Bytes → Bytes) (signer : Signer) (body : EntitlementBody) : String :=
  frameWith deflate signer body.bytes

end Payload

/-! ### Reading -/

/-- A certificate with a payload, split into its parts. -/
structure SignedPayload where
  /-- What stands in front of the data block. -/
  certificate : String
  /-- The text of the body. -/
  json : Bytes
  scheme : SignatureScheme
  signature : Bytes
deriving DecidableEq, Repr

namespace SignedPayload

/-- What stands in front of the first occurrence of a text and behind it, or a fault. -/
def cut (pattern : String) (s : List Char) (missing : String) :
    Outcome (List Char × List Char) :=
  match Text.cutAt? pattern.toList s with
  | some parts => .ok parts
  | none => .error (.malformed missing)

/-- Reads a signature block: scheme and signature. -/
def readSignature (block : List Char) : Outcome (SignatureScheme × Bytes) :=
  match Text.stripFront? Payload.labelBegin.toList (Text.trimStart block) with
  | none => .error (.malformed "missing signature block")
  | some header => do
    let (label, body) ← cut Payload.labelEnd header "malformed signature header"
    match SignatureScheme.ofLabel? (String.ofList label) with
    | none =>
      .error (.malformed ("unknown signature algorithm: " ++ String.ofList label))
    | some scheme =>
      let (signature, _) ← cut (Payload.signatureEnd scheme) body "missing end of signature"
      match Base64.decode? (Text.trim (String.ofList signature)) with
      | none => .error (.malformed "invalid signature base64: not canonical base64")
      | some signature => .ok (scheme, signature)

/-- Splits a certificate with a payload; none if there is no data block. -/
def parse (artifact : String) : Outcome (Option SignedPayload) :=
  match Text.cutAt? Payload.dataBegin.toList artifact.toList with
  | none => .ok none
  | some (certificate, rest) => do
    let (data, rest) ← cut Payload.dataEnd rest "missing end of entitlement data"
    let json ← decompress (String.ofList data)
    let (scheme, signature) ← readSignature rest
    .ok (some { certificate := String.ofList certificate, json, scheme, signature })

/-- The body of the payload. -/
def body (p : SignedPayload) : Outcome EntitlementBody :=
  EntitlementBody.read p.json

/-- Refuses a payload that is labelled with another scheme or has another signature. -/
def verify (p : SignedPayload) (signer : Signer) : Outcome Unit :=
  if p.scheme ≠ signer.scheme then
    .error (.badSignature ("payload is labelled " ++ p.scheme.label ++ " but the signer uses "
      ++ signer.scheme.label))
  else signer.verify p.json p.signature

end SignedPayload

end EntitlementAuthority
