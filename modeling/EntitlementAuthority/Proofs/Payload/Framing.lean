import EntitlementAuthority.Payload.Frame
import EntitlementAuthority.Proofs.Body.Roundtrip
import EntitlementAuthority.Proofs.Bytes.Base64
import EntitlementAuthority.Proofs.Text.Normal
import EntitlementAuthority.Proofs.Zlib.Stored
import EntitlementAuthority.Signature.KeyPair

/-!
# Signed payloads, written and read back

A payload stands behind a certificate and in front of anything. The parser looks for its four
markers, so what stands between them must not hold one.

* `SignedPayload.parse_frameWith` — its parts are found, whatever the text of the body is.
* `SignedPayload.parse_payload` — the parts and the body itself are found.
* `SignedPayload.Carries` — a text is a payload for a body, signed by a signer.
* `SignedPayload.carries_frame_iff` — what is framed is one for no other text of a body.
-/

namespace EntitlementAuthority

variable {deflate : Bytes → Bytes} {signer : Signer}

/-! ### Writing -/

namespace Payload

theorem frameWith_deflate : frameWith Zlib.deflate = frame := rfl

theorem ofBodyWith_deflate : ofBodyWith Zlib.deflate = ofBody := rfl

/-- A base64 text on a line of its own. -/
def base64Line (bytes : Bytes) : List Char :=
  '\n' :: ((Base64.encode bytes).toList ++ ['\n'])

theorem dash_notMem_base64Line (bytes : Bytes) : '-' ∉ base64Line bytes := by
  intro h
  rcases List.mem_cons.1 h with h | h
  · exact absurd h (by decide)
  rcases List.mem_append.1 h with h | h
  · exact (Base64.isPlain_of_mem_encode h).1 rfl
  · exact absurd h (by decide)

/-- What such a line stands for. -/
theorem decode?_base64Line (bytes : Bytes) :
    Base64.decode? (Text.trim (String.ofList (base64Line bytes))) = some bytes := by
  rw [base64Line, Text.trim_line fun c hc => (Base64.isPlain_of_mem_encode hc).2,
    String.ofList_toList, Base64.decode?_encode]

/-- The characters of a payload, marker by marker. -/
theorem toList_frameWith (deflate : Bytes → Bytes) (signer : Signer) (json : Bytes) :
    (frameWith deflate signer json).toList =
      dataBegin.toList ++ (base64Line (deflate json) ++ (dataEnd.toList ++
        ('\n' :: (labelBegin.toList ++ (signer.scheme.label.toList ++ (labelEnd.toList ++
          (base64Line (signer.sign json) ++
            ((signatureEnd signer.scheme).toList ++ ['\n'])))))))) := by
  have hnewline : "\n".toList = ['\n'] := rfl
  simp only [frameWith, base64Line, String.toList_append, hnewline, List.append_assoc,
    List.cons_append, List.nil_append]

end Payload

/-! ### Reading -/

namespace SignedPayload

open Payload

theorem cut_eq_ok {pattern missing : String} {s before after : List Char}
    (h : Text.cutAt? pattern.toList s = some (before, after)) :
    cut pattern s missing = .ok (before, after) := by
  rw [cut, h]

theorem decompress_base64Line (hdeflate : Zlib.IsCompressor deflate) (json : Bytes) :
    decompress (String.ofList (base64Line (deflate json))) = .ok json := by
  have hinflate := hdeflate json []
  rw [List.append_nil] at hinflate
  rw [decompress, decode?_base64Line]
  dsimp only
  rw [hinflate]

theorem space_notMem_label (scheme : SignatureScheme) : ' ' ∉ scheme.label.toList := by
  cases scheme <;> decide

theorem head?_signatureEnd (scheme : SignatureScheme) :
    (signatureEnd scheme).toList.head? = some '-' := by
  cases scheme <;> rfl

/-- Scheme and signature are found in a signature block, whatever stands behind it. -/
theorem readSignature_block (scheme : SignatureScheme) (signature : Bytes) (after : List Char) :
    readSignature ('\n' :: (labelBegin.toList ++ (scheme.label.toList ++ (labelEnd.toList ++
      (base64Line signature ++ ((signatureEnd scheme).toList ++ after)))))) =
      .ok (scheme, signature) := by
  have htrim : ∀ rest, Text.trimStart ('\n' :: (labelBegin.toList ++ rest)) =
      labelBegin.toList ++ rest := fun _ => rfl
  have hlabel := Text.cutAt?_append_of_first (base64Line signature ++
    ((signatureEnd scheme).toList ++ after)) (rfl : labelEnd.toList.head? = some ' ')
    (space_notMem_label scheme)
  have hsignature := Text.cutAt?_append_of_first after (head?_signatureEnd scheme)
    (dash_notMem_base64Line signature)
  rw [readSignature, htrim, Text.stripFront?_append]
  dsimp only
  rw [cut_eq_ok hlabel, Outcome.ok_bind]
  dsimp only
  rw [String.ofList_toList, SignatureScheme.ofLabel?_label]
  dsimp only
  rw [cut_eq_ok hsignature, Outcome.ok_bind]
  dsimp only
  rw [decode?_base64Line]

/-- A certificate that a payload can stand behind: it is empty or ends with a line break, and has no
payload of its own. -/
structure EndsLine (certificate : String) : Prop where
  newline : certificate = "" ∨ ∃ lines, certificate = lines ++ "\n"
  noMarker : Text.containsText dataBegin certificate = false

/-- The data block is found behind such a certificate. -/
theorem EndsLine.cutAt? {certificate : String} (h : EndsLine certificate) (after : List Char) :
    Text.cutAt? dataBegin.toList (certificate.toList ++ (dataBegin.toList ++ after)) =
      some (certificate.toList, after) := by
  refine Text.cutAt?_append_of_last after (by decide) ?_ fun hin => ?_
  · rcases h.newline with rfl | ⟨lines, rfl⟩
    · exact nofun
    · intro c hc
      rw [String.toList_append, List.getLast?_append] at hc
      obtain rfl : '\n' = c := Option.some.inj hc
      decide
  · have hmarker := Text.containsText_iff.2 hin
    rw [h.noMarker] at hmarker
    exact Bool.false_ne_true hmarker

/-- What a certificate with a payload is split into. -/
def split (certificate : String) (signer : Signer) (json : Bytes) : SignedPayload where
  certificate := certificate
  json := json
  scheme := signer.scheme
  signature := signer.sign json

/-- **The parts of a payload are found**, whatever its text is and whatever stands behind it. -/
theorem parse_frameWith (hdeflate : Zlib.IsCompressor deflate) {certificate : String}
    (h : EndsLine certificate) (signer : Signer) (json : Bytes) (rest : String) :
    parse (certificate ++ frameWith deflate signer json ++ rest) =
      .ok (some (split certificate signer json)) := by
  have hdata := Text.cutAt?_append_of_first
    ('\n' :: (labelBegin.toList ++ (signer.scheme.label.toList ++ (labelEnd.toList ++
      (base64Line (signer.sign json) ++ ((signatureEnd signer.scheme).toList ++
        ('\n' :: rest.toList))))))) (rfl : dataEnd.toList.head? = some '-')
    (dash_notMem_base64Line (deflate json))
  rw [parse, String.toList_append, String.toList_append, toList_frameWith]
  simp only [List.append_assoc, List.cons_append, List.nil_append]
  rw [h.cutAt?]
  dsimp only
  rw [cut_eq_ok hdata, Outcome.ok_bind]
  dsimp only
  rw [decompress_base64Line hdeflate, Outcome.ok_bind, readSignature_block, Outcome.ok_bind]
  dsimp only
  rw [String.ofList_toList]
  rfl

theorem verify_split (hsigner : signer.Sound) (certificate : String) (json : Bytes) :
    (split certificate signer json).verify signer = .ok () := by
  have hscheme : ¬ (split certificate signer json).scheme ≠ signer.scheme := not_not_intro rfl
  rw [verify, if_neg hscheme]
  exact Signer.verify_sign hsigner json

/-- A text is a payload with some text of a body and nothing in front, and with a signature that the
signer accepts. Of one body there can be many, as a scheme may sign it differently each time. -/
def Carries (signer : Signer) (json : Bytes) (payload : String) : Prop :=
  ∃ p, parse payload = .ok (some p) ∧ p.certificate = "" ∧ p.json = json ∧
    p.verify signer = .ok ()

/-- What is framed is what the payload carries, and nothing else is. -/
theorem carries_frame_iff (hsigner : signer.Sound) {json json' : Bytes} :
    Carries signer json (frame signer json') ↔ json' = json := by
  have hline : EndsLine "" := ⟨.inl rfl, by decide⟩
  have hparse : parse (frame signer json') = .ok (some (split "" signer json')) := by
    have hframe := parse_frameWith Zlib.isCompressor_deflate hline signer json' ""
    rwa [frameWith_deflate, String.append_empty, String.empty_append] at hframe
  unfold Carries
  rw [hparse]
  constructor
  · rintro ⟨p, hp, -, rfl, -⟩
    cases hp
    rfl
  · rintro rfl
    exact ⟨_, rfl, rfl, rfl, verify_split hsigner "" json'⟩

/-- **A signed payload is read back**: its certificate, its text, its scheme and a signature that
the signer accepts; and if it was written for a body, that body. -/
theorem parse_payload (hdeflate : Zlib.IsCompressor deflate) {certificate : String}
    (h : EndsLine certificate) (hsigner : signer.Sound) (rest : String) :
    (∀ json, ∃ p, parse (certificate ++ frameWith deflate signer json ++ rest) = .ok (some p) ∧
      p.certificate = certificate ∧ p.json = json ∧ p.scheme = signer.scheme ∧
      p.verify signer = .ok ()) ∧
    (∀ body : EntitlementBody, body.Fits →
      ∃ p, parse (certificate ++ ofBodyWith deflate signer body ++ rest) = .ok (some p) ∧
        p.certificate = certificate ∧ p.json = body.bytes ∧ p.scheme = signer.scheme ∧
        p.verify signer = .ok () ∧ p.body = .ok body) := by
  constructor
  · intro json
    exact ⟨_, parse_frameWith hdeflate h signer json rest, rfl, rfl, rfl,
      verify_split hsigner certificate json⟩
  · intro body hbody
    exact ⟨_, parse_frameWith hdeflate h signer body.bytes rest, rfl, rfl, rfl,
      verify_split hsigner certificate body.bytes, EntitlementBody.read_bytes hbody⟩

/-- A certificate with markers of its own. -/
def sampleCertificate : String :=
  "-----BEGIN CERTIFICATE-----\nMIIBAA==\n-----END CERTIFICATE-----" ++ "\n"

/-- A pair to sign with. -/
def sampleKey : KeyPair :=
  Cryptography.numbered.draw .ed25519 1

/-- A body with and without optional fields, the greatest number and a text that needs escapes. -/
def sampleBody : EntitlementBody where
  consumer := ""
  quantity := some 9223372036854775807
  subscription := none
  order := some
    { number := none, quantity := -1, startDate := "2024-01-01T00:00:00Z",
      endDate := "2025-01-01T00:00:00Z", contract := some "\"c\" \\ \n", account := none }
  pool := some "pool"
  products := [.plain "69" "Server" []]

theorem parse_payload_sampleBody :
    ∃ p, parse (sampleCertificate ++ ofBody (Cryptography.numbered.signer sampleKey) sampleBody
        ++ "-----END ENTITLEMENT DATA-----") = .ok (some p) ∧
      p.certificate = sampleCertificate ∧ p.json = sampleBody.bytes ∧ p.scheme = .ed25519 ∧
      p.verify (Cryptography.numbered.signer sampleKey) = .ok () ∧ p.body = .ok sampleBody := by
  have hcertificate : EndsLine sampleCertificate := {
    newline := .inr ⟨_, rfl⟩
    noMarker := by decide }
  have hbody : sampleBody.Fits := {
    quantity := by rintro n ⟨⟩; decide
    subscription := by rintro s ⟨⟩
    order := by rintro o ⟨⟩; exact (by decide : Json.IsInt64 (-1))
    products := by rintro p (_ | ⟨_, ⟨⟩⟩); exact nofun }
  exact (parse_payload Zlib.isCompressor_deflate hcertificate
    (Cryptography.numbered.signer_sound sampleKey) "-----END ENTITLEMENT DATA-----").2 sampleBody hbody

end SignedPayload

end EntitlementAuthority
