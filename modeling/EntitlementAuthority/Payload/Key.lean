import EntitlementAuthority.Bytes.Basic
import EntitlementAuthority.Digest.Sha256
import EntitlementAuthority.Registry.Consumer
import EntitlementAuthority.Text.Lower
import EntitlementAuthority.Text.Sorted

/-!
# Payload keys

Consumers with the same architectures and the same environments in the same order see the same
content, so they share one payload, kept under a key.

* `payloadKeyInput` — the text that says what a consumer sees.
* `payloadKey` — a version and the SHA-256 digest of that text.
-/

namespace EntitlementAuthority

/-- The set of architectures that a list names: trimmed, in lower case, blank ones left out. -/
def archSet (arches : List String) : List String :=
  Text.sortedSet ((arches.map fun a => Text.lower (Text.trim a)).filter (!·.isEmpty))

/-- What a consumer sees: its architectures as a set and its environments in their order. -/
def payloadKeyInput (arches environmentIds : List String) : String :=
  "arches:" ++ Text.joinWith "," (archSet arches) ++ "-environments:"
    ++ Text.joinWith "," environmentIds

/-- The key under which a payload is kept. -/
def payloadKey (version : Nat) (arches environmentIds : List String) : String :=
  let digest := Sha256.digest (Bytes.ofText (payloadKeyInput arches environmentIds))
  "v" ++ toString version ++ ":" ++ Bytes.toHex digest

/-- The key of the payload for a consumer that sees the given environments. -/
def payloadKeyFor (version : Nat) (consumer : Consumer) (environmentIds : List String) : String :=
  payloadKey version consumer.allArches environmentIds

end EntitlementAuthority
