import EntitlementAuthority.Bytes.Basic
import EntitlementAuthority.Fault
import EntitlementAuthority.Signature.Scheme

/-!
# Signers

* `Signer` — something that signs bytes and checks its own signatures.
* `Signer.Sound` — a signer that accepts what it signed.
* `Signer.verify` — the check as a request.
-/

namespace EntitlementAuthority

/-- Something that signs bytes and checks its own signatures. -/
structure Signer where
  scheme : SignatureScheme
  sign : Bytes → Bytes
  /-- Whether a signature is one that `sign` makes for the data. -/
  accepts : Bytes → Bytes → Bool

namespace Signer

/-- Every signature that the signer makes is one that it accepts. -/
def Sound (s : Signer) : Prop :=
  ∀ data, s.accepts data (s.sign data) = true

/-- Refuses a signature that the signer does not accept. -/
def verify (s : Signer) (data signature : Bytes) : Outcome Unit :=
  if s.accepts data signature then .ok ()
  else .error (.badSignature (s.scheme.label ++ " signature does not match CA key"))

theorem verify_sign {s : Signer} (h : s.Sound) (data : Bytes) :
    s.verify data (s.sign data) = .ok () := by
  simp [verify, h data]

end Signer

end EntitlementAuthority
