import EntitlementAuthority.Digest.Sha256
import EntitlementAuthority.Signature.Signer
import EntitlementAuthority.Text.Integer

/-!
# Key pairs

Key pairs are drawn by a library, which keeps their private halves and signs with them. What is
assumed of it is that it never draws a pair twice, and that a pair accepts what it has signed. How
hard it is to forge signatures is no concern here.

* `KeyPair` — a key pair, known by its public half.
* `Cryptography` — a library for key pairs; `Cryptography.draw` draws one and
  `Cryptography.signer` signs with one.
* `Cryptography.numbered` — a library whose public keys are numbers.
-/

namespace EntitlementAuthority

/-- A key pair. -/
structure KeyPair where
  algorithm : KeyAlgorithm
  publicKey : Bytes
deriving DecidableEq, Repr

/-- A library for key pairs. -/
structure Cryptography where
  /-- The public half of the pair that is drawn under a number. -/
  publicKey : KeyAlgorithm → Nat → Bytes
  /-- Signs data with the private half of a pair. Of the signatures that a scheme could make, this is
  one. -/
  sign : KeyPair → Bytes → Bytes
  /-- Whether a signature is one of the pair for the data. -/
  accepts : KeyPair → Bytes → Bytes → Bool
  /-- No pair is drawn twice. -/
  publicKey_injective : ∀ algorithm, Function.Injective (publicKey algorithm)
  /-- A pair accepts what it has signed. -/
  accepts_sign : ∀ k data, accepts k data (sign k data) = true

namespace Cryptography

/-- The pair that is drawn under a number. -/
def draw (c : Cryptography) (algorithm : KeyAlgorithm) (number : Nat) : KeyPair :=
  ⟨algorithm, c.publicKey algorithm number⟩

theorem draw_injective (c : Cryptography) (algorithm : KeyAlgorithm) :
    Function.Injective (c.draw algorithm) := fun _ _ h =>
  c.publicKey_injective algorithm (KeyPair.mk.inj h).2

/-- The signer that uses a pair. -/
def signer (c : Cryptography) (k : KeyPair) : Signer where
  scheme := k.algorithm.scheme
  sign := c.sign k
  accepts := c.accepts k

theorem signer_sound (c : Cryptography) (k : KeyPair) : (c.signer k).Sound :=
  c.accepts_sign k

/-- The digest of some data under a pair. -/
def digest (k : KeyPair) (data : Bytes) : Bytes :=
  Sha256.digest (Bytes.ofText k.algorithm.name ++ Bytes.bigEndian 8 k.publicKey.length ++
    k.publicKey ++ data)

/-- A library whose public keys are numbers and whose signatures are SHA-256 digests over the public
key and the data. Everybody can sign with its keys, so it only serves where no one has to be kept
from it. -/
def numbered : Cryptography where
  publicKey _ number := Bytes.ofText (toString number)
  sign := digest
  accepts k data signature := signature == digest k data
  publicKey_injective _ _ _ h := Text.toString_injective (Bytes.ofText_injective h)
  accepts_sign _ _ := BEq.rfl

end Cryptography

end EntitlementAuthority
