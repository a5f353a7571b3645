/-!
# Signature schemes

* `SignatureScheme` — the families of signatures; `label` and `ofLabel?` are their names in
  signature blocks.
* `KeyAlgorithm` — the keys that can be made; `name` and `ofName?` are their names in settings.
-/

namespace EntitlementAuthority

/-- A family of signatures. -/
inductive SignatureScheme where
  | rsa
  | ecdsa
  | ed25519
  | mlDsa
deriving DecidableEq, Repr

namespace SignatureScheme

/-- The name of a scheme. -/
def label : SignatureScheme → String
  | rsa => "RSA"
  | ecdsa => "ECDSA"
  | ed25519 => "ED25519"
  | mlDsa => "ML-DSA"

/-- All schemes. -/
def all : List SignatureScheme := [rsa, ecdsa, ed25519, mlDsa]

/-- The scheme with a name. -/
def ofLabel? (label : String) : Option SignatureScheme :=
  all.find? (·.label == label)

theorem ofLabel?_label (s : SignatureScheme) : ofLabel? s.label = some s := by
  cases s <;> decide

end SignatureScheme

/-- A kind of key. -/
inductive KeyAlgorithm where
  | ecdsaP256
  | ecdsaP384
  | ed25519
deriving DecidableEq, Repr, Inhabited

namespace KeyAlgorithm

/-- The scheme of the signatures that a key makes. -/
def scheme : KeyAlgorithm → SignatureScheme
  | ecdsaP256 | ecdsaP384 => .ecdsa
  | ed25519 => .ed25519

/-- The name of an algorithm. -/
def name : KeyAlgorithm → String
  | ecdsaP256 => "ecdsa_p256"
  | ecdsaP384 => "ecdsa_p384"
  | ed25519 => "ed25519"

/-- All algorithms. -/
def all : List KeyAlgorithm := [ecdsaP256, ecdsaP384, ed25519]

/-- The algorithm with a name. -/
def ofName? (name : String) : Option KeyAlgorithm :=
  all.find? (·.name == name)

end KeyAlgorithm

end EntitlementAuthority
