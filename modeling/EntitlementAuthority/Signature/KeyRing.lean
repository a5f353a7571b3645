import EntitlementAuthority.Request
import EntitlementAuthority.Signature.KeyPair
import EntitlementAuthority.Text.Blank

/-!
# The key ring

A subject keeps its key pair for all its certificates; it is drawn when it is first asked for.

* `KeyRing` — the subjects that have a key pair, in the order in which the pairs were drawn.
* `KeyRing.keyFor` — the key pair of a subject.
-/

namespace EntitlementAuthority

/-- The subjects that have a key pair. -/
structure KeyRing where
  /-- The library that draws the pairs. -/
  cryptography : Cryptography
  algorithm : KeyAlgorithm
  /-- The subject of the first pair stands first. -/
  subjects : List String

namespace KeyRing

/-- The ring without key pairs. -/
def empty (cryptography : Cryptography) (algorithm : KeyAlgorithm) : KeyRing :=
  ⟨cryptography, algorithm, []⟩

/-- How many pairs there are. -/
def size (r : KeyRing) : Nat :=
  r.subjects.length

/-- The pair that was drawn when `n` pairs were there; number 0 is the authority's. -/
def drawn (r : KeyRing) (n : Nat) : KeyPair :=
  r.cryptography.draw r.algorithm (n + 1)

/-- The key pair of a subject, which must not be blank. -/
def keyFor (subject : String) : Request KeyRing KeyPair := fun r =>
  if Text.isBlank subject then (.error (.validation "key pair subject cannot be empty"), r)
  else
    match r.subjects.idxOf? subject with
    | some n => (.ok (r.drawn n), r)
    | none => (.ok (r.drawn r.size), { r with subjects := r.subjects ++ [subject] })

end KeyRing

end EntitlementAuthority
