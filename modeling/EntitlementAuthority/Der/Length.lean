import EntitlementAuthority.Bytes.Basic

/-!
# DER lengths

The length of a DER element: one byte below 128, otherwise the count of length bytes with the
high bit set and then the length, most significant byte first.

* `Der.length` — the shortest form, as it is written.
* `Der.readLength?` — reads a definite length. A long form must not hold a length below 128;
  leading zero bytes in it are tolerated.
* `Der.takeExtent?` — reads a length in any form, or that the contents end at a mark.
* `Der.element` — a tag byte, a length and the contents.
-/

namespace EntitlementAuthority.Der

/-- How many bytes a positive number takes. -/
def byteCount (n : Nat) : Nat :=
  if n < 256 then 1 else byteCount (n / 256) + 1

/-- The length in its shortest form. -/
def length (n : Nat) : Bytes :=
  if n < 128 then [UInt8.ofNat n]
  else UInt8.ofNat (128 + byteCount n) :: Bytes.bigEndian (byteCount n) n

/-- An element: its tag byte, its length and its contents. -/
def element (tag : UInt8) (contents : Bytes) : Bytes :=
  tag :: length contents.length ++ contents

/-- Reads a length and gives what stands behind it. -/
def readLength? : Bytes → Option (Nat × Bytes)
  | [] => none
  | first :: rest =>
    if first.toNat < 128 then some (first.toNat, rest)
    else
      let count := first.toNat - 128
      let n := Bytes.ofBigEndian (rest.take count)
      if count = 0 ∨ count = 127 ∨ rest.length < count ∨ n < 128 then none
      else some (n, rest.drop count)

/-- How far the contents of an element reach. -/
inductive Extent where
  | definite (length : Nat)
  /-- Up to a mark behind them. -/
  | indefinite
deriving DecidableEq, Repr

/-- Reads how far contents reach. A length in many bytes may be small, but has to fit into 64
bits. -/
def takeExtent? : Bytes → Option (Extent × Bytes)
  | [] => none
  | first :: rest =>
    let count := first.toNat - 128
    let digits := rest.take count
    let n := Bytes.ofBigEndian digits
    if first.toNat < 128 then some (.definite first.toNat, rest)
    else if count = 0 then some (.indefinite, rest)
    else if count = 127 ∨ digits.length < count ∨ Nat.pow 2 64 ≤ n then none
    else some (.definite n, rest.drop count)

/-- Reads a whole input that has to be one element: its tag byte and its contents. -/
def readWhole? : Bytes → Option (UInt8 × Bytes)
  | [] => none
  | tag :: rest =>
    match readLength? rest with
    | some (n, contents) => if contents.length = n then some (tag, contents) else none
    | none => none

end EntitlementAuthority.Der
