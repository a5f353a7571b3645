import EntitlementAuthority.Bytes.Basic

/-!
# Adler-32

The checksum behind a zlib stream: the sum of the bytes and the sum of those sums, both modulo
65521.

* `Zlib.adler32` — the checksum.
-/

namespace EntitlementAuthority.Zlib

/-- The modulus of both sums. -/
def adlerModulus : Nat := 65521

/-- The checksum of bytes. -/
def adler32 (bytes : Bytes) : Nat :=
  let (a, b) := bytes.foldl (fun (a, b) byte =>
    let a := (a + byte.toNat) % adlerModulus
    (a, (b + a) % adlerModulus)) (1, 0)
  b * 65536 + a

end EntitlementAuthority.Zlib
