import EntitlementAuthority.Zlib.Adler

/-!
# Writing zlib streams

A stream is written with stored blocks, which hold the bytes as they are.

* `Zlib.storedBlocks` — bytes cut into stored blocks.
* `Zlib.deflate` — a whole zlib stream.
-/

namespace EntitlementAuthority.Zlib

/-- The most bytes that a stored block can hold. -/
def blockLimit : Nat := 65535

/-- A number of two bytes, least significant first. -/
def littleEndian16 (n : Nat) : Bytes :=
  [UInt8.ofNat (n % 256), UInt8.ofNat (n / 256)]

/-- A stored block: a byte that says whether it is the last, its length, the complement of its
length, and its bytes. -/
def storedBlock (last : Bool) (bytes : Bytes) : Bytes :=
  (if last then 1 else 0) :: littleEndian16 bytes.length
    ++ littleEndian16 (blockLimit - bytes.length) ++ bytes

/-- Bytes cut into stored blocks; there is always a last one. -/
def storedBlocks (bytes : Bytes) : Bytes :=
  if bytes.length ≤ blockLimit then storedBlock true bytes
  else storedBlock false (bytes.take blockLimit) ++ storedBlocks (bytes.drop blockLimit)
termination_by bytes.length
decreasing_by
  simp only [blockLimit, List.length_drop] at *
  omega

/-- A zlib stream that holds the bytes. -/
def deflate (bytes : Bytes) : Bytes :=
  [0x78, 0x01] ++ storedBlocks bytes ++ Bytes.bigEndian 4 (adler32 bytes)

end EntitlementAuthority.Zlib
