import EntitlementAuthority.Bytes.Basic

/-!
# DER tags

A tag says what an element is: its class, whether it is made of elements, and a number. Numbers
below 31 stand in the first byte; greater ones follow it in base 128.

* `Der.base128` — a number in base 128, the high bit set on all digits but the last.
* `Der.Tag` — a tag; `Tag.ofByte` is the one that a single byte stands for.
* `Der.Tag.bytes`, `Der.takeTag?` — writes a tag and takes one off the front of some bytes.
-/

namespace EntitlementAuthority.Der

/-! ### Numbers in base 128 -/

/-- The digits of a number in base 128 in front of the last ones, with the high bit set. -/
def leadingDigits (n : Nat) : Bytes :=
  if n = 0 then [] else leadingDigits (n / 128) ++ [UInt8.ofNat (128 + n % 128)]

/-- A number in base 128. -/
def base128 (n : Nat) : Bytes :=
  leadingDigits (n / 128) ++ [UInt8.ofNat (n % 128)]

/-! ### Tags -/

/-- Who gives the numbers of tags their meaning. -/
inductive TagClass where
  | universal
  | application
  /-- The element around it. -/
  | context
  | reserved
deriving DecidableEq, Repr

namespace TagClass

/-- The class that two bits stand for. -/
def ofBits : Nat → TagClass
  | 0 => universal
  | 1 => application
  | 2 => context
  | _ => reserved

/-- The two bits of a class. -/
def bits : TagClass → Nat
  | universal => 0
  | application => 1
  | context => 2
  | reserved => 3

end TagClass

/-- What an element is. -/
structure Tag where
  tagClass : TagClass
  /-- Whether the contents are elements. -/
  isConstructed : Bool
  number : Nat
deriving DecidableEq, Repr

namespace Tag

/-- The tag that a byte stands for. -/
def ofByte (b : UInt8) : Tag :=
  ⟨TagClass.ofBits (b.toNat / 64), b.toNat.testBit 5, b.toNat % 32⟩

/-- The number from which on a tag has more than one byte. -/
def numberLimit : Nat := 31

/-- The first byte of a tag. -/
def firstByte (t : Tag) : UInt8 :=
  UInt8.ofNat (64 * t.tagClass.bits + (if t.isConstructed then 32 else 0)
    + min t.number numberLimit)

/-- The bytes of a tag. -/
def bytes (t : Tag) : Bytes :=
  t.firstByte :: if t.number < numberLimit then [] else base128 t.number

end Tag

/-- How many bytes of a number are read. -/
def numberBytes : Nat := 5

/-- Takes the digits of a number of at most `limit` bytes; `acc` is the value of those before. Of
the number, 32 bits are kept. -/
def takeNumber? (acc : Nat) : (limit : Nat) → Bytes → Option (Nat × Bytes)
  | 0, _ => none
  | _, [] => none
  | limit + 1, b :: rest =>
    let acc := (acc * 128 + b.toNat % 128) % Nat.pow 2 32
    if b < 128 then some (acc, rest) else takeNumber? acc limit rest

/-- Takes a tag off the front. -/
def takeTag? : Bytes → Option (Tag × Bytes)
  | [] => none
  | b :: rest =>
    let tag := Tag.ofByte b
    if tag.number < Tag.numberLimit then some (tag, rest)
    else (takeNumber? 0 numberBytes rest).map fun (n, rest) => ({ tag with number := n }, rest)

end EntitlementAuthority.Der
