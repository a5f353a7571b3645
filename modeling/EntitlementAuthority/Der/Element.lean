import EntitlementAuthority.Der.Length
import EntitlementAuthority.Der.Tag

/-!
# DER elements

* `Der.sequence`, `Der.natural`, `Der.octets`, … — the elements that certificates are made of.
* `Der.Element` — an element that has been read.
* `Der.next?`, `Der.within?`, `Der.takeMany` — take one element, its contents, or as many values
  as there are off the front of some bytes.
-/

namespace EntitlementAuthority.Der

/-! ### Tags -/

/-- The tag byte of a BOOLEAN. -/
def booleanTag : UInt8 := 0x01

/-- The tag byte of an INTEGER. -/
def integerTag : UInt8 := 0x02

/-- The tag byte of a BIT STRING. -/
def bitStringTag : UInt8 := 0x03

/-- The tag byte of an OCTET STRING. -/
def octetStringTag : UInt8 := 0x04

/-- The tag byte of an OBJECT IDENTIFIER. -/
def identifierTag : UInt8 := 0x06

/-- The tag byte of a UTF8String. -/
def utf8Tag : UInt8 := 0x0C

/-- The tag byte of a UTCTime. -/
def utcTimeTag : UInt8 := 0x17

/-- The tag byte of a GeneralizedTime. -/
def generalizedTimeTag : UInt8 := 0x18

/-- The tag byte of a SEQUENCE. -/
def sequenceTag : UInt8 := 0x30

/-- The tag byte of a SET. -/
def setTag : UInt8 := 0x31

/-- The tag byte of an explicitly tagged element. -/
def contextTag (n : UInt8) : UInt8 := 0xA0 + n

/-! ### Writing -/

/-- Elements one after the other. -/
def sequence (parts : List Bytes) : Bytes :=
  element sequenceTag parts.flatten

/-- Elements without an order. -/
def set (parts : List Bytes) : Bytes :=
  element setTag parts.flatten

/-- An element under a tag of its context. -/
def tagged (n : UInt8) (part : Bytes) : Bytes :=
  element (contextTag n) part

/-- A truth value. -/
def boolean (b : Bool) : Bytes :=
  element booleanTag [if b then 0xFF else 0x00]

/-- A natural number; a zero byte keeps the sign bit clear. -/
def natural (n : Nat) : Bytes :=
  let bytes := Bytes.bigEndian (byteCount n) n
  element integerTag (if 0x80 ≤ bytes.headD 0 then 0 :: bytes else bytes)

/-- Bytes. -/
def octets (bytes : Bytes) : Bytes :=
  element octetStringTag bytes

/-- Whole bytes as bits. -/
def bits (bytes : Bytes) : Bytes :=
  element bitStringTag (0 :: bytes)

/-! ### Reading -/

/-- An element that has been read. -/
structure Element where
  tag : Tag
  contents : Bytes
deriving DecidableEq, Repr

namespace Element

/-- The element with a tag of one byte. -/
def ofByte (tag : UInt8) (contents : Bytes) : Element :=
  ⟨Tag.ofByte tag, contents⟩

/-- The bytes of an element. -/
def der (e : Element) : Bytes :=
  e.tag.bytes ++ length e.contents.length ++ e.contents

/-- Whether an element has the number of a tag byte; its class and its form do not count. -/
def isNumbered (e : Element) (tag : UInt8) : Bool :=
  e.tag.number == (Tag.ofByte tag).number

/-- The contents of an element with the number of a tag byte that is not made of elements. -/
def primitive? (tag : UInt8) (e : Element) : Option Bytes :=
  if e.isNumbered tag && !e.tag.isConstructed then some e.contents else none

end Element

/-- Takes a value off the front of some bytes and gives what stands behind it. -/
abbrev Reader (α : Type) := Bytes → Option (α × Bytes)

variable {α : Type}

/-- Takes one element. -/
def next? : Reader Element := fun input => do
  let (tag, rest) ← takeTag? input
  match ← takeExtent? rest with
  | (.definite n, rest) =>
    let contents := rest.take n
    if contents.length = n then some (⟨tag, contents⟩, rest.drop n) else none
  | (.indefinite, _) => none

/-- Takes one element with the number of a tag byte, and reads its contents. -/
def within? (tag : UInt8) (f : Bytes → Option α) : Reader α := fun input => do
  let (e, rest) ← next? input
  if e.isNumbered tag then (f e.contents).map fun a => (a, rest) else none

/-- Takes values one after the other, at most `limit`, as long as they can be read. -/
def takeUpTo (f : Reader α) : (limit : Nat) → Bytes → List α × Bytes
  | 0, input => ([], input)
  | limit + 1, input =>
    match f input with
    | none => ([], input)
    | some (a, rest) =>
      let (as, rest) := takeUpTo f limit rest
      (a :: as, rest)

/-- Takes values one after the other as long as they can be read. Each of them has a byte at
least. -/
def takeMany (f : Reader α) (input : Bytes) : List α × Bytes :=
  takeUpTo f input.length input

/-- The values that fill some bytes. -/
def readAll? (f : Reader α) (input : Bytes) : Option (List α) :=
  let (as, rest) := takeMany f input
  if rest.isEmpty then some as else none

/-- Whether bytes are the contents of a BIT STRING: first how many bits of the last byte do not
count, then the bytes, of which those bits are zero. -/
def isBits : Bytes → Bool
  | [] => false
  | unused :: bytes =>
    let last := bytes.getLast?.getD 0
    if bytes.isEmpty then unused == 0
    else unused.toNat ≤ 8 && last.toNat % Nat.pow 2 unused.toNat == 0

end EntitlementAuthority.Der
