import EntitlementAuthority.Der.Element
import EntitlementAuthority.Oid

/-!
# Object identifiers in DER

Arcs are written in base 128, most significant digit first, with the high bit set on all digits
but the last; the first two arcs are written as one number.

* `Oid.der` — an identifier as an element.
* `Oid.ofDerContents?` — the identifier that the contents of an element stand for. The first byte
  alone counts as the first two arcs, and arcs of more than 63 bits are not read.
* `Oid.shown` — how the contents of an element are shown.
-/

namespace EntitlementAuthority.Oid

/-- The contents of the element for an identifier. -/
def derContents (o : Oid) : Bytes :=
  match o.arcs with
  | a :: b :: rest => Der.base128 (40 * a + b) ++ rest.flatMap Der.base128
  | arcs => arcs.flatMap Der.base128

/-- An identifier as an element. -/
def der (o : Oid) : Bytes :=
  Der.element Der.identifierTag o.derContents

/-- The arcs in base 128; `acc` and `digits` are the value and the count of the digits of the
arc so far. An arc that breaks off counts with the 64 low bits of its digits. -/
def readArcs? (acc digits : Nat) : Bytes → Option (List Nat)
  | [] => some (if digits = 0 then [] else [acc])
  | b :: bytes =>
    let acc := (acc * 128 + b.toNat % 128) % Nat.pow 2 64
    if 128 ≤ b then readArcs? acc (digits + 1) bytes
    else if 8 < digits then none
    else (readArcs? 0 0 bytes).map (acc :: ·)

/-- The identifier that the contents of an element stand for; a lone zero is a single arc. -/
def ofDerContents? : Bytes → Option Oid
  | [] => some ⟨[]⟩
  | [0] => some ⟨[0]⟩
  | first :: bytes =>
    (readArcs? 0 0 bytes).map fun arcs => ⟨first.toNat / 40 :: first.toNat % 40 :: arcs⟩

/-- The dotted form of the contents of an element, or their bytes if there is none. -/
def shown (contents : Bytes) : String :=
  match ofDerContents? contents with
  | some o => o.text
  | none => Text.joinWith " " (contents.map fun b => Bytes.toHex [b])

/-- Takes the contents of an identifier; that they are not made of elements is enough. -/
def take? : Der.Reader Bytes := fun input => do
  let (e, rest) ← Der.next? input
  if e.tag.isConstructed then none else some (e.contents, rest)

end EntitlementAuthority.Oid
