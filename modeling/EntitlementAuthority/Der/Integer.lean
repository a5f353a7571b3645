import EntitlementAuthority.Der.Element

/-!
# Reading whole numbers in DER

* `Der.shortestNatural?` — the number that the contents of an INTEGER stand for, which must not be
  negative and has to be written in as few bytes as possible.
* `Der.takeUnsigned?` — takes an INTEGER without regard to its sign bit. Here alone the contents
  may end at a mark instead of having a length.
-/

namespace EntitlementAuthority.Der

/-- The number that contents stand for. -/
def shortestNatural? (contents : Bytes) : Option Nat :=
  match contents with
  | [] => none
  | [b] => if b < 128 then some b.toNat else none
  | a :: b :: _ =>
    if 128 ≤ a ∨ (a = 0 ∧ b < 128) then none else some (Bytes.ofBigEndian contents)

/-- How deep elements that end at a mark may be inside one another. -/
def nestingLimit : Nat := 50

/-- What follows the mark that ends some elements. Every call has read a tag and a length, so the
length of the input is fuel enough; `depth` says how much deeper elements may be nested. -/
def skipToMark? : (fuel depth : Nat) → Bytes → Option Bytes
  | 0, _, _ => none
  | _, 0, _ => none
  | fuel + 1, depth + 1, input => do
    let (tag, rest) ← takeTag? input
    match ← takeExtent? rest with
    | (.definite 0, rest) =>
      if tag.number = 0 then some rest else skipToMark? fuel (depth + 1) rest
    | (.definite n, rest) =>
      if (rest.take n).length = n then skipToMark? fuel (depth + 1) (rest.drop n) else none
    | (.indefinite, rest) =>
      if tag.isConstructed then
        skipToMark? fuel (depth + 1) (← skipToMark? fuel depth rest)
      else none

/-- How many bytes a mark has. -/
def markLength : Nat := 2

/-- Takes an INTEGER and reads all of its contents as digits. -/
def takeUnsigned? : Reader Nat := fun input => do
  let (tag, rest) ← takeTag? input
  if tag.number ≠ (Tag.ofByte integerTag).number then none
  else
    match ← takeExtent? rest with
    | (.definite n, rest) =>
      let contents := rest.take n
      if contents.length = n then some (Bytes.ofBigEndian contents, rest.drop n) else none
    | (.indefinite, body) =>
      if tag.isConstructed then
        let rest ← skipToMark? body.length (nestingLimit - 1) body
        some (Bytes.ofBigEndian (body.take (body.length - rest.length - markLength)), rest)
      else none

end EntitlementAuthority.Der
