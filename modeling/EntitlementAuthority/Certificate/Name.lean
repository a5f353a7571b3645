import EntitlementAuthority.Certificate.ShortName
import EntitlementAuthority.Certificate.Subject
import EntitlementAuthority.Der.Identifier

/-!
# Names in certificates

* `NameAttribute` — one attribute, as it stands in a certificate.
* `Name` — a list of groups of attributes; `Name.der` and `Name.take?` write and read it.
* `Name.text` — the name in one line.
* `DistinguishedName.name` — the attributes of a subject.
-/

namespace EntitlementAuthority

/-- One attribute of a name: the contents of its identifier, and its value. -/
structure NameAttribute where
  type : Bytes
  value : Der.Element
deriving DecidableEq, Repr

namespace NameAttribute

/-- The attribute for the common name. -/
def commonName : Oid := ⟨[2, 5, 4, 3]⟩

/-- The attribute for the organisation. -/
def organization : Oid := ⟨[2, 5, 4, 10]⟩

/-- An attribute that holds text. -/
def ofText (type : Oid) (value : String) : NameAttribute :=
  ⟨type.derContents, Der.Element.ofByte Der.utf8Tag (Bytes.ofText value)⟩

/-- The name of an attribute: short if it has a short name. -/
def label (a : NameAttribute) : String :=
  match shortNames.find? fun n => n.1.derContents == a.type with
  | some n => n.2
  | none => "OID(" ++ Oid.shown a.type ++ ")"

/-! ### Values -/

/-- The numbers of the tags of text in UTF-8 or in a part of it. -/
def textNumbers : List Nat := [7, 12, 18, 19, 20, 21, 22, 25, 26, 27]

/-- The number of the tag of text in two bytes a character. -/
def wideTextNumber : Nat := 30

/-- Units of two bytes, most significant first; a last byte without a second one is a unit. -/
def wideUnits : Bytes → List Nat
  | [] => []
  | [a] => [a.toNat]
  | a :: b :: rest => (a.toNat * 256 + b.toNat) :: wideUnits rest

/-- The characters of units of 16 bits: those from 0xD800 to 0xDFFF go in pairs, a high one in
front of a low one. -/
def charsOfUnits? : List Nat → Option (List Char)
  | [] => some []
  | u :: us =>
    if u < 0xD800 ∨ 0xDFFF < u then (charsOfUnits? us).map (Char.ofNat u :: ·)
    else
      match us with
      | [] => none
      | v :: us =>
        if u < 0xDC00 ∧ 0xDC00 ≤ v ∧ v ≤ 0xDFFF then
          (charsOfUnits? us).map
            (Char.ofNat (0x10000 + (u - 0xD800) * 0x400 + (v - 0xDC00)) :: ·)
        else none

/-- The value of an attribute as text: in hexadecimal if it is no text, and nothing if its bytes
are not what its tag says. -/
def valueText? (a : NameAttribute) : Option String :=
  let contents := a.value.contents
  let number := a.value.tag.number
  if textNumbers.contains number then Bytes.toText? contents
  else if number = wideTextNumber then (charsOfUnits? (wideUnits contents)).map String.ofList
  else some ((Bytes.toHex contents).map Char.toUpper)

/-! ### Writing and reading -/

/-- The attribute as an element. -/
def der (a : NameAttribute) : Bytes :=
  Der.sequence [Der.element Der.identifierTag a.type, a.value.der]

/-- Takes an attribute; what stands behind its value does not count. -/
def take? : Der.Reader NameAttribute :=
  Der.within? Der.sequenceTag fun contents => do
    let (type, rest) ← Oid.take? contents
    let (value, _) ← Der.next? rest
    some ⟨type, value⟩

end NameAttribute

/-- A name: groups of attributes. -/
abbrev Name := List (List NameAttribute)

namespace Name

/-- The name as an element. -/
def der (n : Name) : Bytes :=
  Der.sequence (n.map fun group => Der.set (group.map NameAttribute.der))

/-- Takes a group of attributes, of which there is at least one. It ends at the first thing that
is no attribute. -/
def takeGroup? : Der.Reader (List NameAttribute) :=
  Der.within? Der.setTag fun contents =>
    match (Der.takeMany NameAttribute.take? contents).1 with
    | [] => none
    | group => some group

/-- Takes a name. It ends at the first thing that is no group of attributes. -/
def take? : Der.Reader Name :=
  Der.within? Der.sequenceTag fun contents => some (Der.takeMany takeGroup? contents).1

/-- What is shown for a name with a value that cannot be read. -/
def unreadable : String := "<X509Error: Invalid X.509 name>"

/-- A group of attributes, with a plus sign between them. -/
def groupText? (group : List NameAttribute) : Option String :=
  (group.mapM fun (a : NameAttribute) => a.valueText?.map fun value => a.label ++ "=" ++ value).map
    (Text.joinWith " + ")

/-- The name in one line. -/
def text (n : Name) : String :=
  match n.mapM groupText? with
  | some groups => Text.joinWith ", " groups
  | none => unreadable

end Name

/-- The attributes of a subject. -/
def DistinguishedName.name (n : DistinguishedName) : Name :=
  [NameAttribute.ofText NameAttribute.commonName n.commonName]
    :: (n.organization.map fun o => [NameAttribute.ofText NameAttribute.organization o]).toList

end EntitlementAuthority
