import EntitlementAuthority.Json.Number
import EntitlementAuthority.Json.Reader
import EntitlementAuthority.Text.Sorted
import EntitlementAuthority.Table

/-!
# Indented JSON

* `Json.kept?` — a value in the one form in which it is kept: strings with the escapes that are
  needed, numbers that fit a word, the names of an object in order and each of them once.
* `Json.indented` — a value on many lines, two blanks of margin for each array or object around.
* `Json.indentedText?` — the value of a text, indented.
-/

namespace EntitlementAuthority.Json

/-! ### The form that is kept -/

/-- The members of an object by name; of several with one name the last one counts. -/
def sortedMembers (members : List (String × Json)) : List (Bytes × Json) :=
  let t := Table.ofList members
  (t.entries.mergeSort fun a b => a.1 ≤ b.1).map fun (name, v) => (escape name, v)

mutual

/-- A value in the form in which it is kept; `none` if a string or a number stands for nothing. -/
def kept? : Json → Option Json
  | null => some .null
  | bool b => some (.bool b)
  | number digits => (keptNumber? digits).map .number
  | string raw => (unescape? raw).map ofText
  | array items => (keptItems? items).map .array
  | object members => (keptMembers? members).map fun ms => .object (sortedMembers ms)

/-- The items of an array in the form in which they are kept. -/
def keptItems? : List Json → Option (List Json)
  | [] => some []
  | v :: vs => do
    let v ← kept? v
    let vs ← keptItems? vs
    some (v :: vs)

/-- The members of an object with their names and in the form in which they are kept. -/
def keptMembers? : List (Bytes × Json) → Option (List (String × Json))
  | [] => some []
  | (name, v) :: ms => do
    let name ← unescape? name
    let v ← kept? v
    let ms ← keptMembers? ms
    some ((name, v) :: ms)

end

mutual

/-- How many arrays and objects are inside one another. -/
def depth : Json → Nat
  | array items => depthOfItems items + 1
  | object members => depthOfMembers members + 1
  | _ => 0

/-- The greatest depth of the items of an array. -/
def depthOfItems : List Json → Nat
  | [] => 0
  | v :: vs => max (depth v) (depthOfItems vs)

/-- The greatest depth of the members of an object. -/
def depthOfMembers : List (Bytes × Json) → Nat
  | [] => 0
  | (_, v) :: ms => max (depth v) (depthOfMembers ms)

end

/-! ### Lines -/

/-- The end of a line and the margin of the next one. -/
def newLine (margin : Nat) : Bytes :=
  0x0A :: List.replicate margin 0x20

/-- How much further the parts of an array or object stand in. -/
def indent : Nat := 2

/-- The name of a member up to its value. -/
def memberName (name : Bytes) : Bytes :=
  (Token.string name).bytes ++ [0x3A, 0x20]

mutual

/-- A value on many lines, the first of them without its margin. -/
def indented (margin : Nat) : Json → Bytes
  | array [] => Bytes.ofText "[]"
  | array (v :: vs) =>
    0x5B :: (newLine (margin + indent) ++ indented (margin + indent) v
      ++ indentedItems (margin + indent) vs ++ newLine margin ++ [0x5D])
  | object [] => [0x7B, 0x7D]
  | object ((name, v) :: ms) =>
    0x7B :: (newLine (margin + indent) ++ memberName name ++ indented (margin + indent) v
      ++ indentedMembers (margin + indent) ms ++ newLine margin ++ [0x7D])
  | null => (Token.null).bytes
  | bool b => (Token.bool b).bytes
  | number digits => digits
  | string raw => (Token.string raw).bytes

/-- The items of an array behind the first one. -/
def indentedItems (margin : Nat) : List Json → Bytes
  | [] => []
  | v :: vs => 0x2C :: (newLine margin ++ indented margin v ++ indentedItems margin vs)

/-- The members of an object behind the first one. -/
def indentedMembers (margin : Nat) : List (Bytes × Json) → Bytes
  | [] => []
  | (name, v) :: ms =>
    0x2C :: (newLine margin ++ memberName name ++ indented margin v ++ indentedMembers margin ms)

end

/-- How many arrays and objects may be inside one another. -/
def depthLimit : Nat := 127

/-- The value of a text, indented; `none` if it is not a value that can be kept. -/
def indentedText? (text : Bytes) : Option String := do
  let v ← read? text
  if v.depth ≤ depthLimit then Bytes.toText? ((← v.kept?).indented 0) else none

end EntitlementAuthority.Json
