import EntitlementAuthority.Config.Setting
import EntitlementAuthority.Text.Integer
import EntitlementAuthority.Text.Lower

/-!
# Places of settings

A setting is named by its place: `ca.common_name` is the entry `common_name` of the table `ca`,
and `ca[0]` is the first item of the list `ca`.

* `SettingPlace.ofName` — the place that a name stands for.
* `Setting.put`, `Setting.putAt` — put a setting into a table, or at a place.
* `Setting.layOver` — puts many settings at the places that their names stand for.
-/

namespace EntitlementAuthority

/-! ### Names -/

/-- A step from a setting to one inside it. -/
inductive PlaceStep where
  | entry (key : String)
  /-- An item of a list; a negative number counts from the end. -/
  | item (index : Int)
deriving DecidableEq, Repr

/-- The steps from the outermost table to a setting. -/
abbrev SettingPlace := List PlaceStep

namespace SettingPlace

/-- Whether a character may stand in a key. -/
def isKeyChar (c : Char) : Bool :=
  c.isAlphanum || c == '_' || c == '-' || c == ' '

/-- Whether a character may stand around an index. -/
def isIndexBlank (c : Char) : Bool :=
  c == ' ' || c == '\t' || c == '\n' || c == '\r'

/-- Takes a key. -/
def takeKey? (cs : List Char) : Option (PlaceStep × List Char) :=
  let key := cs.takeWhile isKeyChar
  if key.isEmpty then none else some (.entry (String.ofList key), cs.dropWhile isKeyChar)

/-- Takes an index and the bracket behind it. -/
def takeIndex? (cs : List Char) : Option (PlaceStep × List Char) := do
  let cs := cs.dropWhile isIndexBlank
  let (sign, cs) := match cs with
    | '-' :: cs => (['-'], cs)
    | cs => ([], cs)
  let digits := cs.takeWhile Char.isDigit
  let index ← Text.readInt64? (String.ofList (sign ++ digits))
  match (cs.dropWhile Char.isDigit).dropWhile isIndexBlank with
  | ']' :: rest => some (.item index, rest)
  | _ => none

/-- The steps behind a key. Each of them has a character, so the length of the text is fuel
enough. -/
def steps? : (fuel : Nat) → List Char → Option SettingPlace
  | _, [] => some []
  | 0, _ => none
  | fuel + 1, c :: cs => do
    let (step, rest) ← if c = '.' then takeKey? cs else if c = '[' then takeIndex? cs else none
    some (step :: (← steps? fuel rest))

/-- The place that a name stands for, if it is written as one. -/
def parse? (name : String) : Option SettingPlace := do
  let (root, rest) ← takeKey? name.toList
  some (root :: (← steps? rest.length rest))

/-- The place that a name stands for; a name that is not written as a place is a key. -/
def ofName (name : String) : SettingPlace :=
  (parse? name).getD [.entry name]

end SettingPlace

/-! ### Putting -/

namespace Setting

/-- The entries of a table; what is no table has none. -/
def entries : Setting → List (String × Setting)
  | table es => es
  | _ => []

/-- The items of a list; what is no list has none. -/
def items : Setting → List Setting
  | list vs => vs
  | _ => []

mutual

/-- Puts a setting under a key, in lower case, into a table, which anything else becomes. A table
is not put in the place of what is there, but its entries are put into that. -/
def put (key : String) (root : Setting) : Setting → Setting
  | table es =>
    let key := Text.lower key
    let target := (root.entries.lookup key).getD (.table [])
    .table (putEntry key (putAll target es) root.entries)
  | v => .table (putEntry (Text.lower key) v root.entries)

/-- Puts settings under their keys into a table. -/
def putAll (root : Setting) : List (String × Setting) → Setting
  | [] => root
  | (key, v) :: es => putAll (put key root v) es

end

/-- The place of an index in a list of some length. -/
def itemPlace (index : Int) (length : Nat) : Nat :=
  if 0 ≤ index then index.toNat else length - index.natAbs

/-- The items of a list, so many that there is one at a place. -/
def itemsUpTo (place : Nat) (vs : List Setting) : List Setting :=
  vs ++ List.replicate (place + 1 - vs.length) unset

/-- Puts a setting at a place. What is no table or no list on the way becomes one. -/
def putAt (v : Setting) : SettingPlace → Setting → Setting
  | [], root => root
  | [.entry key], root => put key root v
  | .entry key :: place, root =>
    let inner := (root.entries.lookup key).getD unset
    .table (putEntry key (putAt v place inner) root.entries)
  | .item index :: place, root =>
    let n := itemPlace index root.items.length
    let items := itemsUpTo n root.items
    let inner := if place.isEmpty then v else putAt v place (items.getD n unset)
    .list (items.set n inner)

/-- Puts settings at the places that their names stand for. -/
def layOver (root : Setting) (named : List (String × Setting)) : Setting :=
  named.foldl (fun root (name, v) => putAt v (SettingPlace.ofName name) root) root

end Setting

end EntitlementAuthority
