import EntitlementAuthority.Config.Reader
import EntitlementAuthority.Config.Setting
import EntitlementAuthority.Decimal.Layout
import EntitlementAuthority.Text.Integer
import EntitlementAuthority.Text.Lower

/-!
# Converting settings

Settings that were laid over one another come from text in part, so they are converted as far as
possible: numbers to text, text to numbers, both to truth values.

* `Setting.toNat?`, `Setting.toBool?`, `Setting.toText?`, `Setting.toAlgorithm?` — the conversions.
* `SettingReader.converting` — reads settings with them.
-/

namespace EntitlementAuthority

namespace Setting

/-- The names of truth values. -/
def truthNames : List (String × Bool) :=
  [("true", true), ("on", true), ("yes", true), ("false", false), ("off", false), ("no", false)]

/-- Text as a natural number of 64 bits. -/
def natOfText? (s : String) : Option Nat :=
  match truthNames.lookup (Text.lower s) with
  | some b => some b.toNat
  | none => Text.readWord64? s

/-- A setting as a natural number of 64 bits; fractions are rounded, half away from zero, and what
lies outside of 64 bits becomes the nearest number inside. -/
def toNat? : Setting → Option Nat
  | integer n => if 0 ≤ n then some n.toNat else none
  | text s => natOfText? s
  | moment s => natOfText? s
  | bool b => some b.toNat
  | float x => some x.round.toUInt64.toNat
  | _ => none

/-- Text as a truth value. -/
def boolOfText? (s : String) : Option Bool :=
  (("1", true) :: ("0", false) :: truthNames).lookup (Text.lower s)

/-- A setting as a truth value; numbers other than zero are true. -/
def toBool? : Setting → Option Bool
  | bool b => some b
  | integer n => some (n != 0)
  | float x => some (x != 0.0)
  | text s => boolOfText? s
  | moment s => boolOfText? s
  | _ => none

/-- A setting as text. -/
def toText? : Setting → Option String
  | text s => some s
  | moment s => some s
  | bool b => some (if b then "true" else "false")
  | integer n => some (toString n)
  | float x => some (NumberLayout.plain.write x)
  | _ => none

/-- A setting as text that may be missing. -/
def toOptionalText? : Setting → Option (Option String)
  | unset => some none
  | v => v.toText?.map some

/-- The algorithm with a name in any case. -/
def algorithmNamed? (name : String) : Option KeyAlgorithm :=
  KeyAlgorithm.ofName? (Text.lower name)

/-- A setting as an algorithm: its name, or a table with nothing but its name. -/
def toAlgorithm? : Setting → Option KeyAlgorithm
  | text s => algorithmNamed? s
  | moment s => algorithmNamed? s
  | table [(name, _)] => algorithmNamed? name
  | _ => none

end Setting

/-- Settings that are converted as far as possible. -/
def SettingReader.converting : SettingReader Setting where
  fields? := Setting.fields?
  text? := Setting.toText?
  optionalText? := Setting.toOptionalText?
  bool? := Setting.toBool?
  natBelow? := fun bound v => v.toNat?.filter (· < bound)
  algorithm? := Setting.toAlgorithm?

end EntitlementAuthority
