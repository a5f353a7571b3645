import EntitlementAuthority.Config.Reader
import EntitlementAuthority.Toml.Reader

/-!
# Configurations in a document

In a configuration that stands in a document alone, settings have to be of the right type.

* `SettingReader.document` — settings in a document that was read.
* `Config.ofDocument?` — reads a configuration; it is not validated.
-/

namespace EntitlementAuthority

namespace Toml.Node

/-- The values of named fields. A list holds the fields in the order of their names, and a moment
holds none. -/
def fields? (names : List String) : Node → Option (List (Option Node))
  | table _ entries => some (names.map fun name => entries.lookup name)
  | tables items =>
    (Setting.fields? names (setting (tables items))).map (List.map (Option.map value))
  | value (.moment _) => some (names.map fun _ => none)
  | value v => (v.fields? names).map (List.map (Option.map value))

/-- Reads text. -/
def text? : Node → Option String
  | value (.text s) => some s
  | _ => none

/-- Reads a truth value. -/
def bool? : Node → Option Bool
  | value (.bool b) => some b
  | _ => none

/-- Reads a natural number below a bound. -/
def natBelow? (bound : Nat) : Node → Option Nat
  | value (.integer n) => if 0 ≤ n ∧ n < bound then some n.toNat else none
  | _ => none

/-- Whether there is nothing in a table or a list. -/
def isHollow : Node → Bool
  | table _ entries => entries.isEmpty
  | tables items => items.isEmpty
  | value (.table entries) => entries.isEmpty
  | value (.list items) => items.isEmpty
  | value _ => false

/-- Reads an algorithm: its name, or a table with something hollow under its name. Of a table on
lines of its own the first entry counts; one in braces must not have another. -/
def algorithm? : Node → Option KeyAlgorithm
  | value (.text s) => KeyAlgorithm.ofName? s
  | value (.table [(name, v)]) => if (value v).isHollow then KeyAlgorithm.ofName? name else none
  | table _ ((name, n) :: _) => if n.isHollow then KeyAlgorithm.ofName? name else none
  | _ => none

end Toml.Node

/-- Settings that have to be of the right type. -/
def SettingReader.document : SettingReader Toml.Node where
  fields? := Toml.Node.fields?
  text? := Toml.Node.text?
  optionalText? := fun n => n.text?.map some
  bool? := Toml.Node.bool?
  natBelow? := Toml.Node.natBelow?
  algorithm? := Toml.Node.algorithm?

/-- Reads a configuration. -/
def Config.ofDocument? (text : String) : Option Config :=
  (Toml.read? text).bind (read? SettingReader.document)

end EntitlementAuthority
