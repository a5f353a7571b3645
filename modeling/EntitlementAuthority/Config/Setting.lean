/-!
# Settings

* `Setting` — a value in a configuration file, or what a variable stands for.
* `Setting.putEntry` — puts a setting into a table.
* `Setting.fields?` — the settings of a section, from a table or a list.
-/

namespace EntitlementAuthority

/-- A value in a configuration. -/
inductive Setting where
  /-- A place that nothing was put in. -/
  | unset
  | bool (b : Bool)
  | integer (n : Int)
  | float (x : Float)
  | text (s : String)
  /-- A date, a time of day, or both. -/
  | moment (s : String)
  | list (items : List Setting)
  | table (entries : List (String × Setting))
deriving Inhabited

namespace Setting

/-- Puts a setting in the place of the one under a key, or at the end. -/
def putEntry (key : String) (v : Setting) : List (String × Setting) → List (String × Setting)
  | [] => [(key, v)]
  | e :: es => if e.1 = key then (key, v) :: es else e :: putEntry key v es

/-- The values of named fields. A list holds the fields in the order of their names. -/
def fields? (names : List String) : Setting → Option (List (Option Setting))
  | table entries => some (names.map fun name => entries.lookup name)
  | list items =>
    some ((items.take names.length).map some
      ++ List.replicate (names.length - items.length) none)
  | _ => none

end Setting

end EntitlementAuthority
