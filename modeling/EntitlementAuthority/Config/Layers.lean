import EntitlementAuthority.Config.Conversion
import EntitlementAuthority.Config.Document
import EntitlementAuthority.Config.Place
import EntitlementAuthority.Text.Fields

/-!
# Configurations from files and variables

* `Config.ofFile` — a configuration file alone; settings have to be of the right type.
* `Config.load` — variables over an optional file; settings are converted as far as possible.

A variable is named for its setting: `ENTITLEMENT__CACHE__PAYLOAD_KEY_VERSION`, in any case.
-/

namespace EntitlementAuthority

/-! ### Variables -/

/-- The setting that the value of a variable stands for. -/
def Setting.ofVariable (value : String) : Setting :=
  -- a text that is both is a whole number
  match Text.lower value, Text.readInt64? value, readFloat? value with
  | "true", _, _ => .bool true
  | "false", _, _ => .bool false
  | _, some n, _ => .integer n
  | _, none, some x => .float x
  | _, none, none => .text value

/-- What the names of variables begin with. -/
def variableBeginning : String := "entitlement__"

/-- The name of the setting of a variable, if it is one. -/
def settingName? (variableName : String) : Option String :=
  (Text.stripFront? variableBeginning.toList (Text.lower variableName).toList).map fun rest =>
    Text.replaceAll "__" "." (String.ofList rest)

/-- The settings that variables stand for. -/
def variableLayer (values : List (String × String)) : List (String × Setting) :=
  values.filterMap fun (name, value) =>
    (settingName? name).map fun name => (name, Setting.ofVariable value)

/-- The names of the variables that are settings of a section. -/
def variablesOf (part : String) (fieldNames : List String) : List String :=
  fieldNames.map fun name => (variableBeginning ++ part ++ "__" ++ name).map Char.toUpper

/-- The variables for all settings, by their usual names. -/
def variableNames : List String :=
  variablesOf "certificates" CertificateSettings.fieldNames
    ++ variablesOf "content" ContentSettings.fieldNames
    ++ variablesOf "cache" CacheSettings.fieldNames
    ++ variablesOf "ca" AuthoritySettings.fieldNames

/-! ### Layers -/

/-- Lays settings over one another, the first ones lowest. What has come together is laid down
once more, so that the outermost keys are in lower case too. -/
def Setting.ofLayers (layers : List (List (String × Setting))) : Setting :=
  let together := layers.foldl Setting.layOver (.table [])
  Setting.layOver (.table []) together.entries

namespace Config

/-- Reads a configuration file; `none` stands for a file that cannot be read. -/
def ofFile (contents : Option String) : Outcome Config := do
  match contents with
  | none => .error (.io "the configuration cannot be read")
  | some s =>
    match ofDocument? s with
    | none => .error (.configuration "not a configuration")
    | some c =>
      c.validate
      .ok c

/-- The settings of a file, if one is given; `some none` stands for a file that cannot be
read. -/
def fileLayer? : Option (Option String) → Option (List (String × Setting))
  | none => some []
  | some none => none
  | some (some s) => (Toml.read? s).map fun document => document.setting.entries

/-- The configuration from an optional file and variables. -/
def load (file : Option (Option String)) (values : List (String × String)) :
    Outcome Config := do
  match fileLayer? file with
  | none => .error (.configuration "the configuration cannot be read")
  | some layer =>
    let settings := Setting.ofLayers [layer, variableLayer values]
    match read? SettingReader.converting settings with
    | none => .error (.configuration "not a configuration")
    | some c =>
      c.validate
      .ok c

end Config

end EntitlementAuthority
