import EntitlementAuthority.Text.Fields

/-!
# Arguments

The arguments of a command are options, which begin with a dash, and operands. An option is
checked when the next argument comes, unless its value is attached to it.

* `ArgumentRules` — which options and operands a command takes.
* `GivenArguments` — what has been given so far.
* `ArgumentRules.read` — reads arguments up to their end or to the name of a command.
-/

namespace EntitlementAuthority

/-- Why arguments are not carried out. -/
inductive Stop where
  /-- They do not keep to the rules. -/
  | usage
  /-- They ask for help. -/
  | help
  /-- They ask for the version. -/
  | version
deriving DecidableEq, Repr

/-- What an option is for. -/
inductive OptionUse where
  /-- It is given or not. -/
  | flag
  /-- It takes a value that passes a test, more than one if it may be given again. -/
  | value (placeholder : String) (accepts : String → Bool) (mayRepeat : Bool)
  /-- It asks for something else than the command. -/
  | stop (reason : Stop)

/-- An option. -/
structure OptionRule where
  name : String
  /-- Its short form. -/
  letter : Option Char := none
  use : OptionUse
  help : String := ""

namespace OptionRule

/-- Whether the option takes a value. -/
def takesValue (o : OptionRule) : Bool :=
  match o.use with
  | .value .. => true
  | _ => false

end OptionRule

/-- How many operands a command takes. -/
inductive OperandRule where
  | none
  /-- One that is not empty. -/
  | one (placeholder help : String)
  | many (placeholder help : String)

/-- Which options and operands a command takes. -/
structure ArgumentRules where
  options : List OptionRule
  operands : OperandRule := .none
  /-- The names at which the arguments of another command begin. -/
  commandNames : List String := []

/-- What has been given so far. -/
structure GivenArguments where
  /-- The options with their values, in order; the value of a flag is empty. -/
  options : List (String × String)
  operands : List String
  /-- An option that has not been checked yet. -/
  pending : Option (OptionRule × String)

namespace GivenArguments

/-- Nothing. -/
def nothing : GivenArguments := ⟨[], [], none⟩

/-- Whether an option was given. -/
def has (g : GivenArguments) (name : String) : Bool :=
  g.options.any (·.1 == name)

/-- The values of an option, in order. -/
def values (g : GivenArguments) (name : String) : List String :=
  (g.options.filter (·.1 == name)).map Prod.snd

/-- The value of an option. -/
def value? (g : GivenArguments) (name : String) : Option String :=
  g.options.lookup name

/-- Adds an option, unless it was there before or does not accept its value. -/
def addOption (o : OptionRule) (value : String) (g : GivenArguments) :
    Except Stop GivenArguments :=
  let added := { g with options := g.options ++ [(o.name, value)] }
  match o.use with
  | .stop reason => .error reason
  | .flag => if g.has o.name then .error .usage else .ok added
  | .value _ accepts mayRepeat =>
    if (g.has o.name && !mayRepeat) || !accepts value then .error .usage else .ok added

/-- Checks the option that has not been checked yet. -/
def settle (g : GivenArguments) : Except Stop GivenArguments :=
  match g.pending with
  | none => .ok g
  | some (o, value) => addOption o value { g with pending := none }

/-- Checks what comes before an option and then the option. -/
def takeOption (o : OptionRule) (value : String) (g : GivenArguments) :
    Except Stop GivenArguments := do
  (← g.settle).addOption o value

/-- Adds an operand, if there may be one. -/
def takeOperand (rule : OperandRule) (operand : String) (g : GivenArguments) :
    Except Stop GivenArguments := do
  let g ← g.settle
  let added := { g with operands := g.operands ++ [operand] }
  match rule with
  | .none => .error .usage
  | .one .. => if operand.isEmpty || !g.operands.isEmpty then .error .usage else .ok added
  | .many .. => .ok added

end GivenArguments

namespace ArgumentRules

/-- What an argument that is an option leaves to be done: an option that waits for its value. -/
abbrev Taken := GivenArguments × Option OptionRule

/-- Takes an option in its long form, without the dashes. -/
def takeLong (rules : ArgumentRules) (cs : List Char) (g : GivenArguments) :
    Except Stop Taken := do
  let name := String.ofList (cs.takeWhile (· != '='))
  match rules.options.find? (·.name == name), cs.dropWhile (· != '=') with
  | none, _ => .error .usage
  | some o, [] =>
    if o.takesValue then .ok (← g.settle, some o) else .ok (← g.takeOption o "", none)
  | some o, _ :: value =>
    if o.takesValue then .ok (← g.takeOption o (String.ofList value), none) else .error .usage

/-- What is attached to a letter, an equals sign left out. -/
def attached : List Char → String
  | '=' :: value => String.ofList value
  | value => String.ofList value

/-- Takes options in their short form, without the dash. What stands behind an option that takes
a value is its value. -/
def takeLetters (rules : ArgumentRules) : List Char → GivenArguments → Except Stop Taken
  | [], g => .ok (g, none)
  | c :: cs, g => do
    match rules.options.find? (·.letter == some c) with
    | none => .error .usage
    | some o =>
      if !o.takesValue then takeLetters rules cs (← g.takeOption o "")
      else if cs.isEmpty then .ok (← g.settle, some o)
      else .ok (← g.takeOption o (attached cs), none)

/-- Whether an argument is an option, or ends the options; a lone dash is an operand. -/
def isOption (arg : String) : Bool :=
  match arg.toList with
  | '-' :: _ :: _ => true
  | _ => false

/-- Takes an argument that is an option. -/
def takeOption (rules : ArgumentRules) (arg : String) (g : GivenArguments) : Except Stop Taken :=
  match arg.toList with
  | '-' :: '-' :: cs => takeLong rules cs g
  | _ :: cs => takeLetters rules cs g
  | [] => .error .usage

/-- Reads arguments; what is left begins with the name of a command. Behind two dashes everything
is an operand. -/
def read (rules : ArgumentRules) :
    List String → GivenArguments → Except Stop (GivenArguments × List String)
  | [], g => .ok (g, [])
  | arg :: rest, g => do
    if rules.commandNames.contains arg then .ok (g, arg :: rest)
    else if arg == "--" then
      let g ← rest.foldlM (fun g operand => g.takeOperand rules.operands operand) g
      .ok (g, [])
    else if isOption arg then
      match ← rules.takeOption arg g with
      | (g, none) => read rules rest g
      | (g, some o) =>
        match rest with
        | [] => .error .usage
        | value :: rest =>
          -- the value is checked when the next argument is taken
          if isOption value then .error .usage
          else read rules rest { g with pending := some (o, value) }
    else read rules rest (← g.takeOperand rules.operands arg)

/-- Reads all arguments of a command that has no commands below it. -/
def readAll (rules : ArgumentRules) (args : List String) : Except Stop GivenArguments := do
  let (g, _) ← rules.read args .nothing
  let g ← g.settle
  match rules.operands with
  | .one .. => if g.operands.isEmpty then .error .usage else .ok g
  | _ => .ok g

end ArgumentRules

end EntitlementAuthority
