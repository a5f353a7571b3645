import EntitlementAuthority.CommandLine.Arguments
import EntitlementAuthority.Text.Integer

/-!
# Commands

* `Command` — what the program can be asked for.
* `CommandForm` — a command as it is typed: its name, its arguments and what they stand for.
* `Invocation.ofArguments` — the command that arguments stand for.
-/

namespace EntitlementAuthority

/-- What the program can be asked for. -/
inductive Command where
  /-- To show a certificate, and the payload behind it unless that is left out. -/
  | inspect (path : String) (withPayload : Bool)
  /-- To show where the content of some URLs is found. -/
  | contentPaths (template environment : Option String) (urls : List String)
  /-- To show the key of a payload. -/
  | payloadKey (arches environmentIds : List String)
  /-- To issue a certificate for a sample entitlement. -/
  | sample (contents : Nat) (legacy : Bool)
deriving DecidableEq, Repr

/-- A command as it is typed. -/
structure CommandForm where
  name : String
  about : String
  rules : ArgumentRules
  /-- The command that arguments stand for which keep to the rules. -/
  command : GivenArguments → Command

/-! ### Options -/

/-- The option that asks for help. -/
def helpOption : OptionRule where
  name := "help"
  letter := some 'h'
  use := .stop .help
  help := "Print help"

/-- An option with a value of any text. -/
def textOption (name placeholder help : String) (mayRepeat : Bool) : OptionRule where
  name := name
  use := .value placeholder (fun _ => true) mayRepeat
  help := help

/-- An option without a value. -/
def flagOption (name help : String) : OptionRule where
  name := name
  use := .flag
  help := help

/-- A number of 32 bits. -/
def readWord32? (s : String) : Option Nat :=
  ((Text.readInt64? s).filter fun (n : Int) => 0 ≤ n && n < Nat.pow 2 32).map Int.toNat

/-- How many contents the sample has. -/
def sampleContentOption : OptionRule where
  name := "content"
  use := .value "CONTENT" (fun s => (readWord32? s).isSome) false
  help := "Number of content sets on the sample product [default: 3]"

/-! ### Commands -/

namespace CommandForm

/-- Shows a certificate. -/
def inspect : CommandForm where
  name := "cat-cert"
  about := "Print subject, validity, entitlement extensions and payload of a certificate"
  rules := {
    options := [flagOption "no-payload" "Skip the payload body", helpOption]
    operands := .one "PATH" "PEM file, optionally followed by entitlement data" }
  command := fun g => .inspect (g.operands.headD "") (!g.has "no-payload")

/-- Shows content paths. -/
def contentPaths : CommandForm where
  name := "content-paths"
  about := "Resolve content URLs against an owner prefix"
  rules := {
    options := [
      textOption "prefix" "PREFIX" "Owner prefix, may contain $env" false,
      textOption "environment" "ENVIRONMENT" "Name of the winning environment" false,
      helpOption]
    operands := .many "URLS" "" }
  command := fun g => .contentPaths (g.value? "prefix") (g.value? "environment") g.operands

/-- Shows the key of a payload. -/
def payloadKey : CommandForm where
  name := "payload-key"
  about := "Compute the content access payload key for a consumer view"
  rules := {
    options := [
      textOption "arch" "ARCHES" "" true,
      textOption "env" "ENVIRONMENTS" "Environment ids in priority order" true,
      helpOption] }
  command := fun g => .payloadKey (g.values "arch") (g.values "env")

/-- Issues a sample. -/
def sample : CommandForm where
  name := "sample"
  about := "Issue a sample entitlement certificate from an in-memory directory"
  rules := {
    options := [
      sampleContentOption,
      flagOption "legacy" "Issue for a consumer that only reads legacy certificates",
      helpOption] }
  command := fun g =>
    .sample (((g.value? "content").bind readWord32?).getD 3) (g.has "legacy")

/-- All commands. -/
def all : List CommandForm :=
  [inspect, contentPaths, payloadKey, sample]

/-- The command with a name. -/
def named? (name : String) : Option CommandForm :=
  all.find? (·.name == name)

end CommandForm

/-! ### Invocations -/

/-- The command that prints help. -/
def helpCommandName : String := "help"

/-- What comes before the name of a command. -/
def commonRules : ArgumentRules where
  options := [
    { name := "config"
      letter := some 'c'
      use := .value "CONFIG" (fun path => !path.isEmpty) false
      help := "Configuration file (TOML), overridable with ENTITLEMENT__* variables" },
    { flagOption "verbose" "Verbose output" with letter := some 'v' },
    helpOption,
    { name := "version", letter := some 'V', use := .stop .version, help := "Print version" }]
  commandNames := CommandForm.all.map (·.name) ++ [helpCommandName]

/-- What help is about. -/
inductive HelpTopic where
  | program
  | command (form : CommandForm)
  /-- The command that prints help. -/
  | help

/-- What the program answers with instead of carrying a command out. -/
inductive Refusal where
  /-- The arguments do not keep to the rules. -/
  | usage
  | help (topic : HelpTopic)
  | version

/-- A stop while arguments are read that belong to some topic. -/
def Stop.refusal (topic : HelpTopic) : Stop → Refusal
  | usage => .usage
  | help => .help topic
  | version => .version

/-- A command, and the configuration to carry it out with. -/
structure Invocation where
  configFile : Option String
  command : Command
deriving DecidableEq, Repr

namespace Invocation

/-- What help is asked for by the names behind the command that prints it. -/
def helpTopic : List String → Refusal
  | [] => .help .program
  | [name] =>
    if name == helpCommandName then .help .help
    else
      match CommandForm.named? name with
      | some form => .help (.command form)
      | none => .usage
  | _ => .usage

/-- The command that arguments stand for, its name in front. -/
def readCommand : List String → Except Refusal Command
  | [] => .error .usage
  | name :: args =>
    if name == helpCommandName then .error (helpTopic args)
    else
      match CommandForm.named? name with
      | none => .error .usage
      | some form =>
        match form.rules.readAll args with
        | .ok g => .ok (form.command g)
        | .error stop => .error (stop.refusal (.command form))

/-- The command that arguments stand for. An option right in front of the name of the command is
checked last. -/
def ofArguments (args : List String) : Except Refusal Invocation := do
  let (g, rest) ← (commonRules.read args .nothing).mapError (Stop.refusal .program)
  let command ← readCommand rest
  let g ← g.settle.mapError (Stop.refusal .program)
  .ok ⟨g.value? "config", command⟩

end Invocation

end EntitlementAuthority
