import EntitlementAuthority.Certificate.Listing
import EntitlementAuthority.CommandLine.Help
import EntitlementAuthority.Config.Layers
import EntitlementAuthority.Issuance.Sample
import EntitlementAuthority.Payload.Key

/-!
# Carrying commands out

* `Surroundings` — what a command finds: files, variables and the time.
* `Report` — what the program prints, and how it ends.
* `Report.ofArguments` — carries the command out that arguments stand for.
-/

namespace EntitlementAuthority

/-- What a command finds when it is carried out. -/
structure Surroundings where
  /-- The text of the file at a path, if it can be read. -/
  file? : String → Option String
  /-- The variables that are set, with their values. -/
  variableValues : List (String × String)
  now : Instant
  /-- A uuid for the consumer of the sample. -/
  uuid : String

/-- What the program prints, and how it ends. -/
structure Report where
  output : String
  /-- What is said about a failure. -/
  complaint : String
  exitCode : Nat
deriving DecidableEq, Repr

namespace Report

/-- Everything was done. -/
def done (output : String) : Report :=
  ⟨output, "", 0⟩

/-- Something could not be done; what was printed before stays. -/
def failed (output : String) (e : Fault) : Report :=
  ⟨output, "Error: " ++ e.message ++ "\n", 1⟩

/-- How a listing ends the program. -/
def ofListing (l : Listing) : Report :=
  match l.fault with
  | none => done l.text
  | some e => failed l.text e

/-- Prints a text, if there is one. -/
def ofOutcome : Outcome String → Report
  | .ok output => done output
  | .error e => failed "" e

/-! ### Commands -/

/-- The certificate in a file. -/
def inspect (s : Surroundings) (path : String) (withPayload : Bool) : Report :=
  match s.file? path with
  | none => failed "" (.io ("reading " ++ path))
  | some artifact => ofListing (Listing.ofArtifact withPayload artifact)

/-- An environment that is known by its name alone. -/
def namedEnvironment (name : String) (now : Instant) : Environment where
  id := name
  ownerId := "cli"
  name := name
  promotions := Table.empty
  contentUpdated := now

/-- The paths of some URLs; the template of the configuration is for those without one. -/
def contentPaths (config : Config) (template environment : Option String) (urls : List String)
    (now : Instant) : String :=
  let t := PathTemplate.ofText (template.or config.content.defaultPrefix)
  let e := environment.map fun name => namedEnvironment name now
  String.join (urls.map fun url => t.build e url ++ "\n")

/-- Carries a command out. -/
def ofCommand (s : Surroundings) (config : Config) : Command → Report
  | .inspect path withPayload => inspect s path withPayload
  | .contentPaths template environment urls =>
    done (contentPaths config template environment urls s.now)
  | .payloadKey arches environmentIds =>
    done (EntitlementAuthority.payloadKey config.cache.payloadKeyVersion arches environmentIds
      ++ "\n")
  | .sample contents legacy =>
    ofOutcome ((Sample.issue config s.uuid contents legacy s.now).map (·.artifact))

/-- Reads the configuration and carries the command out. -/
def ofInvocation (s : Surroundings) (i : Invocation) : Report :=
  match Config.load (i.configFile.map s.file?) s.variableValues with
  | .error e => failed "" e
  | .ok config => ofCommand s config i.command

/-! ### Refusals -/

/-- What is said about arguments that do not keep to the rules. -/
def usageComplaint : String :=
  "Usage: " ++ programName ++ " [OPTIONS] <COMMAND>\n\nFor more information, try '--help'.\n"

/-- What is answered instead of carrying a command out. -/
def ofRefusal : Refusal → Report
  | .usage => ⟨"", usageComplaint, 2⟩
  | .help topic => done topic.page
  | .version => done versionLine

/-- Carries the command out that arguments stand for. -/
def ofArguments (s : Surroundings) (args : List String) : Report :=
  match Invocation.ofArguments args with
  | .ok i => ofInvocation s i
  | .error refusal => ofRefusal refusal

end Report

/-- The files that a command reads. -/
def Command.paths : Command → List String
  | inspect path _ => [path]
  | _ => []

/-- The files that an invocation reads. -/
def Invocation.paths (i : Invocation) : List String :=
  i.configFile.toList ++ i.command.paths

end EntitlementAuthority
