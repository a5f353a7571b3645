import EntitlementAuthority.CommandLine.Command

/-!
# Help

A page of help says what a command is for and how it is used, and lists what it takes in two
columns.

* `HelpTopic.page` — the page about a topic.
* `versionLine` — the name of the program and its version.
-/

namespace EntitlementAuthority

/-- What the program is called. -/
def programName : String := "entitlement-cert"

/-- The name of the program and its version. -/
def versionLine : String := programName ++ " 0.1.0\n"

/-! ### Columns -/

/-- The rows of a table with two columns; the second column begins two blanks behind the widest
entry of the first. -/
def columns (rows : List (String × String)) : String :=
  let width := rows.foldl (fun n row => max n row.1.length) 0 + 2
  rows.foldl (fun page (term, about) =>
    page ++ "  " ++ term ++ String.ofList (List.replicate (width - term.length) ' ') ++ about
      ++ "\n") ""

/-- A part of a page, with an empty line in front; nothing if it has no rows. -/
def helpSection (title : String) (rows : List (String × String)) : String :=
  if rows.isEmpty then "" else "\n" ++ title ++ ":\n" ++ columns rows

/-- An option with its two forms. -/
def OptionRule.term (o : OptionRule) : String :=
  let short := (o.letter.map fun c => "-" ++ c.toString ++ ", ").getD "    "
  let long := short ++ "--" ++ o.name
  match o.use with
  | .value placeholder .. => long ++ " <" ++ placeholder ++ ">"
  | _ => long

/-- What operands stand for. -/
def OperandRule.term : OperandRule → String
  | none => ""
  | one placeholder _ => "<" ++ placeholder ++ ">"
  | many placeholder _ => "[" ++ placeholder ++ "]..."

/-- Operands and what they are for. -/
def OperandRule.rows (rule : OperandRule) : List (String × String) :=
  match rule with
  | none => []
  | one _ help => [(rule.term, help)]
  | many _ help => [(rule.term, help)]

/-! ### Pages -/

namespace HelpTopic

/-- What the command that prints help is for. -/
def aboutHelp : String := "Print this message or the help of the given subcommand(s)"

/-- The command about which help is asked for. -/
def helpOperands : OperandRule :=
  .many "COMMAND" "Print help for the subcommand(s)"

/-- How something is used, with what follows the name of the program. -/
def usage (about : String) (rest : String) : String :=
  about ++ "\n\nUsage: " ++ programName ++ " " ++ rest ++ "\n"

/-- Words with a blank between neighbours, empty ones left out. -/
def words (ws : List String) : String :=
  Text.joinWith " " (ws.filter (!·.isEmpty))

/-- The page about what the program takes in front of a command. -/
def programPage : String :=
  usage "Inspect entitlement certificates and content path resolution" "[OPTIONS] <COMMAND>"
    ++ helpSection "Commands" (CommandForm.all.map (fun f => (f.name, f.about))
      ++ [(helpCommandName, aboutHelp)])
    ++ helpSection "Options" (commonRules.options.map fun o => (o.term, o.help))

/-- The page about a command. -/
def commandPage (form : CommandForm) : String :=
  usage form.about (words [form.name, "[OPTIONS]", form.rules.operands.term])
    ++ helpSection "Arguments" form.rules.operands.rows
    ++ helpSection "Options" (form.rules.options.map fun o => (o.term, o.help))

/-- The page about a topic. -/
def page : HelpTopic → String
  | program => programPage
  | command form => commandPage form
  | help =>
    usage aboutHelp (words [helpCommandName, helpOperands.term])
      ++ helpSection "Arguments" helpOperands.rows

end HelpTopic

end EntitlementAuthority
