import EntitlementAuthority.CommandLine.Report
import Std.Time.DateTime.Timestamp

/-!
# The program

Finds out what the command needs, carries it out and prints its report.
-/

open EntitlementAuthority

/-- The file at a path, if it can be read. -/
def readText (path : String) : IO (Option String) := do
  try
    return some (← IO.FS.readFile path)
  catch _ =>
    return none

/-- The files that the arguments ask for. -/
def readFiles (args : List String) : IO (List (String × Option String)) :=
  match Invocation.ofArguments args with
  | .ok i => i.paths.mapM fun path => return (path, ← readText path)
  | .error _ => return []

/-- The variables that are settings. -/
def readVariables : IO (List (String × String)) := do
  let values ← variableNames.mapM fun name => return (← IO.getEnv name).map fun value => (name, value)
  return values.filterMap id

/-- The time. -/
def readClock : IO Instant := do
  let t ← Std.Time.Timestamp.now
  return ⟨t.val.second.val, t.val.nano.val.toNat⟩

/-- Carries out the command that the arguments stand for. -/
def main (args : List String) : IO UInt32 := do
  let files ← readFiles args
  let report := Report.ofArguments
    { file? := fun path => (files.lookup path).join
      variableValues := ← readVariables
      now := ← readClock
      uuid := Sample.uuidOfBytes (← IO.getRandomBytes 16).toList }
    args
  IO.print report.output
  IO.eprint report.complaint
  return report.exitCode.toUInt32
