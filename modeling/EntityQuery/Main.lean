import EntityQuery.CommandLine

/-!
# The program

Reads the arguments, the environment and the files, and prints what the command prints.
-/

namespace EntityQuery.CommandLine

/-- The content of a file, if it can be read. -/
def readFile? (path : String) : IO (Option String) := do
  try return some (← IO.FS.readFile path)
  catch _ => return none

/-- The variables that a configuration may depend on. -/
def settingNames : List String :=
  ["ORMPLAN_NIL_INT_ID", "ORMPLAN_NIL_UUID_ID", "ORMPLAN_NIL_STRING_ID",
    "ORMPLAN_SOFT_DELETE_COLUMN", "ORMPLAN_DEFAULT_STRATEGY", "ORMPLAN_LATERAL_SIBLING_THRESHOLD",
    "ORMPLAN_PRUNE_JOINS"]

end EntityQuery.CommandLine

open EntityQuery EntityQuery.CommandLine

/-- The program. -/
def main (args : List String) : IO UInt32 := do
  let env ← settingNames.filterMapM fun name => do
    return (← IO.getEnv name).map (name, ·)
  let paths := ((Arguments.parse? args).map (·.paths)).getD []
  let files ← paths.mapM fun path => do return (path, ← readFile? path)
  let outcome := run args env fun path => (files.find? (·.1 = path)).bind (·.2)
  match outcome with
  | .done text => IO.print text
  | .failed reason => IO.eprintln ("Error: " ++ reason)
  | .misused => IO.eprintln "error: the arguments cannot be understood"
  return outcome.code.toUInt32
