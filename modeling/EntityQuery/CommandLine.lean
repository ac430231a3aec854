import EntityQuery.Compile
import EntityQuery.Json.Reader
import EntityQuery.Plan.Document
import EntityQuery.Schema.Reader

/-!
# The command line

The command compiles the filter of a file into SQL, or into a plan, and shows it.

* `Arguments`, `Arguments.parse?`: what the command is called with;
* `Request`, `Request.read`: the filter and the options of a file;
* `run`: what the command prints and how it ends.
-/

namespace EntityQuery.CommandLine

/-- What the command is called with. -/
structure Arguments where
  schema : String
  entity : String
  filter : String
  strategy : Option Strategy
  forceLateral : Bool
  json : Bool
  config : Option String

/-- The options that were given: each may be given once. -/
abbrev Given := List (String × String)

/-- The options that take a value. -/
def valued : List String := ["--schema", "--entity", "--filter", "--strategy", "--config"]

/-- The options that take none. -/
def flags : List String := ["--force-lateral", "--json"]

/-- The name of an option, and the value behind an equals sign. -/
def splitOption (arg : String) : String × Option String :=
  let cs := arg.toList
  match cs.dropWhile (· ≠ '=') with
  | [] => (arg, none)
  | _ :: value => (String.ofList (cs.takeWhile (· ≠ '=')), some (String.ofList value))

/-- An argument can be the value of the option before it. -/
def isValue (arg : String) : Bool := arg = "-" || arg.toList.head? ≠ some '-'

/-- The options of a list of arguments, none of them given twice. -/
def given? (found : Given) : List String → Option Given
  | [] => some found
  | ["--"] => some found
  | [arg] =>
    match splitOption arg with
    | (name, some value) =>
      if name ∈ valued ∧ found.all (·.1 ≠ name) then some ((name, value) :: found) else none
    | (name, none) =>
      if name ∈ flags ∧ found.all (·.1 ≠ name) then some ((name, "") :: found) else none
  | arg :: next :: rest =>
    match splitOption arg with
    | (name, some value) =>
      if name ∈ valued ∧ found.all (·.1 ≠ name) then given? ((name, value) :: found) (next :: rest)
      else none
    | (name, none) =>
      if found.any (·.1 = name) then none
      else if name ∈ flags then given? ((name, "") :: found) (next :: rest)
      else if name ∈ valued ∧ isValue next then given? ((name, next) :: found) rest
      else none

/-- The value of an option. -/
def Given.get? (g : Given) (name : String) : Option String :=
  (g.find? (·.1 = name)).map (·.2)

/-- The path that an option gives; it may not be empty. -/
def Given.path? (g : Given) (name : String) : Option String :=
  (g.get? name).bind fun path => if path = "" then none else some path

/-- What the command is called with, or nothing when the arguments are wrong. -/
def Arguments.parse? (args : List String) : Option Arguments := do
  let g ← given? [] args
  let strategy ← match g.get? "--strategy" with
    | none => pure none
    | some text => ((Strategy.parse text).toOption).map some
  let config ← match g.get? "--config" with
    | none => pure none
    | some _ => (g.path? "--config").map some
  return {
    schema := ← g.path? "--schema"
    entity := ← g.get? "--entity"
    filter := ← g.path? "--filter"
    strategy := strategy
    forceLateral := (g.get? "--force-lateral").isSome
    json := (g.get? "--json").isSome
    config := config }

/-- The files that the command reads. -/
def Arguments.paths (a : Arguments) : List String := a.config.toList ++ [a.schema, a.filter]

/-- The strategy that the arguments ask for. -/
def Arguments.chosen (a : Arguments) : Option Strategy :=
  if a.forceLateral then some (.lateral true) else a.strategy

/-! ### The request -/

/-- The filter and the options of a file. -/
structure Request where
  filter : EntityFilter
  options : FindOptions

/-- The request of a JSON value; of a value that is no object, nothing is asked. -/
def Request.ofJson (j : Json) : Except FilterError Request := do
  let filter ← match j.get? "where" with
    | none => pure .empty
    | some v => EntityFilter.ofJson v
  let conditions ← match j.get? "conditions" with
    | none => pure none
    | some v => (ExpressionLiteral.ofJson v).map some
  let orderBy ← match j.get? "orderBy" with
    | none => pure (.keys [])
    | some v => OrderBy.ofJson v
  let withDeleted := match j.get? "softDeletes" with
    | some (.str s) => s = "include"
    | _ => false
  return ⟨filter, { FindOptions.default with
    conditions := conditions, orderBy := orderBy, withDeleted := withDeleted }⟩

/-- The request of a file: a missing file, a text that is no JSON, or a wrong filter is told. -/
def Request.read (path : String) (content : Option String) : Except String Request :=
  match content with
  | none => .error ("reading filter " ++ path)
  | some text =>
    match Json.parse? text with
    | none => .error "parsing filter JSON"
    | some j => (Request.ofJson j).mapError FilterError.message

/-! ### The run -/

/-- How the command ends. -/
inductive Outcome
  /-- It prints a text. -/
  | done (output : String)
  /-- It tells why there is nothing to print. -/
  | failed (reason : String)
  /-- It was called with wrong arguments. -/
  | misused
  deriving DecidableEq, Repr

/-- The exit code. -/
def Outcome.code : Outcome → Nat
  | .done _ => 0
  | .failed _ => 1
  | .misused => 2

/-- The configuration: of the file that is named, else of the environment. -/
def configuration (a : Arguments) (env : Config.Environment) (file : String → Option String) :
    Except String Config :=
  let config := match a.config with
    | none => Config.ofEnvironment env
    | some path => Config.ofFile (file path)
  config.mapError fun _ => "loading plan configuration"

/-- The schema of the file that is named. -/
def schema (a : Arguments) (file : String → Option String) : Except String Schema :=
  (Schema.ofFile (file a.schema)).mapError fun _ => "loading schema " ++ a.schema

/-- The bindings of a query, numbered from `i`. -/
def bindingLines (i : Nat) : List Value → String
  | [] => ""
  | v :: rest => "  $" ++ toString i ++ " = " ++ v.display ++ "\n" ++ bindingLines (i + 1) rest

/-- A query as it is printed: its text, then its bindings. -/
def queryLines (r : Rendered) : String := r.sql ++ "\n" ++ bindingLines 1 r.bindings

/-- What the command prints. -/
def output (a : Arguments) (env : Config.Environment) (file : String → Option String) :
    Except String String := do
  let config ← configuration a env file
  let schema ← schema a file
  let request ← Request.read a.filter (file a.filter)
  let options := { request.options with strategy := a.chosen }
  let found ← (find schema config a.entity request.filter options).mapError PlanError.message
  if a.json then return found.plan.toJson.pretty ++ "\n"
  else
    let rendered ← found.plan.render.mapError SqlError.message
    return queryLines rendered

/-- How the command ends, for its arguments, the environment and the files. -/
def run (args : List String) (env : Config.Environment) (file : String → Option String) : Outcome :=
  match Arguments.parse? args with
  | none => .misused
  | some a =>
    match output a env file with
    | .ok text => .done text
    | .error reason => .failed reason

end EntityQuery.CommandLine
