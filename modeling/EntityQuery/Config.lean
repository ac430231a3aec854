import EntityQuery.Schema.Basic
import EntityQuery.Strategy
import EntityQuery.Text.Integer
import EntityQuery.Text.Uuid
import EntityQuery.Value
import EntityQuery.Yaml.View

/-!
# Configuration

* `NilIds`: the ids that references to unsaved entities stand for, one for each id type;
* `Config`: what planning depends on besides the schema;
* `Config.faults`: what is wrong with a configuration;
* `Config.ofEnvironment`, `Config.ofYaml`, `Config.decode?`: where it comes from.
-/

namespace EntityQuery

/-- The ids that references to unsaved entities stand for; they match no stored row. -/
structure NilIds where
  int : Int64
  uuid : String
  untaggedString : String
  deriving DecidableEq

/-- The nil id of an id type. -/
def NilIds.forType (nil : NilIds) : IdType → Value
  | .int => .int nil.int
  | .uuid => .text nil.uuid
  | .untaggedString => .text nil.untaggedString

/-- The nil ids that are used when none are configured. -/
def NilIds.default : NilIds := ⟨-1, "00000000-0000-0000-0000-000000000000", ""⟩

/-- What planning depends on besides the schema. -/
structure Config where
  nilIds : NilIds
  /-- The column of the time of deletion, for entities that name none. -/
  softDeleteColumn : String
  /-- What becomes of collection joins when a query does not say. -/
  defaultStrategy : Strategy
  /-- The least number of sibling collections that are aggregated without force. -/
  lateralThreshold : Nat
  /-- Joins that nothing refers to are removed. -/
  pruneJoins : Bool
  deriving DecidableEq

/-- The configuration that is used when nothing is configured. -/
def Config.default : Config := ⟨.default, "deleted_at", .existence, 2, true⟩

/-- A value outside its bounds: where it is, the rule and what the rule says. -/
structure ConfigFault where
  path : String
  rule : String
  text : String
  deriving DecidableEq, Repr

/-- Why there is no configuration. -/
inductive ConfigError
  | parse (field value reason : String)
  /-- The document is no configuration. -/
  | malformed
  | invalid (faults : List ConfigFault)
  deriving DecidableEq, Repr

/-- The wording of a value that cannot be read. -/
def ConfigError.message : ConfigError → String
  | .parse field value reason => "Parse error for " ++ field ++ ": " ++ value ++ " - " ++ reason
  | .malformed => "Parse error for yaml_content"
  | .invalid _ => "Validation error"

namespace Config

/-- What is wrong with a configuration, in the order of the paths. -/
def faults (c : Config) : List ConfigFault :=
  (if 1 ≤ c.lateralThreshold ∧ c.lateralThreshold ≤ 16 then []
    else [⟨"lateral_sibling_threshold", "range",
      "Lateral sibling threshold must be between 1 and 16"⟩]) ++
  (if (Uuid.parse? c.nilIds.uuid).isSome then []
    else [⟨"nil_ids.uuid", "nil uuid sentinel must be a valid UUID", ""⟩]) ++
  (if c.softDeleteColumn = "" then
      [⟨"soft_delete_column", "length", "Soft delete column cannot be empty"⟩]
    else [])

/-- The configuration, if nothing is wrong with it. -/
def validated (c : Config) : Except ConfigError Config :=
  if c.faults.isEmpty then .ok c else .error (.invalid c.faults)

theorem faults_default : Config.default.faults = [] := by decide

/-! ### The environment -/

/-- The variables by name. -/
abbrev Environment := List (String × String)

/-- The value of a variable. -/
def Environment.get? (env : Environment) (name : String) : Option String :=
  (env.find? (·.1 = name)).map (·.2)

/-- What a variable spells, or the default when it is not set. -/
def setting (env : Environment) (name : String) (default : α)
    (read : String → Except String α) : Except ConfigError α :=
  match env.get? name with
  | none => .ok default
  | some value =>
    match read value with
    | .ok a => .ok a
    | .error reason => .error (.parse name value reason)

/-- A truth value by its exact name. -/
def readBool : String → Except String Bool
  | "true" => .ok true
  | "false" => .ok false
  | _ => .error "provided string was not `true` or `false`"

/-- An integer of 64 bits. -/
def readInt (s : String) : Except String Int64 :=
  (Integer.parse64 s).mapError Integer.ParseError.message

/-- A number of 64 bits without sign. -/
def readNat (s : String) : Except String Nat :=
  ((Integer.parse 0 Word.natMax s).map Int.toNat).mapError Integer.ParseError.message

/-- The configuration of the environment. -/
def ofEnvironment (env : Environment) : Except ConfigError Config := do
  let d := Config.default
  let int ← setting env "ORMPLAN_NIL_INT_ID" d.nilIds.int readInt
  let uuid ← setting env "ORMPLAN_NIL_UUID_ID" d.nilIds.uuid .ok
  let untagged ← setting env "ORMPLAN_NIL_STRING_ID" d.nilIds.untaggedString .ok
  let column ← setting env "ORMPLAN_SOFT_DELETE_COLUMN" d.softDeleteColumn .ok
  let strategy ← setting env "ORMPLAN_DEFAULT_STRATEGY" d.defaultStrategy fun s =>
    (Strategy.parse s).mapError UnknownStrategy.message
  let threshold ← setting env "ORMPLAN_LATERAL_SIBLING_THRESHOLD" d.lateralThreshold readNat
  let prune ← setting env "ORMPLAN_PRUNE_JOINS" d.pruneJoins readBool
  validated ⟨⟨int, uuid, untagged⟩, column, strategy, threshold, prune⟩

/-! ### Documents -/

open Document

/-- Nil ids; what is not said takes its default. -/
def decodeNilIds? {δ : Type} [Document δ] (d : δ) : Option NilIds :=
  match record? ["int", "uuid", "untagged_string"] 0 d with
  | some [int, uuid, untagged] => do
    return ⟨← orElse NilIds.default.int int64? int, ← orElse NilIds.default.uuid text? uuid,
      ← orElse NilIds.default.untaggedString text? untagged⟩
  | _ => none

/-- The configuration of a document; what is not said takes its default. -/
def decode? {δ : Type} [Document δ] (d : δ) : Option Config :=
  match record? ["nil_ids", "soft_delete_column", "default_strategy", "lateral_sibling_threshold",
      "prune_joins"] 0 d with
  | some [nilIds, column, strategy, threshold, prune] => do
    return ⟨← orElse Config.default.nilIds decodeNilIds? nilIds,
      ← orElse Config.default.softDeleteColumn text? column,
      ← orElse Config.default.defaultStrategy Strategy.decode? strategy,
      ← orElse Config.default.lateralThreshold nat64? threshold,
      ← orElse Config.default.pruneJoins bool? prune⟩
  | _ => none

/-- The configuration of a YAML text. -/
def ofYaml (text : String) : Except ConfigError Config :=
  match (Yaml.parse? text).bind decode? with
  | some c => validated c
  | none => .error .malformed

/-- The configuration of a file, whose content is missing when it cannot be found. -/
def ofFile : Option String → Except ConfigError Config
  | some text => ofYaml text
  | none => .error (.parse "yaml_file" "file read failed" noSuchFile)

/-- A configuration as a document. -/
def toJson (c : Config) : Json :=
  .obj [
    ("nil_ids", .obj [("int", .int c.nilIds.int.toInt), ("uuid", .str c.nilIds.uuid),
      ("untagged_string", .str c.nilIds.untaggedString)]),
    ("soft_delete_column", .str c.softDeleteColumn),
    ("default_strategy", c.defaultStrategy.toJson),
    ("lateral_sibling_threshold", .int c.lateralThreshold),
    ("prune_joins", .bool c.pruneJoins)]

end Config

end EntityQuery
