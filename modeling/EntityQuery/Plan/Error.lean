import EntityQuery.Schema.Basic
import EntityQuery.Text.Quoted

/-!
# Planning errors

* `PlanError`: why there is no plan for a query;
* `PlanError.ofSchema`: a question to the schema that failed while planning.
-/

namespace EntityQuery

/-- Why there is no plan for a query. -/
inductive PlanError
  | schema (error : SchemaError)
  | unknownField (entity field : String)
  | joinThroughPolymorphic (entity field : String)
  | unsupportedFilter (entity field shape : String)
  /-- A fragment of text mentions tables of several outermost collections. -/
  | fragmentSpansRoots (sql : String) (roots : List String)
  | unsupportedPredicate (kind column : String)
  /-- A visitor wants to remove or replace a group that belongs to no other one. -/
  | rootReplacement (kind : String)
  | unknownBinding (name : String)
  | invalidId (value reason : String)
  | unsupportedOrder (entity field : String)
  deriving DecidableEq, Repr

/-- The wording of the error. -/
def PlanError.message : PlanError → String
  | .schema error => error.message
  | .unknownField entity field => "Unknown field '" ++ field ++ "' on " ++ entity
  | .joinThroughPolymorphic entity field =>
    "Cannot join through polymorphic field " ++ entity ++ "." ++ field
  | .unsupportedFilter entity field shape =>
    "Unsupported filter on " ++ entity ++ "." ++ field ++ ": " ++ shape
  | .fragmentSpansRoots sql roots =>
    "Raw condition `" ++ sql ++ "` spans collection roots " ++ Quoted.list roots
  | .unsupportedPredicate kind column =>
    "Value filter `" ++ kind ++ "` is not supported on " ++ column
  | .rootReplacement kind => "Visitor cannot replace or delete a root `" ++ kind ++ "` node"
  | .unknownBinding name => "Unknown alias binding '" ++ name ++ "'"
  | .invalidId value reason => "Invalid id `" ++ value ++ "`: " ++ reason
  | .unsupportedOrder entity field => "Cannot order " ++ entity ++ " by '" ++ field ++ "'"

/-- The error of a question to the schema: an unknown field has an error of its own. -/
def PlanError.ofSchema : SchemaError → PlanError
  | .unknownField entity field => .unknownField entity field
  | error => .schema error

/-- The answer of the schema, as a step of planning. -/
def planning (answer : Except SchemaError α) : Except PlanError α :=
  answer.mapError PlanError.ofSchema

end EntityQuery
