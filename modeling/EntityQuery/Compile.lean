import EntityQuery.Filter.Reader
import EntityQuery.Find.Basic
import EntityQuery.Sql.Render

/-!
# From filter to SQL

* `compile`: the plan of a query and its text;
* `CompileError`: at which of the stages a query fails.
-/

namespace EntityQuery

/-- At which stage a query fails, and why. -/
inductive CompileError
  | filter (error : FilterError)
  | plan (error : PlanError)
  | sql (error : SqlError)
  deriving DecidableEq, Repr

/-- The wording of the error. -/
def CompileError.message : CompileError → String
  | .filter error => "Invalid filter: " ++ error.message
  | .plan error => "Planning failed: " ++ error.message
  | .sql error => "Rendering failed: " ++ error.message

/-- The text and the bindings of a query for the entities of one type. -/
def compile (schema : Schema) (config : Config) (typeName : String) (filter : EntityFilter)
    (options : FindOptions) : Except CompileError Rendered := do
  let found ← (find schema config typeName filter options).mapError .plan
  found.plan.render.mapError .sql

end EntityQuery
