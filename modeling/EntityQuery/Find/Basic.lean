import EntityQuery.Collection.Resolved
import EntityQuery.Find.Match
import EntityQuery.Find.Order
import EntityQuery.Find.UserCondition
import EntityQuery.Plan.NullCheck
import EntityQuery.Plan.Prune

/-!
# Finding entities

`find` makes the plan of a query for the entities of one type: the filter is matched on the entity's
table, the joins of collections are resolved, tests for null are told from missing rows, the order
is added, and tables that nothing refers to are removed.

* `FindOptions`: what a query may say besides its filter;
* `Draft.ofQuery`: the tables and conditions of a query;
* `find`: its plan, with what should be told about it.
-/

namespace EntityQuery

/-- What a query may say besides its filter. -/
structure FindOptions where
  /-- Conditions over the user aliases of the filter. -/
  conditions : Option ExpressionLiteral
  orderBy : OrderBy
  /-- Rows that are marked as deleted count like others. -/
  withDeleted : Bool
  strategy : Option Strategy
  pruneJoins : Option Bool
  /-- User aliases whose tables are not removed. -/
  keepAliases : List String

/-- Nothing is said. -/
def FindOptions.default : FindOptions := ⟨none, .keys [], false, none, none, []⟩

/-- The table of the entity that is asked for, and what the filter and the conditions add to it. -/
def Draft.ofQuery (s : Setting) (e : Entity) (filter : EntityFilter)
    (conditions : Option ExpressionLiteral) : Except PlanError (String × Draft) := do
  let (aliasName, d) := Draft.empty.nextAlias e.tableName
  let d ← d.addEntity s e (.primary aliasName e.tableName)
  let d ← d.addSelects s e aliasName
  let d ← EntityFilter.match s e aliasName false filter d
  let d ← match conditions with
    | none => pure d
    | some literal => d.addConditions s literal
  return (aliasName, d)

/-- The plan of what has been gathered. -/
def Draft.toPlan (d : Draft) : Plan := ⟨d.selects, d.tables, d.conjuncts.group?, [], none, none⟩

/-- The plan of a query for the entities of one type. -/
def find (schema : Schema) (config : Config) (typeName : String) (filter : EntityFilter)
    (options : FindOptions) : Except PlanError Resolved := do
  let s : Setting := ⟨schema, config, options.withDeleted⟩
  let e ← s.entity typeName
  let (aliasName, d) ← Draft.ofQuery s e filter options.conditions
  let keep ← options.keepAliases.mapM fun name => return (← d.binding name).aliasName
  let strategy := options.strategy.getD config.defaultStrategy
  let (resolved, supply) ←
    d.toPlan.resolveCollections strategy config.lateralThreshold d.collections d.supply
  let checked := resolved.plan.addNullChecks d.idDbType
  let (ordered, _) ← checked.addOrder s e aliasName options.orderBy supply
  let plan := if options.pruneJoins.getD config.pruneJoins then ordered.prune keep else ordered
  return ⟨plan, resolved.warnings⟩

end EntityQuery
