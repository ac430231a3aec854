import EntityQuery.Find.Basic
import EntityQuery.Proofs.Draft.Tree

/-!
# The passes of a query

A query goes through passes: its draft is made, the joins of collections are resolved, tests for
null are told from missing rows, the order is added, and tables that nothing refers to are removed.

* `QueryRun`: what each pass of a query gave;
* `exists_run_of_find`, `QueryRun.find_eq`: a query has a plan exactly if it has a run.
-/

namespace EntityQuery

/-- What a query is planned in. -/
abbrev FindOptions.setting (options : FindOptions) (schema : Schema) (config : Config) : Setting :=
  ⟨schema, config, options.withDeleted⟩

/-- The passes of a query that has a plan. -/
structure QueryRun (schema : Schema) (config : Config) (typeName : String) (filter : EntityFilter)
    (options : FindOptions) where
  entity : Entity
  aliasName : String
  draft : Draft
  keep : List String
  resolved : Resolved
  supply : AliasSupply
  ordered : Plan
  rest : AliasSupply
  entity_eq : (options.setting schema config).entity typeName = .ok entity
  draft_eq : Draft.ofQuery (options.setting schema config) entity filter options.conditions =
    .ok (aliasName, draft)
  keep_eq : (options.keepAliases.mapM fun name => return (← draft.binding name).aliasName) = .ok keep
  resolved_eq : draft.toPlan.resolveCollections (options.strategy.getD config.defaultStrategy)
    config.lateralThreshold draft.collections draft.supply = .ok (resolved, supply)
  ordered_eq : (resolved.plan.addNullChecks draft.idDbType).addOrder
    (options.setting schema config) entity aliasName options.orderBy supply = .ok (ordered, rest)

section

variable {schema : Schema} {config : Config} {typeName : String} {filter : EntityFilter}
  {options : FindOptions} {r : Resolved}

namespace QueryRun

/-- The plan of the query. -/
def plan (run : QueryRun schema config typeName filter options) : Plan :=
  if options.pruneJoins.getD config.pruneJoins then run.ordered.prune run.keep else run.ordered

theorem find_eq (run : QueryRun schema config typeName filter options) :
    find schema config typeName filter options = .ok ⟨run.plan, run.resolved.warnings⟩ := by
  simp only [find, run.entity_eq, run.draft_eq, run.keep_eq, run.resolved_eq, run.ordered_eq, ok_bind]
  rfl

/-- The same query with its tables kept. -/
def unpruned (run : QueryRun schema config typeName filter options) :
    QueryRun schema config typeName filter { options with pruneJoins := some false } :=
  { run with }

theorem entity_mem (run : QueryRun schema config typeName filter options) :
    run.entity ∈ schema.entities := Setting.mem_of_entity run.entity_eq

end QueryRun

/-- A query that has a plan has been through its passes. -/
theorem exists_run_of_find (h : find schema config typeName filter options = .ok r) :
    ∃ run : QueryRun schema config typeName filter options,
      r = ⟨run.plan, run.resolved.warnings⟩ := by
  obtain ⟨e, he, h⟩ := exists_of_bind_eq_ok h
  obtain ⟨⟨a, d⟩, hd, h⟩ := exists_of_bind_eq_ok h
  obtain ⟨keep, hkeep, h⟩ := exists_of_bind_eq_ok h
  obtain ⟨⟨resolved, supply⟩, hresolved, h⟩ := exists_of_bind_eq_ok h
  obtain ⟨⟨ordered, rest⟩, hordered, h⟩ := exists_of_bind_eq_ok h
  exact ⟨⟨e, a, d, keep, resolved, supply, ordered, rest, he, hd, hkeep, hresolved, hordered⟩,
    (Except.ok.inj h).symm⟩

end

end EntityQuery
