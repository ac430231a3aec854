import EntityQuery.Proofs.Find.Run
import EntityQuery.Proofs.Multiplicity.Existence
import EntityQuery.Proofs.Multiplicity.Lateral
import EntityQuery.Proofs.Multiplicity.Rows
import EntityQuery.Proofs.Scoping.Find

/-!
# Queries that repeat no row

The plan of a query that rewrites its collections joins the primary table with nothing but tables
that have at most one row for it.

* `DistinctNames`: the tables of a query have distinct names;
* `Strategy.Rewrites`: the strategies that leave no collection of which something is asked joined;
* `Draft.Regular.reduced_resolveCollections`: the plan with its collections resolved;
* `sublist_rows_find`: the plan of a query selects no row of the primary table twice.
-/

namespace EntityQuery

/-- The tables that a query joins have distinct names, before its collections are resolved and in
the plan before tables are removed. -/
structure DistinctNames (schema : Schema) (config : Config) (typeName : String)
    (filter : EntityFilter) (options : FindOptions) : Prop where
  draft : ∀ e a d, schema.entity typeName = .ok e →
    Draft.ofQuery (options.setting schema config) e filter options.conditions = .ok (a, d) →
      d.names.Nodup
  plan : ∀ r, find schema config typeName filter { options with pruneJoins := some false } = .ok r →
    (r.plan.tables.map Table.aliasName).Nodup

/-- The strategy rewrites every collection of which something is asked. -/
def Strategy.Rewrites : Strategy → Prop
  | .existence => True
  | .lateral force => force = true
  | .keep => False

/-- The plan of a draft with its collections resolved joins no collection but such as will be
pruned. -/
theorem Draft.Regular.reduced_resolveCollections {schema : Schema} {a table : String} {d : Draft}
    {strategy : Strategy} {threshold : Nat} {r : Resolved × AliasSupply}
    (h : d.Regular schema a table) (hnames : d.names.Nodup) (hstrategy : strategy.Rewrites)
    (hr : d.toPlan.resolveCollections strategy threshold d.collections d.supply = .ok r)
    (hnd : (r.1.plan.tables.map Table.aliasName).Nodup) :
    ∃ cs, r.1.plan.Reduced schema (d.tree.Under cs) a table := by
  obtain ⟨T, ha, hT, hg⟩ := h.exists_tree hnames
  have htable : T.table = table := by
    obtain ⟨js, hjs⟩ := h.tables
    rw [hjs, JoinTree.tables] at hT
    exact (Table.primary.inj (List.cons.inj hT).1).2.symm
  unfold Plan.resolveCollections at hr
  split_ifs at hr with hempty
  · -- no join is a join of a collection
    obtain rfl := Except.ok.inj hr
    have hnone : d.collections = [] := List.isEmpty_iff.1 hempty
    have htables : d.toPlan.tables = .primary a table :: T.joins.map .join := by
      rw [← ha, ← htable]
      exact hT
    have hfree : ∀ b, ¬ d.tree.Under [] b := by
      rintro b ⟨c, hc, -⟩
      cases hc
    refine ⟨[], h.reduced hg [] ha htables (fun t ht => .inl ?_) (fun b hb => absurd hb (hfree b)) rfl
      rfl rfl fun b _ => hfree b⟩
    obtain ⟨j, hj, rfl⟩ := List.mem_map.1 ht
    exact ⟨j, rfl, (mem_joins_iff hg).2 hj, fun hc => by simp [hnone] at hc⟩
  · cases strategy with
    | existence =>
      obtain ⟨resolved, hresolved, rfl⟩ := exists_of_map_eq_ok hr
      exact ⟨_, h.reduced_toExistence hg ha htable hresolved⟩
    | lateral force =>
      obtain rfl : force = true := hstrategy
      exact h.reduced_toLateral hg ha htable hr hnd
    | keep => exact hstrategy.elim

/-- An order is resolved behind the tables that are there. -/
theorem Plan.prefix_addOrder {p : Plan} {s : Setting} {e : Entity} {a : String} {order : OrderBy}
    {supply : AliasSupply} {r : Plan × AliasSupply}
    (h : p.addOrder s e a order supply = .ok r) : p.tables <+: r.1.tables := by
  obtain ⟨o, ho, h⟩ := exists_of_bind_eq_ok h
  obtain rfl := Except.ok.inj h
  have htables : ((o.reached ++ [a]).foldl Ordering.addId o).tables = o.tables :=
    Ordering.tables_addIds
  rw [htables]
  exact OrderBy.prefix_resolve ho

/-- The names are distinct in the draft and in the plan that a query is found to have. -/
theorem DistinctNames.of_found {schema : Schema} {config : Config} {typeName : String}
    {filter : EntityFilter} {options : FindOptions}
    (hdraft : ((schema.entity typeName).toOption.bind fun e =>
      (Draft.ofQuery (options.setting schema config) e filter options.conditions).toOption.map
        fun r => decide r.2.names.Nodup) = some true)
    (hplan : ((find schema config typeName filter
      { options with pruneJoins := some false }).toOption.map fun r =>
        decide (r.plan.tables.map Table.aliasName).Nodup) = some true) :
    DistinctNames schema config typeName filter options where
  draft e a d he hd := by
    rw [he] at hdraft
    change ((Draft.ofQuery _ e _ _).toOption.map _) = some true at hdraft
    rw [hd] at hdraft
    exact of_decide_eq_true (Option.some.inj hdraft)
  plan r hr := by
    rw [hr] at hplan
    exact of_decide_eq_true (Option.some.inj hplan)

/-- The order joins its tables behind those that are left of the draft. -/
theorem DistinctNames.resolved {schema : Schema} {config : Config} {typeName : String}
    {filter : EntityFilter} {options : FindOptions}
    (h : DistinctNames schema config typeName filter options)
    (run : QueryRun schema config typeName filter options) :
    (run.resolved.plan.tables.map Table.aliasName).Nodup := by
  have hfront := (Plan.prefix_addOrder run.ordered_eq).map Table.aliasName
  rw [Plan.addNullChecks, Plan.tables_mapLeaves, Table.map_aliasName_map_mapPlan] at hfront
  exact (h.plan _ run.unpruned.find_eq).sublist hfront.sublist

/-- A query that rewrites its collections and removes tables that nothing refers to selects each row
of the primary table at most once, whatever its filter and its order, if ids are unique and so are
the columns of one-to-one relations. -/
theorem sublist_rows_find {schema : Schema} (hids : schema.IdsApart) {config : Config}
    {typeName : String} {filter : EntityFilter} {options : FindOptions} {r : Resolved}
    (hfound : find schema config typeName filter options = .ok r)
    (hnames : DistinctNames schema config typeName filter options)
    (hconditions : options.conditions = none) (hkeep : options.keepAliases = [])
    (hprune : options.pruneJoins.getD config.pruneJoins = true)
    (hstrategy : (options.strategy.getD config.defaultStrategy).Rewrites) {db : Database}
    (hkeys : ∀ table column, schema.Key table column → db.IsKey table column) {e₀ : Assignment} :
    ∃ e a rest, schema.entity typeName = .ok e ∧
      r.plan.tables = .primary a e.tableName :: rest ∧
        ((r.plan.rows db e₀).map (· a)).Sublist ((db.table e.tableName).map some) := by
  obtain ⟨run, rfl⟩ := exists_run_of_find hfound
  have hentity := of_planning_eq_ok run.entity_eq
  have hplan : run.plan = run.ordered.prune [] := by
    have hnone := run.keep_eq
    rw [hkeep] at hnone
    obtain hnone : [] = run.keep := Except.ok.inj hnone
    rw [QueryRun.plan, if_pos hprune, ← hnone]
  have hdraft := run.draft_eq
  have hnd : (run.ordered.tables.map Table.aliasName).Nodup := hnames.plan _ run.unpruned.find_eq
  rw [hconditions] at hdraft
  have hregular := (Draft.regular_ofQuery run.entity_mem hdraft).1
  obtain ⟨cs, hreduced⟩ := hregular.reduced_resolveCollections
    (hnames.draft _ _ _ hentity run.draft_eq) hstrategy run.resolved_eq (hnames.resolved run)
  have hrooted := hreduced.addNullChecks.rooted_prune rfl hids run.entity_mem run.ordered_eq hnd
  obtain ⟨rest, htables, -⟩ := id hrooted
  have hrows := (hrooted.mono fun j hj => hkeys _ _ hj).sublist_rows (e := e₀)
  exact ⟨run.entity, run.aliasName, rest, hentity, by rw [hplan, htables], by rwa [hplan]⟩

/-- The only one-to-one relation of the library is from authors to their images. -/
theorem oneToOne_library : ∀ e ∈ library.entities, ∀ f ∈ e.fields, (match f.kind with
    | .oneToOne other _ => other == "Image"
    | _ => true) = true := by
  decide +kernel

/-- The author of Emma is found once, though there are two copies. -/
theorem sublist_rows_find_library : library.IdsApart ∧ ∃ r,
    find library .default "Author" (authorsOf "Emma") byPublisher = .ok r ∧
    DistinctNames library .default "Author" (authorsOf "Emma") byPublisher ∧
    (∀ table column, library.Key table column → Bookshelf.database.IsKey table column) ∧
    ∃ e a rest, library.entity "Author" = .ok e ∧ r.plan.tables = .primary a e.tableName :: rest ∧
      ((r.plan.rows Bookshelf.database .empty).map (· a)).Sublist
        ((Bookshelf.database.table e.tableName).map some) := by
  have hids : library.IdsApart := by
    unfold Schema.IdsApart
    decide +kernel
  have hdraft : ((library.entity "Author").toOption.bind fun e =>
      (Draft.ofQuery (byPublisher.setting library .default) e (authorsOf "Emma")
        none).toOption.map fun r => decide r.2.names.Nodup) = some true := by
    decide +kernel
  have hplan : ((find library .default "Author" (authorsOf "Emma")
      { byPublisher with pruneJoins := some false }).toOption.map fun r =>
        decide (r.plan.tables.map Table.aliasName).Nodup) = some true := by
    decide +kernel
  have hnames : DistinctNames library .default "Author" (authorsOf "Emma") byPublisher :=
    .of_found hdraft hplan
  have hkeys : ∀ table column, library.Key table column →
      Bookshelf.database.IsKey table column := by
    intro table column hkey
    refine Bookshelf.isKey_database ?_
    cases hkey with
    | id => exact .inl rfl
    | oneToOne he hf hkind htarget =>
      have himage := oneToOne_library _ he _ hf
      rw [hkind, beq_iff_eq] at himage
      have hfound : library.entity "Image" = .ok Sample.Library.image := rfl
      obtain rfl := Except.ok.inj ((himage ▸ htarget).symm.trans hfound)
      exact .inr (by decide)
  have hfound : (find library .default "Author" (authorsOf "Emma") byPublisher).isOk = true := by
    decide +kernel
  cases h : find library .default "Author" (authorsOf "Emma") byPublisher with
  | error err =>
    rw [h] at hfound
    cases hfound
  | ok r =>
    exact ⟨hids, r, rfl, hnames, hkeys, sublist_rows_find hids h hnames rfl rfl rfl rfl hkeys⟩

/-- As a join, the collection would give a row for each copy. -/
example : ([.keep, .existence, .lateral true].map fun strategy =>
    (find library .default "Author" (authorsOf "Emma")
      { byPublisher with strategy := some strategy }).toOption.map fun r =>
        (r.plan.rows Bookshelf.database .empty).length) = [some 2, some 1, some 1] := by
  decide +kernel

end EntityQuery
