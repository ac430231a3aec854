import EntityQuery.Proofs.Blank.Draft
import EntityQuery.Proofs.Deletion.Introduced
import EntityQuery.Proofs.Deletion.Lateral
import EntityQuery.Proofs.Deletion.Order
import EntityQuery.Proofs.Find.Run
import EntityQuery.Proofs.Scoping.Find
import EntityQuery.Proofs.Strategy.Unread
import EntityQuery.Sample.Zoo

/-!
# Queries without deleted rows

The condition that rows of a table are not deleted is asked for wherever the table is left that holds
the time of deletion: the entity's own table or that of a base.  Pruning removes the table of a base
with its condition if nothing else refers to it.

* `Draft.mem_topConditions_of_inlined`: conditions that come with tables are at the top;
* `Draft.Sound.filtered_resolveCollections`: the plan with its collections resolved filters them;
* `QueryRun.shown_ordered`: all columns of the entity that is asked for are shown, its bases' too;
* `filtered_find`: the plan of a query filters the tables of entities that can be deleted;
* `not_filtered_find_zoo`: an entity's table that is left without the table of its base;
* `not_filtered_find_trips`: a name that is given twice, where table names end in numbers.
-/

namespace EntityQuery

section

variable {s : Setting} {T : JoinTree} {d : Draft} {a : String} {c : ColumnCondition}

/-- The plan of a draft filters the table, whatever becomes of its collections. -/
theorem Draft.Sound.filtered_resolveCollections (h : d.Sound s T) (ha : a ∈ T.aliases)
    (hpart : T.IsPartOf a c.aliasName) (hpruneable : c.pruneable = true)
    (hc : .column c ∈ d.toPlan.topConditions) {strategy : Strategy} {threshold : Nat}
    {r : Resolved × AliasSupply}
    (hr : d.toPlan.resolveCollections strategy threshold d.collections d.supply = .ok r) :
    r.1.plan.Filtered a c false := by
  have hgathered := gathered_toPlan h
  unfold Plan.resolveCollections at hr
  split_ifs at hr
  · exact Except.ok.inj hr ▸ hgathered.filtered hc
  cases strategy with
  | existence =>
    obtain ⟨resolved, hresolved, rfl⟩ := exists_of_map_eq_ok hr
    exact hgathered.filtered_toExistence hpart hc hresolved
  | lateral force => exact hgathered.filtered_toLateral (h.fresh _) ha hpart hpruneable hc hr
  | keep => exact Except.ok.inj hr ▸ hgathered.filtered hc

end

/-- The table that holds the time of deletion is the entity's own or that of a base. -/
theorem DeletionColumn.isPartOf_holder {s : Setting} {e : Entity} {c : DeletionColumn}
    (hc : s.deletion? e = .ok (some c)) {T : JoinTree} {a : String}
    (h : T.Houses a e.baseTypes.length) : T.IsPartOf a (c.holder a) := by
  unfold DeletionColumn.holder
  split
  · exact .inl rfl
  · next i hi => exact h.isPartOf (Setting.baseIndex_lt_of_deletion? hc _ rfl i hi)

/-- The plan in front of pruning shows the entity's own table and the one that holds the time of
deletion. -/
theorem QueryRun.shown_ordered {schema : Schema} (hspelled : schema.Spelled) {config : Config}
    {typeName : String} {filter : EntityFilter} {options : FindOptions}
    (run : QueryRun schema config typeName filter options) {c : DeletionColumn}
    (hc : (options.setting schema config).deletion? run.entity = .ok (some c)) :
    run.aliasName ∈ run.ordered.tables.map Table.aliasName ∧
      .star run.aliasName ∈ run.ordered.selects ∧
      .star (c.holder run.aliasName) ∈ run.ordered.selects := by
  obtain ⟨T, haliasName, -, hsound⟩ := Draft.sound_ofQuery hspelled run.entity_mem run.draft_eq
  obtain ⟨⟨-, hkeeps⟩, -⟩ := hsound.scoped_resolveCollections run.resolved_eq
  obtain ⟨table, rest, htables⟩ := hkeeps.primary
  have hselects : run.resolved.plan.selects = run.draft.selects :=
    (Draft.gathered_toPlan hsound).selects_resolveCollections (fun _ => hsound.fresh _)
      run.resolved_eq
  obtain ⟨hown, himplied⟩ := Draft.shows_implied run.entity_mem run.draft_eq hc
  obtain ⟨-, k, hk, -, hheld⟩ := himplied (.column (c.condition run.aliasName))
    (List.mem_map_of_mem List.mem_cons_self)
  obtain rfl := Condition.column.inj hk
  obtain ⟨js, keys, hadd⟩ := Plan.exists_joins_addOrder run.ordered_eq
  obtain ⟨hordered, -⟩ := Prod.mk.inj (Except.ok.inj (run.ordered_eq.symm.trans (hadd _ rfl rfl)))
  have hstar : ∀ {b}, .star b ∈ run.draft.selects → .star b ∈ run.ordered.selects := fun hb => by
    rw [hordered]
    show _ ∈ (Plan.mapLeaves _ _).selects
    rw [Plan.selects_mapLeaves, hselects]
    exact Select.star_mem_mapLeavesAll hb
  refine ⟨?_, hstar hown, hstar hheld⟩
  rw [hordered, List.map_append, Plan.addNullChecks, Plan.tables_mapLeaves,
    Table.map_aliasName_map_mapPlan, htables, ← haliasName]
  exact List.mem_append_left _ List.mem_cons_self

/-- The plan of a query asks that rows of an entity are not deleted wherever it is left with the table
that holds the time of deletion.  That is wherever it has the entity's own table if the time is held
there, if the entity is the one that is asked for, if no tables are removed, and in general if the table
of the base is left with the entity's own. -/
theorem filtered_find {schema : Schema} (hspelled : schema.Spelled) {config : Config}
    {typeName : String} {filter : EntityFilter} {options : FindOptions}
    (hexclude : options.withDeleted = false) {r : Resolved}
    (hfound : find schema config typeName filter options = .ok r) :
    ∃ run : QueryRun schema config typeName filter options, r.plan = run.plan ∧
      (∀ t ∈ run.draft.tables, run.draft.Accounted (options.setting schema config) t) ∧
      run.draft.Introduced (options.setting schema config) run.entity run.aliasName ∧
      ∀ e a, run.draft.Introduced (options.setting schema config) e a →
        (∃ c, (options.setting schema config).Marks e c) →
        ∃ c, (options.setting schema config).Marks e c ∧
          r.plan.Filtered (c.holder a) (c.condition a) false ∧
          (c.baseIndex = none ∨ (e = run.entity ∧ a = run.aliasName) ∨
              options.pruneJoins.getD config.pruneJoins = false ∨ r.plan.Together a (c.holder a) →
            r.plan.Filtered a (c.condition a) false) := by
  obtain ⟨run, rfl⟩ := exists_run_of_find hfound
  obtain ⟨hprimary, haccounted⟩ := Draft.introduced_ofQuery run.entity_mem run.draft_eq
  refine ⟨run, rfl, haccounted, hprimary, fun e a ha hmarks => ?_⟩
  obtain ⟨c, hc, hmarks⟩ := ha.exists_marks hexclude hmarks
  obtain ⟨T, -, -, hsound⟩ := Draft.sound_ofQuery hspelled run.entity_mem run.draft_eq
  have hhouses := ha.houses hsound.tables
  have hpart : T.IsPartOf a (c.holder a) := DeletionColumn.isPartOf_holder hc hhouses
  have htop := Draft.mem_topConditions_of_inlined (ha.mem_inlined hc)
  obtain ⟨-, hgave⟩ := hsound.scoped_resolveCollections run.resolved_eq
  -- the passes in front of the last one filter any part of the entity's table
  have hordered : ∀ b, b ∈ T.aliases → T.IsPartOf b (c.holder a) →
      run.ordered.Filtered b (c.condition a) false := fun b hb hpart =>
    ((hsound.filtered_resolveCollections (c := c.condition a) hb hpart rfl htop
      run.resolved_eq).addNullChecks rfl).addOrder hspelled (hgave _ (hsound.names b hb))
      run.ordered_eq
  have hheld : run.ordered.Filtered (c.condition a).aliasName (c.condition a) false :=
    hordered (c.holder a) (hpart.mem_aliases hhouses.mem) (.inl rfl)
  have hplan : run.plan.Filtered (c.holder a) (c.condition a) false := by
    unfold QueryRun.plan
    split_ifs
    · exact hheld.prune
    · exact hheld
  refine ⟨c, hmarks, hplan, ?_⟩
  rintro (hown | ⟨rfl, rfl⟩ | hkept | htogether)
  · have hholder : c.holder a = a := by
      unfold DeletionColumn.holder
      rw [hown]
    rwa [hholder] at hplan
  · -- the tables of the bases are shown
    obtain ⟨hmem, hstar, hheld⟩ := run.shown_ordered hspelled hc
    have hfront := hordered run.aliasName hhouses.mem hpart
    unfold QueryRun.plan
    split_ifs
    · exact hfront.prune_of_shown hmem hstar hheld
    · exact hfront
  · have hsame : run.plan = run.ordered := by
      unfold QueryRun.plan
      rw [hkept, if_neg Bool.false_ne_true]
    exact hsame ▸ hordered a hhouses.mem hpart
  · exact hplan.of_together htogether

/-- In the order of their publishers, with lateral subqueries, no deleted authors are asked for. -/
theorem filtered_find_library : library.Spelled ∧ byPublisher.withDeleted = false ∧
    ∃ r, find library .default "Author" (authorsOf "Emma") byPublisher = .ok r ∧
    ∃ run : QueryRun library .default "Author" (authorsOf "Emma") byPublisher, r.plan = run.plan ∧
      run.draft.Introduced (byPublisher.setting library .default) run.entity run.aliasName ∧
      ∃ c, (byPublisher.setting library .default).Marks run.entity c ∧
        r.plan.Filtered run.aliasName (c.condition run.aliasName) false := by
  have hspelled : library.Spelled := by constructor <;> decide +kernel
  have hfound : (find library .default "Author" (authorsOf "Emma") byPublisher).isOk = true := by
    decide +kernel
  cases h : find library .default "Author" (authorsOf "Emma") byPublisher with
  | error err =>
    rw [h] at hfound
    cases hfound
  | ok r =>
    obtain ⟨run, hplan, -, hprimary, hfiltered⟩ := filtered_find hspelled rfl h
    have hauthor : (byPublisher.setting library .default).entity "Author" =
        .ok Sample.Library.author := rfl
    have hentity : run.entity = Sample.Library.author :=
      Except.ok.inj (run.entity_eq.symm.trans hauthor)
    obtain ⟨c, hmarks, -, hc⟩ := hfiltered _ _ hprimary ⟨_, .own (hentity ▸ rfl)⟩
    exact ⟨hspelled, rfl, r, rfl, run, hplan, hprimary, c, hmarks, hc (.inr (.inl ⟨rfl, rfl⟩))⟩

/-! ### Tables without their conditions -/

/-- A plan that has a table and no predicate on the one that holds the time of deletion does not filter
the table. -/
theorem Plan.not_filtered {p : Plan} {a : String} {c : ColumnCondition}
    (hmem : a ∈ p.tables.map Table.aliasName)
    (hnone : c.aliasName ∉ p.topConditions.filterMap fun
      | .column c' => some c'.aliasName
      | _ => none) : ¬ p.Filtered a c false := by
  intro h
  cases h with
  | here asks => exact hnone (List.mem_filterMap.2 ⟨_, asks, rfl⟩)
  | inside tables => exact tables hmem

/-- The schema of the zoo. -/
def zoo : Schema := ⟨Sample.Zoo.entities, by decide +kernel⟩

/-- Campaigns of a brand with the slogan. -/
def campaignsOf (slogan : String) : EntityFilter :=
  ⟨none, [⟨"brand", .nested ⟨none, [⟨"slogan", .scalar (.text slogan)⟩]⟩⟩]⟩

/-- Brands are marked as deleted in the table of companies.  A campaign is found by its brand although
that is deleted: the brand's own table is left, that of companies is removed with the condition. -/
theorem not_filtered_find_zoo : ∃ r brand,
    find zoo .default "Campaign" (campaignsOf "x") .default = .ok r ∧
    zoo.entity "Brand" = .ok brand ∧
    (∃ c, (FindOptions.default.setting zoo .default).Marks brand c) ∧
    (∃ j, .join j ∈ r.plan.tables ∧ j.aliasName = "b" ∧ j.table = brand.tableName) ∧
    ∀ c, (FindOptions.default.setting zoo .default).Marks brand c →
      ¬ r.plan.Filtered "b" (c.condition "b") false := by
  have hcompany : (FindOptions.default.setting zoo .default).entity "Company" =
      .ok Sample.Zoo.company := rfl
  have hfound : ((find zoo .default "Campaign" (campaignsOf "x") .default).toOption.map fun r =>
      (r.plan.tables.filterMap Table.join?, r.plan.tables.map Table.aliasName,
        r.plan.topConditions.filterMap fun
          | .column c => some c.aliasName
          | _ => none)) =
      some ([⟨"b", "brands", .inner, ⟨"c", "brand_id"⟩, ⟨"b", "id"⟩, none⟩], ["c", "b"], ["b"]) := by
    decide +kernel
  obtain ⟨r, hr, hplan⟩ := exists_of_map_toOption hfound
  obtain ⟨hjoins, hplan⟩ := Prod.mk.inj hplan
  obtain ⟨hnames, hasked⟩ := Prod.mk.inj hplan
  obtain ⟨t, ht, hjoin⟩ := List.mem_filterMap.1 (hjoins ▸ List.mem_singleton_self _)
  obtain ⟨j, rfl⟩ : ∃ j, t = .join j := by
    cases t with
    | join j => exact ⟨j, rfl⟩
    | _ => cases hjoin
  obtain rfl := Option.some.inj hjoin
  refine ⟨r, Sample.Zoo.brand, hr, rfl, ⟨_, .base (i := 0) rfl hcompany rfl⟩, ⟨_, ht, rfl, rfl⟩,
    fun c hc => Plan.not_filtered ?_ ?_⟩
  · rw [hnames]
    decide
  · rw [hasked]
    cases hc with
    | own hmarked => cases hmarked
    | @base i base b hbase =>
      match i, hbase with
      | 0, _ => show baseAlias "b" 0 ∉ ["b"]; decide
    | shared he => cases he

/-! ### Names that are given twice -/

/-- Trips with an area where they start and one where they end, and stops of their own. -/
def trips : Schema where
  entities := [
    { typeName := "Trip", tableName := "trips", tag := "t", idType := .int, idDbType := "int"
      fields := [⟨"start", .manyToOne "start_id" "Area" false⟩,
        ⟨"goal", .manyToOne "goal_id" "Area" false⟩, ⟨"stops", .oneToMany "Stop" "trip_id"⟩]
      softDelete := false, softDeleteColumn := none, inheritance := .none },
    { typeName := "Area", tableName := "areas", tag := "a", idType := .int, idDbType := "int"
      fields := [⟨"name", .primitive "name" "text"⟩]
      softDelete := true, softDeleteColumn := none, inheritance := .none },
    { typeName := "Stop", tableName := "areas_1", tag := "s", idType := .int, idDbType := "int"
      fields := [⟨"name", .primitive "name" "text"⟩]
      softDelete := true, softDeleteColumn := none, inheritance := .none }]
  sound := by decide +kernel

/-- From one area, with a stop at another. -/
def tripsFrom (start stop : String) : EntityFilter :=
  ⟨none, [⟨"start", .nested ⟨none, [⟨"name", .scalar (.text start)⟩]⟩⟩,
    ⟨"stops", .nested ⟨none, [⟨"name", .scalar (.text stop)⟩]⟩⟩]⟩

/-- In the order of the names of the areas where they end. -/
def byGoal : FindOptions :=
  { FindOptions.default with orderBy := .keys [.through "goal" (.keys [.field "name" .asc])] }

/-- The second area is joined for the order under the name that the stop has in a subquery. -/
theorem not_filtered_find_trips : ∃ r stop c,
    find trips .default "Trip" (tripsFrom "x" "y") byGoal = .ok r ∧
    trips.entity "Stop" = .ok stop ∧
    (byGoal.setting trips .default).deletion? stop = .ok (some c) ∧
    (∃ q ∈ r.plan.asserted, q.tables.map Table.aliasName = ["a1"]) ∧
    ¬ r.plan.Filtered "a1" (c.condition "a1") false := by
  have hfound : ((find trips .default "Trip" (tripsFrom "x" "y") byGoal).toOption.map fun r =>
      (r.plan.asserted.map fun q => q.tables.map Table.aliasName, r.plan.tables.map Table.aliasName,
        r.plan.topConditions.filterMap fun
          | .column c => some c.aliasName
          | _ => none)) = some ([["a1"]], ["t", "a", "a1"], ["a", "a"]) := by
    decide +kernel
  obtain ⟨r, hr, hplan⟩ := exists_of_map_toOption hfound
  obtain ⟨hasserted, hplan⟩ := Prod.mk.inj hplan
  obtain ⟨hnames, hasked⟩ := Prod.mk.inj hplan
  obtain ⟨q, hq, htables⟩ := List.mem_map.1 (hasserted ▸ List.mem_singleton_self _)
  refine ⟨r, _, ⟨none, "deleted_at"⟩, hr, rfl, rfl, ⟨q, hq, htables⟩, Plan.not_filtered ?_ ?_⟩
  · rw [hnames]
    decide
  · rw [hasked]
    decide

end EntityQuery
