import EntityQuery.Proofs.Deletion.Lateral
import EntityQuery.Proofs.Naming.Nested

/-!
# Distinct names and collections

Subqueries take tables of the plan over under the names that they have, each table once.  A lateral
query has a new name besides.

* `Subqueries.allAliasesOf_conditions`: the tables of existence conditions;
* `Plan.Gathered.nodup_allAliases_toExistence`: existence conditions bind no name twice;
* `Lateral.allAliases_subqueryOf`: the tables of a lateral query;
* `Plan.Gathered.nodup_allAliases_toLateral`: neither do lateral queries.
-/

namespace EntityQuery

open Existence Lateral

/-- The plan binds the tables of the tree, and has no plans inside it. -/
theorem Plan.Gathered.allAliases {T : JoinTree} {joins : List Join} {p : Plan}
    (h : p.Gathered T joins) : p.allAliases = T.aliases := by
  rw [Plan.allAliases_eq, Table.allAliasesOf_of_flat h.plans_tables,
    ← Plan.allAliasesOf_topConditions, Condition.allAliasesOf_of_flat h.flat,
    Select.allAliasesOf_of_flat fun x hx => (h.selects x hx).1, h.tables, T.map_aliasName_tables,
    List.append_nil, List.append_nil, List.append_nil]

/-! ### Existence conditions -/

namespace Subqueries

variable {ts : List Table} {ss : Subqueries}

/-- The existence conditions bind the tables that they took over, if these have no plans inside. -/
theorem allAliasesOf_conditions (hts : ∀ t ∈ ts, t.plans = []) (h : ∀ c ∈ ss.taken, c.plans = []) :
    Condition.allAliasesOf (ss.conditions ts) = ss.names ts := by
  have hsubquery : ∀ root names cs, (subquery (subqueryTables ts root names) cs).allAliases =
      (subqueryTables ts root names).map Table.aliasName ++ Condition.allAliasesOf cs := by
    intro root names cs
    show _ ++ Table.allAliasesOf _ ++ Condition.allAliasesOf cs ++ [] = _
    rw [Table.allAliasesOf_of_flat (plans_subqueryTables hts), List.append_nil, List.append_nil]
  unfold names
  induction ss with
  | nil => rfl
  | row j names own nested rest ihNested ihRest =>
    obtain ⟨hfirst, hrest⟩ := List.forall_mem_append.1 h
    obtain ⟨hown, hnested⟩ := List.forall_mem_append.1 hfirst
    have hinside : Condition.allAliasesOf (.raw (.correlation j.parent j.own) ::
        (own ++ nested.conditions ts)) = (nested.tables ts).map Table.aliasName := by
      show [] ++ Condition.allAliasesOf (own ++ _) = _
      rw [List.nil_append, Condition.allAliasesOf_append, Condition.allAliasesOf_of_flat hown,
        List.nil_append, ihNested hnested]
    show (subquery _ _).allAliases ++ Condition.allAliasesOf (rest.conditions ts) = _
    rw [hsubquery, hinside, ihRest hrest, tables, List.map_append, List.map_append]
  | missing j asked hmissing rest ih =>
    show (subquery _ _).allAliases ++ Condition.allAliasesOf (rest.conditions ts) = _
    rw [hsubquery, ih fun c hc => h c (List.mem_cons_of_mem _ hc), tables, List.map_append]
    exact congrArg (· ++ _) (List.append_nil _)

/-- Subqueries bind names of the plan. -/
theorem names_subset : ss.names ts ⊆ ts.map Table.aliasName := by
  have hsub : ∀ root names, (subqueryTables ts root names).map Table.aliasName ⊆
      ts.map Table.aliasName := by
    intro root names
    rw [map_aliasName_subqueryTables]
    exact List.filter_subset_self _
  unfold names
  induction ss with
  | nil => exact List.nil_subset _
  | row j names own nested rest ihNested ihRest =>
    rw [tables, List.map_append, List.map_append]
    exact List.append_subset.2 ⟨List.append_subset.2 ⟨hsub _ _, ihNested⟩, ihRest⟩
  | missing j asked _ rest ih =>
    rw [tables, List.map_append]
    exact List.append_subset.2 ⟨hsub _ _, ih⟩

end Subqueries

/-- A plan with existence conditions and the plans inside it bind names of the tree, none twice. -/
theorem Plan.Gathered.nodup_allAliases_toExistence {T : JoinTree} {joins : List Join} {p : Plan}
    {r : Resolved} (h : p.Gathered T joins) (hr : p.toExistence joins = .ok r) :
    r.plan.allAliases.Nodup ∧ r.plan.allAliases ⊆ T.aliases := by
  obtain ⟨outer, ss, dropped, hc⟩ :=
    Plan.exists_conserved (JoinTree.ordered_tables h.tables) hr
  have hflat : ∀ c ∈ outer ++ ss.taken ++ dropped, c.plans = [] := fun c hc' =>
    h.flat c (hc.perm.mem_iff.2 hc')
  obtain ⟨hplaced, -⟩ := List.forall_mem_append.1 hflat
  obtain ⟨houter, htaken⟩ := List.forall_mem_append.1 hplaced
  have hall : r.plan.allAliases = r.plan.tables.map Table.aliasName ++ ss.names p.tables := by
    have hselects : ∀ x ∈ r.plan.selects, x.plans = [] := by
      rw [hc.others.1]
      exact fun x hx => (h.selects x hx).1
    rw [Plan.allAliases_eq, Select.allAliasesOf_of_flat hselects,
      Table.allAliasesOf_of_flat fun t ht => h.plans_tables t (hc.tables.subset ht),
      ← Plan.allAliasesOf_topConditions, hc.top, Condition.allAliasesOf_append,
      Condition.allAliasesOf_of_flat houter,
      Subqueries.allAliasesOf_conditions h.plans_tables htaken, List.append_nil, List.append_nil,
      List.nil_append]
  rw [hall, ← T.map_aliasName_tables, ← h.tables]
  exact ⟨hc.nodup, List.append_subset.2 ⟨(hc.tables.map _).subset, Subqueries.names_subset⟩⟩

/-! ### Lateral queries -/

namespace Lateral

variable {T : JoinTree} {p : Plan} {joins : List Join} {s : Scope} {supply : AliasSupply}
  {guards : List Condition} {u name : String} {j : Join} {k : Condition}

/-- Columns of conditions without subqueries have none, whatever guards them. -/
theorem plans_guarded (hguards : ∀ c ∈ guards, c.plans = []) (hk : k.plans = []) :
    (columnOf u name k).plans = [] ∧ (guarded guards (columnOf u name k)).plans = [] := by
  have hall : ∀ g : Group, g.plans = [] → (guarded guards (.boolOr g name)).plans = [] := by
    rintro ⟨op, cs⟩ hg
    cases op with
    | and =>
      exact Condition.plansOf_eq_nil_iff.2
        (List.forall_mem_append.2 ⟨hguards, Condition.plansOf_eq_nil_iff.1 hg⟩)
    | or =>
      exact Condition.plansOf_eq_nil_iff.2
        (List.forall_mem_append.2 ⟨hguards, List.forall_mem_singleton.2 hg⟩)
  unfold columnOf
  split_ifs
  · exact ⟨rfl, rfl⟩
  · split
    · exact ⟨hk, hall _ hk⟩
    · have hone : (Group.all [k]).plans = [] :=
        Condition.plansOf_eq_nil_iff.2 (List.forall_mem_singleton.2 hk)
      exact ⟨hone, hall _ hone⟩

/-- The columns of a collection have no subqueries. -/
theorem plans_selects_subqueryOf (hflat : ∀ k ∈ p.topConditions, k.plans = []) (j : Join) :
    ∀ x ∈ (subqueryOf s p.topConditions (columnsOf s supply p) u j p.tables).selects,
      x.plans = [] := by
  have hguards : ∀ k ∈ guardsOf s p.topConditions u, k.plans = [] := fun k hk =>
    hflat k (mem_guardsOf_iff.1 hk).1
  have hcolumn : ∀ x ∈ selectsOf u (columnsOf s supply p),
      x.plans = [] ∧ (guarded (guardsOf s p.topConditions u) x).plans = [] := by
    intro x hx
    obtain ⟨k, name, hlifts, rfl⟩ := exists_lifts_of_mem_selectsOf hx
    exact plans_guarded hguards (liftable_of_lifts hflat hlifts).2.1
  intro x hx
  change x ∈ guardedAll _ _ at hx
  unfold guardedAll at hx
  split_ifs at hx
  · exact (hcolumn x hx).1
  · obtain ⟨x', hx', rfl⟩ := List.mem_map.1 hx
    exact (hcolumn x' hx').2

/-- The query of a collection binds the tables below the collection. -/
theorem allAliases_subqueryOf (h : p.Gathered T joins) (j : Join) :
    (subqueryOf s p.topConditions (columnsOf s supply p) u j p.tables).allAliases =
      T.aliases.filter (· ∈ s.tree.subtree u) := by
  have hselects : ∀ x ∈ (subqueryOf s p.topConditions (columnsOf s supply p) u j p.tables).selects,
      x.plans = [] := plans_selects_subqueryOf h.flat j
  have htables : ∀ t ∈ subqueryTables p.tables u (s.tree.subtree u), t.plans = [] :=
    plans_subqueryTables h.plans_tables
  show (subqueryTables p.tables u (s.tree.subtree u)).map Table.aliasName ++
    Table.allAliasesOf (subqueryTables p.tables u (s.tree.subtree u)) ++ [] ++
      Select.allAliasesOf
        (subqueryOf s p.topConditions (columnsOf s supply p) u j p.tables).selects = _
  rw [Table.allAliasesOf_of_flat htables, Select.allAliasesOf_of_flat hselects, List.append_nil,
    List.append_nil, List.append_nil, map_aliasName_subqueryTables, h.tables, T.map_aliasName_tables]

/-- Lateral queries bind the tables below their collections. -/
theorem mem_allAliasesOf_laterals (h : p.Gathered T joins) {a : String}
    (ha : a ∈ Table.allAliasesOf
      (Lateral.laterals s p.topConditions (columnsOf s supply p) supply p.tables)) :
    a ∈ T.aliases ∧ ∃ u ∈ s.active, isRewritten (columnsOf s supply p) u = true ∧
      a ∈ s.tree.subtree u := by
  rw [Table.allAliasesOf_eq, List.flatMap_assoc] at ha
  obtain ⟨t, ht, ha⟩ := List.mem_flatMap.1 ha
  obtain ⟨u, hu, j, -, hr, rfl⟩ := mem_laterals_iff.1 ht
  rw [Table.plans, List.flatMap_singleton, allAliases_subqueryOf h] at ha
  obtain ⟨ha, hm⟩ := List.mem_filter.1 ha
  exact ⟨ha, u, hu, hr, of_decide_eq_true hm⟩

/-- No table is below two collections that became lateral queries. -/
theorem nodup_allAliasesOf_laterals (h : p.Gathered T joins) (hF : s.tree.IsForest)
    (hI : s.Independent) : (Table.allAliasesOf
      (Lateral.laterals s p.topConditions (columnsOf s supply p) supply p.tables)).Nodup := by
  have hsub : ∀ units : List String, (Table.allAliasesOf (units.filterMap
      (lateral? s p.topConditions (columnsOf s supply p) (subqueryName supply) p.tables))).Sublist
        (units.flatMap fun u => T.aliases.filter (· ∈ s.tree.subtree u)) := by
    intro units
    induction units with
    | nil => exact List.Sublist.refl _
    | cons u units ih =>
      rw [List.flatMap_cons, List.filterMap_cons]
      cases hl : lateral? s p.topConditions (columnsOf s supply p) (subqueryName supply) p.tables u with
      | none => exact ih.trans (List.sublist_append_right _ _)
      | some x =>
        unfold lateral? at hl
        split at hl
        · split_ifs at hl
          obtain rfl := Option.some.inj hl
          show ((subqueryOf _ _ _ _ _ _).allAliases ++ _).Sublist _
          rw [allAliases_subqueryOf h]
          exact (List.Sublist.refl _).append ih
        · cases hl
  refine (List.nodup_flatMap.2 ⟨fun u _ => T.nodup_aliases.filter _, ?_⟩).sublist (hsub s.active)
  refine hI.nodup.pairwise_of_forall_ne fun u hu v hv hne a ha ha' => hne ?_
  have habove := hF.mem_subtree_iff.1 (of_decide_eq_true (List.mem_filter.1 ha).2)
  exact hI.unique hF hu hv habove (hF.mem_subtree_iff.1 (of_decide_eq_true (List.mem_filter.1 ha').2))

end Lateral

namespace Plan.Gathered

variable {T : JoinTree} {joins : List Join} {p : Plan} {r : Resolved} {s : Scope}
  {supply supply' : AliasSupply} {force : Bool} {threshold : Nat}

/-- A plan with lateral queries binds its own tables, the lateral tables and what is below them. -/
theorem allAliases_lateralPlan (h : p.Gathered T joins) (hdiv : Divisible s p.topConditions) :
    (lateralPlan s supply p).allAliases =
      (outside s (columnsOf s supply p) s.active p.tables ++
        Lateral.laterals s p.topConditions (columnsOf s supply p) supply p.tables).map
          Table.aliasName ++
      Table.allAliasesOf
        (Lateral.laterals s p.topConditions (columnsOf s supply p) supply p.tables) := by
  have houtside : ∀ t ∈ outside s (columnsOf s supply p) s.active p.tables, t.plans = [] :=
    fun t ht => h.plans_tables t (List.mem_filter.1 ht).1
  have hcondition : Group.allAliasesOf (lateralPlan s supply p).condition = [] := by
    refine Plan.allAliasesOf_ofTop (List.forall_mem_append.2 ⟨h.plans_divided hdiv, fun k hk => ?_⟩)
    obtain ⟨u, -, hk⟩ := List.mem_flatMap.1 hk
    split_ifs at hk
    · cases hk
    · exact h.flat k (mem_guardsOf_iff.1 hk).1
  have hselects : Select.allAliasesOf (lateralPlan s supply p).selects = [] :=
    Select.allAliasesOf_of_flat fun x hx => (h.selects x hx).1
  have htables : (lateralPlan s supply p).tables =
      outside s (columnsOf s supply p) s.active p.tables ++
        Lateral.laterals s p.topConditions (columnsOf s supply p) supply p.tables := rfl
  rw [Plan.allAliases_eq, hcondition, hselects, htables, Table.allAliasesOf_append,
    Table.allAliasesOf_of_flat houtside, List.append_nil, List.append_nil, List.nil_append]

/-- A plan with lateral queries and the plans inside it bind names of the tree and names of lateral
queries, none twice. -/
theorem nodup_allAliases_lateralPlan (h : p.Gathered T joins)
    (hs : s.tree = Collections.ofPlan p joins) (hdiv : Divisible s p.topConditions)
    (hfresh : Fresh s p supply) : (lateralPlan s supply p).allAliases.Nodup ∧
      ∀ a ∈ (lateralPlan s supply p).allAliases, a ∈ T.aliases ∨ ∃ u, a = subqueryName supply u := by
  have hI := hdiv.independent
  have hF : s.tree.IsForest := hs ▸ JoinTree.isForest h.tables h.mem_joins
  have houtside : ∀ {a : String},
      a ∈ (outside s (columnsOf s supply p) s.active p.tables).map Table.aliasName ↔
        a ∈ T.aliases ∧ Survives s supply p a := mem_aliases_outside_iff h.tables h.mem_joins hs
  rw [h.allAliases_lateralPlan hdiv, List.map_append]
  refine ⟨?_, fun a ha => ?_⟩
  · rw [List.nodup_append, List.nodup_append]
    refine ⟨⟨?_, nodup_laterals hI hfresh.injective, ?_⟩, nodup_allAliasesOf_laterals h hF hI, ?_⟩
    · have hnd : (p.tables.map Table.aliasName).Nodup := by
        rw [h.tables, T.map_aliasName_tables]
        exact T.nodup_aliases
      exact hnd.sublist (List.filter_sublist.map _)
    · rintro a ha b hb rfl
      obtain ⟨u, hu, rfl⟩ := mem_aliases_laterals hb
      exact ne_subqueryName h.tables hfresh (houtside.1 ha).1 u hu rfl
    · rintro a ha b hb rfl
      obtain ⟨haT, u, hu, hr, hm⟩ := mem_allAliasesOf_laterals h hb
      rcases List.mem_append.1 ha with ha | ha
      · exact (houtside.1 ha).2 u hu hr (hF.mem_subtree_iff.1 hm)
      · obtain ⟨v, hv, rfl⟩ := mem_aliases_laterals ha
        exact ne_subqueryName h.tables hfresh haT v hv rfl
  · rcases List.mem_append.1 ha with ha | ha
    · rcases List.mem_append.1 ha with ha | ha
      · exact .inl (houtside.1 ha).1
      · obtain ⟨u, -, rfl⟩ := mem_aliases_laterals ha
        exact .inr ⟨u, rfl⟩
    · exact .inl (mem_allAliasesOf_laterals h ha).1

theorem nodup_allAliases_toLateral (h : p.Gathered T joins)
    (hfresh : Fresh (p.lateralScope force threshold joins) p supply)
    (hr : p.toLateral force threshold joins supply = .ok (r, supply')) :
    r.plan.allAliases.Nodup ∧
      ∀ a ∈ r.plan.allAliases, a ∈ T.aliases ∨ ∃ u, a = subqueryName supply u := by
  obtain ⟨hs, hdiv⟩ : (p.lateralScope force threshold joins).tree = Collections.ofPlan p joins ∧
      Divisible (p.lateralScope force threshold joins) p.topConditions :=
    divisible_lateralScope h.tables h.mem_joins
  rcases toLateral_cases h.tables h.mem_joins hfresh hr with he | he
  · rw [he, h.allAliases]
    exact ⟨T.nodup_aliases, fun _ => .inl⟩
  · rw [he]
    exact h.nodup_allAliases_lateralPlan hs hdiv hfresh

end Plan.Gathered

end EntityQuery
