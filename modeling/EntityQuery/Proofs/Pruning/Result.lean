import EntityQuery.Proofs.Pruning.Needed
import EntityQuery.Proofs.Pruning.Unread

/-!
# Results of pruned plans

Where every table behind the primary one keeps every assignment, the tables that pruning removes
change nothing that can be seen: the rows of the tables that are left are combined in the same ways,
and the subqueries have the same results for them.  What reads a removed table must not go with it,
and no condition at the top may be a disjunction of nothing, which holds nowhere but is taken for no
condition.

* `Plan.OuterRooted`: outer joins and lateral queries behind the primary table;
* `Plan.Lossless`: the tables that do not stay keep every assignment;
* `Plan.Drops`: the tables that pruning removes, those of pruned subqueries included;
* `Plan.SelectsSame`: plans with the same results, and so their subqueries;
* `Plan.selectsSame_prune`: pruning leads to such a plan.
-/

namespace EntityQuery

namespace Plan

/-- The primary table, and behind it outer joins and lateral queries. -/
def OuterRooted (p : Plan) : Prop := ∃ a table, p.Rooted (·.kind = .outer) a table

/-- What does not stay in the plan keeps every assignment. -/
def Lossless (keep : List String) (p : Plan) : Prop :=
  ∀ t ∈ p.tables, ¬ p.Stays keep t.aliasName → t.Keeps

/-- The tables that pruning removes from the plan, from the lateral queries that are left and from
the subqueries of the condition. -/
inductive Drops : List String → Plan → String → Prop
  | table {keep : List String} {p : Plan} {t : Table} (ht : t ∈ p.tables)
      (h : t.aliasName ∉ (p.prune keep).tables.map Table.aliasName) : Drops keep p t.aliasName
  | lateral {keep : List String} {p query : Plan} {x fromAlias a : String}
      (ht : .lateral x fromAlias query ∈ p.tables)
      (hx : x ∈ (p.prune keep).tables.map Table.aliasName) (ha : Drops [] query a) : Drops keep p a
  | subquery {keep : List String} {p query : Plan} {a : String} (hq : query ∈ p.subqueries)
      (ha : Drops [] query a) : Drops keep p a

/-- Pruning removes a table from a plan whose condition is a disjunction of nothing: from the plan
itself, from a lateral query that is left or from a subquery of the condition. -/
inductive Forgets : List String → Plan → Prop
  | here {keep : List String} {p : Plan} {t : Table} (ht : t ∈ p.tables)
      (h : t.aliasName ∉ (p.prune keep).tables.map Table.aliasName)
      (hempty : p.condition = some ⟨.or, []⟩) : Forgets keep p
  | lateral {keep : List String} {p query : Plan} {x fromAlias : String}
      (ht : .lateral x fromAlias query ∈ p.tables)
      (hx : x ∈ (p.prune keep).tables.map Table.aliasName) (h : Forgets [] query) : Forgets keep p
  | subquery {keep : List String} {p query : Plan} (hq : query ∈ p.subqueries)
      (h : Forgets [] query) : Forgets keep p

/-- The second plan is the first one without some tables, and with other subqueries.  For all rows
around them, which may differ in the hidden tables, both plans combine the rows of the tables that
are left in the same ways, both have a row or none, and both have the same row of boolean columns;
and the same is true of their subqueries, where the tables that are removed are hidden too. -/
inductive SelectsSame (db : Database) : List String → Plan → Plan → Prop
  | intro {hidden removed : List String} {p q : Plan} {g : Plan → Plan}
      (combinations : ∀ e e', e.AgreeOff hidden e' →
        {f | ∃ r ∈ p.rows db e, r.restrict (q.tables.map Table.aliasName) = f} =
          {f | ∃ r ∈ q.rows db e', r.restrict (q.tables.map Table.aliasName) = f})
      (emptiness : p.SameEmptiness db hidden q)
      (aggregates : p.SameAggregates db hidden q)
      (tables : q.tables = (p.tables.filter (·.aliasName ∉ removed)).map (Table.mapPlan g))
      (subqueries : q.subqueries = p.subqueries.map g)
      (lateral : ∀ x fromAlias query, .lateral x fromAlias query ∈ p.tables → x ∉ removed →
        SelectsSame db (removed ++ hidden) query (g query))
      (subquery : ∀ query ∈ p.subqueries, SelectsSame db (removed ++ hidden) query (g query)) :
      SelectsSame db hidden p q

section

variable {db : Database} {p q query : Plan} {keep hidden removed : List String} {g : Plan → Plan}
  {a : String} {e : Assignment}

theorem SelectsSame.emptiness (h : SelectsSame db hidden p q) : p.SameEmptiness db hidden q := by
  cases h with
  | intro _ hemptiness => exact hemptiness

theorem SelectsSame.aggregates (h : SelectsSame db hidden p q) : p.SameAggregates db hidden q := by
  cases h with
  | intro _ _ haggregates => exact haggregates

/-! ### One removal -/

theorem evalTop_nonempty? {condition : Option Group} (h : condition ≠ some ⟨.or, []⟩) :
    Group.evalTop db (Group.nonempty? condition) e = Group.evalTop db condition e := by
  match condition with
  | none => rfl
  | some ⟨.or, []⟩ => exact absurd rfl h
  | some ⟨.and, []⟩ => rfl
  | some ⟨_, _ :: _⟩ => rfl

theorem nonempty?_map_mapPlans {condition : Option Group} :
    (Group.nonempty? condition).map (Group.mapPlans g) =
      Group.nonempty? (condition.map (Group.mapPlans g)) := by
  match condition with
  | none => rfl
  | some ⟨_, []⟩ => rfl
  | some ⟨_, _ :: _⟩ => rfl

theorem map_mapPlans_ne (h : p.condition ≠ some ⟨.or, []⟩) :
    p.condition.map (Group.mapPlans g) ≠ some ⟨.or, []⟩ := by
  match hc : p.condition with
  | none => simp
  | some ⟨.or, []⟩ => exact absurd hc h
  | some ⟨.and, _⟩ => simp [Group.mapPlans]
  | some ⟨.or, _ :: _⟩ => simp [Group.mapPlans, Condition.mapPlansOf]

/-- Where all conditions are left, a removal takes tables away and no more. -/
theorem tables_without (h : p.Spared removed) :
    ((p.without removed).mapPlans g).tables =
      (p.tables.filter (·.aliasName ∉ removed)).map (Table.mapPlan g) := by
  show ((p.tables.filter (·.aliasName ∉ removed)).map (Table.mapPlan _)).map (Table.mapPlan g) = _
  rw [← Table.mapLeavesAll_eq_map, Table.mapLeavesAll_withoutRemoved fun t ht q hq =>
    h.nested q (mem_nestedPlans_of_table (List.mem_filter.1 ht).1 hq)]

theorem mapLeavesTop_of_spared (h : p.Spared removed) :
    Group.mapLeavesTop (Condition.withoutRemoved removed) p.condition = p.condition :=
  Group.mapLeavesTop_withoutRemoved (fun a ha => h.here a (List.mem_append_left _ ha))
    fun q hq => h.nested q (mem_nestedPlans_of_condition hq)

theorem subqueries_without (h : p.Spared removed) :
    ((p.without removed).mapPlans g).subqueries = p.subqueries.map g := by
  rw [subqueries_mapPlans]
  congr 1
  rw [subqueries, subqueries, without]
  simp only [mapLeavesTop_of_spared h]
  split
  · rfl
  · cases p.condition with
    | none => rfl
    | some g =>
      obtain ⟨_, _ | ⟨c, cs⟩⟩ := g
      · rfl
      · rfl

theorem rows_without (h : p.Spared removed)
    (hroot : removed ≠ [] → p.condition ≠ some ⟨.or, []⟩) :
    ((p.without removed).mapPlans g).rows db e = (p.reduce removed g).rows db e := by
  have htop : ∀ e, Group.evalTop db ((p.without removed).mapPlans g).condition e =
      Group.evalTop db (p.reduce removed g).condition e := by
    intro e
    show Group.evalTop db ((if removed = [] then p.condition else _).map (Group.mapPlans g)) e = _
    rw [mapLeavesTop_of_spared h]
    split
    · rfl
    · next hne =>
      rw [nonempty?_map_mapPlans, evalTop_nonempty? (map_mapPlans_ne (hroot hne))]
      rfl
  rw [rows_eq_filter, rows_eq_filter, tables_without h]
  simp only [htop]
  rfl

theorem aggregates_without (h : p.Spared removed)
    (hroot : removed ≠ [] → p.condition ≠ some ⟨.or, []⟩) :
    ((p.without removed).mapPlans g).aggregates db e = (p.reduce removed g).aggregates db e := by
  have hselects : ((p.without removed).mapPlans g).selects = p.selects :=
    Select.mapLeavesAll_withoutRemoved
      (fun s hs a ha => h.here a (List.mem_append_right _ (List.mem_flatMap.2 ⟨s, hs, ha⟩)))
      fun s hs q hq => h.nested q (mem_nestedPlans_of_select hs hq)
  rw [aggregates_eq, aggregates_eq, rows_without h hroot, hselects]
  rfl

/-! ### What goes -/

theorem references_of_subquery (hq : query ∈ p.subqueries) (ha : a ∈ query.references) :
    a ∈ p.ownReferences := by
  have hcondition : a ∈ Group.referencesOf p.condition := by
    rw [subqueries] at hq
    cases hc : p.condition with
    | none =>
      rw [hc] at hq
      cases hq
    | some group =>
      rw [hc] at hq
      exact Group.references_of_plans hq ha
  exact List.mem_append_left _ (List.mem_append_left _ (List.mem_append_right _ hcondition))

/-- What the plan itself refers to is left. -/
theorem IsRemoved.not_mem_of_own (h : p.IsRemoved keep removed) (ha : a ∈ p.ownReferences) :
    a ∉ removed := fun hgone => ((h a).1 hgone).2 (.inl ⟨_, sustains_needed, .asked ha⟩)

/-- What tables refer to that are left is left. -/
theorem IsRemoved.not_mem_of_referent (h : p.IsRemoved keep removed) (hseq : p.Sequenced) {t : Table}
    (ht : t ∈ p.tables) (hleft : t.aliasName ∉ removed) (ha : a ∈ t.referents) : a ∉ removed := by
  intro hgone
  have hnot := Table.isPrimary_of_referent ha
  have hstays : p.Stays keep t.aliasName := not_not.1 fun hs =>
    hleft ((h _).2 ⟨⟨t, ht, hnot, rfl⟩, hs⟩)
  have hneeded := (stays_iff_needed hseq ht hnot).1 hstays
  exact ((h a).1 hgone).2 (.inl ⟨_, sustains_needed, .referent ht hneeded ha⟩)

/-- Behind the primary table everything keeps every assignment. -/
theorem OuterRooted.lossless (h : p.OuterRooted) : p.Lossless keep := by
  obtain ⟨x, table, rest, htables, hrest⟩ := h
  intro t ht hgone
  rw [htables, List.mem_cons] at ht
  rcases ht with rfl | ht
  · refine absurd (.inr fun t ht hname => ?_) hgone
    rw [htables, List.mem_cons] at ht
    rcases ht with rfl | ht
    · rfl
    · exact absurd hname (hrest t ht).1
  · have hkind := (hrest t ht).2
    cases t with
    | join j => exact hkind
    | lateral => trivial
    | _ => exact hkind.elim

theorem names_prune (htrim : p.trim keep = p.without removed) :
    (p.prune keep).tables.map Table.aliasName =
      (p.tables.filter (·.aliasName ∉ removed)).map Table.aliasName := by
  rw [prune_eq, htrim]
  exact Table.map_aliasName_map_mapPlan.trans Table.map_aliasName_map_mapPlan

theorem mem_names_prune_iff (htrim : p.trim keep = p.without removed) {t : Table}
    (ht : t ∈ p.tables) :
    t.aliasName ∈ (p.prune keep).tables.map Table.aliasName ↔ t.aliasName ∉ removed := by
  rw [names_prune htrim]
  constructor
  · intro hm
    obtain ⟨t', ht', hname⟩ := List.mem_map.1 hm
    rw [← hname]
    exact of_decide_eq_true (List.mem_filter.1 ht').2
  · exact fun hleft => List.mem_map_of_mem (List.mem_filter.2 ⟨ht, decide_eq_true hleft⟩)

/-! ### Pruning -/

/-- What a nested plan has to meet for the same results, whatever is around it. -/
structure Prunable (keep hidden : List String) (p : Plan) : Prop where
  orderly : p.Orderly
  lossless : p.Lossless keep
  nestedLossless : ∀ q ∈ p.nestedPlans, q.Everywhere (Lossless [])
  root : ¬ p.Forgets keep
  implied : ∀ a, p.Drops keep a → p.Everywhere fun q => a ∉ q.implied
  spared : p.Spared hidden
  references : ∀ a ∈ p.references, a ∉ hidden
  names : ∀ a ∈ p.allAliases, a ∉ hidden

namespace Prunable

theorem spared_append (h : p.Prunable keep hidden) (htrim : p.trim keep = p.without removed)
    (hremoved : p.IsRemoved keep removed) : p.Spared (removed ++ hidden) := by
  have hall : p.Everywhere fun q => ∀ a ∈ removed ++ hidden, a ∉ q.implied := by
    refine everywhere_forall fun a ha => ?_
    rcases List.mem_append.1 ha with hgone | hm
    · obtain ⟨⟨t, ht, -, rfl⟩, -⟩ := (hremoved a).1 hgone
      exact h.implied _ (.table ht fun hleft => (mem_names_prune_iff htrim ht).1 hleft hgone)
    · exact h.spared.imp fun q hq hread => hq a hread hm
  exact hall.imp fun q hq a hread hm => hq a hm hread

/-- The plans inside a plan that are pruned themselves. -/
theorem nested (h : p.Prunable keep hidden) (htrim : p.trim keep = p.without removed)
    (hremoved : p.IsRemoved keep removed) (hq : query ∈ p.nestedPlans)
    (hdrops : ∀ a, query.Drops [] a → p.Drops keep a) (hroot : query.Forgets [] → p.Forgets keep)
    (href : ∀ a ∈ query.references, a ∉ removed) : query.Prunable [] (removed ++ hidden) where
  orderly := h.orderly.nested hq
  lossless := (h.nestedLossless query hq).here
  nestedLossless := (h.nestedLossless query hq).nested
  root := fun hforgets => h.root (hroot hforgets)
  implied := fun a ha => (h.implied a (hdrops a ha)).nested query hq
  spared := (h.spared_append htrim hremoved).nested query hq
  references := fun a ha hm => (List.mem_append.1 hm).elim (href a ha)
    (h.references a (references_of_nested hq ha))
  names := fun a ha hm => by
    rcases List.mem_append.1 hm with hgone | hm
    · obtain ⟨⟨t, ht, -, rfl⟩, -⟩ := (hremoved a).1 hgone
      exact not_mem_names_of_nested h.orderly.nodup hq ha (List.mem_map_of_mem ht)
    · exact h.names a ((sublist_allAliases_of_nested hq).subset ha) hm

/-- With one removal, a plan has the same results if the subqueries that are left have. -/
theorem reducible (h : p.Prunable keep hidden) (htrim : p.trim keep = p.without removed)
    (hremoved : p.IsRemoved keep removed)
    (hlateral : ∀ x fromAlias query, .lateral x fromAlias query ∈ p.tables → x ∉ removed →
      query.SameAggregates db (removed ++ hidden) (g query))
    (hsubquery : ∀ query ∈ p.subqueries, query.SameEmptiness db (removed ++ hidden) (g query)) :
    p.Reducible db (removed ++ hidden) removed g := by
  have hspared := h.spared_append htrim hremoved
  have hboth : ∀ {a}, a ∈ p.references → a ∉ removed → a ∉ removed ++ hidden := fun ha hleft hm =>
    (List.mem_append.1 hm).elim hleft (h.references _ ha)
  have hown : ∀ a ∈ p.ownReferences, a ∉ removed ++ hidden := fun a ha =>
    hboth (mem_references_iff_own.2 (.inl ha)) (hremoved.not_mem_of_own ha)
  refine ⟨List.subset_append_left _ _, fun t ht hgone => h.lossless t ht ((hremoved _).1 hgone).2,
    hown, hspared.here, fun j hj hleft => ?_, hlateral, hsubquery, fun query hq => ?_⟩
  · exact hboth (mem_references_of_join hj) (hremoved.not_mem_of_referent h.orderly.sequenced.here hj
      hleft (List.mem_singleton_self _))
  · obtain ⟨s, hs, hq⟩ := List.mem_flatMap.1 hq
    have hselect : ∀ a ∈ query.references, a ∉ removed ++ hidden := fun a ha =>
      hown a (List.mem_append_left _ (List.mem_append_left _ (List.mem_append_left _
        (Select.references_of_plans hs hq ha))))
    have hreducible : query.Reducible db (removed ++ hidden) [] id :=
      reducible_of_spared (hspared.nested query (mem_nestedPlans_of_select hs hq)) hselect
    intro e e' he
    have hempty := (hreducible.sameOff_rows he).isEmpty_eq
    rwa [reduce_id] at hempty

/-- What is left in the plan is not hidden. -/
theorem not_mem_of_left (h : p.Prunable keep hidden) (htrim : p.trim keep = p.without removed) :
    ∀ a ∈ (p.prune keep).tables.map Table.aliasName, a ∉ removed ++ hidden := by
  rw [names_prune htrim]
  refine List.forall_mem_map.2 fun t ht hm => ?_
  obtain ⟨ht, hleft⟩ := List.mem_filter.1 ht
  have hleft : t.aliasName ∉ removed := of_decide_eq_true hleft
  refine (List.mem_append.1 hm).elim hleft (h.names _ ?_)
  rw [allAliases_eq_nested]
  exact List.mem_append_left _ (List.mem_map_of_mem ht)

theorem condition_ne (h : p.Prunable keep hidden) (htrim : p.trim keep = p.without removed)
    (hremoved : p.IsRemoved keep removed) (hne : removed ≠ []) :
    p.condition ≠ some ⟨.or, []⟩ := by
  intro hempty
  obtain ⟨a, ha⟩ := List.exists_mem_of_ne_nil _ hne
  obtain ⟨⟨t, ht, -, rfl⟩, -⟩ := (hremoved a).1 ha
  exact h.root (.here ht (fun hleft => (mem_names_prune_iff htrim ht).1 hleft ha) hempty)

/-- By induction on how deep subqueries are nested: those that are left are pruned where more tables
are hidden than around the plan itself. -/
theorem selectsSame (h : p.Prunable keep hidden) : SelectsSame db hidden p (p.prune keep) := by
  induction hd : p.depth using Nat.strongRecOn generalizing keep hidden p with
  | ind d ih =>
    obtain ⟨removed, htrim, hremoved⟩ := exists_trim_eq keep p
    have hgone : p.Spared removed := (h.spared_append htrim hremoved).imp fun q hq a ha hm =>
      hq a ha (List.mem_append_left _ hm)
    have hlateral : ∀ x fromAlias query, .lateral x fromAlias query ∈ p.tables → x ∉ removed →
        SelectsSame db (removed ++ hidden) query (query.prune []) := fun x b query ht hleft =>
      ih query.depth (hd ▸ depth_lt_of_lateral ht) (h.nested htrim hremoved
        (mem_nestedPlans_of_table ht (List.mem_singleton_self _))
        (fun a ha => .lateral ht ((mem_names_prune_iff htrim ht).2 hleft) ha)
        (fun hforgets => .lateral ht ((mem_names_prune_iff htrim ht).2 hleft) hforgets)
        fun a ha => hremoved.not_mem_of_referent h.orderly.sequenced.here ht hleft
          (List.mem_cons_of_mem _ ha)) rfl
    have hsubquery : ∀ query ∈ p.subqueries,
        SelectsSame db (removed ++ hidden) query (query.prune []) := fun query hq =>
      ih query.depth (hd ▸ depth_lt_of_subquery hq) (h.nested htrim hremoved
        (mem_nestedPlans_of_condition hq) (fun a ha => .subquery hq ha)
        (fun hforgets => .subquery hq hforgets)
        fun a ha => hremoved.not_mem_of_own (references_of_subquery hq ha)) rfl
    have hreducible : p.Reducible db (removed ++ hidden) removed (prune []) :=
      h.reducible htrim hremoved
        (fun x b query ht hleft => (hlateral x b query ht hleft).aggregates)
        fun query hq => (hsubquery query hq).emptiness
    have hsame : ∀ e e', e.AgreeOff hidden e' →
        Assignment.SameOff (removed ++ hidden) (p.rows db e) ((p.prune keep).rows db e') := by
      intro e e' he
      rw [prune_eq, htrim, rows_without hgone (h.condition_ne htrim hremoved)]
      exact hreducible.sameOff_rows (he.mono (List.subset_append_right _ _))
    have htables := tables_without (g := prune []) hgone
    have hsubqueries := subqueries_without (g := prune []) hgone
    rw [← htrim, ← prune_eq] at htables hsubqueries
    refine .intro (fun e e' he => (hsame e e' he).restrict_eq (h.not_mem_of_left htrim))
      (fun e e' he => (hsame e e' he).isEmpty_eq) (fun e e' he => ?_) htables hsubqueries hlateral
      hsubquery
    rw [prune_eq, htrim, aggregates_without hgone (h.condition_ne htrim hremoved)]
    exact hreducible.aggregates_eq (he.mono (List.subset_append_right _ _))

end Prunable

/-- Pruning preserves the result where what it removes keeps every assignment. -/
theorem selectsSame_of_lossless (horderly : p.Orderly) (hlossless : p.Lossless keep)
    (hnested : ∀ q ∈ p.nestedPlans, q.Everywhere (Lossless [])) (hroot : ¬ p.Forgets keep)
    (himplied : ∀ a, p.Drops keep a → p.Everywhere fun q => a ∉ q.implied) :
    SelectsSame db [] p (p.prune keep) :=
  Prunable.selectsSame ⟨horderly, hlossless, hnested, hroot, himplied,
    everywhere_of_forall (fun _ _ _ => List.not_mem_nil) p, fun _ _ => List.not_mem_nil,
    fun _ _ => List.not_mem_nil⟩

/-- Pruning preserves the result. -/
theorem selectsSame_prune (horderly : p.Orderly) (hshape : p.Everywhere OuterRooted)
    (hroot : ¬ p.Forgets keep)
    (himplied : ∀ a, p.Drops keep a → p.Everywhere fun q => a ∉ q.implied) :
    SelectsSame db [] p (p.prune keep) :=
  selectsSame_of_lossless horderly hshape.here.lossless
    (fun q hq => (hshape.nested q hq).imp fun _ h => h.lossless) hroot himplied

/-! ### Plans that lose no condition -/

theorem Drops.mem_allAliases (h : p.Drops keep a) : a ∈ p.allAliases := by
  induction h with
  | table ht _ =>
    rw [allAliases_eq_nested]
    exact List.mem_append_left _ (List.mem_map_of_mem ht)
  | lateral ht _ _ ih =>
    exact (sublist_allAliases_of_nested
      (mem_nestedPlans_of_table ht (List.mem_singleton_self _))).subset ih
  | subquery hq _ ih =>
    exact (sublist_allAliases_of_nested (mem_nestedPlans_of_condition hq)).subset ih

/-- No table of the plan itself that is left is removed anywhere. -/
theorem Drops.not_mem_names (h : p.Drops keep a) (horderly : p.Orderly) :
    a ∉ (p.prune keep).tables.map Table.aliasName := by
  have hinside : ∀ {query : Plan}, query ∈ p.nestedPlans → a ∈ query.allAliases →
      a ∉ (p.prune keep).tables.map Table.aliasName := fun hq ha hm => by
    obtain ⟨removed, htrim, -⟩ := exists_trim_eq keep p
    rw [names_prune htrim] at hm
    obtain ⟨t, ht, rfl⟩ := List.mem_map.1 hm
    exact not_mem_names_of_nested horderly.nodup hq ha (List.mem_map_of_mem (List.mem_filter.1 ht).1)
  cases h with
  | table _ hgone => exact hgone
  | lateral ht _ ha =>
    exact hinside (mem_nestedPlans_of_table ht (List.mem_singleton_self _)) ha.mem_allAliases
  | subquery hq ha => exact hinside (mem_nestedPlans_of_condition hq) ha.mem_allAliases

theorem not_forgets_of_everywhere (h : p.Everywhere fun q => q.condition ≠ some ⟨.or, []⟩) :
    ¬ p.Forgets keep := by
  intro hforgets
  induction hforgets with
  | here _ _ hempty => exact h.here hempty
  | lateral ht _ _ ih =>
    exact ih (h.nested _ (mem_nestedPlans_of_table ht (List.mem_singleton_self _)))
  | subquery hq _ ih => exact ih (h.nested _ (mem_nestedPlans_of_condition hq))

end

end Plan

/-! ### Authors with a book and authors of nothing -/

namespace Bookshelf

/-- The authors with a review of a book that was not removed. -/
def kept : Plan :=
  { reviewed with
    condition := some (.all [.column (.asked "r" "stars" "int" .notNull),
      .column (.implied "b" "removed" "date" .isNull), .existence printed false ["a"],
      .column (.asked "l" "c1" "bool" (.compare .eq (.bool true)))]) }

theorem orderly_kept : kept.Orderly :=
  ⟨by decide, everywhere_of_nested rfl ⟨by decide, by decide⟩ ⟨by decide, by decide⟩
    ⟨by decide, by decide⟩⟩

theorem outerRooted_kept : kept.Everywhere Plan.OuterRooted :=
  everywhere_of_nested rfl
    ⟨"a", "authors", _, rfl, by simp [Table.Behind, Table.aliasName, books, edited]⟩
    ⟨"c", "books", _, rfl, by simp [Table.Behind, Table.aliasName]⟩
    ⟨"w", "books", _, rfl, by simp [Table.Behind, Table.aliasName]⟩

theorem not_forgets_kept : ¬ kept.Forgets [] :=
  Plan.not_forgets_of_everywhere (everywhere_of_nested rfl (by simp [kept, Group.all])
    (by simp [copied, Group.all]) (by simp [printed, Group.all]))

theorem implied_kept {a : String} (h : kept.Drops [] a) :
    kept.Everywhere fun q => a ∉ q.implied := by
  have hne : a ≠ "b" := fun heq => h.not_mem_names orderly_kept (heq ▸ by decide)
  refine everywhere_of_nested rfl ?_ List.not_mem_nil List.not_mem_nil
  show a ∉ ["b"]
  exact fun hm => hne (List.mem_singleton.1 hm)

/-- The tables that are not needed go without a trace. -/
theorem selectsSame_kept : kept.Orderly ∧ kept.Everywhere Plan.OuterRooted ∧ ¬ kept.Forgets [] ∧
    (∀ a, kept.Drops [] a → kept.Everywhere fun q => a ∉ q.implied) ∧
    Plan.SelectsSame database [] kept (kept.prune []) :=
  ⟨orderly_kept, outerRooted_kept, not_forgets_kept, fun _ => implied_kept,
    Plan.selectsSame_prune orderly_kept outerRooted_kept not_forgets_kept fun _ => implied_kept⟩

/-- A disjunction of nothing holds for no author, but pruning takes it for no condition when it
removes the books. -/
def nobody : Plan :=
  ⟨[.star "a"], [.primary "a" "authors", .join books], some ⟨.or, []⟩, [], none, none⟩

/-- No author is selected, and every author when the books are removed. -/
theorem not_selectsSame_nobody : nobody.Orderly ∧ nobody.Everywhere Plan.OuterRooted ∧
    (∀ a, nobody.Drops [] a → nobody.Everywhere fun q => a ∉ q.implied) ∧
    ¬ Plan.SelectsSame database [] nobody (nobody.prune []) := by
  have hflat : ∀ {P : Plan → Prop}, P nobody → nobody.Everywhere P := fun h =>
    .intro h fun q hq => absurd hq List.not_mem_nil
  refine ⟨⟨by decide, hflat ⟨by decide, by decide⟩⟩,
    hflat ⟨"a", "authors", _, rfl, by simp [Table.Behind, Table.aliasName, books]⟩,
    fun a _ => hflat List.not_mem_nil, fun hsame => ?_⟩
  have hempty := hsame.emptiness .empty .empty .refl
  have hbefore : (nobody.rows database .empty).isEmpty = true := by
    rw [Plan.rows_eq_filter, List.isEmpty_iff, List.filter_eq_nil_iff]
    exact fun e _ => Bool.false_ne_true
  have hafter : ((nobody.prune []).rows database .empty).isEmpty = false := rfl
  rw [hbefore, hafter] at hempty
  cases hempty

end Bookshelf

end EntityQuery
