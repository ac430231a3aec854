import EntityQuery.Proofs.Deletion.Existence
import EntityQuery.Proofs.Scoping.Lateral

/-!
# Filtered tables in lateral queries

A condition that comes with a table guards the columns of the query that the table goes to.  It stays
where it is if the table belongs to no query.

* `Lateral.asks_guarded`: a guarded column asks for its guards;
* `Lateral.mem_decompose`: conditions that read no collection stay;
* `Lateral.filtered_subqueryOf`: a query filters the tables whose conditions guard it;
* `Plan.Gathered.filtered_toLateral`: the rewritten plan filters what the plan filters.
-/

namespace EntityQuery

open Lateral

namespace Lateral

/-! ### Columns -/

section

variable {s : Scope} {aliasOf : String → String} {guards siblings : List Condition}
  {op : Connective} {u name : String} {k k' : Condition} {x : Select}

/-- A guarded column asks for its guards. -/
theorem asks_guarded (hk : k ∈ guards) : (guarded guards (columnOf u name k')).Asks k := by
  have hall : ∀ g name, (guarded guards (.boolOr g name)).Asks k := by
    rintro ⟨op, cs⟩ name
    cases op with
    | and => exact ⟨rfl, List.mem_append_left _ hk⟩
    | or => exact ⟨rfl, List.mem_append_left _ hk⟩
  unfold columnOf
  split_ifs
  · exact trivial
  · split
    · exact hall _ _
    · exact hall _ _

/-- Columns of conditions without subqueries have none, whatever guards them. -/
theorem asserted_guarded (hguards : ∀ c ∈ guards, c.plans = []) (hk : k.plans = []) :
    (columnOf u name k).asserted = [] ∧ (guarded guards (columnOf u name k)).asserted = [] := by
  have hall : ∀ g : Group, g.plans = [] → (guarded guards (.boolOr g name)).asserted = [] := by
    rintro ⟨op, cs⟩ hg
    replace hg : ∀ c ∈ cs, c.plans = [] := Condition.plansOf_eq_nil_iff.1 hg
    cases op with
    | and =>
      exact Condition.assertedOf_of_flat (Condition.plansOf_eq_nil_iff.2
        (List.forall_mem_append.2 ⟨hguards, hg⟩))
    | or =>
      exact Condition.assertedOf_of_flat (Condition.plansOf_eq_nil_iff.2
        (List.forall_mem_append.2 ⟨hguards, List.forall_mem_singleton.2
          (Condition.plansOf_eq_nil_iff.2 hg)⟩))
  unfold columnOf
  split_ifs
  · exact ⟨rfl, rfl⟩
  · split
    · exact ⟨Group.asserted_of_flat hk, hall _ hk⟩
    · have hone : (Group.all [k]).plans = [] :=
        Condition.plansOf_eq_nil_iff.2 (List.forall_mem_singleton.2 hk)
      exact ⟨Group.asserted_of_flat hone, hall _ hone⟩

/-- A condition that reads no collection stays where it is. -/
theorem mem_decompose (hleaf : ∀ g, k ≠ .group g) (honly : s.only? k = none) :
    ∀ {cs : List Condition} {seen : List String} {columns : List Column}, k ∈ cs →
      k ∈ (decompose s aliasOf op siblings seen cs columns).1 := by
  intro cs
  induction cs with
  | nil => exact nofun
  | cons c cs ih =>
    intro seen columns hk
    rw [decompose]
    split
    · next v hv =>
      -- the first condition reads a collection, so it is another one
      have hk : k ∈ cs := (List.mem_cons.1 hk).resolve_left fun he => by
        rw [← he, honly] at hv
        cases hv
      split_ifs
      · exact ih hk
      · exact List.mem_cons_of_mem _ (ih hk)
    · rcases List.mem_cons.1 hk with rfl | hk
      · rw [decomposeOne_leaf hleaf]
        exact List.mem_cons_self
      · exact List.mem_cons_of_mem _ (ih hk)

end

/-! ### Queries of collections -/

section

variable {T : JoinTree} {p : Plan} {joins : List Join} {s : Scope} {supply : AliasSupply}
  {c : ColumnCondition} {a : String} {j : Join} (h : p.Gathered T joins)

include h

/-- The query of a collection has no parts. -/
theorem parts_subqueryOf (s : Scope) (supply : AliasSupply) (j : Join) :
    (subqueryOf s p.topConditions (columnsOf s supply p) j.aliasName j p.tables).laterals = [] ∧
      (subqueryOf s p.topConditions (columnsOf s supply p) j.aliasName j p.tables).asserted = [] := by
  refine ⟨?_, ?_⟩
  · have hnone : (Existence.subquery (subqueryTables p.tables j.aliasName
        (s.tree.subtree j.aliasName)) []).laterals = [] :=
      Existence.laterals_subquery h.plans_tables
    exact hnone
  have hguards : ∀ k ∈ guardsOf s p.topConditions j.aliasName, k.plans = [] := fun k hk =>
    h.flat k (mem_guardsOf_iff.1 hk).1
  refine List.eq_nil_iff_forall_not_mem.2 fun q hq => ?_
  rcases Plan.mem_asserted_iff.1 hq with ⟨k, hk, hq⟩ | ⟨x, hx, hq⟩
  · rw [List.mem_singleton.1 hk] at hq
    cases hq
  have hcolumn : ∀ x ∈ selectsOf j.aliasName (columnsOf s supply p),
      x.asserted = [] ∧ (guarded (guardsOf s p.topConditions j.aliasName) x).asserted = [] := by
    intro x hx
    obtain ⟨column, hcolumn, rfl⟩ := List.mem_map.1 hx
    obtain ⟨hcolumn, hunit⟩ := List.mem_filter.1 hcolumn
    obtain ⟨k, name, hlifts, hk⟩ := exists_lifts_of_mem_divided hcolumn
    rw [hk]
    exact asserted_guarded hguards (liftable_of_lifts h.flat hlifts).2.1
  change x ∈ guardedAll _ _ at hx
  unfold guardedAll at hx
  split_ifs at hx
  · rw [(hcolumn x hx).1] at hq
    cases hq
  · obtain ⟨x', hx', rfl⟩ := List.mem_map.1 hx
    rw [(hcolumn x' hx').2] at hq
    cases hq

/-- The query of a collection filters a table below it, whose condition guards it. -/
theorem filtered_subqueryOf (hc : a ∈ s.tree.subtree j.aliasName →
      .column c ∈ guardsOf s p.topConditions j.aliasName) :
    (subqueryOf s p.topConditions (columnsOf s supply p) j.aliasName j p.tables).Filtered a c true := by
  obtain ⟨hlaterals, hasserted⟩ := parts_subqueryOf h s supply j
  by_cases hm : a ∈ s.tree.subtree j.aliasName
  · refine .here ?_ (by simp [hlaterals]) (by simp [hasserted])
    have hguard := hc hm
    intro x hx
    change x ∈ guardedAll _ _ at hx
    rw [guardedAll, if_neg (by simpa using List.ne_nil_of_mem hguard)] at hx
    obtain ⟨x', hx', rfl⟩ := List.mem_map.1 hx
    obtain ⟨k, name, -, rfl⟩ := exists_lifts_of_mem_selectsOf hx'
    exact asks_guarded hguard
  · exact .inside (fun hb => hm (Existence.mem_names_subqueryTables hb)) (by simp [hlaterals])
      (by simp [hasserted])

end

end Lateral

/-! ### The rewritten plan -/

namespace Plan.Gathered

variable {T : JoinTree} {joins : List Join} {p : Plan} {r : Resolved} {c : ColumnCondition}
  {a : String} {s : Scope} {supply supply' : AliasSupply} {force : Bool} {threshold : Nat}

/-- What is left of the conditions has no subqueries. -/
theorem plans_divided (h : p.Gathered T joins) (hdiv : Divisible s p.topConditions) :
    ∀ k ∈ (divided s supply p.topConditions).1, k.plans = [] := by
  have hfollows : Follows s (aliasOf s supply) (columnsOf s supply p) (fun k => k.plans = [])
      (fun _ _ => True) (fun _ k => k.plans = []) := by
    refine ⟨fun hk => Condition.plansOf_eq_nil_iff.1 hk, fun hall => ?_, fun hk => hk,
      fun hk _ => hk, fun _ _ => rfl⟩
    refine Condition.plansOf_eq_nil_iff.2 ?_
    induction hall with
    | nil => exact nofun
    | cons hfirst _ ih => exact List.forall_mem_cons.2 ⟨hfirst, ih⟩
  exact Condition.plansOf_eq_nil_iff.1 (follows_group hfollows (fun _ _ _ => trivial)
    (fun k hk => h.flat k (List.mem_filter.1 hk).1) (pinnedByAll_askedOf hdiv)
    (List.Subset.refl _))

/-- The rewritten plan asks for no existence. -/
theorem asserted_lateralPlan (h : p.Gathered T joins) (hdiv : Divisible s p.topConditions) :
    (lateralPlan s supply p).asserted = [] := by
  refine List.eq_nil_iff_forall_not_mem.2 fun q hq => ?_
  rcases mem_asserted_iff.1 hq with ⟨k, hk, hq⟩ | ⟨x, hx, hq⟩
  · have hflat : k.plans = [] := by
      rcases mem_topConditions_lateralPlan_iff.1 hk with hk | ⟨u, -, -, hk⟩
      · exact h.plans_divided hdiv k hk
      · exact h.flat k (mem_guardsOf_iff.1 hk).1
    rw [Condition.asserted_of_flat hflat] at hq
    cases hq
  · rw [h.asserted_selects x hx] at hq
    cases hq

/-- Its lateral queries are the subqueries of the collections with columns. -/
theorem exists_of_mem_laterals_lateralPlan (h : p.Gathered T joins)
    (hs : s.tree = Collections.ofPlan p joins) {q : Plan} (hq : q ∈ (lateralPlan s supply p).laterals) :
    ∃ j ∈ joins, j.aliasName ∈ s.active ∧ isRewritten (columnsOf s supply p) j.aliasName = true ∧
      q = subqueryOf s p.topConditions (columnsOf s supply p) j.aliasName j p.tables := by
  obtain ⟨a, fromAlias, hq⟩ := mem_laterals_iff.1 hq
  rcases List.mem_append.1 hq with hq | hq
  · have hnone := h.plans_tables _ (List.mem_filter.1 hq).1
    cases hnone
  · obtain ⟨j, hj, hu, hr, he⟩ := Lateral.exists_of_mem_laterals h.tables h.mem_joins hs hq
    exact ⟨j, hj, hu, hr, (Table.lateral.inj he).2.2⟩

/-- A condition that came with a table stays with the tables that survive: it is a guard of a
collection that is left, or it reads no collection. -/
theorem mem_topConditions_lateralPlan_of_survives (hpruneable : c.pruneable = true)
    (hc : .column c ∈ p.topConditions) (hsurvives : Survives s supply p c.aliasName) :
    Condition.column c ∈ (lateralPlan s supply p).topConditions := by
  rw [mem_topConditions_lateralPlan_iff]
  rcases mem_askedOf_or_guard hc with hasked | ⟨u, hu, hguard⟩
  · refine .inl (mem_decompose (fun g he => by cases he)
      (Option.eq_none_iff_forall_ne_some.2 fun u honly => ?_) hasked)
    -- a condition that was not asked for and reads one collection is a guard
    obtain ⟨hex, hall⟩ := Scope.only?_eq_some_iff.1 honly
    have hunits : (s.units (.column c)).1 = [u] := Scope.units_eq_singleton_iff.2
      ⟨hex, fun a ha v hv => Option.some.inj (hv.symm.trans (hall a ha))⟩
    have hnot := (List.mem_filter.1 hasked).2
    simp [isGuard, Condition.isPruneable, hpruneable, hunits] at hnot
  · obtain ⟨⟨b, hb, hbu⟩, -⟩ := Scope.units_eq_singleton_iff.1 (mem_guardsOf_iff.1 hguard).2.2
    rw [List.mem_singleton.1 hb] at hbu
    refine .inr ⟨u, hu, ?_, hguard⟩
    rw [← Bool.not_eq_true]
    exact fun hr => hsurvives u hu hr (Scope.of_unit? hbu).2

/-- The plan with lateral queries filters all tables whose conditions the plan asks for. -/
theorem filtered_lateralPlan (h : p.Gathered T joins) (hs : s.tree = Collections.ofPlan p joins)
    (hdiv : Divisible s p.topConditions) (hfresh : Fresh s p supply)
    (ha : a ∈ T.aliases) (hpart : T.IsPartOf a c.aliasName) (hpruneable : c.pruneable = true)
    (hc : .column c ∈ p.topConditions) : (lateralPlan s supply p).Filtered a c false := by
  have habove : s.tree.above c.aliasName = s.tree.above a :=
    hs ▸ hpart.above_eq h.tables h.collections
  have hF : s.tree.IsForest := hs ▸ JoinTree.isForest h.tables h.mem_joins
  have hasserted : (lateralPlan s supply p).asserted = [] := h.asserted_lateralPlan hdiv
  by_cases hsurvives : Survives s supply p a
  · refine .here ?_ (fun q hq => ?_) (by simp [hasserted])
    · exact mem_topConditions_lateralPlan_of_survives hpruneable hc fun u hu hr hm =>
        hsurvives u hu hr (habove ▸ hm)
    · obtain ⟨j, hj, hu, hr, rfl⟩ := h.exists_of_mem_laterals_lateralPlan hs hq
      obtain ⟨hnone, hnone'⟩ := parts_subqueryOf h s supply j
      refine .intro (fun hm => hsurvives _ hu hr ?_) (by simp [hnone]) (by simp [hnone'])
      exact hF.mem_subtree_iff.1 (Existence.mem_names_subqueryTables hm)
  · refine .inside (fun hm => ?_) (fun q hq => ?_) (by simp [hasserted])
    · have hm : a ∈ (outside s (columnsOf s supply p) s.active p.tables ++
          Lateral.laterals s p.topConditions (columnsOf s supply p) supply p.tables).map
            Table.aliasName := hm
      rw [List.map_append, List.mem_append,
        mem_aliases_outside_iff h.tables h.mem_joins hs] at hm
      rcases hm with ⟨-, hm⟩ | hm
      · exact hsurvives hm
      · obtain ⟨u, hu, hname⟩ := mem_aliases_laterals hm
        refine hfresh.tables u hu (hname ▸ ?_)
        rwa [h.tables, T.map_aliasName_tables]
    · obtain ⟨j, hj, hu, hr, rfl⟩ := h.exists_of_mem_laterals_lateralPlan hs hq
      refine filtered_subqueryOf h fun hm => ?_
      refine mem_guardsOf_iff.2 ⟨hc, hpruneable, Scope.units_eq_singleton_iff.2 ?_⟩
      have hunit : s.unit? c.aliasName = some j.aliasName :=
        (Scope.unit?_eq_some_iff hdiv.independent hF).2 ⟨hu, habove ▸ hF.mem_subtree_iff.1 hm⟩
      refine ⟨⟨_, List.mem_singleton_self _, hunit⟩, fun b hb v hv => ?_⟩
      rw [List.mem_singleton.1 hb, hunit] at hv
      exact (Option.some.inj hv).symm

/-- The rewritten plan filters all tables whose conditions the plan asks for. -/
theorem filtered_toLateral (h : p.Gathered T joins)
    (hfresh : Fresh (p.lateralScope force threshold joins) p supply) (ha : a ∈ T.aliases)
    (hpart : T.IsPartOf a c.aliasName) (hpruneable : c.pruneable = true)
    (hc : .column c ∈ p.topConditions)
    (hr : p.toLateral force threshold joins supply = .ok (r, supply')) :
    r.plan.Filtered a c false := by
  obtain ⟨hs, hdiv⟩ : (p.lateralScope force threshold joins).tree = Collections.ofPlan p joins ∧
      Divisible (p.lateralScope force threshold joins) p.topConditions :=
    divisible_lateralScope h.tables h.mem_joins
  rcases toLateral_cases h.tables h.mem_joins hfresh hr with he | he
  · rw [he]
    exact h.filtered hc
  · rw [he]
    exact h.filtered_lateralPlan hs hdiv hfresh ha hpart hpruneable hc

end Plan.Gathered

end EntityQuery
