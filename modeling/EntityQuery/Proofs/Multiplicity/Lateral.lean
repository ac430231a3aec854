import EntityQuery.Proofs.Lateral.Combinations
import EntityQuery.Proofs.Lateral.Usage
import EntityQuery.Proofs.Multiplicity.Existence

/-!
# Lateral queries instead of collections

By force every outermost collection becomes a lateral query, unless it has no column: then nothing
was asked of it, and it stays joined.  The queries refer to the tables of their own collections.
Their names need not be new for this; where one of them is that of a table, the tables of the plan do
not have distinct names.

* `Lateral.mem_active_of_forced`: by force each outermost collection is chosen;
* `Lateral.Absorbed`: what the collections leave of the tables;
* `Draft.Regular.reduced_toLateral`: the rewritten plan of a draft is reduced.
-/

namespace EntityQuery

open Lateral

/-! ### References of lateral queries -/

namespace Lateral

/-- What the query of a collection refers to. -/
theorem references_subqueryOf {s : Scope} {top : List Condition} {columns : List Column}
    {u a : String} {j : Join} {tables : List Table}
    (ha : a ∈ (subqueryOf s top columns u j tables).references) :
    a ∈ Select.referencesOf (selectsOf u columns) ∨ a = j.parent.aliasName ∨
      a = j.own.aliasName ∨
        a ∈ Table.referencesOf (subqueryTables tables u (s.tree.subtree u)) := by
  rcases Plan.mem_references_iff.1 ha with h | h | ⟨k, hk, -⟩ | ⟨c, hc, -⟩ | h
  · exact .inl ((mem_references_guardedAll references_of_mem_guardsOf).1 h)
  · obtain ⟨k, hk, ha⟩ := Condition.mem_referencesOf_iff.1 h
    rw [List.mem_singleton.1 hk, Condition.references_correlation] at ha
    exact .inr ((List.mem_pair.1 ha).imp_right .inl)
  · cases hk
  · cases hc
  · exact .inr (.inr (.inr h))

end Lateral

theorem Lateral.underscore_mem_subqueryName {supply : AliasSupply} {u : String} :
    '_' ∈ (subqueryName supply u).toList := by
  show '_' ∈ (AliasSupply.numbered ("_" ++ u) _).toList
  rw [AliasSupply.toList_numbered]
  simp

/-! ### The choice of collections -/

namespace Draft

variable {schema : Schema} {a table : String} {d : Draft} {T : JoinTree} {r : Resolved}
  {threshold : Nat} {supply supply' : AliasSupply} {s : Scope}

/-- By force, every collection is below one that is chosen: none is read together with others. -/
theorem Regular.exists_mem_active (h : d.Regular schema a table)
    (hg : d.toPlan.Gathered T d.collections)
    (hr : d.toPlan.toLateral true threshold d.collections supply = .ok (r, supply')) {c : String}
    (hc : d.tree.isCollection c) :
    ∃ u ∈ (d.toPlan.lateralScope true threshold d.collections).active, u ∈ d.tree.above c := by
  have hF : d.tree.IsForest := JoinTree.isForest hg.tables hg.mem_joins
  have hcol := hF.mem_collections_iff.2 hc
  have heligible : ∀ c ∈ d.tree.collections, c ∈ eligible d.tree true threshold := fun c hc =>
    List.mem_filter.2 ⟨hc, rfl⟩
  have hpinned : ∀ s : Scope, s.pinned d.toPlan.topConditions = [] := by
    intro s
    refine Scope.pinned_eq_nil_iff.2 fun k hk _ => Scope.pinnedBy_eq_nil_iff.2 ?_
    obtain ⟨b, -, hon⟩ := h.single_of_mem_topConditions k hk
    cases hb : s.unit? b with
    | none => exact .inl (Scope.units_eq_nil_iff.2 fun b' hb' => hon.reads b' hb' ▸ hb)
    | some u =>
      by_cases hread : b ∈ k.aliases
      · exact .inr (.inl ⟨u, Scope.only?_eq_some_iff.2
          ⟨⟨b, hread, hb⟩, fun b' hb' => hon.reads b' hb' ▸ hb⟩⟩)
      · exact .inl (Scope.units_eq_nil_iff.2 fun b' hb' =>
          absurd (hon.reads b' hb' ▸ hb') hread)
  have hscope : d.toPlan.lateralScope true threshold d.collections =
      ⟨d.tree, topmost d.tree (eligible d.tree true threshold) []⟩ := by
    unfold Plan.toLateral at hr
    simp only at hr
    rw [if_neg (by simp [List.ne_nil_of_mem (heligible c hcol)])] at hr
    obtain ⟨result, hresult, -⟩ := exists_of_bind_eq_ok hr
    unfold Plan.lateralScope
    simp only [hresult]
    exact congrArg Prod.fst (settle_of_pinned_eq_nil (hpinned _) hresult)
  rw [hscope]
  exact exists_mem_topmost hF hcol (heligible c hcol) List.not_mem_nil

/-! ### The tables that are left -/

/-- The chosen collections without columns. -/
def leftUnits (s : Scope) (columns : List Column) : List String :=
  s.active.filter (!isRewritten columns ·)

/-- The table is a join of the draft, or a lateral query that refers to no table of `L`. -/
def Offers (d : Draft) (L : String → Prop) (a : String) (t : Table) : Prop :=
  (∃ j, t = .join j ∧ .join j ∈ d.tables) ∨
    ∃ x fromAlias query, t = .lateral x fromAlias query ∧ x ≠ a ∧ ¬ L fromAlias ∧
      ∀ b ∈ query.references, ¬ L b

/-- What the collections `units` leave of the tables `rest`, when all of them have columns: joins
below none of them, and a lateral query for each. -/
structure Absorbed (d : Draft) (L : String → Prop) (supply : AliasSupply) (a : String)
    (units : List String) (rest rest' : List Table) : Prop where
  offers : ∀ t ∈ rest', d.Offers L a t
  joins : ∀ j, .join j ∈ rest' → .join j ∈ rest ∧ ∀ u ∈ units, u ∉ d.tree.above j.aliasName
  stays : ∀ t ∈ rest, (∀ u ∈ units, u ∉ d.tree.above t.aliasName) → t ∈ rest'
  laterals : ∀ u ∈ units, (∀ v ∈ units, v ∉ d.tree.above (subqueryName supply u)) →
    ∃ fromAlias query, .lateral (subqueryName supply u) fromAlias query ∈ rest'

variable (hg : d.toPlan.Gathered T d.collections) (hs : s.tree = d.tree)
  (hdiv : Divisible s d.toPlan.topConditions)

include hg hs hdiv

/-- A table below a chosen collection with columns is below none without. -/
theorem not_under_leftUnits {columns : List Column} {u b : String} (hu : u ∈ s.active)
    (hr : isRewritten columns u = true) (hm : u ∈ d.tree.above b) :
    ¬ d.tree.Under (leftUnits s columns) b := by
  have hF : s.tree.IsForest := hs ▸ JoinTree.isForest hg.tables hg.mem_joins
  rintro ⟨v, hv, hvm⟩
  obtain ⟨hv, hnot⟩ := List.mem_filter.1 hv
  rw [← hs] at hm hvm
  obtain rfl := hdiv.independent.unique hF hu hv hm hvm
  simp [hr] at hnot

/-- The table that a chosen collection is joined to is below no chosen collection. -/
theorem not_under_parent {cs : List String} (hcs : cs ⊆ s.active) {j : Join}
    (hj : j ∈ d.collections) (hu : j.aliasName ∈ s.active) :
    ¬ d.tree.Under cs j.parent.aliasName := by
  rintro ⟨v, hv, hm⟩
  have hjT := hg.mem_joins j hj
  have hm' := (JoinTree.isForest hg.tables hg.mem_joins).mem_above_of_parent
    (JoinTree.parent?_of_mem hg.tables hjT) hm
  obtain rfl := hdiv.independent.apart v (hcs hv) _ hu (hs ▸ hm')
  exact JoinTree.parent_not_mem_above hg.tables hg.mem_joins hjT hm

/-- The query of a collection refers to tables that are below no chosen collection without columns. -/
theorem not_under_subqueryOf {u : String} {j : Join} {rest : List Table} (hu : u ∈ s.active)
    (hr : isRewritten (columnsOf s supply d.toPlan) u = true) (hj : j ∈ d.collections)
    (hju : j.aliasName = u)
    (hrest : ∀ t ∈ rest, d.Offers (d.tree.Under (leftUnits s (columnsOf s supply d.toPlan))) a t) :
    ∀ b ∈ (subqueryOf s d.toPlan.topConditions (columnsOf s supply d.toPlan) u j
      (.primary a table :: rest)).references,
      ¬ d.tree.Under (leftUnits s (columnsOf s supply d.toPlan)) b := by
  subst hju
  have hjT := hg.mem_joins j hj
  have hF : d.tree.IsForest := JoinTree.isForest hg.tables hg.mem_joins
  have hbelow : ∀ b, j.aliasName ∈ d.tree.above b →
      ¬ d.tree.Under (leftUnits s (columnsOf s supply d.toPlan)) b := fun _ =>
    not_under_leftUnits hg hs hdiv hu hr
  intro b hb
  rcases references_subqueryOf hb with hb | rfl | rfl | hb
  · obtain ⟨x, hx, hb⟩ := Select.mem_referencesOf_iff.1 hb
    obtain ⟨k, name, hlifts, rfl⟩ := exists_lifts_of_mem_selectsOf hx
    obtain ⟨-, hflat, hunits⟩ := liftable_of_lifts hg.flat hlifts
    have hread := hunits b (Condition.references_subset_aliases hflat (references_columnOf_subset hb))
    exact hbelow b (hs ▸ (Scope.of_unit? hread).2)
  · exact not_under_parent hg hs hdiv List.filter_sublist.subset hj hu
  · rw [T.ordered.own_aliasName j hjT]
    exact hbelow _ (hF.mem_above_self
      ((JoinTree.isCollection_iff hg.tables hg.mem_joins).2 ⟨j, hj, rfl⟩))
  · have hjoin : ∀ j', .join j' ∈ .primary a table :: rest → j' ∈ T.joins := by
      intro j' hj'
      rcases List.mem_cons.1 hj' with hj' | hj'
      · cases hj'
      · rcases hrest _ hj' with ⟨k, he, hk⟩ | ⟨x, fromAlias, query, he, -⟩
        · exact Table.join.inj he ▸ (Regular.mem_joins_iff hg).1 hk
        · cases he
    rcases JoinTree.of_mem_referencesOf_subqueryTables hg.tables hg.mem_joins hjoin
      (fun c hc => hF.mem_subtree_iff.1 (hs ▸ hc)) hb with hm | ⟨x, fromAlias, query, hx, hb⟩
    · exact hbelow b hm
    · rcases List.mem_cons.1 hx with hx | hx
      · cases hx
      · rcases hrest _ hx with ⟨k, he, -⟩ | ⟨x', fromAlias', query', he, -, hfrom, hquery⟩
        · cases he
        · obtain ⟨-, rfl, rfl⟩ := Table.lateral.inj he
          exact hb.elim (fun hb => hb ▸ hfrom) (hquery b)

/-- Collections take their tables one after the other. -/
theorem absorbed_absorbAll (supply : AliasSupply) (table : String) (haT : T.aliasName = a)
    (ha : '_' ∉ a.toList) {units : List String} (hunits : units ⊆ s.active) {rest : List Table}
    (hrest : ∀ t ∈ rest, d.Offers (d.tree.Under (leftUnits s (columnsOf s supply d.toPlan))) a t) :
    ∃ rest', (absorbAll s d.toPlan.topConditions (columnsOf s supply d.toPlan)
        (units.map fun u => (u, subqueryName supply u)) (.primary a table :: rest)).1 =
          .primary a table :: rest' ∧
      d.Absorbed (d.tree.Under (leftUnits s (columnsOf s supply d.toPlan))) supply a
        (units.filter (isRewritten (columnsOf s supply d.toPlan))) rest rest' := by
  have hF : d.tree.IsForest := JoinTree.isForest hg.tables hg.mem_joins
  induction units generalizing rest with
  | nil => exact ⟨rest, rfl, hrest, by simp, fun t ht _ => ht, by simp⟩
  | cons u units ih =>
    obtain ⟨hu, hunits⟩ := List.cons_subset.1 hunits
    obtain ⟨j, hj⟩ := Option.isSome_iff_exists.1 (hdiv.independent.collection u hu)
    rw [List.map_cons, absorbAll]
    simp only [hj]
    cases hr : isRewritten (columnsOf s supply d.toPlan) u with
    | false =>
      rw [absorb_of_not_rewritten hr, List.filter_cons_of_neg (by simp [hr])]
      exact ih hunits hrest
    | true =>
      obtain ⟨hjc, hju⟩ := (JoinTree.join?_iff hg.tables hg.mem_joins).1 (hs ▸ hj)
      have hsubtree : ∀ b, b ∈ s.tree.subtree u ↔ u ∈ d.tree.above b := fun b => by
        rw [hs, hF.mem_subtree_iff]
      have hprimary : (Table.primary a table).aliasName ∉ s.tree.subtree u := fun hm =>
        JoinTree.not_mem_above_primary hg.tables hg.mem_joins (haT ▸ (hsubtree a).1 hm)
      have hname : subqueryName supply u ≠ a := fun he => ha (he ▸ underscore_mem_subqueryName)
      rw [absorb_of_rewritten hr, List.filter_cons_of_pos (by simpa using hprimary),
        List.filter_cons_of_pos (by simp [hr])]
      simp only
      rw [List.cons_append]
      set query := subqueryOf s d.toPlan.topConditions (columnsOf s supply d.toPlan) u j
        (.primary a table :: rest) with hquery
      -- the other collections are offered the tables that are left and the lateral one
      obtain ⟨rest', hrest', h⟩ := ih hunits
        (List.forall_mem_append.2 ⟨fun t ht => hrest t (List.mem_filter.1 ht).1,
          List.forall_mem_singleton.2 (.inr ⟨_, _, query, rfl, hname,
            not_under_parent hg hs hdiv List.filter_sublist.subset hjc (hju ▸ hu),
            not_under_subqueryOf hg hs hdiv hu hr hjc hju hrest⟩)⟩)
      refine ⟨rest', hrest', h.offers, fun k hk => ?_, fun t ht hout => ?_, ?_⟩
      · obtain ⟨hold, hout⟩ := h.joins k hk
        rcases List.mem_append.1 hold with hold | hold
        · obtain ⟨hold, hnot⟩ := List.mem_filter.1 hold
          rw [decide_eq_true_iff, hsubtree] at hnot
          exact ⟨hold, List.forall_mem_cons.2 ⟨hnot, hout⟩⟩
        · cases List.mem_singleton.1 hold
      · obtain ⟨hnot, hout⟩ := List.forall_mem_cons.1 hout
        exact h.stays t (List.mem_append_left _ (List.mem_filter.2
          ⟨ht, decide_eq_true (mt (hsubtree _).1 hnot)⟩)) hout
      · refine List.forall_mem_cons.2 ⟨fun hout => ⟨_, query, h.stays _ (List.mem_append_right _
          (List.mem_singleton_self _)) (List.forall_mem_cons.1 hout).2⟩, fun v hv hout => ?_⟩
        exact h.laterals v hv (List.forall_mem_cons.1 hout).2

/-- The name of a lateral query is that of no table of a collection without columns, if the names of
the tables that are left are distinct. -/
theorem not_under_subqueryName {rest rest' : List Table}
    (h : d.Absorbed (d.tree.Under (leftUnits s (columnsOf s supply d.toPlan))) supply a
      (s.active.filter (isRewritten (columnsOf s supply d.toPlan))) rest rest')
    (hrest : ∀ j ∈ T.joins, .join j ∈ rest) (hnd : (rest'.map Table.aliasName).Nodup) {u : String}
    (hu : u ∈ s.active) (hr : isRewritten (columnsOf s supply d.toPlan) u = true) :
    ¬ d.tree.Under (leftUnits s (columnsOf s supply d.toPlan)) (subqueryName supply u) := by
  rintro hunder
  have hout : ∀ v ∈ s.active.filter (isRewritten (columnsOf s supply d.toPlan)),
      v ∉ d.tree.above (subqueryName supply u) := fun v hv hm => by
    obtain ⟨hv, hrv⟩ := List.mem_filter.1 hv
    exact not_under_leftUnits hg hs hdiv hv hrv hm hunder
  obtain ⟨v, -, hm⟩ := hunder
  obtain ⟨j, hj, hname⟩ := JoinTree.exists_join_of_mem_above hg.tables hg.mem_joins hm
  obtain ⟨fromAlias, query, hlateral⟩ := h.laterals u (List.mem_filter.2 ⟨hu, hr⟩) hout
  have hjoin := h.stays (.join j) (hrest j hj) (by
    show ∀ u ∈ _, u ∉ d.tree.above j.aliasName
    rwa [hname])
  cases List.inj_on_of_nodup_map hnd hlateral hjoin hname.symm

/-- The condition that is left refers to no table of a collection without columns. -/
theorem not_under_divided (hnames : ∀ u ∈ s.active,
      isRewritten (columnsOf s supply d.toPlan) u = true →
        ¬ d.tree.Under (leftUnits s (columnsOf s supply d.toPlan)) (subqueryName supply u)) :
    ∀ k ∈ (divided s supply d.toPlan.topConditions).1, ∀ b ∈ k.references,
      ¬ d.tree.Under (leftUnits s (columnsOf s supply d.toPlan)) b := by
  have hfollows : Follows s (aliasOf s supply) (columnsOf s supply d.toPlan)
      (fun k => k.plans = []) (fun u _ => u ∈ s.active) (fun _ k => ∀ b ∈ k.references,
        ¬ d.tree.Under (leftUnits s (columnsOf s supply d.toPlan)) b) := by
    refine ⟨fun hflat => ?_, fun {op cs cs'} hall b hb => ?_, fun hk => hk,
      fun hflat hunits b hb => ?_, fun {u name c} hu hcolumn b hb => ?_⟩
    · rwa [Condition.plans_group, Condition.plansOf_eq_nil_iff] at hflat
    · replace hb : b ∈ Condition.referencesOf cs' := hb
      induction hall with
      | nil => cases hb
      | cons hfirst _ ih => exact (List.mem_append.1 hb).elim (hfirst b) ih
    · rintro ⟨u, hu, hm⟩
      have hnone := Scope.units_eq_nil_iff.1 hunits b (Condition.references_subset_aliases hflat hb)
      exact Scope.unit?_eq_none_iff.1 hnone u (List.mem_filter.1 hu).1 (hs ▸ hm)
    · -- the column is in the lateral query that the reference names
      have hr : isRewritten (columnsOf s supply d.toPlan) u = true := by
        have hselect : columnOf u name c ∈ selectsOf u (columnsOf s supply d.toPlan) :=
          List.mem_map.2 ⟨_, List.mem_filter.2 ⟨hcolumn, by simp⟩, rfl⟩
        simp [isRewritten, List.ne_nil_of_mem hselect]
      rw [List.mem_singleton.1 hb, aliasOf_of_mem hu]
      exact hnames u hu hr
  intro k hk b hb
  exact follows_group hfollows (fun u k hl => mem_active_of_lifts hl)
    (fun k hk => hg.flat k (List.mem_filter.1 hk).1) (pinnedByAll_askedOf hdiv)
    (List.Subset.refl _) b (Condition.mem_referencesOf_iff.2 ⟨k, hk, hb⟩)

omit hg hs hdiv in
/-- The conditions that collections without columns leave are guards. -/
theorem exists_guardsOf_of_mem_absorbAll {top : List Condition} {columns : List Column}
    {names : List (String × String)} {tables : List Table} :
    ∀ k ∈ (absorbAll s top columns names tables).2, ∃ u, k ∈ guardsOf s top u := by
  induction names generalizing tables with
  | nil => exact nofun
  | cons named names ih =>
    obtain ⟨unit, name⟩ := named
    rw [absorbAll]
    split
    · exact ih
    · refine List.forall_mem_append.2 ⟨fun k hk => ⟨unit, ?_⟩, ih⟩
      unfold absorb at hk
      split at hk
      · exact hk
      · cases hk

end Draft

/-! ### The rewritten plan -/

/-- A draft joins no collection if it has none. -/
theorem Draft.Regular.reduced_toPlan {schema : Schema} {a table : String} {d : Draft} {T : JoinTree}
    (h : d.Regular schema a table) (hg : d.toPlan.Gathered T d.collections)
    (ha : T.aliasName = a) (htables : d.tables = .primary a table :: T.joins.map .join)
    (hnone : ∀ j, j ∉ d.collections) :
    d.toPlan.Reduced schema (d.tree.Under []) a table := by
  have hfree : ∀ b, ¬ d.tree.Under [] b := by
    rintro b ⟨c, hc, -⟩
    cases hc
  refine h.reduced hg [] ha htables (fun t ht => .inl ?_) (fun b hb => (hfree b hb).elim) rfl rfl rfl
    fun b _ => hfree b
  obtain ⟨j, hj, rfl⟩ := List.mem_map.1 ht
  exact ⟨j, rfl, (Regular.mem_joins_iff hg).2 hj, fun hc => (hnone j hc).elim⟩

/-- The rewritten plan of a draft joins no collection but such as will be pruned. -/
theorem Draft.Regular.reduced_toLateral {schema : Schema} {a table : String} {d : Draft}
    {T : JoinTree} {r : Resolved} {threshold : Nat} {supply supply' : AliasSupply}
    (h : d.Regular schema a table) (hg : d.toPlan.Gathered T d.collections)
    (ha : T.aliasName = a) (htable : T.table = table)
    (hr : d.toPlan.toLateral true threshold d.collections supply = .ok (r, supply'))
    (hnd : (r.plan.tables.map Table.aliasName).Nodup) :
    ∃ cs, r.plan.Reduced schema (d.tree.Under cs) a table := by
  have hF : d.tree.IsForest := JoinTree.isForest hg.tables hg.mem_joins
  have htables : d.tables = .primary a table :: T.joins.map .join := by
    have hT : d.tables = T.tables := hg.tables
    rw [hT, JoinTree.tables, ha, htable]
  obtain ⟨hs, hdiv⟩ : (d.toPlan.lateralScope true threshold d.collections).tree = d.tree ∧
      Divisible (d.toPlan.lateralScope true threshold d.collections) d.toPlan.topConditions :=
    Plan.divisible_lateralScope hg.tables hg.mem_joins
  have hactive := fun {c} => h.exists_mem_active (c := c) hg hr
  rcases Plan.toLateral_eq hg.tables hg.mem_joins hr with ⟨hnil, he⟩ | he
  · -- there are no collections
    have hnone : ∀ j, j ∉ d.collections := fun j hj => by
      have hc := hF.mem_collections_iff.2
        ((JoinTree.isCollection_iff hg.tables hg.mem_joins).2 ⟨j, hj, rfl⟩)
      have hc : j.aliasName ∈ eligible d.tree true threshold := List.mem_filter.2 ⟨hc, rfl⟩
      have hnil : eligible d.tree true threshold = [] := hnil
      rw [hnil] at hc
      cases hc
    rw [he]
    exact ⟨[], h.reduced_toPlan hg ha htables hnone⟩
  · generalize d.toPlan.lateralScope true threshold d.collections = s at hs hdiv hactive he
    obtain ⟨rest, hrest, habsorbed⟩ := absorbed_absorbAll hg hs hdiv supply table
      ha h.primary (List.Subset.refl _) fun t ht => by
        obtain ⟨j, hj, rfl⟩ := List.mem_map.1 ht
        exact .inl ⟨j, rfl, (Regular.mem_joins_iff hg).2 hj⟩
    rw [← htables] at hrest
    have hplan : r.plan.tables = .primary a table :: rest := by
      rw [he]
      exact hrest
    have hnames := fun u => not_under_subqueryName (u := u) hg hs hdiv habsorbed
      (fun j hj => List.mem_map_of_mem hj) (by
        rw [hplan, List.map_cons, List.nodup_cons] at hnd
        exact hnd.2)
    refine ⟨_, h.reduced hg (leftUnits s (columnsOf s supply d.toPlan)) ha hplan
      (fun t ht => ?_) (fun b hb => ?_) (by rw [he]; rfl) (by rw [he]; rfl) (by rw [he]; rfl)
      fun b hb => ?_⟩
    · refine (habsorbed.offers t ht).imp_left ?_
      rintro ⟨j, rfl, hj⟩
      refine ⟨j, rfl, hj, fun hc => ?_⟩
      -- the collection is below a chosen one, which has no column
      obtain ⟨u, hu, hm⟩ := hactive
        ((JoinTree.isCollection_iff hg.tables hg.mem_joins).2 ⟨j, hc, rfl⟩)
      refine ⟨u, List.mem_filter.2 ⟨hu, ?_⟩, hm⟩
      rw [Bool.not_eq_true', Bool.eq_false_iff]
      exact fun hrewritten => (habsorbed.joins j ht).2 u (List.mem_filter.2 ⟨hu, hrewritten⟩) hm
    · obtain ⟨u, hu, hm⟩ := id hb
      obtain ⟨j, hj, rfl⟩ := JoinTree.exists_join_of_mem_above hg.tables hg.mem_joins hm
      rw [hplan]
      refine List.mem_cons_of_mem _ (List.mem_map.2 ⟨.join j, ?_, rfl⟩)
      refine habsorbed.stays _ (List.mem_map_of_mem hj) fun v hv hvm => ?_
      obtain ⟨hv, hrv⟩ := List.mem_filter.1 hv
      exact not_under_leftUnits hg hs hdiv hv hrv hvm hb
    · rw [he] at hb
      obtain ⟨k, hk, hb⟩ := Group.exists_of_mem_referencesOf_ofTop hb
      rcases List.mem_append.1 hk with hk | hk
      · exact not_under_divided hg hs hdiv hnames k hk b hb
      · obtain ⟨u, hk⟩ := exists_guardsOf_of_mem_absorbAll k hk
        rw [references_of_mem_guardsOf k hk] at hb
        cases hb

end EntityQuery
