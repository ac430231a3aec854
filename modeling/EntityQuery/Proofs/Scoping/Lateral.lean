import EntityQuery.Proofs.Lateral.Combinations
import EntityQuery.Proofs.Scoping.Existence

/-!
# Well-scoped lateral aggregates

A lateral query takes the subtree of its collection along, and the groups that become its columns
read that subtree alone; what is left refers to the columns.

* `Lateral.scoped_subqueryOf`: the query of a collection;
* `Plan.Gathered.scoped_toLateral`: the rewritten plan.
-/

namespace EntityQuery

open Lateral

namespace Lateral

variable {own outer : List String} {guards : List Condition}

/-- Guards in a column read what they read elsewhere. -/
theorem scoped_guarded {x : Select} (hguards : ∀ k ∈ guards, k.Scoped own outer)
    (h : x.Scoped own outer) : (guarded guards x).Scoped own outer := by
  unfold guarded
  split
  · next conditions name =>
    exact Condition.scopedAll_iff.2 (List.forall_mem_append.2
      ⟨hguards, Condition.scopedAll_iff.1 h⟩)
  · next g name _ =>
    exact Condition.scopedAll_iff.2 (List.forall_mem_append.2
      ⟨hguards, List.forall_mem_singleton.2 h⟩)
  · exact h

/-- The column of a group reads what the group reads. -/
theorem scoped_columnOf {unit name : String} {k : Condition} (hflat : k.plans = [])
    (h : ∀ a ∈ k.aliases, a ∈ own) : (columnOf unit name k).Scoped own outer := by
  have hk : k.Scoped own outer := Condition.scoped_of_flat hflat fun a ha => .inl (h a ha)
  unfold columnOf
  split_ifs
  · exact List.forall_mem_nil _
  · split
    · exact hk
    · exact Condition.scopedAll_iff.2 (List.forall_mem_singleton.2 hk)

section

variable {T : JoinTree} {p : Plan} {joins : List Join} {s : Scope} {supply : AliasSupply}
  {j : Join} (h : p.Gathered T joins) (hs : s.tree = Collections.ofPlan p joins)

include h hs

/-- The query of a collection reads the subtree of the collection, and the table that the collection
is joined to. -/
theorem scoped_subqueryOf (hj : j ∈ joins) :
    (subqueryOf s p.topConditions (columnsOf s supply p) j.aliasName j p.tables).Scoped
      [j.parent.aliasName] := by
  have hjoins := h.mem_joins
  have hF := JoinTree.isForest h.tables hjoins
  have hjT := hjoins j hj
  have hself := hF.mem_above_self ((JoinTree.isCollection_iff h.tables hjoins).2 ⟨j, hj, rfl⟩)
  have hmem : ∀ a, a ∈ s.tree.subtree j.aliasName ↔
      j.aliasName ∈ (Collections.ofPlan p joins).above a := fun a => by
    rw [hs, hF.mem_subtree_iff]
  have hnames : T.aliasName ∉ s.tree.subtree j.aliasName := fun hm =>
    JoinTree.not_mem_above_primary h.tables hjoins ((hmem _).1 hm)
  have hbound : ∀ a, s.unit? a = some j.aliasName → a ∈ (subqueryTables p.tables j.aliasName
      (s.tree.subtree j.aliasName)).map Table.aliasName := by
    intro a ha
    have habove := (Scope.of_unit? ha).2
    rw [hs] at habove
    exact (JoinTree.mem_aliases_subqueryTables h.tables hnames).2
      ⟨(hmem a).2 habove, JoinTree.exists_join_of_mem_above h.tables hjoins habove⟩
  refine JoinTree.scoped_subquery h.tables hnames hjT ((hmem _).2 hself)
    (fun j' hj' hn hne => (hmem _).2
      (JoinTree.parent_mem_above h.tables hjoins hj' ((hmem _).1 hn) hne)) rfl ?_ ?_ rfl rfl
  · have hguards : ∀ k ∈ guardsOf s p.topConditions j.aliasName, k.Scoped
        ((subqueryTables p.tables j.aliasName (s.tree.subtree j.aliasName)).map Table.aliasName)
        [j.parent.aliasName] := by
      intro k hk
      obtain ⟨htop, hp, hu⟩ := mem_guardsOf_iff.1 hk
      obtain ⟨a, ha⟩ := h.single k htop hp
      refine Condition.scoped_of_flat (h.flat k htop) fun b hb => .inl (hbound b ?_)
      -- a guard reads one table, which belongs to the collection
      obtain ⟨⟨c, hc, hcu⟩, -⟩ := Scope.units_eq_singleton_iff.1 hu
      rw [ha, List.mem_singleton] at hb hc
      rw [hb, ← hc]
      exact hcu
    have hselects : ∀ x ∈ selectsOf j.aliasName (columnsOf s supply p), x.Scoped
        ((subqueryTables p.tables j.aliasName (s.tree.subtree j.aliasName)).map Table.aliasName)
        [j.parent.aliasName] := by
      intro x hx
      obtain ⟨k, name, hlifts, rfl⟩ := exists_lifts_of_mem_selectsOf hx
      obtain ⟨-, hflat, hunits⟩ := liftable_of_lifts h.flat hlifts
      exact scoped_columnOf hflat fun a ha => hbound a (hunits a ha)
    intro x hx
    change x ∈ guardedAll _ _ at hx
    unfold guardedAll at hx
    split_ifs at hx
    · exact hselects x hx
    · obtain ⟨x', hx', rfl⟩ := List.mem_map.1 hx
      exact scoped_guarded hguards (hselects x' hx')
  · intro k hk
    rw [List.mem_singleton.1 hk]
    refine Condition.scoped_correlation (List.mem_singleton_self _) ?_
    rw [T.ordered.own_aliasName j hjT]
    exact (JoinTree.mem_aliases_subqueryTables h.tables hnames).2 ⟨(hmem _).2 hself, j, hjT, rfl⟩

end

end Lateral

namespace Plan

variable {T : JoinTree} {p : Plan} {joins : List Join} {force : Bool} {threshold : Nat}
  {supply supply' : AliasSupply} {r : Resolved}

/-- The tables that are left are those below no collection that became a subquery. -/
theorem tables_lateralPlan {s : Scope} (hF : s.tree.IsForest)
    [DecidablePred (Survives s supply p)] : (lateralPlan s supply p).tables =
      (p.tables.filter fun t => Survives s supply p t.aliasName) ++
        laterals s p.topConditions (columnsOf s supply p) supply p.tables := by
  show outside s (columnsOf s supply p) s.active p.tables ++ _ = _
  refine congrArg (· ++ _) (List.filter_congr fun t _ => ?_)
  rw [Bool.eq_iff_iff, List.all_eq_true, decide_eq_true_iff, Survives]
  refine forall₂_congr fun u _ => ?_
  rw [Bool.or_eq_true, Bool.not_eq_true', decide_eq_true_iff, hF.mem_subtree_iff]
  cases isRewritten (columnsOf s supply p) u <;> simp

/-- What stands for the conditions reads tables that are left and the lateral tables. -/
theorem follows_scoped {s : Scope} (hI : s.Independent) {own : List String}
    (hown : ∀ a ∈ T.aliases, Survives s supply p a → a ∈ own)
    (hnames : ∀ t ∈ laterals s p.topConditions (columnsOf s supply p) supply p.tables,
      t.aliasName ∈ own) :
    Follows s (aliasOf s supply) (columnsOf s supply p)
      (fun k => k.plans = [] ∧ ∀ a ∈ k.aliases, a ∈ T.aliases) (fun u _ => u ∈ s.active)
      (fun _ k => k.Scoped own []) := by
  refine ⟨fun hk => ?_, fun hall => ?_, fun hk => hk, fun {k} hk hunits => ?_,
    fun {u name c} hu hcolumn => ?_⟩
  · obtain ⟨hflat, hreads⟩ := hk
    rw [Condition.plans_group, Condition.plansOf_eq_nil_iff] at hflat
    exact fun c hc => ⟨hflat c hc, fun a ha =>
      hreads a (Condition.mem_aliases_group.2 ⟨c, hc, ha⟩)⟩
  · refine Condition.scoped_group_iff.2 fun c hc => ?_
    induction hall with
    | nil => cases hc
    | cons hfirst _ ih => exact (List.mem_cons.1 hc).elim (fun he => he ▸ hfirst) ih
  · exact Condition.scoped_of_flat hk.1 fun a ha => .inl (hown a (hk.2 a ha) fun v hv _ =>
      Scope.unit?_eq_none_iff.1 (Scope.units_eq_nil_iff.1 hunits a ha) v hv)
  · -- the column is in the lateral query that the reference names
    have hr : isRewritten (columnsOf s supply p) u = true := by
      have hselect : columnOf u name c ∈ selectsOf u (columnsOf s supply p) :=
        List.mem_map.2 ⟨_, List.mem_filter.2 ⟨hcolumn, by simp⟩, rfl⟩
      simp [isRewritten, List.ne_nil_of_mem hselect]
    obtain ⟨j, hj⟩ := Option.isSome_iff_exists.1 (hI.collection u hu)
    intro a ha
    rw [List.mem_singleton.1 ha, aliasOf_of_mem hu]
    exact .inl (hnames _ (mem_laterals_iff.2 ⟨u, hu, j, hj, hr, rfl⟩))

/-- The plan with its collections as lateral subqueries is well scoped. -/
theorem Gathered.scoped_lateralPlan {s : Scope} (h : p.Gathered T joins)
    (hs : s.tree = Collections.ofPlan p joins) (hdiv : Divisible s p.topConditions)
    (hfresh : Fresh s p supply) :
    (lateralPlan s supply p).Scoped [] ∧ (lateralPlan s supply p).Keeps T := by
  classical
  have hjoins := h.mem_joins
  have hI := hdiv.independent
  have hF : s.tree.IsForest := hs ▸ JoinTree.isForest h.tables hjoins
  have hnew : ∀ u ∈ s.active, subqueryName supply u ∉ T.aliases := fun u hu hm =>
    ne_subqueryName h.tables hfresh hm u hu rfl
  have hlaterals : ∀ t ∈ laterals s p.topConditions (columnsOf s supply p) supply p.tables,
      ∃ a f query, t = .lateral a f query ∧ a ∉ T.aliases ∧
        (f ∈ T.aliases ∧ Survives s supply p f) ∧ query.Scoped [f] := by
    intro t ht
    obtain ⟨j, hj, hu, -, rfl⟩ := exists_of_mem_laterals h.tables hjoins hs ht
    have hjT := hjoins j hj
    exact ⟨_, _, _, rfl, hnew _ hu, ⟨JoinTree.parent_mem hjT,
      survives_parent_of_active h.tables hjoins hs hI hjT hu⟩, scoped_subqueryOf h hs hj⟩
  refine h.scoped_of_filter (P := Survives s supply p) (fun u _ _ hm => ?_)
    (fun j hj => survives_parent h.tables hjoins hs hj) (fun a b hb ha u hu hr => ?_) hlaterals
    (tables_lateralPlan hF) rfl rfl rfl fun own hown hnames => ?_
  · rw [hs] at hm
    exact JoinTree.not_mem_above_primary h.tables hjoins hm
  · rw [hs, hb.above_eq h.tables h.collections, ← hs]
    exact ha u hu hr
  refine Group.scopedTop_ofTop (List.forall_mem_append.2 ⟨?_, fun k hk => ?_⟩)
  · refine Condition.scoped_group_iff.1 (follows_group (follows_scoped hI hown hnames)
      (fun u k hl => mem_active_of_lifts hl) (fun k hk => ?_) (pinnedByAll_askedOf hdiv)
      (List.Subset.refl _))
    have hk := (List.mem_filter.1 hk).1
    exact ⟨h.flat k hk, h.reads k hk⟩
  · obtain ⟨u, -, hk⟩ := List.mem_flatMap.1 hk
    split_ifs at hk with hr
    · cases hk
    · have htop := (mem_guardsOf_iff.1 hk).1
      exact Condition.scoped_of_flat (h.flat k htop) fun a ha => .inl (hown a
        (h.reads k htop a ha) (survives_of_mem_guardsOf hF hI (Bool.not_eq_true _ ▸ hr) hk a ha))

/-- The plan with its collections as lateral subqueries is well scoped. -/
theorem Gathered.scoped_toLateral (h : p.Gathered T joins)
    (hfresh : Fresh (p.lateralScope force threshold joins) p supply)
    (hr : p.toLateral force threshold joins supply = .ok (r, supply')) :
    r.plan.Scoped [] ∧ r.plan.Keeps T := by
  obtain ⟨hs, hdiv⟩ : (p.lateralScope force threshold joins).tree = Collections.ofPlan p joins ∧
      Divisible (p.lateralScope force threshold joins) p.topConditions :=
    divisible_lateralScope h.tables h.mem_joins
  rcases toLateral_cases h.tables h.mem_joins hfresh hr with he | he
  · rw [he]
    exact h.scoped
  · rw [he]
    exact h.scoped_lateralPlan hs hdiv hfresh

end Plan

end EntityQuery
