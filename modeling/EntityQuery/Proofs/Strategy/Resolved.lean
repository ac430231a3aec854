import EntityQuery.Collection.Resolved
import EntityQuery.Proofs.Lateral.Leaves
import EntityQuery.Proofs.Strategy.Checked
import EntityQuery.Proofs.Strategy.Existence
import EntityQuery.Proofs.Strategy.Lateral
import EntityQuery.Proofs.Strategy.Unread

/-!
# Strategies agree

Whatever becomes of the collections of a plan, the plan with tests for rows and without idle tables
selects the same primary rows: those that the plan with joins selects with the leaves that it gets in
the end, its idle joins loosened.

* `Plan.Gathered.supported_checked`: conditions that are left have one beside them that was asked for;
* `Plan.Gathered.primaryIds_resolveCollections`: what is selected under every strategy.
-/

namespace EntityQuery

open Condition Existence Lateral

namespace Plan

variable {T : JoinTree} {p q : Plan} {joins : List Join} {db : Database} {threshold : Nat}
  {force : Bool} {supply supply' : AliasSupply} {r : Resolved} {removed outer : List String}
  {idDbType : String → String}

theorem lateralScope_congr (hjoins : Collections.ofPlan q joins = Collections.ofPlan p joins)
    (htop : q.topConditions = p.topConditions) :
    q.lateralScope force threshold joins = p.lateralScope force threshold joins := by
  unfold lateralScope
  rw [hjoins, htop]

theorem Agreeable.congr (h : p.Agreeable db threshold joins)
    (hjoins : Collections.ofPlan q joins = Collections.ofPlan p joins)
    (htop : q.topConditions = p.topConditions) : q.Agreeable db threshold joins where
  alone := by
    rw [hjoins, htop]
    exact h.alone
  shared force := by
    rw [lateralScope_congr hjoins htop, hjoins, htop]
    exact h.shared force

theorem primaryIds_congr (htables : q.tables = p.tables) (htop : q.topConditions = p.topConditions) :
    q.primaryIds db = p.primaryIds db := by
  unfold primaryIds
  rw [rows_congr (q := p) (by rw [htables]) htop, primaryAlias?, primaryAlias?, htables]

namespace Gathered

variable (h : p.Gathered T joins) (hparted : ∀ k ∈ p.topConditions, k.Parted)

include h

theorem tables_mapLeaves {f : Condition → List Condition} : (p.mapLeaves f).tables = T.tables := by
  rw [tables_mapLeaves_of_flat h.plans_tables, h.tables]

theorem plans_checked : ∀ k ∈ (p.mapLeaves (checked removed outer idDbType)).topConditions,
    k.plans = [] := by
  rw [topConditions_mapLeaves, ← plansOf_eq_nil_iff, plansOf_mapLeavesAll flat_checked,
    plansOf_eq_nil_iff.2 h.flat, List.map_nil]

include hparted

/-- What was not asked for and is left reads a table below a collection only if the table is needed. -/
theorem needed_of_mem_checked (hseq : p.Sequenced) (hremoved : p.IsRemoved [] removed)
    {c k : Condition} (hc : c ∈ p.topConditions) (hk : k ∈ c.mapLeaves (checked removed outer idDbType))
    (hp : c.isPruneable = true) {a d : String} (ha : a ∈ c.aliases)
    (hd : d ∈ (Collections.ofPlan p joins).above a) : p.Needed [] a := by
  obtain ⟨t, ht, hname⟩ : ∃ t ∈ p.tables, t.aliasName = a := by
    rw [← List.mem_map, h.tables, T.map_aliasName_tables]
    exact h.reads c hc a ha
  have hleft : t.aliasName ∉ removed := by
    rw [hname]
    rcases hparted c hc with hasked | ⟨n, rfl, hn⟩
    · rw [hasked.isPruneable] at hp
      cases hp
    · rw [Condition.mapLeaves, checked_implied hn] at hk
      rw [List.mem_singleton.1 ha]
      split_ifs at hk with hgone
      · cases hk
      · exact hgone
  rcases (hremoved.not_mem_iff hseq (nodup_names_of_tree h.tables) t ht).1 hleft with
    hprimary | hneeded
  · -- no collection is above the primary table
    rcases JoinTree.mem_tables_iff.1 (h.tables ▸ ht) with rfl | ⟨j, -, rfl⟩
    · exact absurd (hname ▸ hd) (JoinTree.not_mem_above_primary h.tables h.mem_joins)
    · cases hprimary
  · exact hname ▸ hneeded

/-- What was not asked for and is left reads a table that is needed, so something is asked there. -/
theorem supported_checked (hseq : p.Sequenced) (hremoved : p.IsRemoved [] removed) :
    (p.mapLeaves (checked removed outer idDbType)).Supported joins := by
  intro k hk hp a ha d hd
  rw [ofPlan_mapLeaves h.plans_tables] at hd ⊢
  rw [topConditions_mapLeaves] at hk ⊢
  have hsteady : Steady (checked removed outer idDbType) := steady_checked
  obtain ⟨c, hc, hk⟩ := mem_mapLeavesAll_iff.1 hk
  have htwin := (hparted c hc).twin hsteady k hk
  rw [htwin.isPruneable] at hp
  rw [htwin.aliases] at ha
  have hdm := Collections.IsForest.mem_above_of_nearest hd
  obtain ⟨k', hk', b, hb, hdb⟩ := h.exists_asked_of_needed
    (h.needed_of_mem_checked hparted hseq hremoved hc hk hp ha hdm) hdm
  obtain ⟨hp', hb⟩ := (hparted k' hk').mem_references_iff.1 hb
  have hasked := (hparted k' hk').asked hp'
  have htwin' := hasked.twin hsteady
  refine ⟨_, mem_mapLeavesAll_iff.2 ⟨k', hk', ?_⟩, htwin'.isPruneable.trans hp', b,
    htwin'.aliases ▸ hb, hdb⟩
  rw [mapLeaves_of_asked hsteady hasked]
  exact List.mem_singleton_self _

omit h hparted in
theorem fresh_loosened {s : Scope} (hfresh : Fresh s p supply) : Fresh s (p.loosened removed) supply where
  injective := hfresh.injective
  tables := by
    rw [Plan.loosened, Table.map_aliasName_loosened]
    exact hfresh.tables
  conditions := hfresh.conditions

omit h in
/-- Names that are new to the plan are new to the plan with other leaves. -/
theorem fresh_mapLeaves {s : Scope} {f : Condition → List Condition} (hf : Steady f)
    (hfresh : Fresh s p supply) : Fresh s (p.mapLeaves f) supply where
  injective := hfresh.injective
  tables := by
    rw [names_mapLeaves]
    exact hfresh.tables
  conditions u hu k hk := by
    rw [topConditions_mapLeaves] at hk
    obtain ⟨c, hc, hk⟩ := mem_mapLeavesAll_iff.1 hk
    rw [((hparted c hc).twin hf k hk).aliases]
    exact hfresh.conditions u hu c hc

section

variable (houter : ∀ j ∈ T.joins, (Collections.ofPlan p joins).above j.aliasName ≠ [] → j.kind = .outer)
  (hcorr : ∀ j ∈ joins, db.Correlates j) (hids : db.HasIds)
  (hagree : (p.mapLeaves (checked removed outer idDbType)).Agreeable db threshold joins)

include houter hcorr hids hagree

/-- The plan with existence conditions, with the leaves that it gets in the end. -/
theorem primaryIds_toExistence_checked (hseq : p.Sequenced) (hremoved : p.IsRemoved [] removed)
    (hr : p.toExistence joins = .ok r) :
    (r.plan.mapLeaves (checked removed outer idDbType)).primaryIds db =
      (p.mapLeaves (checked removed outer idDbType)).primaryIds db := by
  obtain ⟨r', hr', htables, htop⟩ := exists_toExistence_mapLeaves h.plans_tables hparted
    (JoinTree.isForest h.tables h.mem_joins)
    (steady_checked : Steady (checked removed outer idDbType)) hr
  rw [← primaryIds_congr htables htop]
  exact primaryIds_toExistence h.tables_mapLeaves h.mem_joins
    (by rwa [ofPlan_mapLeaves h.plans_tables]) hcorr hids h.plans_checked hagree
    (h.supported_checked hparted hseq hremoved) hr'

/-- The plan with lateral subqueries, with the leaves that it gets in the end. -/
theorem primaryIds_lateralPlan_checked (hreads : db.ReadsColumns)
    (hfresh : Fresh (p.lateralScope force threshold joins) p supply) :
    ((lateralPlan (p.lateralScope force threshold joins) supply p).mapLeaves
      (checked removed outer idDbType)).primaryIds db =
        (p.mapLeaves (checked removed outer idDbType)).primaryIds db := by
  have hsteady : Steady (checked removed outer idDbType) := steady_checked
  have hscope : (p.mapLeaves (checked removed outer idDbType)).lateralScope force threshold joins =
      p.lateralScope force threshold joins := lateralScope_mapLeaves hsteady h.plans_tables hparted
  have hfresh' : Fresh ((p.mapLeaves (checked removed outer idDbType)).lateralScope force threshold
      joins) (p.mapLeaves (checked removed outer idDbType)) supply := by
    rw [hscope]
    exact fresh_mapLeaves hparted hsteady hfresh
  rw [← primaryIds_lateralPlan h.tables_mapLeaves h.mem_joins
    (by rwa [ofPlan_mapLeaves h.plans_tables]) hcorr hids hreads h.plans_checked hagree hfresh']
  unfold primaryIds
  rw [primaryAlias?_lateralPlan h.tables_mapLeaves h.mem_joins, primaryAlias?_mapLeaves,
    primaryAlias?_lateralPlan h.tables h.mem_joins, hscope,
    rows_lateralPlan_mapLeaves hsteady h.plans_tables hparted]

end

/-! ### Every strategy -/

omit hparted in
theorem sequenced : p.Sequenced :=
  h.scoped.1.sequenced (by rw [h.allAliases]; exact T.nodup_aliases)

section

variable (houter : ∀ j ∈ T.joins, (Collections.ofPlan p joins).above j.aliasName ≠ [] → j.kind = .outer)

include houter

omit hparted in
theorem loosened_of_above (removed : List String) :
    (p.loosened removed).Gathered (T.loosened removed) joins :=
  h.loosened fun j hj => houter j (h.mem_joins j hj) (List.ne_nil_of_mem
    ((JoinTree.isForest h.tables h.mem_joins).mem_above_self
      ((JoinTree.isCollection_iff h.tables h.mem_joins).2 ⟨j, hj, rfl⟩)))

omit h hparted in
theorem kind_of_above_loosened : ∀ j ∈ (T.loosened removed).joins,
    (Collections.ofPlan (p.loosened removed) joins).above j.aliasName ≠ [] → j.kind = .outer := by
  intro j hj habove
  obtain ⟨j', hj', rfl⟩ := List.mem_map.1 hj
  rw [ofPlan_loosened, Join.aliasName_loosened] at habove
  have hkind := houter j' hj' habove
  rwa [Join.loosened_of_outer hkind]

variable (hplain : ∀ s ∈ p.selects, s.implied = []) (hfounded : p.Founded) (hids : db.HasIds)
  (hremoved : p.IsRemoved [] removed)

include hplain hfounded hids hremoved

/-- The joins of the collections are kept. -/
theorem primaryIds_prune_self : ((p.addNullChecks idDbType).prune []).primaryIds db =
    ((p.loosened removed).mapLeaves
      (checked removed (outerJoined p.tables) idDbType)).primaryIds db := by
  have h' := h.loosened_of_above houter removed
  refine primaryIds_prune_addNullChecks h.tables h.sequenced hremoved ?_ h'.scoped.1
    (h'.mirrors_self hplain hfounded hparted) (h.mirrors_self hplain hfounded hparted) hids
    (primaryAlias?_of_tree h.tables)
  rw [h.allAliases]
  exact T.nodup_aliases

variable (hcorr : ∀ j ∈ joins, db.Correlates j)
  (hagree : ((p.loosened removed).mapLeaves
    (checked removed (outerJoined p.tables) idDbType)).Agreeable db threshold joins)

include hcorr hagree

/-- The collections become existence conditions. -/
theorem primaryIds_prune_toExistence (hr : p.toExistence joins = .ok r) :
    ((r.plan.addNullChecks idDbType).prune []).primaryIds db =
      ((p.loosened removed).mapLeaves
        (checked removed (outerJoined p.tables) idDbType)).primaryIds db := by
  have h' := h.loosened_of_above houter removed
  have hr' : (p.loosened removed).toExistence joins = .ok ⟨r.plan.loosened removed, r.warnings⟩ :=
    h.toExistence_loosened houter hr
  rw [primaryIds_prune_addNullChecks h.tables h.sequenced hremoved
    (h.nodup_allAliases_toExistence hr).1 (h'.scoped_toExistence hr').1
    (h'.mirrors_toExistence hparted hplain hfounded hr')
    (h.mirrors_toExistence hparted hplain hfounded hr) hids
    (primaryAlias?_toExistence h.tables h.mem_joins hr)]
  exact h'.primaryIds_toExistence_checked hparted (kind_of_above_loosened houter) hcorr hids hagree
    h.sequenced.loosened (isRemoved_loosened_iff.2 hremoved) hr'

variable (hreads : db.ReadsColumns)
  (hfresh : ∀ force, Fresh (p.lateralScope force threshold joins) p supply)

include hreads hfresh

/-- The collections become lateral subqueries. -/
theorem primaryIds_prune_lateralPlan (force : Bool) :
    (((lateralPlan (p.lateralScope force threshold joins) supply p).addNullChecks
      idDbType).prune []).primaryIds db = ((p.loosened removed).mapLeaves
        (checked removed (outerJoined p.tables) idDbType)).primaryIds db := by
  have h' := h.loosened_of_above houter removed
  obtain ⟨hs, hdiv⟩ : (p.lateralScope force threshold joins).tree = Collections.ofPlan p joins ∧
      Divisible (p.lateralScope force threshold joins) p.topConditions :=
    divisible_lateralScope h.tables h.mem_joins
  have hs' : (p.lateralScope force threshold joins).tree =
      Collections.ofPlan (p.loosened removed) joins := hs.trans ofPlan_loosened.symm
  have hscope : (p.loosened removed).lateralScope force threshold joins =
    p.lateralScope force threshold joins := lateralScope_congr ofPlan_loosened rfl
  have hfresh' : Fresh (p.lateralScope force threshold joins) (p.loosened removed) supply :=
    fresh_loosened (hfresh force)
  have heq : lateralPlan (p.lateralScope force threshold joins) supply (p.loosened removed) =
      (lateralPlan (p.lateralScope force threshold joins) supply p).loosened removed :=
    lateralPlan_loosened (hs ▸ JoinTree.isForest h.tables h.mem_joins)
      (hs ▸ h.loosened_eq_of_above houter)
  rw [primaryIds_prune_addNullChecks h.tables h.sequenced hremoved
    (h.nodup_allAliases_lateralPlan hs hdiv (hfresh force)).1
    (heq ▸ (h'.scoped_lateralPlan hs' hdiv hfresh').1)
    (heq ▸ h'.mirrors_lateralPlan hparted hs' hdiv hplain hfounded hfresh')
    (h.mirrors_lateralPlan hparted hs hdiv hplain hfounded (hfresh force)) hids
    (primaryAlias?_lateralPlan h.tables h.mem_joins), ← heq, ← hscope]
  exact h'.primaryIds_lateralPlan_checked hparted (kind_of_above_loosened houter) hcorr hids hagree
    hreads (hscope.symm ▸ hfresh')

/-- Whatever becomes of the collections, the same primary rows are selected in the end. -/
theorem primaryIds_resolveCollections {strategy : Strategy}
    (hr : p.resolveCollections strategy threshold joins supply = .ok (r, supply')) :
    ((r.plan.addNullChecks idDbType).prune []).primaryIds db =
      ((p.loosened removed).mapLeaves
        (checked removed (outerJoined p.tables) idDbType)).primaryIds db := by
  have hkeep : ((p.addNullChecks idDbType).prune []).primaryIds db = _ :=
    h.primaryIds_prune_self hparted houter hplain hfounded hids hremoved
  rcases resolveCollections_cases hr with he | hr | ⟨force, hr⟩
  · rw [he]
    exact hkeep
  · exact h.primaryIds_prune_toExistence hparted houter hplain hfounded hids hremoved hcorr hagree hr
  · rcases toLateral_cases h.tables h.mem_joins (hfresh force) hr with he | he
    · rw [he]
      exact hkeep
    · rw [he]
      exact h.primaryIds_prune_lateralPlan hparted houter hplain hfounded hids hremoved hcorr hagree
        hreads hfresh force

end

/-! ### The conditions in the end -/

omit hparted in
theorem depth_eq_zero : p.depth = 0 := by
  refine Nat.le_zero.1 (depth_le_iff.2 ⟨fun x fromAlias query ht => ?_, fun query hq => ?_⟩)
  · cases h.plans_tables _ ht
  · have hnested : query ∈ p.nestedPlans :=
      List.mem_append_left _ (List.mem_append_right _ hq)
    rw [h.nestedPlans] at hnested
    cases hnested

omit hparted in
/-- What the plan with joins asks for in the end. -/
theorem topConditions_prune (hfounded : p.Founded) (hremoved : p.IsRemoved [] removed) :
    ((p.addNullChecks idDbType).prune []).topConditions =
      mapLeavesAll (checked removed (outerJoined p.tables) idDbType) p.topConditions := by
  have houter : p.outerAliases = outerJoined p.tables := by
    rw [outerAliases_eq_nested, h.nestedPlans, List.flatMap_nil, List.append_nil]
  have hdepth : (p.mapLeaves (withNullCheck (outerJoined p.tables) idDbType)).depth = 0 :=
    Nat.le_zero.1 ((depth_mapLeaves_le flat_withNullCheck).trans h.depth_eq_zero.le)
  rw [addNullChecks, houter, topConditions_prune_of_depth hdepth
    ((isRemoved_mapLeaves_iff sameReferences_withNullCheck).2 hremoved), topConditions_mapLeaves]
  · exact mapLeavesAll_mapLeavesAll composes_checked _
  · rw [mapLeaves_mapLeaves composes_checked]
    exact hfounded.condition_mapLeaves_ne

omit h in
/-- A disjunction at the top without members that stay has no members at all. -/
theorem condition_of_not_founded (hfounded : ¬ p.Founded) : p.condition = some ⟨.or, []⟩ := by
  simp only [Founded, not_forall, not_exists, not_and, Bool.not_eq_false] at hfounded
  obtain ⟨cs, hcs, hall⟩ := hfounded
  have htop : p.topConditions = [.group ⟨.or, cs⟩] := by rw [topConditions, hcs]
  have hasked := (hparted _ (htop ▸ List.mem_singleton_self _)).asked rfl
  cases cs with
  | nil => exact hcs
  | cons c cs =>
    cases hasked with
    | group hasked =>
      have hc := (hasked c List.mem_cons_self).isPruneable
      rw [hall c List.mem_cons_self] at hc
      cases hc

/-- Whatever becomes of the collections, the plan selects the primary rows that it selects with joins,
where its conditions in the end are met alike by a join and by a subquery. -/
theorem primaryIds_prune_resolveCollections
    (houter : ∀ j ∈ T.joins, (Collections.ofPlan p joins).above j.aliasName ≠ [] → j.kind = .outer)
    (hplain : ∀ s ∈ p.selects, s.implied = []) (hids : db.HasIds) (hreads : db.ReadsColumns)
    (hcorr : ∀ j ∈ joins, db.Correlates j)
    (hfresh : ∀ force, Fresh (p.lateralScope force threshold joins) p supply)
    (hagree : { p with
      condition := ((p.addNullChecks idDbType).prune []).condition }.Agreeable db threshold joins)
    {strategy : Strategy} (hr : p.resolveCollections strategy threshold joins supply = .ok (r, supply')) :
    ((r.plan.addNullChecks idDbType).prune []).primaryIds db =
      ((p.addNullChecks idDbType).prune []).primaryIds db := by
  by_cases hfounded : p.Founded
  · obtain ⟨removed, -, hremoved⟩ := exists_trim_eq [] p
    have hagree' : ((p.loosened removed).mapLeaves
        (checked removed (outerJoined p.tables) idDbType)).Agreeable db threshold joins := by
      have hflat := (h.loosened_of_above houter removed).plans_tables
      refine hagree.congr ((ofPlan_mapLeaves hflat).trans ofPlan_loosened) ?_
      rw [topConditions_mapLeaves]
      exact (h.topConditions_prune hfounded hremoved).symm
    rw [h.primaryIds_resolveCollections hparted houter hplain hfounded hids hremoved hcorr hagree' hreads
      hfresh hr, h.primaryIds_prune_self hparted houter hplain hfounded hids hremoved]
  · have hcondition := condition_of_not_founded hparted hfounded
    have htop : p.topConditions = [.group ⟨.or, []⟩] := by rw [topConditions, hcondition]
    have hunread : Unread (Collections.ofPlan p joins) p.topConditions := by
      rw [htop]
      exact List.forall_mem_singleton.2 (List.forall_mem_nil _)
    rw [h.resolveCollections_of_unread hfresh hr hunread (by rw [htop, isDisjunctive, hcondition]; rfl)]

end Gathered

end Plan

end EntityQuery
