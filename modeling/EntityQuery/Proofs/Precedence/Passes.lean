import EntityQuery.Proofs.Agreement.Need
import EntityQuery.Proofs.Multiplicity.Order
import EntityQuery.Proofs.Precedence.Where
import EntityQuery.Proofs.Pruning.Apart
import EntityQuery.Proofs.Pruning.Top

/-!
# Conditions that passes leave

A plan with more conditions refers to more tables, so pruning leaves more of it.  What the plan with
fewer conditions still requires, the other one requires too.

* `Plan.Requires`: the conditions that have to hold;
* `Plan.Plain`: predicates on tables that are joined, without subqueries;
* `Plan.Plain.trim`, `Plan.Plain.addNullChecks`: what passes make of such a plan;
* `Plan.Covers`: the plan requires and refers to what another one does;
* `Plan.Covers.trim`: so it does when it is pruned, if nothing more is removed from the other one.
-/

namespace EntityQuery

/-- The condition has to hold: it is at the top, or in a conjunction that has to hold. -/
inductive Plan.Requires (p : Plan) : Condition → Prop
  | top {c : Condition} (h : c ∈ p.topConditions) : p.Requires c
  | part {c : Condition} {cs : List Condition} (h : p.Requires (.group ⟨.and, cs⟩)) (hc : c ∈ cs) :
      p.Requires c

/-- The condition has no subqueries, and is left whatever tables are removed. -/
structure Condition.Firm (c : Condition) : Prop where
  flat : c.plans = []
  asked : c.implied = []

/-- Without subqueries; what was not asked for stands alone at the top, on tables that are joined. -/
structure Plan.Plain (p : Plan) : Prop where
  tables : ∀ t ∈ p.tables, t.plans = []
  selects : ∀ x ∈ p.selects, ∀ g name, x ≠ .boolOr g name
  primary : ∀ t ∈ p.tables, t.isPrimary = true → t.aliasName ∈ Select.referencesOf p.selects
  conditions : ∀ c ∈ p.topConditions, c.Firm ∨
    ∃ k, c = .column k ∧ k.aliasName ∈ p.tables.map Table.aliasName

/-- What is left of a plan: some of its tables, some of its conditions. -/
structure Plan.Remains (q p : Plan) : Prop where
  tables : q.tables ⊆ p.tables
  selects : q.selects = p.selects
  sortKeys : q.sortKeys = p.sortKeys
  groupBys : q.groupBys = p.groupBys
  conditions : ∀ c ∈ q.topConditions, c ∈ p.topConditions

/-- The plan requires what the other one requires, which is left as it is when tables are removed to
which the plan does not refer. -/
structure Plan.Covers (p q : Plan) : Prop where
  conjunctive : p.isDisjunctive = false
  tables : q.tables ⊆ p.tables
  selects : p.selects = q.selects
  sortKeys : p.sortKeys = q.sortKeys
  groupBys : p.groupBys = q.groupBys
  conditions : ∀ c ∈ q.topConditions, p.Requires c

section

variable {p q : Plan} {c : Condition} {cs : List Condition} {keep removed : List String}
  {I : Interpretation}

/-! ### Required conditions -/

namespace Plan.Requires

/-- Where the WHERE clause is true, so is what is required. -/
theorem readsAs (hc : p.Requires c) (hp : p.isDisjunctive = false)
    (ht : ∀ c ∈ p.topConditions, c.Tight I) (h : p.WhereHolds I) :
    c.Tight I ∧ c.ReadsAs I (some true) := by
  induction hc with
  | top hc => exact ⟨ht _ hc, h.of_mem hp ht hc⟩
  | part _ hc ih => exact ⟨Condition.allTight_iff.1 ih.1 _ hc, ih.2.of_mem_all ih.1 hc⟩

/-- What is required is referred to. -/
theorem mem_references (hc : p.Requires c) {a : String} (ha : a ∈ c.references) :
    a ∈ p.references := by
  induction hc with
  | top hc => exact mem_references_of_topConditions hc ha
  | part _ hc ih => exact ih (Condition.mem_referencesOf_iff.2 ⟨_, hc, ha⟩)

/-- What stands in the place of a required condition is required. -/
theorem mapLeaves {f : Condition → List Condition} (hc : p.Requires c) {c' : Condition}
    (hc' : c' ∈ c.mapLeaves f) : (p.mapLeaves f).Requires c' := by
  induction hc generalizing c' with
  | top hc =>
    refine .top ?_
    rw [topConditions_mapLeaves]
    exact Condition.mem_mapLeavesAll_iff.2 ⟨_, hc, hc'⟩
  | part _ hc ih =>
    exact .part (ih (List.mem_singleton_self _)) (Condition.mem_mapLeavesAll_iff.2 ⟨_, hc, hc'⟩)

theorem of_topConditions (hc : p.Requires c) (h : p.topConditions = q.topConditions) :
    q.Requires c := by
  induction hc with
  | top hc => exact .top (h ▸ hc)
  | part _ hc ih => exact ih.part hc

end Plan.Requires

/-! ### Removed tables -/

theorem Condition.mem_impliedOf {a : String} : a ∈ impliedOf cs ↔ ∃ c ∈ cs, a ∈ c.implied := by
  induction cs with
  | nil => simp [impliedOf]
  | cons c cs ih => simp [impliedOf, ih]

namespace Condition.Firm

theorem group_iff {op : Connective} : (group ⟨op, cs⟩).Firm ↔ ∀ c ∈ cs, c.Firm := by
  constructor
  · intro h c hc
    refine ⟨plansOf_eq_nil_iff.1 h.flat c hc, List.eq_nil_iff_forall_not_mem.2 fun a ha => ?_⟩
    have : a ∈ impliedOf cs := mem_impliedOf.2 ⟨c, hc, ha⟩
    rw [show impliedOf cs = [] from h.asked] at this
    cases this
  · refine fun h => ⟨plansOf_eq_nil_iff.2 fun c hc => (h c hc).flat, ?_⟩
    refine List.eq_nil_iff_forall_not_mem.2 fun a ha => ?_
    obtain ⟨c, hc, ha⟩ := mem_impliedOf.1 ha
    rw [(h c hc).asked] at ha
    cases ha

theorem mapLeaves_withoutRemoved (h : c.Firm) : c.mapLeaves (withoutRemoved removed) = [c] :=
  Condition.mapLeaves_withoutRemoved (by simp [h.asked]) (by simp [h.flat])

end Condition.Firm

namespace Plan

theorem Remains.refl (p : Plan) : p.Remains p :=
  ⟨List.Subset.refl _, rfl, rfl, rfl, fun _ => id⟩

theorem Remains.trans {r : Plan} (h : r.Remains q) (h' : q.Remains p) : r.Remains p :=
  ⟨List.Subset.trans h.tables h'.tables, h.selects.trans h'.selects, h.sortKeys.trans h'.sortKeys,
    h.groupBys.trans h'.groupBys, fun c hc => h'.conditions c (h.conditions c hc)⟩

namespace Plain

theorem map_mapPlan (hp : p.Plain) {f : Plan → Plan} {ts : List Table} (hts : ts ⊆ p.tables) :
    ts.map (Table.mapPlan f) = ts := by
  refine (List.map_congr_left fun t ht => ?_).trans (List.map_id _)
  have hplans := hp.tables t (hts ht)
  cases t with
  | lateral => cases hplans
  | _ => rfl

theorem tables_remove (hp : p.Plain) :
    (p.remove removed).tables = p.tables.filter (·.aliasName ∉ removed) := by
  rw [Plan.tables_remove, Table.mapLeavesAll_eq_map,
    hp.map_mapPlan (List.filter_sublist.subset)]

/-- What is left when tables are removed. -/
theorem remains_remove (hp : p.Plain) : (p.remove removed).Remains p where
  tables := by
    rw [hp.tables_remove]
    exact List.filter_sublist.subset
  selects := by rw [selects_remove, Select.mapLeavesAll_eq_self hp.selects]
  sortKeys := by
    cases p
    rfl
  groupBys := by
    cases p
    rfl
  conditions c hc := by
    obtain ⟨c', hc', hm⟩ := exists_of_mem_topConditions_remove hc
    rcases hp.conditions c' hc' with hfirm | ⟨k, rfl, -⟩
    · rw [hfirm.mapLeaves_withoutRemoved, List.mem_singleton] at hm
      exact hm ▸ hc'
    · rw [Condition.mapLeaves] at hm
      exact Condition.withoutRemoved_subset hm ▸ hc'

theorem remove (hp : p.Plain) : (p.remove removed).Plain where
  tables t ht := hp.tables t (hp.remains_remove.tables ht)
  selects := hp.remains_remove.selects ▸ hp.selects
  primary t ht := hp.remains_remove.selects ▸ hp.primary t (hp.remains_remove.tables ht)
  conditions c hc := by
    obtain ⟨c', hc', hm⟩ := exists_of_mem_topConditions_remove hc
    rcases hp.conditions c' hc' with hfirm | ⟨k, rfl, hk⟩
    · rw [hfirm.mapLeaves_withoutRemoved, List.mem_singleton] at hm
      exact .inl (hm ▸ hfirm)
    · rw [Condition.mapLeaves] at hm
      obtain rfl := Condition.withoutRemoved_subset hm
      cases hpruneable : k.pruneable with
      | false => exact .inl ⟨rfl, by simp [Condition.implied, hpruneable]⟩
      | true =>
        refine .inr ⟨k, rfl, ?_⟩
        have hkept : k.aliasName ∉ removed := by
          simpa [Condition.withoutRemoved, hpruneable] using hm
        obtain ⟨t, ht, hname⟩ := List.mem_map.1 hk
        rw [hp.tables_remove]
        exact List.mem_map.2 ⟨t, List.mem_filter.2 ⟨ht, decide_eq_true (hname ▸ hkept)⟩, hname⟩

theorem trim (hp : p.Plain) : (p.trim keep).Plain ∧ (p.trim keep).Remains p :=
  trim_induct (P := fun x => x.Plain ∧ x.Remains p)
    (fun _ h => ⟨h.1.remove, h.1.remains_remove.trans h.2⟩) ⟨hp, .refl p⟩

end Plain

/-! ### Plans that require more -/

namespace Covers

/-- The plan refers to what the other one refers to. -/
theorem references_subset (h : p.Covers q) : q.references ⊆ p.references := by
  intro a ha
  rcases mem_references_iff.1 ha with ha | ha | ha | ha | ha
  · exact mem_references_iff.2 (.inl (h.selects ▸ ha))
  · obtain ⟨c, hc, ha⟩ := mem_references_condition_iff.1 ha
    exact (h.conditions c hc).mem_references ha
  · exact mem_references_iff.2 (.inr (.inr (.inl (h.sortKeys ▸ ha))))
  · exact mem_references_iff.2 (.inr (.inr (.inr (.inl (h.groupBys ▸ ha)))))
  · refine mem_references_iff.2 (.inr (.inr (.inr (.inr (Table.mem_referencesOf_iff.2 ?_)))))
    rcases Table.mem_referencesOf_iff.1 ha with ⟨j, hj, ha⟩ | ⟨x, b, query, ht, ha⟩
    · exact .inl ⟨j, h.tables hj, ha⟩
    · exact .inr ⟨x, b, query, h.tables ht, ha⟩

theorem remains {r : Plan} (h : p.Covers q) (hr : r.Remains q) : p.Covers r where
  conjunctive := h.conjunctive
  tables := List.Subset.trans hr.tables h.tables
  selects := h.selects.trans hr.selects.symm
  sortKeys := h.sortKeys.trans hr.sortKeys.symm
  groupBys := h.groupBys.trans hr.groupBys.symm
  conditions c hc := h.conditions c (hr.conditions c hc)

/-- Nothing that the other plan has is removed. -/
theorem remove (h : p.Covers q) (hp : p.Plain) (hq : q.Plain) (hall : q.unreferenced keep = []) :
    (p.remove (p.unreferenced keep)).Covers q := by
  have hkept : ∀ t ∈ q.tables, t.aliasName ∉ p.unreferenced keep := by
    intro t ht hm
    obtain ⟨-, hkeep, href⟩ := mem_unreferenced_iff.1 hm
    cases hprimary : t.isPrimary with
    | true => exact href (h.references_subset (mem_references_iff.2 (.inl (hq.primary t ht hprimary))))
    | false =>
      have hm : t.aliasName ∈ q.unreferenced keep :=
        mem_unreferenced_iff.2 ⟨⟨t, ht, hprimary, rfl⟩, hkeep, fun ha => href (h.references_subset ha)⟩
      rw [hall] at hm
      cases hm
  have hremains : (p.remove (p.unreferenced keep)).Remains p := hp.remains_remove
  refine ⟨isDisjunctive_remove h.conjunctive, fun t ht => ?_, hremains.selects.trans h.selects,
    hremains.sortKeys.trans h.sortKeys, hremains.groupBys.trans h.groupBys, fun c hc => ?_⟩
  · rw [hp.tables_remove]
    exact List.mem_filter.2 ⟨h.tables ht, decide_eq_true (hkept t ht)⟩
  · have hleft : c.mapLeaves (Condition.withoutRemoved (p.unreferenced keep)) = [c] := by
      rcases hq.conditions c hc with hfirm | ⟨k, rfl, hk⟩
      · exact hfirm.mapLeaves_withoutRemoved
      · obtain ⟨t, ht, hname⟩ := List.mem_map.1 hk
        have hk := hname ▸ hkept t ht
        simp [Condition.mapLeaves, Condition.withoutRemoved, hk]
    refine ((h.conditions c hc).mapLeaves (hleft ▸ List.mem_singleton_self c)).of_topConditions ?_
    rw [topConditions_mapLeaves, topConditions_remove h.conjunctive]

/-- Nothing that is left of the other plan is removed. -/
theorem trim (h : p.Covers q) (hp : p.Plain) (hq : q.Plain) :
    (p.trim keep).Covers (q.trim keep) := by
  have hleft : (q.trim keep).Plain ∧ (q.trim keep).Remains q := hq.trim
  exact (trim_induct (P := fun x => x.Plain ∧ x.Covers (q.trim keep))
    (fun _ hx => ⟨hx.1.remove, hx.2.remove hx.1 hleft.1 unreferenced_trim⟩)
    ⟨hp, h.remains hleft.2⟩).2

end Covers

end Plan

/-! ### Plans without subqueries -/

mutual

theorem Group.outerAliases_of_flat : ∀ {g : Group}, g.plans = [] → g.outerAliases = []
  | ⟨_, _⟩, h => Condition.outerAliasesOf_of_flat h

theorem Condition.outerAliasesOf_of_flat : ∀ {cs : List Condition}, Condition.plansOf cs = [] →
    Condition.outerAliasesOf cs = []
  | [], _ => rfl
  | c :: cs, h => by
    obtain ⟨hc, hcs⟩ := List.append_eq_nil_iff.1 h
    rw [Condition.outerAliasesOf, Condition.outerAliases_of_flat hc,
      Condition.outerAliasesOf_of_flat hcs, List.append_nil]

/-- No table is joined inside a condition without subqueries. -/
theorem Condition.outerAliases_of_flat : ∀ {c : Condition}, c.plans = [] → c.outerAliases = []
  | .group _, h => Group.outerAliases_of_flat h
  | .column _, _ => rfl
  | .raw _, _ => rfl
  | .existence _ _ _, h => absurd h (List.cons_ne_nil _ _)

end

mutual

theorem Group.depth_of_flat : ∀ {g : Group}, g.plans = [] → g.depth = 0
  | ⟨_, _⟩, h => Condition.depthOf_of_flat h

theorem Condition.depthOf_of_flat : ∀ {cs : List Condition}, Condition.plansOf cs = [] →
    Condition.depthOf cs = 0
  | [], _ => rfl
  | c :: cs, h => by
    obtain ⟨hc, hcs⟩ := List.append_eq_nil_iff.1 h
    rw [Condition.depthOf, Condition.depth_of_flat hc, Condition.depthOf_of_flat hcs, Nat.max_zero]

/-- A condition without subqueries has no depth. -/
theorem Condition.depth_of_flat : ∀ {c : Condition}, c.plans = [] → c.depth = 0
  | .group _, h => Group.depth_of_flat h
  | .column _, _ => rfl
  | .raw _, _ => rfl
  | .existence _ _ _, h => absurd h (List.cons_ne_nil _ _)

end

mutual

theorem Condition.firm_mapLeavesAll {outer : List String} {idDbType : String → String} :
    ∀ {cs : List Condition}, (∀ c ∈ cs, c.Firm) →
      ∀ c ∈ Condition.mapLeavesAll (Condition.withNullCheck outer idDbType) cs, c.Firm
  | [], _ => nofun
  | c :: cs, h => by
    obtain ⟨hc, hcs⟩ := List.forall_mem_cons.1 h
    exact List.forall_mem_append.2 ⟨Condition.firm_mapLeaves hc, Condition.firm_mapLeavesAll hcs⟩

/-- Tests for rows are asked for where the test for null is. -/
theorem Condition.firm_mapLeaves {outer : List String} {idDbType : String → String} :
    ∀ {c : Condition}, c.Firm →
      ∀ c' ∈ c.mapLeaves (Condition.withNullCheck outer idDbType), c'.Firm
  | .group ⟨_, cs⟩, h => List.forall_mem_singleton.2
    (Condition.Firm.group_iff.2 (Condition.firm_mapLeavesAll (Condition.Firm.group_iff.1 h)))
  | .column c, h => by
    intro c' hc'
    rw [Condition.mapLeaves, Condition.withNullCheck] at hc'
    split_ifs at hc'
    · rw [List.mem_singleton.1 hc']
      refine Condition.Firm.group_iff.2 (List.forall_mem_cons.2 ⟨h, List.forall_mem_singleton.2 ?_⟩)
      exact ⟨rfl, rfl⟩
    · rw [List.mem_singleton.1 hc']
      exact h
  | .raw _, h => List.forall_mem_singleton.2 h
  | .existence _ _ _, h => absurd h.flat (List.cons_ne_nil _ _)

end

namespace Plan

namespace Plain

theorem flat (hp : p.Plain) (hc : c ∈ p.topConditions) : c.plans = [] := by
  rcases hp.conditions c hc with h | ⟨k, rfl, -⟩
  · exact h.flat
  · rfl

theorem condition_flat (hp : p.Plain) : ∀ g, p.condition = some g → g.plans = [] := by
  intro g hg
  have hflat : ∀ c ∈ p.topConditions, c.plans = [] := fun c => hp.flat
  unfold topConditions at hflat
  rw [hg] at hflat
  match g with
  | ⟨.and, cs⟩ => exact Condition.plansOf_eq_nil_iff.2 hflat
  | ⟨.or, cs⟩ => exact hflat _ (List.mem_singleton_self _)

/-- All outer joins are those of the plan itself. -/
theorem outerAliases_eq (hp : p.Plain) : p.outerAliases = outerJoined p.tables := by
  have htables : Table.outerAliasesOf p.tables = [] := by
    have h := hp.tables
    generalize p.tables = ts at h
    induction ts with
    | nil => rfl
    | cons t ts ih =>
      obtain ⟨ht, hts⟩ := List.forall_mem_cons.1 h
      cases t with
      | lateral => cases ht
      | _ => exact ih hts
  have hselects : Select.outerAliasesOf p.selects = [] := by
    have h := hp.selects
    generalize p.selects = xs at h
    induction xs with
    | nil => rfl
    | cons x xs ih =>
      obtain ⟨hx, hxs⟩ := List.forall_mem_cons.1 h
      cases x with
      | boolOr g name => exact absurd rfl (hx g name)
      | _ => exact ih hxs
  have hcondition : Group.outerAliasesOf p.condition = [] := by
    have h := hp.condition_flat
    match hg : p.condition with
    | none => rfl
    | some g => exact Group.outerAliases_of_flat (h g hg)
  obtain ⟨selects, tables, condition, sortKeys, groupBys, ctes⟩ := p
  rw [outerAliases]
  simp only [htables, hselects, hcondition, List.append_nil]

/-- Pruning looks at the plan alone. -/
theorem prune_eq_trim (hp : p.Plain) : p.prune keep = p.trim keep := by
  have htables : Table.depthOf p.tables = 0 := by
    have h := hp.tables
    generalize p.tables = ts at h
    induction ts with
    | nil => rfl
    | cons t ts ih =>
      obtain ⟨ht, hts⟩ := List.forall_mem_cons.1 h
      cases t with
      | lateral => cases ht
      | _ => exact ih hts
  have hcondition : Group.depthOf p.condition = 0 := by
    have h := hp.condition_flat
    match hg : p.condition with
    | none => rfl
    | some g => exact Group.depth_of_flat (h g hg)
  have hdepth : p.depth = 0 := by
    obtain ⟨selects, tables, condition, sortKeys, groupBys, ctes⟩ := p
    rw [depth]
    simp only [htables, hcondition, Nat.max_self]
  rw [prune, hdepth, pruneWithin]

theorem mapLeaves_tables (hp : p.Plain) {f : Condition → List Condition} :
    (p.mapLeaves f).tables = p.tables := by
  rw [tables_mapLeaves, hp.map_mapPlan (List.Subset.refl _)]

theorem mapLeaves_selects (hp : p.Plain) {f : Condition → List Condition} :
    (p.mapLeaves f).selects = p.selects := by
  rw [selects_mapLeaves, Select.mapLeavesAll_eq_self hp.selects]

theorem addNullChecks (hp : p.Plain) {idDbType : String → String} :
    (p.addNullChecks idDbType).Plain where
  tables := by
    rw [Plan.addNullChecks, hp.mapLeaves_tables]
    exact hp.tables
  selects := by
    rw [Plan.addNullChecks, hp.mapLeaves_selects]
    exact hp.selects
  primary := by
    rw [Plan.addNullChecks, hp.mapLeaves_tables, hp.mapLeaves_selects]
    exact hp.primary
  conditions c hc := by
    rw [Plan.addNullChecks, topConditions_mapLeaves] at hc
    obtain ⟨c', hc', hm⟩ := Condition.mem_mapLeavesAll_iff.1 hc
    rcases hp.conditions c' hc' with hfirm | ⟨k, rfl, hk⟩
    · exact .inl (Condition.firm_mapLeaves hfirm c hm)
    · cases hpruneable : k.pruneable with
      | false => exact .inl (Condition.firm_mapLeaves ⟨rfl, by simp [Condition.implied, hpruneable]⟩ c hm)
      | true =>
        refine .inr ⟨k, ?_, by rwa [Plan.addNullChecks, hp.mapLeaves_tables]⟩
        simpa [Condition.mapLeaves, Condition.withNullCheck, ColumnCondition.isAmbiguous, hpruneable]
          using hm

/-- More joins, and another order. -/
theorem ordered (hp : p.Plain) {js : List Join} {keys : List SortKey} :
    Plain { p with tables := p.tables ++ js.map .join, sortKeys := keys } where
  tables := List.forall_mem_append.2 ⟨hp.tables, List.forall_mem_map.2 fun _ _ => rfl⟩
  selects := hp.selects
  primary := List.forall_mem_append.2 ⟨hp.primary, List.forall_mem_map.2 fun _ _ h => nomatch h⟩
  conditions c hc := (hp.conditions c hc).imp_right fun ⟨k, hk, hname⟩ => ⟨k, hk, by
    rw [List.map_append]
    exact List.mem_append_left _ hname⟩

end Plain

namespace Covers

theorem addNullChecks (h : p.Covers q) (hp : p.Plain) (hq : q.Plain) (htables : p.tables = q.tables)
    {idDbType : String → String} :
    (p.addNullChecks idDbType).Covers (q.addNullChecks idDbType) := by
  have houter : q.outerAliases = p.outerAliases := by
    rw [hp.outerAliases_eq, hq.outerAliases_eq, htables]
  unfold Plan.addNullChecks
  rw [houter]
  refine ⟨?_, ?_, ?_, ?_, ?_, fun c hc => ?_⟩
  · obtain ⟨selects, tables, condition, sortKeys, groupBys, ctes⟩ := p
    match condition, h.conjunctive with
    | none, _ => rfl
    | some ⟨.and, _⟩, _ => rfl
  · rw [hp.mapLeaves_tables, hq.mapLeaves_tables]
    exact h.tables
  · rw [hp.mapLeaves_selects, hq.mapLeaves_selects]
    exact h.selects
  · rw [sortKeys_mapLeaves, sortKeys_mapLeaves]
    exact h.sortKeys
  · have hgroupBys : ∀ {x : Plan} {f}, (x.mapLeaves f).groupBys = x.groupBys := fun {x _} => by
      cases x
      rfl
    rw [hgroupBys, hgroupBys]
    exact h.groupBys
  · rw [topConditions_mapLeaves] at hc
    obtain ⟨c', hc', hm⟩ := Condition.mem_mapLeavesAll_iff.1 hc
    exact (h.conditions c' hc').mapLeaves hm

theorem ordered (h : p.Covers q) {ts : List Table} {keys : List SortKey} :
    Covers { p with tables := ts, sortKeys := keys } { q with tables := ts, sortKeys := keys } where
  conjunctive := h.conjunctive
  tables := List.Subset.refl _
  selects := h.selects
  sortKeys := rfl
  groupBys := h.groupBys
  conditions c hc := (h.conditions c hc).of_topConditions rfl

end Covers

end Plan

end

end EntityQuery
