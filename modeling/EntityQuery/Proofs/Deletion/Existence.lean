import EntityQuery.Proofs.Deletion.Filtered
import EntityQuery.Proofs.Multiplicity.Existence
import EntityQuery.Proofs.Existence.Conservation

/-!
# Filtered tables in existence conditions

A condition that comes with a table goes to the subquery that the table goes to.

* `Existence.free_build?`: a subquery binds tables below its collection alone;
* `Existence.filtered_build?`: it filters the tables whose conditions are sent to the collection;
* `Plan.Gathered.filtered_toExistence`: the rewritten plan filters what the plan filters.
-/

namespace EntityQuery

open Existence

namespace Existence

variable {tables : List Table} {t : Collections} {conditions : List Condition} {q : Plan}
  {a u : String} {n : Nat} {outer names : List String}

theorem laterals_subquery (htables : ∀ x ∈ tables, x.plans = []) :
    (subquery (subqueryTables tables u names) conditions).laterals = [] :=
  List.flatMap_eq_nil_iff.2 (plans_subqueryTables htables)

/-- A subquery asks for nothing else to have a row than what stands for collections that are nested
in its own. -/
theorem exists_of_mem_asserted_subquery (hflat : ∀ k ∈ conditions, k.plans = []) {j : Join}
    {tables' : List Table} {r : Plan}
    (hr : r ∈ (subquery tables' (.raw (.correlation j.parent j.own) ::
      (own t u conditions ++ nested tables t n u conditions))).asserted) :
    ∃ d ∈ t.childrenOf u, d ∉ tainted t u conditions ∧ ∃ outer,
      build? tables t n d (sent t u conditions d) = some (.existence r false outer) := by
  rcases Plan.mem_asserted_iff.1 hr with ⟨k, hk, hr⟩ | ⟨x, hx, hr⟩
  · rw [topConditions_subquery] at hk
    rcases List.mem_cons.1 hk with rfl | hk
    · cases hr
    rcases List.mem_append.1 hk with hk | hk
    · rw [Condition.asserted_of_flat (hflat k (mem_own_iff.1 hk).1)] at hr
      cases hr
    · obtain ⟨d, hd, hnt, hb⟩ := mem_nested_iff.1 hk
      refine ⟨d, hd, hnt, ?_⟩
      obtain ⟨m, j', -, -, rfl | rfl⟩ := build?_cases hb
      · cases hr
      · exact ⟨_, List.mem_singleton.1 hr ▸ hb⟩
  · rw [List.mem_singleton.1 hx] at hr
    cases hr

/-- The subquery of a collection binds no table but such as are below the collection. -/
theorem free_build? (hF : t.IsForest) (htables : ∀ x ∈ tables, x.plans = [])
    (hflat : ∀ k ∈ conditions, k.plans = [])
    (h : build? tables t n u conditions = some (.existence q false outer)) (ha : u ∉ t.above a) :
    q.Free a := by
  induction n generalizing u conditions q outer with
  | zero => cases h
  | succ n ih =>
    obtain ⟨m, j, hn, -, he | he⟩ := build?_cases h
    · cases he
    obtain rfl := Nat.succ.inj hn
    obtain ⟨rfl, -, -⟩ := Condition.existence.inj he
    refine .intro (fun hm => ha ?_) ?_ fun r hr => ?_
    · exact ((mem_kept_iff hF).1 (mem_names_subqueryTables hm)).1
    · rw [laterals_subquery htables]
      exact nofun
    · obtain ⟨d, hd, -, outer, hb⟩ := exists_of_mem_asserted_subquery hflat hr
      exact ih (fun k hk => hflat k (mem_sent_iff.1 hk).1) hb fun hm =>
        ha (hF.mem_above_of_mem_childrenOf hd hm)

/-- The subquery of a collection filters a table below it, whose condition is sent to it: the condition
is on the table or on one that belongs to the same collections. -/
theorem filtered_build? (hF : t.IsForest) (htables : ∀ x ∈ tables, x.plans = [])
    (hflat : ∀ k ∈ conditions, k.plans = []) {c : ColumnCondition}
    (h : build? tables t n u conditions = some (.existence q false outer))
    (habove : t.above c.aliasName = t.above a) (hc : u ∈ t.above a → .column c ∈ conditions) :
    q.Filtered a c false := by
  induction n generalizing u conditions q outer with
  | zero => cases h
  | succ n ih =>
    obtain ⟨m, j, hn, -, he | he⟩ := build?_cases h
    · cases he
    obtain rfl := Nat.succ.inj hn
    have hnone : (subquery (subqueryTables tables u (kept t u conditions))
        (.raw (.correlation j.parent j.own) :: (own t u conditions ++
          nested tables t n u conditions))).laterals = [] := laterals_subquery htables
    obtain ⟨rfl, -, -⟩ := Condition.existence.inj he
    have hsent : ∀ d, ∀ k ∈ sent t u conditions d, k.plans = [] := fun d k hk =>
      hflat k (mem_sent_iff.1 hk).1
    by_cases hkept : a ∈ kept t u conditions
    · -- the table and its condition are the subquery's own
      obtain ⟨hu, hfree⟩ := (mem_kept_iff hF).1 hkept
      refine .here ?_ (by simp [hnone]) fun r hr => ?_
      · show Condition.column c ∈ _ :: (own t u conditions ++ _)
        refine List.mem_cons_of_mem _ (List.mem_append_left _ (mem_own_iff.2 ⟨hc hu, fun d hd => ?_⟩))
        by_contra hnt
        obtain ⟨hd, -, hm⟩ := of_only? hd
        exact hfree d hd hnt (habove ▸ hm _ (List.mem_singleton_self _))
      · obtain ⟨d, hd, hnt, outer, hb⟩ := exists_of_mem_asserted_subquery hflat hr
        exact free_build? hF htables (hsent d) hb (hfree d hd hnt)
    · refine .inside (fun hm => hkept (mem_names_subqueryTables hm)) (by simp [hnone]) fun r hr => ?_
      obtain ⟨d, hd, hnt, outer, hb⟩ := exists_of_mem_asserted_subquery hflat hr
      refine ih (hsent d) hb fun hm => ?_
      exact mem_sent_of_mem_above hF hd hnt (hc (hF.mem_above_of_mem_childrenOf hd hm))
        (List.mem_singleton_self _) (habove.symm ▸ hm)

end Existence

/-! ### The rewritten plan -/

namespace Plan.Gathered

variable {T : JoinTree} {joins : List Join} {p : Plan} {r : Resolved} {c : ColumnCondition}
  {a : String}

theorem laterals (h : p.Gathered T joins) : p.laterals = [] :=
  List.flatMap_eq_nil_iff.2 h.plans_tables

theorem asserted_selects (h : p.Gathered T joins) : ∀ x ∈ p.selects, x.asserted = [] := by
  intro x hx
  have hflat := (h.selects x hx).1
  cases x with
  | boolOr g name => exact Group.asserted_of_flat hflat
  | _ => rfl

/-- Before its collections are rewritten a plan has no parts, and filters all tables whose
conditions it asks for. -/
theorem filtered (h : p.Gathered T joins) (hc : .column c ∈ p.topConditions) :
    p.Filtered a c false := by
  refine .here hc (by simp [h.laterals]) fun q hq => ?_
  rcases mem_asserted_iff.1 hq with ⟨k, hk, hq⟩ | ⟨x, hx, hq⟩
  · rw [Condition.asserted_of_flat (h.flat k hk)] at hq
    cases hq
  · rw [h.asserted_selects x hx] at hq
    cases hq

/-- The plan with existence conditions filters all tables whose conditions the plan asks for. -/
theorem filtered_toExistence (h : p.Gathered T joins) (hpart : T.IsPartOf a c.aliasName)
    (hc : .column c ∈ p.topConditions) (hr : p.toExistence joins = .ok r) :
    r.plan.Filtered a c false := by
  have hF : (Collections.ofPlan p joins).IsForest := JoinTree.isForest h.tables h.mem_joins
  have habove := hpart.above_eq h.tables h.collections
  have htables := Plan.tables_toExistence hr
  rcases Plan.toExistence_cases hr with ⟨-, he⟩ | he
  · rw [he]
    exact h.filtered hc
  generalize Collections.ofPlan p joins = t at hF habove htables he
  have htop : r.plan.topConditions = rewritten p t :=
    Plan.topConditions_ofTop (by rw [he]) fun hd => by
      rw [isDisjunctive_of_mem hc] at hd
      cases hd
  have hlaterals : r.plan.laterals = [] := List.flatMap_eq_nil_iff.2 fun x hx =>
    h.plans_tables x (by
      rw [htables] at hx
      exact (List.mem_filter.1 hx).1)
  have hasserted : ∀ q ∈ r.plan.asserted, ∃ root ∈ absorbed p t, ∃ outer,
      demand p t root = some (.existence q false outer) := by
    intro q hq
    rcases mem_asserted_iff.1 hq with ⟨k, hk, hq⟩ | ⟨x, hx, hq⟩
    · rw [htop] at hk
      rcases (mem_rewritten_iff hF).1 hk with ⟨hk, -⟩ | ⟨root, hroot, hb⟩
      · rw [Condition.asserted_of_flat (h.flat k hk)] at hq
        cases hq
      · refine ⟨root, hroot, ?_⟩
        obtain ⟨m, j, -, -, rfl | rfl⟩ := build?_cases hb
        · cases hq
        · exact ⟨_, List.mem_singleton.1 hq ▸ hb⟩
    · rw [he] at hx
      rw [h.asserted_selects x hx] at hq
      cases hq
  have hsent : ∀ root, ∀ k ∈ sentTo (route? t) root p.topConditions, k.plans = [] := fun root k hk =>
    h.flat k (mem_sentTo_iff.1 hk).1
  -- the table stays with the plan, or goes into the subquery of its outermost collection
  by_cases hout : ∀ root ∈ absorbed p t, root ∉ t.above a
  · refine .here ?_ (by simp [hlaterals]) fun q hq => ?_
    · show Condition.column c ∈ r.plan.topConditions
      rw [htop]
      refine (mem_rewritten_iff hF).2 (.inl ⟨hc, fun root hroot hroute => hout root hroot ?_⟩)
      obtain ⟨-, ⟨b, hb, hm⟩, -⟩ := of_route? hF hroute
      rwa [← habove, ← List.mem_singleton.1 hb]
    · obtain ⟨root, hroot, outer, hb⟩ := hasserted q hq
      exact free_build? hF h.plans_tables (hsent root) hb (hout root hroot)
  · push Not at hout
    obtain ⟨root₀, hroot₀, hm₀⟩ := hout
    refine .inside (fun hm => ?_) (by simp [hlaterals]) fun q hq => ?_
    · rw [htables] at hm
      obtain ⟨x, hx, hname⟩ := List.mem_map.1 hm
      rw [List.mem_filter, decide_eq_true_iff, List.mem_flatMap] at hx
      exact hx.2 ⟨root₀, hroot₀, hF.mem_subtree_iff.2 (hname ▸ hm₀)⟩
    · obtain ⟨root, hroot, outer, hb⟩ := hasserted q hq
      refine filtered_build? hF h.plans_tables (hsent root) hb habove fun hm =>
        mem_sentTo_iff.2 ⟨hc, ?_⟩
      exact route?_of_forall hF (mem_absorbed_iff.1 hroot).1 (List.cons_ne_nil _ _) fun b hb => by
        rwa [List.mem_singleton.1 hb, habove]

end Plan.Gathered

end EntityQuery
