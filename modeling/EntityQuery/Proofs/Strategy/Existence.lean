import EntityQuery.Proofs.Existence.Leaves
import EntityQuery.Proofs.Naming.Collections
import EntityQuery.Proofs.Strategy.Mirror

/-!
# Existence conditions need the tables that joins need

A collection becomes a subquery exactly if something is asked below it.  So the subquery is where its
tables are needed, and the table that it is correlated with is needed too.

* `Existence.Gets`: a collection gets the conditions that read its tables;
* `Plan.Gathered.standsFor_build?`: the subquery of a collection and those inside it;
* `Plan.Gathered.mirrors_toExistence`: the rewritten plan and the subqueries inside it.
-/

namespace EntityQuery

/-- The condition is a subquery that stands for a collection.  The collection is needed, and so are the
tables of the subquery that stay in it. -/
def Condition.StandsFor (p : Plan) (j : Join) (k : Condition) : Prop :=
  ∃ query negate, k = .existence query negate [j.parent.aliasName] ∧
    query.Scoped [j.parent.aliasName] ∧ p.Needed [] j.aliasName ∧ query.Everywhere p.Mirrors

/-! ### The conditions of a collection -/

namespace Existence

variable {t : Collections} {c d : String} {top conditions : List Condition} {k : Condition}

/-- The collection gets the conditions that read its tables, and these read nothing else. -/
structure Gets (t : Collections) (c : String) (top conditions : List Condition) : Prop where
  mem_iff : ∀ k, k ∈ conditions ↔ k ∈ top ∧ ∃ a ∈ k.aliases, c ∈ t.above a
  inside : ∀ k ∈ conditions, ∀ a ∈ k.aliases, c ∈ t.above a

theorem Gets.child (h : Gets t c top conditions) (hF : t.IsForest) (hd : d ∈ t.childrenOf c)
    (hnt : d ∉ tainted t c conditions) : Gets t d top (sent t c conditions d) where
  mem_iff k := by
    constructor
    · intro hk
      obtain ⟨hk, honly⟩ := mem_sent_iff.1 hk
      exact ⟨((h.mem_iff k).1 hk).1, (of_only? honly).2.1⟩
    · rintro ⟨hk, a, ha, hm⟩
      exact mem_sent_of_mem_above hF hd hnt
        ((h.mem_iff k).2 ⟨hk, a, ha, hF.mem_above_of_mem_childrenOf hd hm⟩) ha hm
  inside k hk := (of_only? (mem_sent_iff.1 hk).2).2.2

/-- A subquery refers to what its conditions refer to. -/
theorem mem_ownReferences_subquery_iff {tables : List Table} {a : String} :
    a ∈ (subquery tables conditions).ownReferences ↔ ∃ k ∈ conditions, a ∈ k.references := by
  simp [Plan.ownReferences, subquery, Select.referencesOf, Select.aliases, Group.referencesOf,
    Group.references, Group.all, Condition.mem_referencesOf_iff]

theorem mem_implied_subquery_iff {tables : List Table} {a : String} :
    a ∈ (subquery tables conditions).implied ↔ ∃ k ∈ conditions, a ∈ k.implied := by
  rw [Plan.mem_implied_iff, topConditions_subquery]
  simp [subquery, Select.implied]

theorem mem_nestedPlans_subquery_iff {tables : List Table} (htables : ∀ t ∈ tables, t.plans = [])
    {q : Plan} : q ∈ (subquery tables conditions).nestedPlans ↔ ∃ k ∈ conditions, q ∈ k.plans := by
  rw [Plan.mem_nestedPlans_iff, topConditions_subquery]
  constructor
  · rintro (⟨t, ht, hq⟩ | hq | ⟨s, hs, hq⟩)
    · rw [htables t ht] at hq
      cases hq
    · exact hq
    · rw [List.mem_singleton.1 hs] at hq
      cases hq
  · exact fun hq => .inr (.inl hq)

end Existence

open Existence

namespace Plan.Gathered

variable {T : JoinTree} {p query : Plan} {joins : List Join} {j : Join} {conditions : List Condition}
  {outer : List String} {negate : Bool} {n : Nat} {a root : String} {r : Resolved}

/-- The conditions that go to an outermost collection. -/
theorem gets_sentTo (h : p.Gathered T joins)
    (hroot : root ∈ (Collections.ofPlan p joins).roots)
    (hs : root ∉ spoiled (Collections.ofPlan p joins) p.topConditions) :
    Gets (Collections.ofPlan p joins) root p.topConditions
      (sentTo (route? (Collections.ofPlan p joins)) root p.topConditions) where
  mem_iff k := by
    have hF := JoinTree.isForest h.tables h.mem_joins
    rw [mem_sentTo_iff]
    exact and_congr_right fun hk => ⟨fun hroute => (of_route? hF hroute).2.1,
      fun ⟨a, ha, hm⟩ => route?_of_mem_above hF hroot hs hk ha hm⟩
  inside k hk a ha := by
    obtain ⟨hk, hroute⟩ := mem_sentTo_iff.1 hk
    obtain ⟨-, ⟨b, hb, hm⟩, -, hasked⟩ :=
      of_route? (JoinTree.isForest h.tables h.mem_joins) hroute
    cases hp : k.isPruneable with
    | false => exact hasked hp a ha
    | true =>
      -- what was not asked for reads one table
      obtain ⟨b', hb'⟩ := h.single k hk hp
      rw [hb', List.mem_singleton] at ha hb
      rwa [ha, ← hb]

variable (h : p.Gathered T joins) (hparted : ∀ k ∈ p.topConditions, k.Parted)

include h hparted

/-- A collection of which something is asked is needed. -/
theorem needed_of_gets {c : String}
    (hgets : Gets (Collections.ofPlan p joins) c p.topConditions conditions) {k : Condition}
    (hk : k ∈ conditions) (hp : k.isPruneable = false) : p.Needed [] c := by
  obtain ⟨htop, a, ha, hm⟩ := (hgets.mem_iff k).1 hk
  refine h.needed_of_mem_chain (Collections.mem_above.1 hm).1 (.asked ?_)
  exact h.mem_ownReferences_iff.2 (.inr ⟨k, htop, (hparted k htop).mem_references_iff.2 ⟨hp, ha⟩⟩)

/-- A collection that is needed becomes a subquery. -/
theorem exists_build?_of_needed {c : String}
    (hcol : (Collections.ofPlan p joins).isCollection c)
    (hfuel : (Collections.ofPlan p joins).collections.length <
      n + ((Collections.ofPlan p joins).above c).length)
    (hgets : Gets (Collections.ofPlan p joins) c p.topConditions conditions)
    (hneeded : p.Needed [] c) :
    ∃ k, build? p.tables (Collections.ofPlan p joins) n c conditions = some k := by
  have hF := JoinTree.isForest h.tables h.mem_joins
  obtain ⟨k, hk, a, ha, hm⟩ := h.exists_asked_of_needed hneeded (hF.mem_above_self hcol)
  obtain ⟨hp, ha⟩ := (hparted k hk).mem_references_iff.1 ha
  rw [← Option.ne_none_iff_exists', Ne, build?_eq_none_iff hF hcol hfuel]
  intro hall
  rw [hall k ((hgets.mem_iff k).2 ⟨hk, a, ha, hm⟩)] at hp
  cases hp

/-- Only a collection that is needed becomes a subquery. -/
theorem needed_of_build? {c : String} (hcol : (Collections.ofPlan p joins).isCollection c)
    (hfuel : (Collections.ofPlan p joins).collections.length <
      n + ((Collections.ofPlan p joins).above c).length)
    (hgets : Gets (Collections.ofPlan p joins) c p.topConditions conditions) {k : Condition}
    (hb : build? p.tables (Collections.ofPlan p joins) n c conditions = some k) : p.Needed [] c := by
  have hF := JoinTree.isForest h.tables h.mem_joins
  by_contra hdead
  have hnone : build? p.tables _ _ _ _ = none := (build?_eq_none_iff hF hcol hfuel).2 fun k hk => by
    rw [← Bool.not_eq_false]
    exact fun hp => hdead (h.needed_of_gets hparted hgets hk hp)
  rw [hnone] at hb
  cases hb

omit hparted in
/-- Besides its own tables, the subquery of a collection refers to what is needed. -/
theorem needed_or_mem_allAliases_of_standsFor {k : Condition} (hj : j ∈ joins) (hk : k.StandsFor p j)
    (ha : a ∈ k.references) : p.Needed [] a ∨ ∃ q ∈ k.plans, a ∈ q.allAliases := by
  obtain ⟨q, negate, rfl, hscoped, hneeded, -⟩ := hk
  have hparent := h.needed_of_parent (h.mem_joins j hj) hneeded
  rcases List.mem_append.1 ha with ha | ha
  · exact .inl (List.mem_singleton.1 ha ▸ hparent)
  rcases references_of_scoped hscoped ha with ha | ha
  · exact .inr ⟨q, List.mem_singleton_self q, ha⟩
  · exact .inl (List.mem_singleton.1 ha ▸ hparent)

omit hparted in
/-- The subquery that asks whether there is any row of a collection. -/
theorem mirrors_alone (hj : j ∈ joins) (hlive : p.Needed [] j.aliasName) :
    (subquery (subqueryTables p.tables j.aliasName [j.aliasName])
      [.raw (.correlation j.parent j.own)]).Everywhere p.Mirrors := by
  have hF := JoinTree.isForest h.tables h.mem_joins
  have hcol : (Collections.ofPlan p joins).isCollection j.aliasName :=
    (JoinTree.isCollection_iff h.tables h.mem_joins).2 ⟨j, hj, rfl⟩
  refine .intro ?_ fun q hq => ?_
  · refine h.mirrors_of_subquery (h.mem_joins j hj) (List.mem_singleton_self _)
      (List.forall_mem_singleton.2 (hF.mem_above_self hcol)) hlive rfl
      (List.forall_mem_singleton.2 rfl) (fun _ hc => by cases hc) (fun a ha => ?_) (fun a ha _ => ?_)
      (fun _ _ _ _ hm hne => absurd (List.mem_singleton.1 hm) hne)
      fun _ _ _ hm hne => absurd (List.mem_singleton.1 hm) hne
    · obtain ⟨k, hk, ha⟩ := mem_implied_subquery_iff.1 ha
      rw [List.mem_singleton.1 hk] at ha
      cases ha
    · obtain ⟨k, hk, ha⟩ := mem_ownReferences_subquery_iff.1 ha
      rw [List.mem_singleton.1 hk] at ha
      exact h.needed_of_correlation (h.mem_joins j hj) hlive ha
  · obtain ⟨k, hk, hq⟩ := (mem_nestedPlans_subquery_iff (plans_subqueryTables h.plans_tables)).1 hq
    rw [List.mem_singleton.1 hk] at hq
    cases hq

/-! ### Subqueries with others inside them -/

section

variable (hgets : Gets (Collections.ofPlan p joins) j.aliasName p.topConditions conditions)
  (hnested : ∀ d ∈ joins, d.aliasName ∈ (Collections.ofPlan p joins).childrenOf j.aliasName →
    d.aliasName ∉ tainted (Collections.ofPlan p joins) j.aliasName conditions → ∀ k,
      build? p.tables (Collections.ofPlan p joins) n d.aliasName
        (sent (Collections.ofPlan p joins) j.aliasName conditions d.aliasName) = some k →
          k.StandsFor p d)

include hnested

omit hparted in
theorem standsFor_of_mem_nested {k : Condition}
    (hk : k ∈ nested p.tables (Collections.ofPlan p joins) n j.aliasName conditions) :
    ∃ d ∈ joins, k.StandsFor p d := by
  have hF := JoinTree.isForest h.tables h.mem_joins
  obtain ⟨d, hd, hnt, hb⟩ := mem_nested_iff.1 hk
  obtain ⟨d, hdj, rfl⟩ := (JoinTree.isCollection_iff h.tables h.mem_joins).1
    (hF.above_of_mem_childrenOf hd).1
  exact ⟨d, hdj, hnested d hdj hd hnt k hb⟩

include hgets

/-- What is read in the subquery without having been asked for is a table that it keeps. -/
theorem mem_kept_of_mem_implied {k : Condition}
    (hk : k ∈ own (Collections.ofPlan p joins) j.aliasName conditions ++
      nested p.tables (Collections.ofPlan p joins) n j.aliasName conditions) (ha : a ∈ k.implied) :
    a ∈ kept (Collections.ofPlan p joins) j.aliasName conditions := by
  have hF := JoinTree.isForest h.tables h.mem_joins
  rcases List.mem_append.1 hk with hk | hk
  · have hm := (mem_own_iff.1 hk).1
    obtain ⟨-, ha⟩ := (hparted k ((hgets.mem_iff k).1 hm).1).mem_implied_iff.1 ha
    exact (mem_kept_iff hF).2 ⟨hgets.inside k hm a ha, fun d hd hnt =>
      not_mem_above_of_mem_own hF hd hnt hk ha⟩
  · obtain ⟨d, -, q, ng, rfl, -⟩ := h.standsFor_of_mem_nested hnested hk
    cases ha

omit hparted hnested in
/-- What is asked of a table that the subquery keeps is asked there. -/
theorem mem_own_of_mem_kept {k : Condition} (hk : k ∈ p.topConditions) (ha : a ∈ k.aliases)
    (hm : a ∈ kept (Collections.ofPlan p joins) j.aliasName conditions) :
    k ∈ own (Collections.ofPlan p joins) j.aliasName conditions := by
  obtain ⟨hin, hout⟩ := (mem_kept_iff (JoinTree.isForest h.tables h.mem_joins)).1 hm
  refine mem_own_iff.2 ⟨(hgets.mem_iff k).2 ⟨hk, a, ha, hin⟩, fun d honly => ?_⟩
  obtain ⟨hd, -, hinside⟩ := of_only? honly
  by_contra hnt
  exact hout d hd hnt (hinside a ha)

omit hparted in
/-- Besides the tables of nested subqueries, the conditions of the subquery refer to what is needed. -/
theorem needed_or_mem_allAliases_of_mem {k : Condition}
    (hk : k ∈ own (Collections.ofPlan p joins) j.aliasName conditions ++
      nested p.tables (Collections.ofPlan p joins) n j.aliasName conditions) (ha : a ∈ k.references) :
    p.Needed [] a ∨ ∃ q ∈ k.plans, a ∈ q.allAliases := by
  rcases List.mem_append.1 hk with hk | hk
  · have htop := ((hgets.mem_iff k).1 (mem_own_iff.1 hk).1).1
    exact .inl (.asked (h.mem_ownReferences_iff.2 (.inr ⟨k, htop, ha⟩)))
  · obtain ⟨d, hd, hk⟩ := h.standsFor_of_mem_nested hnested hk
    exact h.needed_or_mem_allAliases_of_standsFor hd hk ha

/-- A table that is needed is kept with the table that it is joined to, or it is a nested collection
whose subquery refers to that table. -/
theorem mem_kept_or_mem_references
    (hfuel : (Collections.ofPlan p joins).collections.length <
      n + 1 + ((Collections.ofPlan p joins).above j.aliasName).length) {d : Join} (hd : d ∈ T.joins)
    (hneeded : p.Needed [] d.aliasName)
    (hm : d.parent.aliasName ∈ kept (Collections.ofPlan p joins) j.aliasName conditions) :
    d.aliasName ∈ kept (Collections.ofPlan p joins) j.aliasName conditions ∨
      ∃ k ∈ nested p.tables (Collections.ofPlan p joins) n j.aliasName conditions,
        d.parent.aliasName ∈ k.references := by
  have hF := JoinTree.isForest h.tables h.mem_joins
  by_cases hkept : d.aliasName ∈ kept (Collections.ofPlan p joins) j.aliasName conditions
  · exact .inl hkept
  obtain ⟨hin, hout⟩ := (mem_kept_iff hF).1 hm
  have hp : (Collections.ofPlan p joins).parent? d.aliasName = some d.parent.aliasName :=
    JoinTree.parent?_of_mem h.tables hd
  -- the table belongs to a nested collection that its parent does not belong to: it is the collection
  obtain ⟨e, he, hnt, hme⟩ : ∃ e ∈ (Collections.ofPlan p joins).childrenOf j.aliasName,
      e ∉ tainted (Collections.ofPlan p joins) j.aliasName conditions ∧
        e ∈ (Collections.ofPlan p joins).above d.aliasName := by
    by_contra hno
    push Not at hno
    exact hkept ((mem_kept_iff hF).2 ⟨hF.mem_above_of_parent hp hin, hno⟩)
  have hed : d.aliasName = e := by
    by_contra hne
    obtain ⟨b, hb, hm⟩ := hF.exists_parent_of_mem_above hme hne
    rw [hp, Option.some.injEq] at hb
    exact hout e he hnt (hb ▸ hm)
  subst hed
  have hcol := (hF.above_of_mem_childrenOf he).1
  obtain ⟨k, hk⟩ := h.exists_build?_of_needed hparted hcol (fuel_of_mem_childrenOf hF he hfuel)
    (hgets.child hF he hnt) hneeded
  obtain ⟨d', hd', hname⟩ := (JoinTree.isCollection_iff h.tables h.mem_joins).1 hcol
  obtain rfl := JoinTree.eq_of_aliasName (h.mem_joins d' hd') hd hname
  refine .inr ⟨k, mem_nested_iff.2 ⟨_, he, hnt, hk⟩, ?_⟩
  obtain ⟨q, ng, rfl, -⟩ := hnested d' hd' he hnt k hk
  exact List.mem_append_left _ (List.mem_singleton_self _)

/-- The subquery of a collection that asks for a row, where the subqueries inside it are correlated
with tables that are needed. -/
theorem mirrors_kept (hj : j ∈ joins)
    (hfuel : (Collections.ofPlan p joins).collections.length <
      n + 1 + ((Collections.ofPlan p joins).above j.aliasName).length)
    (hlive : p.Needed [] j.aliasName)
    (hnodup : (subquery (subqueryTables p.tables j.aliasName
      (kept (Collections.ofPlan p joins) j.aliasName conditions))
        (.raw (.correlation j.parent j.own) ::
          (own (Collections.ofPlan p joins) j.aliasName conditions ++
            nested p.tables (Collections.ofPlan p joins) n j.aliasName
              conditions))).allAliases.Nodup) :
    p.Mirrors (subquery (subqueryTables p.tables j.aliasName
      (kept (Collections.ofPlan p joins) j.aliasName conditions))
        (.raw (.correlation j.parent j.own) ::
          (own (Collections.ofPlan p joins) j.aliasName conditions ++
            nested p.tables (Collections.ofPlan p joins) n j.aliasName conditions))) := by
  have hF := JoinTree.isForest h.tables h.mem_joins
  have hjT := h.mem_joins j hj
  have hcol : (Collections.ofPlan p joins).isCollection j.aliasName :=
    (JoinTree.isCollection_iff h.tables h.mem_joins).2 ⟨j, hj, rfl⟩
  refine h.mirrors_of_subquery hjT ((mem_kept_iff hF).2 ⟨hF.mem_above_self hcol, fun d hd _ =>
    hF.not_mem_above_of_mem_childrenOf hd⟩) (fun a ha => ((mem_kept_iff hF).1 ha).1) hlive rfl
    (List.forall_mem_singleton.2 rfl) (fun _ hc => by cases hc) (fun a ha => ?_) (fun a ha hm => ?_)
    (fun k hk a ha hm _ => ?_) fun d hd hneeded hm _ => ?_
  · obtain ⟨k, hk, ha⟩ := mem_implied_subquery_iff.1 ha
    rcases List.mem_cons.1 hk with rfl | hk
    · cases ha
    · exact h.mem_kept_of_mem_implied hparted hgets hnested hk ha
  · obtain ⟨k, hk, ha⟩ := mem_ownReferences_subquery_iff.1 ha
    rcases List.mem_cons.1 hk with rfl | hk'
    · exact h.needed_of_correlation hjT hlive ha
    refine (h.needed_or_mem_allAliases_of_mem hgets hnested hk' ha).resolve_right ?_
    -- the tables of a nested subquery have other names
    rintro ⟨q, hq, ha⟩
    refine absurd ?_ (not_mem_names_of_nested hnodup
      ((mem_nestedPlans_subquery_iff (plans_subqueryTables h.plans_tables)).2 ⟨k, hk, hq⟩) ha)
    rw [tables_subquery, map_aliasName_subqueryTables, h.tables, T.map_aliasName_tables]
    obtain ⟨j', hj', rfl⟩ := JoinTree.exists_join_of_mem_above h.tables h.mem_joins
      ((mem_kept_iff hF).1 hm).1
    exact List.mem_filter.2 ⟨JoinTree.aliasName_mem hj', decide_eq_true hm⟩
  · have hown := h.mem_own_of_mem_kept hgets hk ((hparted k hk).mem_references_iff.1 ha).2 hm
    exact mem_ownReferences_subquery_iff.2
      ⟨k, List.mem_cons_of_mem _ (List.mem_append_left _ hown), ha⟩
  · rcases h.mem_kept_or_mem_references hparted hgets hnested hfuel hd hneeded hm with hm | ⟨k, hk, ha⟩
    · exact .inl hm
    · exact .inr (mem_ownReferences_subquery_iff.2
        ⟨k, List.mem_cons_of_mem _ (List.mem_append_right _ hk), ha⟩)

end

/-- By induction on the nesting: the subquery of a collection has the tables of the collection and of
those that are not asked about alone; each of the others is correlated with one of these. -/
theorem standsFor_build? (hj : j ∈ joins)
    (hfuel : (Collections.ofPlan p joins).collections.length <
      n + ((Collections.ofPlan p joins).above j.aliasName).length)
    (hgets : Gets (Collections.ofPlan p joins) j.aliasName p.topConditions conditions) {k : Condition}
    (hb : build? p.tables (Collections.ofPlan p joins) n j.aliasName conditions = some k)
    (hnodup : k.allAliases.Nodup) : k.StandsFor p j := by
  have hF := JoinTree.isForest h.tables h.mem_joins
  induction n generalizing j conditions k with
  | zero => cases hb
  | succ n ih =>
    have hjT := h.mem_joins j hj
    have hcol : (Collections.ofPlan p joins).isCollection j.aliasName :=
      (JoinTree.isCollection_iff h.tables h.mem_joins).2 ⟨j, hj, rfl⟩
    have hlive : p.Needed [] j.aliasName := h.needed_of_build? hparted hcol hfuel hgets hb
    have hscoped : k.Scoped [j.parent.aliasName] [] :=
      scoped_build? h.tables h.mem_joins hj (fun k hk => h.flat k ((hgets.mem_iff k).1 hk).1)
        hgets.inside hb (List.mem_singleton_self _)
    have hplans : ∀ names, ∀ t ∈ subqueryTables p.tables j.aliasName names, t.plans = [] := fun _ =>
      plans_subqueryTables h.plans_tables
    obtain ⟨m, j', hm, hj', he⟩ := build?_cases hb
    obtain rfl := Nat.succ.inj hm
    obtain ⟨hj', hname⟩ := (JoinTree.join?_iff h.tables h.mem_joins).1 hj'
    obtain rfl := JoinTree.eq_of_aliasName (h.mem_joins j' hj') hjT hname
    rcases he with rfl | rfl
    · -- the collection is asked to be missing
      exact ⟨_, _, rfl, hscoped.2, hlive, h.mirrors_alone hj hlive⟩
    · have hinner : ∀ d ∈ joins, d.aliasName ∈ (Collections.ofPlan p joins).childrenOf j'.aliasName →
          d.aliasName ∉ tainted (Collections.ofPlan p joins) j'.aliasName conditions → ∀ k,
          build? p.tables (Collections.ofPlan p joins) n d.aliasName
            (sent (Collections.ofPlan p joins) j'.aliasName conditions d.aliasName) = some k →
          k.StandsFor p d := fun d hdj hd hnt k hb => by
        refine ih hdj (fuel_of_mem_childrenOf hF hd hfuel) (hgets.child hF hd hnt) hb
          (hnodup.sublist ?_)
        have hm := List.mem_cons_of_mem (Condition.raw (.correlation j'.parent j'.own))
          (List.mem_append_right (own (Collections.ofPlan p joins) j'.aliasName conditions)
            (mem_nested_iff.2 ⟨_, hd, hnt, hb⟩))
        obtain ⟨m, e, -, -, rfl | rfl⟩ := build?_cases hb <;>
          exact sublist_allAliases_of_nested ((mem_nestedPlans_subquery_iff (hplans _)).2
            ⟨_, hm, List.mem_singleton_self _⟩)
      refine ⟨_, _, rfl, hscoped.2, hlive,
        .intro (h.mirrors_kept hparted hgets hinner hj hfuel hlive hnodup) fun q hq => ?_⟩
      obtain ⟨k, hk, hq⟩ := (mem_nestedPlans_subquery_iff (hplans _)).1 hq
      rcases List.mem_cons.1 hk with rfl | hk
      · cases hq
      rcases List.mem_append.1 hk with hk | hk
      · rw [h.flat k ((hgets.mem_iff k).1 (mem_own_iff.1 hk).1).1] at hq
        cases hq
      · obtain ⟨d, -, q', ng, rfl, -, -, hall⟩ := h.standsFor_of_mem_nested hinner hk
        exact List.mem_singleton.1 hq ▸ hall

/-- The conditions that stand for outermost collections. -/
theorem standsFor_demand (hr : p.toExistence joins = .ok r)
    (he : r.plan = p.withExistence (Collections.ofPlan p joins)) {k : Condition}
    (hroot : root ∈ absorbed p (Collections.ofPlan p joins))
    (hb : demand p (Collections.ofPlan p joins) root = some k) :
    k ∈ r.plan.topConditions ∧ ∃ d ∈ joins, d.aliasName = root ∧ k.StandsFor p d := by
  have hF := JoinTree.isForest h.tables h.mem_joins
  obtain ⟨hroots, hs, -⟩ := mem_absorbed_iff.1 hroot
  obtain ⟨hcol, habove⟩ := hF.mem_roots_iff.1 hroots
  have hk : k ∈ r.plan.topConditions := by
    rw [he, topConditions_withExistence hF]
    exact (mem_rewritten_iff hF).2 (.inr ⟨root, hroot, hb⟩)
  obtain ⟨d, hd, rfl⟩ := (JoinTree.isCollection_iff h.tables h.mem_joins).1 hcol
  refine ⟨hk, d, hd, rfl, h.standsFor_build? hparted hd ?_ (h.gets_sentTo hroots hs) hb
    ((h.nodup_allAliases_toExistence hr).1.sublist ?_)⟩
  · rw [habove]
    exact Nat.lt_succ_self _
  · obtain ⟨m, e, -, -, rfl | rfl⟩ := build?_cases hb <;>
      exact sublist_allAliases_of_nested
        (mem_nestedPlans_iff.2 (.inr (.inl ⟨_, hk, List.mem_singleton_self _⟩)))

omit h hparted in
/-- A disjunction stays as it is. -/
theorem founded_withExistence {t : Collections} (hF : t.IsForest) (hfounded : p.Founded) :
    (p.withExistence t).Founded := by
  refine founded_of_ofTop rfl fun hd cs hcs => ?_
  rcases (mem_rewritten_iff hF).1 hcs with ⟨hcs, -⟩ | ⟨root, -, hb⟩
  · exact hfounded.of_mem hd hcs
  · obtain ⟨m, j, -, -, he | he⟩ := build?_cases hb <;> cases he

/-- The rewritten plan and the subqueries inside it. -/
theorem mirrors_toExistence (hplain : ∀ s ∈ p.selects, s.implied = []) (hfounded : p.Founded)
    (hr : p.toExistence joins = .ok r) : r.plan.Everywhere p.Mirrors := by
  have hF := JoinTree.isForest h.tables h.mem_joins
  rcases toExistence_cases hr with ⟨-, he⟩ | he
  · rw [he]
    exact h.mirrors_self hplain hfounded hparted
  have hdemand : ∀ {root k}, root ∈ absorbed p (Collections.ofPlan p joins) →
      demand p (Collections.ofPlan p joins) root = some k → k ∈ r.plan.topConditions ∧
        ∃ d ∈ joins, d.aliasName = root ∧ k.StandsFor p d := h.standsFor_demand hparted hr he
  have htop : r.plan.topConditions = rewritten p (Collections.ofPlan p joins) :=
    he ▸ topConditions_withExistence hF
  have hmem := fun {k} => htop ▸ mem_rewritten_iff (p := p) (k := k) hF
  refine .intro ?_ fun q hq => ?_
  · refine h.mirrors_of_filter (fun a => ∀ root ∈ absorbed p (Collections.ofPlan p joins),
      root ∉ (Collections.ofPlan p joins).above a) [] hplain
      (fun t => ?_) (List.forall_mem_nil _) (by rw [he])
      (he ▸ founded_withExistence hF hfounded) (by rw [he]) (by rw [he])
      (fun k hk a ha => ?_) (fun k hk a ha hm hP => ?_) (fun k hk a ha hP => ?_)
      fun j hj hneeded hP => ?_
    · rw [mem_tables_toExistence h.tables h.mem_joins hr, h.tables]
      simp
    · rcases hmem.1 hk with ⟨hk, hroute⟩ | ⟨root, hroot, hb⟩
      · have ha := ((hparted k hk).mem_implied_iff.1 ha).2
        exact ⟨h.reads k hk a ha, not_mem_above_of_route? h.tables h.mem_joins hk hroute a ha⟩
      · obtain ⟨-, d, -, -, query, negate, rfl, -⟩ := hdemand hroot hb
        cases ha
    · rcases hmem.1 hk with ⟨hk, -⟩ | ⟨root, hroot, hb⟩
      · exact .asked (h.mem_ownReferences_iff.2 (.inr ⟨k, hk, ha⟩))
      · obtain ⟨-, d, hd, -, hstands⟩ := hdemand hroot hb
        refine (h.needed_or_mem_allAliases_of_standsFor hd hstands ha).resolve_right ?_
        -- the tables of a subquery have other names than those that are left
        rintro ⟨q, hq, ha⟩
        exact not_mem_names_of_nested (h.nodup_allAliases_toExistence hr).1
          (mem_nestedPlans_iff.2 (.inr (.inl ⟨k, hk, hq⟩))) ha
          ((mem_aliases_toExistence h.tables h.mem_joins hr).2 ⟨hm, hP⟩)
    · refine ⟨k, hmem.2 (.inl ⟨hk, fun root hroot hroute => ?_⟩), ha⟩
      -- what was asked for goes to a collection only if it reads nothing else
      obtain ⟨hp, ha⟩ := (hparted k hk).mem_references_iff.1 ha
      exact hP root hroot ((of_route? hF hroute).2.2.2 hp a ha)
    · by_cases hPj : ∀ root ∈ absorbed p (Collections.ofPlan p joins),
          root ∉ (Collections.ofPlan p joins).above j.aliasName
      · exact .inl hPj
      push Not at hPj
      obtain ⟨root, hroot, hin⟩ := hPj
      have hname : j.aliasName = root := by
        by_contra hne
        exact hP root hroot (JoinTree.parent_mem_above h.tables h.mem_joins hj hin hne)
      obtain ⟨-, -, k, hb⟩ := mem_absorbed_iff.1 hroot
      obtain ⟨hk, d, hd, hd', query, negate, rfl, -⟩ := hdemand hroot hb
      obtain rfl := JoinTree.eq_of_aliasName (h.mem_joins d hd) hj (hd'.trans hname.symm)
      refine .inr (Needed.asked (List.mem_append_left _ (List.mem_append_left _
        (List.mem_append_right _ (mem_references_condition_iff.2 ⟨_, hk, ?_⟩))))).stays
      exact List.mem_append_left _ (List.mem_singleton_self _)
  · rcases mem_nestedPlans_iff.1 hq with ⟨t, ht, hq⟩ | ⟨k, hk, hq⟩ | ⟨s, hs, hq⟩
    · rw [tables_toExistence hr] at ht
      rw [h.plans_tables t (List.mem_filter.1 ht).1] at hq
      cases hq
    · rcases hmem.1 hk with ⟨hk, -⟩ | ⟨root, hroot, hb⟩
      · rw [h.flat k hk] at hq
        cases hq
      · obtain ⟨-, d, -, -, query, negate, rfl, -, -, hall⟩ := hdemand hroot hb
        exact List.mem_singleton.1 hq ▸ hall
    · rw [he] at hs
      rw [(h.selects s hs).1] at hq
      cases hq

end Plan.Gathered

end EntityQuery
