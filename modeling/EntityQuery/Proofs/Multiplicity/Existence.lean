import EntityQuery.Proofs.Multiplicity.Reduced

/-!
# Existence conditions instead of collections

Each condition of a draft reads one table, so the collections that stay joins are those of which
nothing was asked.  The condition that stands for a collection refers to the tables that belong to
it and to the table that it is joined to.

* `Existence.references_build?`: what the condition of a collection refers to;
* `Draft.Regular.reduced_toExistence`: the rewritten plan of a draft is reduced.
-/

namespace EntityQuery

open Existence

/-- What a subquery without order refers to. -/
theorem Existence.references_subquery {tables : List Table} {conditions : List Condition} :
    (subquery tables conditions).references ⊆
      Condition.referencesOf conditions ++ Table.referencesOf tables := by
  intro a ha
  rcases Plan.mem_references_iff.1 ha with h | h | ⟨k, hk, -⟩ | ⟨c, hc, -⟩ | h
  · simp [subquery, Select.referencesOf, Select.aliases] at h
  · exact List.mem_append_left _ h
  · cases hk
  · cases hc
  · exact List.mem_append_right _ h

theorem Condition.references_correlation {j : Join} :
    (Condition.raw (.correlation j.parent j.own)).references =
      [j.parent.aliasName, j.own.aliasName] := rfl

section

variable {T : JoinTree} {p : Plan} {joins : List Join} (hT : p.tables = T.tables)
  (hjoins : ∀ j ∈ joins, j ∈ T.joins)

include hT hjoins

/-- The joins of a subquery refer to tables that belong to its collection. -/
theorem JoinTree.of_mem_referencesOf_subqueryTables {ts : List Table}
    (hts : ∀ j, .join j ∈ ts → j ∈ T.joins) {c : String} {names : List String}
    (hnames : ∀ a ∈ names, c ∈ (Collections.ofPlan p joins).above a) {a : String}
    (ha : a ∈ Table.referencesOf (subqueryTables ts c names)) :
    c ∈ (Collections.ofPlan p joins).above a ∨ ∃ x fromAlias query,
      .lateral x fromAlias query ∈ ts ∧ (a = fromAlias ∨ a ∈ query.references) := by
  have hmem : ∀ t ∈ subqueryTables ts c names, (∃ x table, t = .primary x table) ∨
      t ∈ ts ∧ t.aliasName ∈ names ∧ (t.join?.isSome → t.aliasName ≠ c) := by
    intro t ht
    obtain ⟨x, hx, rfl⟩ := List.mem_map.1 ht
    obtain ⟨hx, hn⟩ := List.mem_filter.1 hx
    rw [decide_eq_true_iff] at hn
    cases x with
    | join j =>
      by_cases hne : j.aliasName = c
      · exact .inl ⟨_, _, if_pos hne⟩
      · simp only [if_neg hne]
        exact .inr ⟨hx, hn, fun _ => hne⟩
    | _ => exact .inr ⟨hx, hn, nofun⟩
  rcases Table.mem_referencesOf_iff.1 ha with ⟨j, hj, rfl⟩ | ⟨x, fromAlias, query, hx, ha⟩
  · rcases hmem _ hj with ⟨x, table, he⟩ | ⟨hj, hn, hne⟩
    · cases he
    · exact .inl (JoinTree.parent_mem_above hT hjoins (hts j hj) (hnames _ hn) (hne rfl))
  · rcases hmem _ hx with ⟨x, table, he⟩ | ⟨hx, -⟩
    · cases he
    · exact .inr ⟨x, fromAlias, query, hx, ha⟩

/-- The condition that stands for a collection refers to the tables that belong to the collection,
and to the table that the collection is joined to. -/
theorem Existence.references_build? {n : Nat} {j : Join} {conditions : List Condition}
    {q : Condition} (hj : j ∈ joins) (hflat : ∀ k ∈ conditions, k.plans = [])
    (hinside : ∀ k ∈ conditions, ∀ a ∈ k.aliases,
      j.aliasName ∈ (Collections.ofPlan p joins).above a)
    (hq : build? p.tables (Collections.ofPlan p joins) n j.aliasName conditions = some q) :
    ∀ a ∈ q.references, a = j.parent.aliasName ∨
      j.aliasName ∈ (Collections.ofPlan p joins).above a := by
  have hF := JoinTree.isForest hT hjoins
  induction n generalizing j conditions q with
  | zero => cases hq
  | succ n ih =>
    have hjT := hjoins j hj
    have hself := hF.mem_above_self ((JoinTree.isCollection_iff hT hjoins).2 ⟨j, hj, rfl⟩)
    have hcorrelation : ∀ a ∈ (Condition.raw (.correlation j.parent j.own)).references,
        a = j.parent.aliasName ∨ j.aliasName ∈ (Collections.ofPlan p joins).above a := by
      intro a ha
      rw [Condition.references_correlation, T.ordered.own_aliasName j hjT] at ha
      rcases List.mem_pair.1 ha with rfl | rfl
      · exact .inl rfl
      · exact .inr hself
    have hsubquery : ∀ {names : List String} {cs : List Condition} {negate : Bool},
        (∀ a ∈ names, j.aliasName ∈ (Collections.ofPlan p joins).above a) →
        (∀ k ∈ cs, ∀ a ∈ k.references, a = j.parent.aliasName ∨
          j.aliasName ∈ (Collections.ofPlan p joins).above a) →
        ∀ a ∈ (Condition.existence (subquery (subqueryTables p.tables j.aliasName names) cs) negate
          [j.parent.aliasName]).references, a = j.parent.aliasName ∨
            j.aliasName ∈ (Collections.ofPlan p joins).above a := by
      intro names cs negate hnames hcs a ha
      rcases List.mem_append.1 ha with ha | ha
      · exact .inl (List.mem_singleton.1 ha)
      · rcases List.mem_append.1 (references_subquery ha) with ha | ha
        · obtain ⟨k, hk, ha⟩ := Condition.mem_referencesOf_iff.1 ha
          exact hcs k hk a ha
        · refine .inr ((JoinTree.of_mem_referencesOf_subqueryTables hT hjoins (fun j' hj' => ?_)
            hnames ha).resolve_right ?_)
          · simpa [hT, JoinTree.tables] using hj'
          · rintro ⟨x, fromAlias, query, hx, -⟩
            simp [hT, JoinTree.tables] at hx
    rw [build?_succ ((JoinTree.join?_iff hT hjoins).2 ⟨hj, rfl⟩)] at hq
    split_ifs at hq
    · rw [← Option.some.inj hq]
      exact hsubquery (List.forall_mem_singleton.2 hself) (List.forall_mem_singleton.2 hcorrelation)
    · rw [← Option.some.inj hq]
      refine hsubquery (fun a ha => ((mem_kept_iff hF).1 ha).1) fun k hk => ?_
      rcases List.mem_cons.1 hk with rfl | hk
      · exact hcorrelation
      rcases List.mem_append.1 hk with hk | hk
      · have hk' := (mem_own_iff.1 hk).1
        exact fun a ha =>
          .inr (hinside k hk' a (Condition.references_subset_aliases (hflat k hk') ha))
      · -- a nested collection and the table that it is joined to belong to the collection
        obtain ⟨d, hd, -, hb⟩ := mem_nested_iff.1 hk
        obtain ⟨hcol, -, b, hp, hnear⟩ := hF.above_of_mem_childrenOf hd
        obtain ⟨j', hj', rfl⟩ := (JoinTree.isCollection_iff hT hjoins).1 hcol
        rw [JoinTree.parent?_of_mem hT (hjoins j' hj'), Option.some.injEq] at hp
        intro a ha
        rcases ih hj' (fun k' hk' => hflat k' (mem_sent_iff.1 hk').1)
          (fun k' hk' => (of_only? (mem_sent_iff.1 hk').2).2.2) hb a ha with rfl | hm
        · exact .inr (hp ▸ Collections.IsForest.mem_above_of_nearest hnear)
        · exact .inr (hF.mem_above_of_mem_childrenOf hd hm)

end

/-! ### The rewritten plan -/

namespace Draft

variable {schema : Schema} {a table : String} {d : Draft} {T : JoinTree} {r : Resolved}

/-- The outermost collections that stay joins. -/
def leftJoined (d : Draft) : List String :=
  d.tree.roots.filter (· ∉ absorbed d.toPlan d.tree)

/-- A condition on one table goes to the outermost collection that the table belongs to. -/
theorem route?_of_on (hF : d.tree.IsForest) {k : Condition} {b root : String} (hk : k.On b)
    (hroot : root ∈ d.tree.roots) (hb : b ∈ k.aliases) (hm : root ∈ d.tree.above b) :
    route? d.tree k = some root :=
  route?_of_forall hF hroot (List.ne_nil_of_mem hb) fun a ha => by rwa [hk.reads a ha]

/-- A table of a collection that becomes a condition belongs to none that stays joined. -/
theorem not_under_leftJoined_of_absorbed (hF : d.tree.IsForest) {b root : String}
    (hroot : root ∈ absorbed d.toPlan d.tree) (hm : root ∈ d.tree.above b) :
    ¬ d.tree.Under d.leftJoined b := by
  rintro ⟨root', hroot', hm'⟩
  obtain ⟨hroot', hleft⟩ := List.mem_filter.1 hroot'
  have hsame : root = root' := hF.root_unique (mem_absorbed_iff.1 hroot).1 hroot' hm hm'
  rw [decide_eq_true_iff] at hleft
  exact hleft (hsame ▸ hroot)

/-- The tables of the rewritten plan are the primary one and the joined ones that belong to no
collection that becomes a condition. -/
theorem tables_toExistence (hg : d.toPlan.Gathered T d.collections)
    (hr : d.toPlan.toExistence d.collections = .ok r) :
    r.plan.tables = .primary T.aliasName T.table ::
      (T.joins.map .join).filter fun x => x.aliasName ∉
        (absorbed d.toPlan d.tree).flatMap d.tree.subtree := by
  have hF : d.tree.IsForest := JoinTree.isForest hg.tables hg.mem_joins
  have hprimary : (Table.primary T.aliasName T.table).aliasName ∉
      (absorbed d.toPlan d.tree).flatMap d.tree.subtree := by
    rw [List.mem_flatMap]
    rintro ⟨root, -, hm⟩
    exact JoinTree.not_mem_above_primary hg.tables hg.mem_joins (hF.mem_subtree_iff.1 hm)
  rw [Plan.tables_toExistence hr, hg.tables, JoinTree.tables, List.filter_cons,
    if_pos (decide_eq_true hprimary)]

namespace Regular

variable (h : d.Regular schema a table)

include h

/-- No collection is read together with other tables. -/
theorem spoiled_eq_nil (hF : d.tree.IsForest) : spoiled d.tree d.toPlan.topConditions = [] := by
  refine List.eq_nil_iff_forall_not_mem.2 fun root hm => ?_
  rw [spoiled, mem_foldl_insertNew, List.mem_flatMap] at hm
  rcases hm with hm | ⟨k, hk, hm⟩
  · cases hm
  · obtain ⟨hk, hnone⟩ := List.mem_filter.1 hk
    obtain ⟨b, -, hon⟩ := h.single_of_mem_topConditions k hk
    obtain ⟨hroot, b', hb', hm⟩ := (mem_rootsReferenced_iff hF).1 hm
    obtain rfl := hon.reads b' hb'
    rw [decide_eq_true_iff, route?_of_on hF hon hroot hb' hm] at hnone
    cases hnone

/-- The conditions that go to a collection read tables that belong to it. -/
theorem inside_of_sentTo (hF : d.tree.IsForest) {root : String} :
    ∀ k ∈ sentTo (route? d.tree) root d.toPlan.topConditions, ∀ b ∈ k.aliases,
      root ∈ d.tree.above b := by
  intro k hk b hb
  obtain ⟨hk, hroute⟩ := mem_sentTo_iff.1 hk
  obtain ⟨-, ⟨b', hb', hm⟩, -⟩ := of_route? hF hroute
  obtain ⟨c, -, hon⟩ := h.single_of_mem_topConditions k hk
  rw [hon.reads b hb, ← hon.reads b' hb']
  exact hm

/-- Nothing that was asked for refers to a table of a collection that stays joined. -/
theorem not_under_leftJoined (hF : d.tree.IsForest) {k : Condition}
    (hk : k ∈ d.toPlan.topConditions) : ∀ b ∈ k.references, ¬ d.tree.Under d.leftJoined b := by
  rintro b hb ⟨root, hroot, hm⟩
  obtain ⟨hroot, hleft⟩ := List.mem_filter.1 hroot
  obtain ⟨b', -, hon⟩ := h.single_of_mem_topConditions k hk
  have hread := Condition.references_subset_aliases hon.flat hb
  obtain rfl := hon.reads b hread
  have hroute := route?_of_on hF hon hroot hread hm
  -- nothing stands for the collection, so nothing was asked of it
  have hnone : demand d.toPlan d.tree root = none := by
    by_contra hsome
    obtain ⟨q, hq⟩ := Option.ne_none_iff_exists'.1 hsome
    rw [decide_eq_true_iff] at hleft
    refine hleft (mem_absorbed_iff.2 ⟨hroot, ?_, q, hq⟩)
    rw [h.spoiled_eq_nil hF]
    exact List.not_mem_nil
  obtain ⟨hcol, habove⟩ := hF.mem_roots_iff.1 hroot
  have hfuel : d.tree.collections.length <
      d.tree.collections.length + (d.tree.above root).length := by
    rw [habove, List.length_singleton]
    omega
  have hpruneable := (build?_eq_none_iff hF hcol hfuel).1 hnone k (mem_sentTo_iff.2 ⟨hk, hroute⟩)
  rw [Condition.references_of_isPruneable hpruneable] at hb
  cases hb

/-- The condition of the rewritten plan refers to no table of a collection that stays joined. -/
theorem not_under_leftJoined_toExistence (hg : d.toPlan.Gathered T d.collections)
    (hr : d.toPlan.toExistence d.collections = .ok r) :
    ∀ b ∈ Group.referencesOf r.plan.condition, ¬ d.tree.Under d.leftJoined b := by
  have hF : d.tree.IsForest := JoinTree.isForest hg.tables hg.mem_joins
  rcases Plan.toExistence_cases hr with ⟨hnil, he⟩ | he
  · rw [he]
    rintro b - ⟨root, hroot, -⟩
    have hroot : root ∈ d.tree.roots := (List.mem_filter.1 hroot).1
    have hnil : d.tree.collections = [] := hnil
    rw [Collections.roots, hnil] at hroot
    cases hroot
  · rw [he]
    intro b hb
    obtain ⟨k, hk, hb⟩ := Group.exists_of_mem_referencesOf_ofTop hb
    rcases (mem_rewritten_iff hF).1 hk with ⟨hk, -⟩ | ⟨root, hroot, hq⟩
    · exact h.not_under_leftJoined hF hk b hb
    · obtain ⟨hroots, -, -⟩ := mem_absorbed_iff.1 hroot
      obtain ⟨j, hj, rfl⟩ := (JoinTree.isCollection_iff hg.tables hg.mem_joins).1
        (hF.mem_roots_iff.1 hroots).1
      have hparent : d.tree.above j.parent.aliasName = [] :=
        Collections.IsForest.root?_eq_none_iff.1 (hF.root?_parent_of_root
          (JoinTree.parent?_of_mem hg.tables (hg.mem_joins j hj)) hroots)
      rcases references_build? hg.tables hg.mem_joins hj
        (fun k' hk' => hg.flat k' (mem_sentTo_iff.1 hk').1) (h.inside_of_sentTo hF) hq b hb with
        rfl | hm
      · rintro ⟨root, -, hm⟩
        rw [hparent] at hm
        cases hm
      · exact not_under_leftJoined_of_absorbed hF hroot hm

/-- The rewritten plan of a draft joins no collection but such as will be pruned. -/
theorem reduced_toExistence (hg : d.toPlan.Gathered T d.collections) (ha : T.aliasName = a)
    (htable : T.table = table) (hr : d.toPlan.toExistence d.collections = .ok r) :
    r.plan.Reduced schema (d.tree.Under d.leftJoined) a table := by
  have hF : d.tree.IsForest := JoinTree.isForest hg.tables hg.mem_joins
  have hrest : r.plan.selects = d.selects ∧ r.plan.sortKeys = [] ∧ r.plan.groupBys = none := by
    rcases Plan.toExistence_cases hr with ⟨-, he⟩ | he
    · rw [he]
      exact ⟨rfl, rfl, rfl⟩
    · rw [he]
      exact ⟨rfl, rfl, rfl⟩
  refine h.reduced hg d.leftJoined ha (ha ▸ htable ▸ tables_toExistence hg hr)
    (fun t ht => ?_) (fun b hb => ?_) hrest.1 hrest.2.1 hrest.2.2
    (h.not_under_leftJoined_toExistence hg hr)
  · obtain ⟨ht, hout⟩ := List.mem_filter.1 ht
    obtain ⟨j, hj, rfl⟩ := List.mem_map.1 ht
    refine .inl ⟨j, rfl, (mem_joins_iff hg).2 hj, fun hcol => ?_⟩
    -- its outermost collection was not rewritten, for then it would be gone
    have hself := hF.mem_above_self
      ((JoinTree.isCollection_iff hg.tables hg.mem_joins).2 ⟨j, hcol, rfl⟩)
    obtain ⟨root, hroot⟩ := Option.ne_none_iff_exists'.1 fun hnone => List.ne_nil_of_mem hself
      (Collections.IsForest.root?_eq_none_iff.1 hnone)
    obtain ⟨hroot, hm⟩ := hF.root?_eq_some_iff.1 hroot
    refine ⟨root, List.mem_filter.2 ⟨hroot, decide_eq_true fun habsorbed => ?_⟩, hm⟩
    rw [decide_eq_true_iff] at hout
    exact hout (List.mem_flatMap.2 ⟨root, habsorbed, hF.mem_subtree_iff.2 hm⟩)
  · have hleft := hb
    obtain ⟨root, -, hm⟩ := hb
    obtain ⟨j, hj, rfl⟩ := JoinTree.exists_join_of_mem_above hg.tables hg.mem_joins hm
    exact (Plan.mem_aliases_toExistence hg.tables hg.mem_joins hr).2
      ⟨JoinTree.aliasName_mem hj, fun root' hroot' hm' =>
        not_under_leftJoined_of_absorbed hF hroot' hm' hleft⟩

end Regular

end Draft

end EntityQuery
