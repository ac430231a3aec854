import EntityQuery.Proofs.Blank.Passes

/-!
# Strategies and collections that are asked to have no row

Whatever a strategy does with a collection of which nothing is asked but that it has no id, the plan
asks for no linked row.  As an existence condition the collection becomes a subquery that asks for
nothing but the link; as a lateral aggregate it becomes a count of the linked rows.

* `Collections.Sole`: a collection that is the only one;
* `Plan.Absence`: a collection of which nothing is asked but that it has no id;
* `Plan.toExistence_absent`, `Plan.toLateral_absent`: what becomes of it;
* `Plan.resolveCollections_absent`: the plan asks for no linked row.
-/

namespace EntityQuery

/-- A collection without siblings becomes a subquery. -/
def Strategy.rewrites (threshold : Nat) : Strategy → Bool
  | .existence => true
  | .lateral force => force || threshold ≤ 1
  | .keep => false

/-- The condition that the row of a join has no id. -/
def Join.absent (j : Join) (ty : String) : Condition :=
  .column (.asked j.aliasName "id" ty .isNull)

/-- The subquery that tells whether there are rows, by a count. -/
def Join.count (j : Join) (tables : List Table) : Plan :=
  ⟨[.countIsZero (Lateral.columnName 0)], tables, some (.all [.raw (.correlation j.parent j.own)]), [],
    none, none⟩

/-- The join is that of the only collection, and these are the tables that belong to it. -/
structure Collections.Sole (t : Collections) (j : Join) (names : List String) : Prop where
  forest : t.IsForest
  collections : t.collections = [j.aliasName]
  join : t.join? j.aliasName = some j
  above : ∀ a c, c ∈ t.above a ↔ c = j.aliasName ∧ a ∈ names

/-- A collection with the tables of bases behind it, and the conditions that came with them. -/
structure Plan.Absence (p : Plan) (j : Join) (bs : List Join) (ks : List Condition) : Prop where
  ordered : Join.Ordered (p.tables.map Table.aliasName) (j :: bs)
  behind : ∀ b ∈ bs, b.kind = .outer ∧ b.parent.aliasName = j.aliasName
  idle : ∀ k ∈ ks, k.Idle ((j :: bs).map (·.aliasName))

/-! ### The only collection -/

namespace Collections.Sole

variable {t : Collections} {j : Join} {names : List String}

theorem self_mem (h : t.Sole j names) : j.aliasName ∈ names := by
  have hc : j.aliasName ∈ t.collections := h.collections ▸ List.mem_singleton_self _
  exact ((h.above _ _).1 (h.forest.mem_above_self (h.forest.mem_collections_iff.1 hc))).2

theorem above_eq_nil (h : t.Sole j names) {a : String} (ha : a ∉ names) : t.above a = [] :=
  List.eq_nil_iff_forall_not_mem.2 fun _ hc => ha ((h.above _ _).1 hc).2

theorem above_eq (h : t.Sole j names) {a : String} (ha : a ∈ names) : t.above a = [j.aliasName] := by
  refine List.perm_singleton.1 ((List.perm_ext_iff_of_nodup h.forest.nodup_above
    (List.nodup_singleton _)).2 fun c => ?_)
  rw [h.above, List.mem_singleton, and_iff_left ha]

theorem mem_roots (h : t.Sole j names) : j.aliasName ∈ t.roots := by
  have hc : j.aliasName ∈ t.collections := h.collections ▸ List.mem_singleton_self _
  exact h.forest.mem_roots_iff.2 ⟨h.forest.mem_collections_iff.1 hc, h.above_eq h.self_mem⟩

theorem eq_of_mem_roots (h : t.Sole j names) {r : String} (hr : r ∈ t.roots) : r = j.aliasName := by
  have hc := h.forest.mem_collections_iff.2 (h.forest.mem_roots_iff.1 hr).1
  rw [h.collections] at hc
  exact List.mem_singleton.1 hc

theorem mem_subtree_iff (h : t.Sole j names) {a : String} :
    a ∈ t.subtree j.aliasName ↔ a ∈ names := by
  rw [h.forest.mem_subtree_iff, h.above, and_iff_right rfl]

end Collections.Sole

/-- The first of the joins is the only collection. -/
theorem Plan.collections_pad {p : Plan} {j : Join} {bs : List Join} {cs : List Condition}
    (hp : p.Bare) (h : Join.Ordered (p.tables.map Table.aliasName) (j :: bs)) :
    (Collections.ofPlan (p.pad (j :: bs) cs) [j]).collections = [j.aliasName] ∧
      (Collections.ofPlan (p.pad (j :: bs) cs) [j]).join? j.aliasName = some j := by
  obtain ⟨T, hT, hsub, -⟩ := @exists_tree_pad p (j :: bs) cs hp h
  have hjoins : ∀ j' ∈ [j], j' ∈ T.joins :=
    List.forall_mem_singleton.2 (hsub List.mem_cons_self)
  have hF := JoinTree.isForest hT hjoins
  refine ⟨List.perm_singleton.1 ((List.perm_ext_iff_of_nodup (hF.nodup_aliases.filter _)
    (List.nodup_singleton _)).2 fun c => ?_), (JoinTree.join?_iff hT hjoins).2
      ⟨List.mem_singleton_self j, rfl⟩⟩
  rw [← Collections.collections, hF.mem_collections_iff, JoinTree.isCollection_iff hT hjoins]
  simp [eq_comm]

namespace Plan.Absence

variable {p : Plan} {j : Join} {bs : List Join} {ks cs : List Condition}

/-- The only collection of the plan with its joins. -/
theorem sole (h : p.Absence j bs ks) (hp : p.Bare) :
    (Collections.ofPlan (p.pad (j :: bs) cs) [j]).Sole j ((j :: bs).map (·.aliasName)) := by
  obtain ⟨T, hT, hsub, hnames⟩ := @exists_tree_pad p (j :: bs) cs hp h.ordered
  have hjoins : ∀ j' ∈ [j], j' ∈ T.joins :=
    List.forall_mem_singleton.2 (hsub List.mem_cons_self)
  have hF := JoinTree.isForest hT hjoins
  obtain ⟨hcollections, hjoin⟩ := @collections_pad p j bs cs hp h.ordered
  have hc : ∀ c, (Collections.ofPlan (p.pad (j :: bs) cs) [j]).isCollection c ↔ c = j.aliasName :=
    fun c => by rw [← hF.mem_collections_iff, hcollections, List.mem_singleton]
  refine ⟨hF, hcollections, hjoin, fun a c => ⟨fun hm => ?_, ?_⟩⟩
  · refine ⟨(hc c).1 (Collections.mem_above.1 hm).2, ?_⟩
    obtain ⟨j', hj', rfl⟩ := JoinTree.exists_join_of_mem_above hT hjoins hm
    have hmem := JoinTree.aliasName_mem hj'
    rw [hnames] at hmem
    refine (List.mem_append.1 hmem).resolve_left fun hbare => ?_
    rw [above_pad hp h.ordered (List.cons_subset.2 ⟨List.mem_cons_self, List.nil_subset _⟩) hbare]
      at hm
    cases hm
  · rintro ⟨rfl, ha⟩
    have hself := hF.mem_above_self ((hc _).2 rfl)
    obtain ⟨j', hj', rfl⟩ := List.mem_map.1 ha
    rcases List.mem_cons.1 hj' with rfl | hb
    · exact hself
    · refine hF.mem_above_of_parent (JoinTree.parent?_of_mem hT (hsub hj')) ?_
      rwa [(h.behind j' hb).2]

theorem disjoint (h : p.Absence j bs ks) :
    ∀ a ∈ p.tables.map Table.aliasName, a ∉ (j :: bs).map (·.aliasName) := by
  intro a ha hm
  obtain ⟨j', hj', rfl⟩ := List.mem_map.1 hm
  exact h.ordered.alias_not_mem j' hj' ha

/-- The tables of a subquery on the collection. -/
theorem subqueryTables_pad (h : p.Absence j bs ks) {names : List String}
    (hmem : j.aliasName ∈ names) (hout : ∀ a ∈ p.tables.map Table.aliasName, a ∉ names) :
    subqueryTables (p.pad (j :: bs) cs).tables j.aliasName names =
      .primary j.aliasName j.table :: (bs.filter (·.aliasName ∈ names)).map .join := by
  have hfront : p.tables.filter (·.aliasName ∈ names) = [] :=
    List.filter_eq_nil_iff.2 fun t ht => by simpa using hout _ (List.mem_map_of_mem ht)
  have hbehind : ((j :: bs).map Table.join).filter (·.aliasName ∈ names) =
      .join j :: (bs.filter (·.aliasName ∈ names)).map .join := by
    have hj : (j :: bs).filter (·.aliasName ∈ names) = j :: bs.filter (·.aliasName ∈ names) :=
      List.filter_cons_of_pos (decide_eq_true hmem)
    rw [List.filter_map]
    exact congrArg (List.map Table.join) hj
  have hnd := h.ordered.nodup
  rw [List.map_cons, List.nodup_cons] at hnd
  rw [subqueryTables, tables_pad, List.filter_append, hfront, List.nil_append, hbehind, List.map_cons,
    List.map_map]
  refine congrArg₂ _ (if_pos rfl) (List.map_congr_left fun b hb => if_neg fun he => ?_)
  exact hnd.1 (he ▸ List.mem_map_of_mem (List.mem_filter.1 hb).1)

/-- The tables that do not belong to the collection. -/
theorem filter_tables_pad (h : p.Absence j bs ks) {names : List String}
    (hnames : ∀ a, a ∈ names ↔ a ∈ (j :: bs).map (·.aliasName)) :
    (p.pad (j :: bs) cs).tables.filter (·.aliasName ∉ names) = p.tables := by
  have hfront : p.tables.filter (·.aliasName ∉ names) = p.tables :=
    List.filter_eq_self.2 fun t ht => by
      simpa [hnames] using h.disjoint _ (List.mem_map_of_mem ht)
  have hbehind : ((j :: bs).map Table.join).filter (·.aliasName ∉ names) = [] :=
    List.filter_eq_nil_iff.2 fun t ht => by
      obtain ⟨b, hb, rfl⟩ := List.mem_map.1 ht
      have hmem : b.aliasName ∈ names := (hnames _).2 (List.mem_map_of_mem hb)
      exact fun hd => of_decide_eq_true hd hmem
  rw [tables_pad, List.filter_append, hfront, hbehind, List.append_nil]

theorem own_eq (h : p.Absence j bs ks) : j.own = ⟨j.aliasName, j.own.column⟩ := by
  have hown := h.ordered.own_aliasName j List.mem_cons_self
  cases hj : j.own
  rw [hj] at hown
  rw [← hown]

/-- The conditions that are not about the collection. -/
theorem not_mem_of_aliases (h : p.Absence j bs ks) (hp : p.Bare) {k : Condition}
    (hk : k ∈ p.topConditions) : ∀ a ∈ k.aliases, a ∉ (j :: bs).map (·.aliasName) :=
  fun a ha => h.disjoint a ((hp.flat k hk).2 a ha)

/-- The conditions about the collection are on one table each. -/
theorem exists_aliases (h : p.Absence j bs ks) {ty : String} {k : Condition}
    (hk : k ∈ ks ++ [j.absent ty]) : ∃ a ∈ (j :: bs).map (·.aliasName), k.aliases = [a] := by
  rcases List.mem_append.1 hk with hk | hk
  · exact (h.idle k hk).exists_aliases
  · rw [List.mem_singleton.1 hk]
    exact ⟨j.aliasName, List.mem_cons_self, rfl⟩

/-- No condition is a fragment of text. -/
theorem spanningOf?_eq_none (h : p.Absence j bs ks) (hp : p.Bare) {ty : String}
    {ownerOf : String → Option String} :
    Condition.spanningOf? ownerOf (p.pad (j :: bs) (ks ++ [j.absent ty])).topConditions = none := by
  have hcolumns : ∀ k ∈ (p.pad (j :: bs) (ks ++ [j.absent ty])).topConditions, ∃ c, k = .column c := by
    rw [topConditions_pad]
    refine List.forall_mem_append.2 ⟨fun k hk => (hp.conditions k hk).imp fun _ hc => hc.1,
      List.forall_mem_append.2 ⟨fun k hk => (h.idle k hk).imp fun _ hc => hc.1,
        List.forall_mem_singleton.2 ⟨_, rfl⟩⟩⟩
  revert hcolumns
  induction (p.pad (j :: bs) (ks ++ [j.absent ty])).topConditions with
  | nil => exact fun _ => rfl
  | cons k cs ih =>
    intro hcolumns
    obtain ⟨⟨c, rfl⟩, hcs⟩ := List.forall_mem_cons.1 hcolumns
    exact ih hcs

end Plan.Absence

/-! ### Existence conditions -/

namespace Existence

variable {t : Collections} {j : Join} {names : List String} {ks : List Condition} {ty : String}

theorem isMissing_absent : (j.absent ty).isMissing j.aliasName = true := by
  simp [Join.absent, Condition.isMissing, ColumnCondition.asked, Predicate.isNullTest]

/-- What is said of the only collection reaches it. -/
theorem routed_absent (h : t.Sole j names) (hks : ∀ k ∈ ks, k.Idle names) :
    Routed t j.aliasName (ks ++ [j.absent ty]) where
  flat := List.forall_mem_append.2 ⟨fun k hk => by obtain ⟨c, rfl, -⟩ := hks k hk; rfl,
    List.forall_mem_singleton.2 rfl⟩
  touches := by
    refine List.forall_mem_append.2 ⟨fun k hk => ?_, List.forall_mem_singleton.2
      ⟨_, List.mem_singleton_self _, (h.above _ _).2 ⟨rfl, h.self_mem⟩⟩⟩
    obtain ⟨a, ha, hk⟩ := (hks k hk).exists_aliases
    exact ⟨a, hk ▸ List.mem_singleton_self a, (h.above _ _).2 ⟨rfl, ha⟩⟩
  inside := by
    refine List.forall_mem_append.2 ⟨fun k hk hp => ?_, List.forall_mem_singleton.2 fun _ a ha => ?_⟩
    · rw [(hks k hk).isPruneable] at hp
      cases hp
    · exact (h.above _ _).2 ⟨rfl, List.mem_singleton.1 ha ▸ h.self_mem⟩
  covered k _ _ a _ d hn _ := by
    have hd : d = j.aliasName := ((h.above _ _).1 (Collections.IsForest.mem_above_of_nearest hn)).1
    exact ⟨j.absent ty, List.mem_append_right _ (List.mem_singleton_self _), rfl, j.aliasName,
      List.mem_singleton_self _, (h.above _ _).2 ⟨hd, h.self_mem⟩⟩

end Existence

/-! ### What is asked of the collection -/

namespace Plan.Absence

open Existence

variable {p : Plan} {j : Join} {bs : List Join} {ks : List Condition} {t : Collections} {ty : String}
  (h : p.Absence j bs ks) (hs : t.Sole j ((j :: bs).map (·.aliasName)))

include h hs

theorem route?_bare (hp : p.Bare) : ∀ k ∈ p.topConditions, route? t k = none :=
  fun k hk => route?_eq_none_of_idle hs.forest (hp.conditions k hk) fun _ ha =>
    hs.above_eq_nil (h.disjoint _ ha)

theorem route?_absent : ∀ k ∈ ks ++ [j.absent ty], route? t k = some j.aliasName := by
  intro k hk
  obtain ⟨a, ha, hk⟩ := h.exists_aliases hk
  refine route?_of_forall hs.forest hs.mem_roots (by simp [hk]) fun b hb => ?_
  rw [hk, List.mem_singleton] at hb
  exact (hs.above _ _).2 ⟨rfl, hb ▸ ha⟩

/-- The condition that stands for the collection asks for nothing but the link. -/
theorem demand_absent (hp : p.Bare) :
    demand (p.pad (j :: bs) (ks ++ [j.absent ty])) t j.aliasName =
      some (j.link.denial j.aliasName) := by
  have hsent : sentTo (route? t) j.aliasName (p.pad (j :: bs) (ks ++ [j.absent ty])).topConditions =
      ks ++ [j.absent ty] := by
    rw [Plan.topConditions_pad, sentTo, List.filter_append,
      List.filter_eq_nil_iff.2 fun k hk => by simp [h.route?_bare hs hp k hk],
      List.filter_eq_self.2 fun k hk => by simp [h.route?_absent hs k hk], List.nil_append]
  have hasked : (ks ++ [j.absent ty]).filter (!·.isPruneable) = [j.absent ty] := by
    rw [List.filter_append, List.filter_eq_nil_iff.2 fun k hk => by simp [(h.idle k hk).isPruneable]]
    rfl
  have hlength : t.collections.length = 0 + 1 := by rw [hs.collections]; rfl
  have hfuel : t.collections.length < 0 + 1 + (t.above j.aliasName).length := by
    rw [hs.collections, hs.above_eq hs.self_mem]
    exact Nat.lt_succ_self 1
  have halone : subqueryTables (p.pad (j :: bs) (ks ++ [j.absent ty])).tables j.aliasName
      [j.aliasName] = [.primary j.aliasName j.table] := by
    have hnd := h.ordered.nodup
    rw [List.map_cons, List.nodup_cons] at hnd
    rw [h.subqueryTables_pad (List.mem_singleton_self _) fun a ha hm =>
      h.disjoint a ha (List.mem_singleton.1 hm ▸ List.mem_cons_self),
      List.filter_eq_nil_iff.2 fun b hb => ?_]
    · rfl
    · rw [decide_eq_true_iff, List.mem_singleton]
      exact fun he => hnd.1 (he ▸ List.mem_map_of_mem hb)
  rw [demand, hsent, hlength, build?_of_isMissing hs.forest hs.join hfuel (routed_absent hs h.idle)
    hasked isMissing_absent, halone, h.own_eq]
  rfl

/-- No condition reads the collection together with other tables. -/
theorem not_mem_spoiled (hp : p.Bare) :
    j.aliasName ∉ spoiled t (p.pad (j :: bs) (ks ++ [j.absent ty])).topConditions := by
  intro hm
  rw [spoiled, mem_foldl_insertNew, List.mem_flatMap] at hm
  obtain ⟨k, hk, hroot⟩ := hm.resolve_left List.not_mem_nil
  rw [staying, List.mem_filter, decide_eq_true_iff, Plan.topConditions_pad, List.mem_append] at hk
  obtain ⟨hk | hk, hnone⟩ := hk
  · obtain ⟨-, a, ha, hm⟩ := (mem_rootsReferenced_iff hs.forest).1 hroot
    exact h.not_mem_of_aliases hp hk a ha ((hs.above _ _).1 hm).2
  · rw [h.route?_absent hs k hk] at hnone
    cases hnone

theorem absorbed_absent (hp : p.Bare) :
    absorbed (p.pad (j :: bs) (ks ++ [j.absent ty])) t = [j.aliasName] := by
  have hnd : (absorbed (p.pad (j :: bs) (ks ++ [j.absent ty])) t).Nodup :=
    hs.forest.nodup_roots.filter _
  refine List.perm_singleton.1 ((List.perm_ext_iff_of_nodup hnd (List.nodup_singleton _)).2
    fun root => ?_)
  rw [mem_absorbed_iff, List.mem_singleton]
  constructor
  · rintro ⟨hroot, -⟩
    exact hs.eq_of_mem_roots hroot
  · rintro rfl
    exact ⟨hs.mem_roots, h.not_mem_spoiled hs hp, _, h.demand_absent hs hp⟩

end Plan.Absence

namespace Plan

open Existence

variable {p : Plan} {j : Join} {bs : List Join} {ks : List Condition} {ty : String}

/-- The collection becomes a condition that asks for nothing but the link. -/
theorem toExistence_absent (hp : p.Bare) (h : p.Absence j bs ks) :
    ∃ r, (p.pad (j :: bs) (ks ++ [j.absent ty])).toExistence [j] = .ok r ∧
      p.Adds r.plan [] [j.link.denial j.aliasName] := by
  have hspans : ¬ (p.pad (j :: bs) (ks ++ [j.absent ty])).SpansRoots
      (Collections.ofPlan (p.pad (j :: bs) (ks ++ [j.absent ty])) [j]) := by
    rw [← isSome_spanningOf?_iff, h.spanningOf?_eq_none hp]
    exact Bool.false_ne_true
  obtain ⟨r, hr⟩ := exists_toExistence hspans
  refine ⟨r, hr, ?_⟩
  have hs : (Collections.ofPlan (p.pad (j :: bs) (ks ++ [j.absent ty])) [j]).Sole j _ := h.sole hp
  have htables := tables_toExistence hr
  obtain ⟨hnil, -⟩ | hplan := toExistence_cases hr
  · rw [hs.collections] at hnil
    cases hnil
  generalize Collections.ofPlan (p.pad (j :: bs) (ks ++ [j.absent ty])) [j] = t at hs hplan htables
  have hkept : r.plan.tables = p.tables := by
    rw [htables, h.absorbed_absent hs hp, List.flatMap_singleton]
    exact h.filter_tables_pad fun a => hs.mem_subtree_iff
  have htop : r.plan.topConditions = rewritten (p.pad (j :: bs) (ks ++ [j.absent ty])) t := by
    rw [hplan, isDisjunctive_pad]
    exact topConditions_ofTop rfl fun h => by cases h
  refine ⟨by rw [hkept, List.append_nil], ?_, fun k => ?_, fun a ha => by rw [hplan]; exact ha⟩
  · rw [hkept]
    obtain ⟨T, hT⟩ := hp.tables
    rw [hT, T.map_aliasName_tables]
    exact T.nodup_aliases
  · rw [htop, mem_rewritten_iff hs.forest, h.absorbed_absent hs hp, topConditions_pad]
    simp only [List.mem_singleton, forall_eq, exists_eq_left, h.demand_absent hs hp,
      Option.some.injEq]
    refine or_congr ⟨fun hk => (List.mem_append.1 hk.1).resolve_right fun hb =>
      hk.2 (h.route?_absent hs k hb), fun hk => ⟨List.mem_append_left _ hk, fun hsome => ?_⟩⟩ eq_comm
    rw [h.route?_bare hs hp k hk] at hsome
    cases hsome

end Plan

/-! ### Lateral aggregates -/

namespace Lateral

section

variable {t : Collections} {j : Join} {names : List String} (hs : t.Sole j names)

include hs

theorem unit?_of_mem {a : String} (ha : a ∈ names) :
    Scope.unit? ⟨t, [j.aliasName]⟩ a = some j.aliasName := by
  rw [Scope.unit?, List.find?_cons_of_pos]
  exact Collections.inSubtree_iff.2 ((hs.above _ _).2 ⟨rfl, ha⟩)

theorem unit?_of_not_mem {a : String} (ha : a ∉ names) : Scope.unit? ⟨t, [j.aliasName]⟩ a = none :=
  Scope.unit?_eq_none_iff.2 fun _ _ hm => ha ((hs.above _ _).1 hm).2

theorem units_of_mem {k : Condition} (hk : ∃ a ∈ names, k.aliases = [a]) :
    (Scope.units ⟨t, [j.aliasName]⟩ k).1 = [j.aliasName] := by
  obtain ⟨a, ha, hk⟩ := hk
  refine Scope.units_eq_singleton_iff.2 ⟨⟨a, hk ▸ List.mem_singleton_self a, unit?_of_mem hs ha⟩,
    fun b hb v hv => ?_⟩
  rw [hk, List.mem_singleton] at hb
  rw [hb, unit?_of_mem hs ha, Option.some.injEq] at hv
  exact hv.symm

theorem units_of_not_mem {k : Condition} (hk : ∀ a ∈ k.aliases, a ∉ names) :
    (Scope.units ⟨t, [j.aliasName]⟩ k).1 = [] :=
  Scope.units_eq_nil_iff.2 fun a ha => unit?_of_not_mem hs (hk a ha)

theorem topmost_eq : topmost t [j.aliasName] [] = [j.aliasName] := by
  simp [topmost, hs.collections]

end

/-- The only collection has no siblings. -/
theorem eligible_eq {t : Collections} {j : Join} {force : Bool} {threshold : Nat}
    (hc : t.collections = [j.aliasName]) (hj : t.join? j.aliasName = some j) :
    eligible t force threshold =
      if (Strategy.lateral force).rewrites threshold then [j.aliasName] else [] := by
  have hsiblings : siblings t j = 1 := by simp [siblings, hc, hj]
  rw [eligible, hc, List.filter_cons, hj]
  simp [hsiblings, Strategy.rewrites]

/-- Where nothing spans collections, and no collection is read together with other tables, the first
choice is the last. -/
theorem settle_eq_ok {t : Collections} {eligible excluded warnings : List String}
    {top : List Condition} {rounds : Nat}
    (hspans : Condition.spanningOf? (Scope.unit? ⟨t, topmost t eligible excluded⟩) top = none)
    (hpinned : Scope.pinned ⟨t, topmost t eligible excluded⟩ top = []) :
    settle t eligible top rounds excluded warnings =
      .ok (⟨t, topmost t eligible excluded⟩, warnings) := by
  unfold settle
  simp only [hspans, hpinned]

end Lateral

namespace Plan.Absence

open Lateral

variable {p : Plan} {j : Join} {bs : List Join} {ks : List Condition} {t : Collections} {ty : String}
  (h : p.Absence j bs ks) (hs : t.Sole j ((j :: bs).map (·.aliasName)))

include h hs

/-- The collection is read alone. -/
theorem pinned_absent (hp : p.Bare) : Scope.pinned ⟨t, [j.aliasName]⟩
    (p.pad (j :: bs) (ks ++ [j.absent ty])).topConditions = [] := by
  rw [Scope.pinned_eq_nil_iff, topConditions_pad]
  refine List.forall_mem_append.2 ⟨fun k hk _ => ?_, fun k hk _ => ?_⟩
  · exact Scope.pinnedBy_eq_nil_iff.2 (.inl (units_of_not_mem hs (h.not_mem_of_aliases hp hk)))
  · obtain ⟨a, ha, hk⟩ := h.exists_aliases hk
    refine Scope.pinnedBy_eq_nil_iff.2 (.inr (.inl ⟨j.aliasName, Scope.only?_eq_some_iff.2 ?_⟩))
    rw [hk]
    exact ⟨⟨a, List.mem_singleton_self a, unit?_of_mem hs ha⟩,
      List.forall_mem_singleton.2 (unit?_of_mem hs ha)⟩

/-- What came with the tables of the collection guards it. -/
theorem asked_absent (hp : p.Bare) : (p.pad (j :: bs) (ks ++ [j.absent ty])).topConditions.filter
    (!isGuard ⟨t, [j.aliasName]⟩ ·) = p.topConditions ++ [j.absent ty] := by
  have hbare : p.topConditions.filter (!isGuard ⟨t, [j.aliasName]⟩ ·) = p.topConditions :=
    List.filter_eq_self.2 fun k hk => by
      simp [isGuard, units_of_not_mem hs (h.not_mem_of_aliases hp hk)]
  have hidle : ks.filter (!isGuard ⟨t, [j.aliasName]⟩ ·) = [] :=
    List.filter_eq_nil_iff.2 fun k hk => by
      simp [isGuard, (h.idle k hk).isPruneable, units_of_mem hs (h.idle k hk).exists_aliases]
  rw [topConditions_pad, List.filter_append, List.filter_append, hbare, hidle]
  rfl

/-- The test is replaced by a reference to a count. -/
theorem decompose_absent (hp : p.Bare) {aliasOf : String → String} :
    decompose ⟨t, [j.aliasName]⟩ aliasOf .and (p.topConditions ++ [j.absent ty]) []
      (p.topConditions ++ [j.absent ty]) [] =
      (p.topConditions ++ [reference aliasOf j.aliasName (columnName 0)],
        [⟨j.aliasName, .countIsZero (columnName 0)⟩]) := by
  have hunits : ∀ k ∈ p.topConditions, (Scope.units ⟨t, [j.aliasName]⟩ k).1 = [] := fun k hk =>
    units_of_not_mem hs (h.not_mem_of_aliases hp hk)
  have honly : Scope.only? ⟨t, [j.aliasName]⟩ (j.absent ty) = some j.aliasName :=
    Scope.only?_eq_some_iff.2 ⟨⟨_, List.mem_singleton_self _, unit?_of_mem hs List.mem_cons_self⟩,
      List.forall_mem_singleton.2 (unit?_of_mem hs List.mem_cons_self)⟩
  have hmembers : (p.topConditions ++ [j.absent ty]).filter
      (fun m => Scope.only? ⟨t, [j.aliasName]⟩ m = some j.aliasName) = [j.absent ty] := by
    rw [List.filter_append, List.filter_eq_nil_iff.2 fun k hk => ?_, List.filter_singleton]
    · simp [honly]
    · rw [decide_eq_true_iff, Scope.only?_eq_some_iff]
      rintro ⟨⟨a, ha, hu⟩, -⟩
      rw [unit?_of_not_mem hs (h.not_mem_of_aliases hp hk a ha)] at hu
      cases hu
  rw [decompose_idle_append fun k hk => ⟨hp.conditions k hk, hunits k hk⟩, decompose]
  simp only [honly, List.not_mem_nil, if_false, hmembers, decompose, addColumn, asOne, columnOf,
    Existence.isMissing_absent, if_true, selectsOf]
  rfl

end Plan.Absence

namespace Plan

open Lateral

variable {p : Plan} {j : Join} {bs : List Join} {ks : List Condition} {ty holder : String}
  {schema : Schema}

theorem Absence.probes_count (h : p.Absence j bs ks) {t : Collections}
    (hs : t.Sole j ((j :: bs).map (·.aliasName))) {cs : List Condition} :
    (j.count (subqueryTables (p.pad (j :: bs) cs).tables j.aliasName
      (t.subtree j.aliasName))).Probes j.link j.aliasName := by
  have htables : subqueryTables (p.pad (j :: bs) cs).tables j.aliasName (t.subtree j.aliasName) =
      .primary j.aliasName j.table :: bs.map .join := by
    rw [h.subqueryTables_pad (hs.mem_subtree_iff.2 List.mem_cons_self) fun a ha hm =>
      h.disjoint a ha (hs.mem_subtree_iff.1 hm), List.filter_eq_self.2 fun b hb => decide_eq_true
        (hs.mem_subtree_iff.2 (List.mem_map_of_mem (List.mem_cons_of_mem _ hb)))]
  have hnames : (j.count (subqueryTables (p.pad (j :: bs) cs).tables j.aliasName
      (t.subtree j.aliasName))).tables.map Table.aliasName = (j :: bs).map (·.aliasName) := by
    rw [Join.count, htables, List.map_cons, List.map_map]
    rfl
  refine ⟨⟨bs, htables, h.behind⟩, ?_, fun hm => ?_, ?_⟩
  · rw [hnames]
    exact h.ordered.nodup
  · rw [hnames] at hm
    exact h.disjoint _ h.ordered.1 hm
  · show [Condition.raw (.correlation j.parent j.own)] = _
    rw [h.own_eq]
    rfl

/-- The collection becomes a count of the linked rows. -/
theorem Absence.lacks_absorbed (hp : p.Bare) (h : p.Absence j bs ks) {t : Collections}
    (hs : t.Sole j ((j :: bs).map (·.aliasName))) {supply : AliasSupply}
    (hfresh : subqueryName supply j.aliasName ∉ p.tables.map Table.aliasName) :
    ∃ t' k, p.Lacks schema holder j.link
      (absorbedPlan ⟨t, [j.aliasName]⟩ supply (p.pad (j :: bs) (ks ++ [j.absent ty])))
      [t'] [.raw k] := by
  set q := p.pad (j :: bs) (ks ++ [j.absent ty]) with hq
  set name := subqueryName supply j.aliasName with hname
  have hdivided : divided ⟨t, [j.aliasName]⟩ supply q.topConditions =
      (p.topConditions ++ [.raw ⟨[name], name ++ "." ++ columnName 0, [], false⟩],
        [⟨j.aliasName, .countIsZero (columnName 0)⟩]) := by
    rw [divided, askedOf, h.asked_absent hs hp, h.decompose_absent hs hp, reference,
      aliasOf_of_mem (List.mem_singleton_self _)]
  have hkept : q.tables.filter (·.aliasName ∉ t.subtree j.aliasName) = p.tables :=
    h.filter_tables_pad fun a => hs.mem_subtree_iff
  have hselects : selectsOf j.aliasName [⟨j.aliasName, .countIsZero (columnName 0)⟩] =
      [.countIsZero (columnName 0)] := by simp [selectsOf]
  have hguarded : ∀ guards, guardedAll guards [.countIsZero (columnName 0)] =
      [.countIsZero (columnName 0)] := fun guards => by
    unfold guardedAll
    split_ifs <;> rfl
  have habsorb : absorbAll ⟨t, [j.aliasName]⟩ q.topConditions
      [⟨j.aliasName, .countIsZero (columnName 0)⟩] [(j.aliasName, name)] q.tables =
      (p.tables ++ [.lateral name j.parent.aliasName (j.count
        (subqueryTables q.tables j.aliasName (t.subtree j.aliasName)))], []) := by
    simp only [absorbAll, hs.join, absorb, hselects, hguarded, hkept, List.append_nil]
    rfl
  have hplan : absorbedPlan ⟨t, [j.aliasName]⟩ supply q =
      { q with
        tables := p.tables ++ [.lateral name j.parent.aliasName (j.count
          (subqueryTables q.tables j.aliasName (t.subtree j.aliasName)))]
        condition := Group.ofTop q.isDisjunctive
          (p.topConditions ++ [.raw ⟨[name], name ++ "." ++ columnName 0, [], false⟩]) } := by
    unfold absorbedPlan
    simp only [hdivided, List.map_cons, List.map_nil, ← hname, habsorb, List.append_nil]
  have hcondition : (absorbedPlan ⟨t, [j.aliasName]⟩ supply q).condition = Group.ofTop false
      (p.topConditions ++ [.raw ⟨[name], name ++ "." ++ columnName 0, [], false⟩]) := by
    rw [hplan, hq, isDisjunctive_pad]
  have htop := topConditions_ofTop hcondition fun h => by cases h
  have htables := congrArg Plan.tables hplan
  refine ⟨_, _, ⟨htables, ?_, fun k => by rw [htop, List.mem_append], fun a ha => ?_⟩,
    .counted (h.probes_count hs) rfl⟩
  · obtain ⟨T, hT⟩ := hp.tables
    rw [htables, List.map_append, List.nodup_append]
    refine ⟨?_, List.nodup_singleton _, fun a ha b hb he => hfresh ?_⟩
    · rw [hT, T.map_aliasName_tables]
      exact T.nodup_aliases
    · have hname' : a = name := he.trans (List.mem_singleton.1 hb)
      exact hname' ▸ ha
  · rw [hplan]
    exact ha

theorem toLateral_absent (hp : p.Bare) (h : p.Absence j bs ks) {force : Bool} {threshold : Nat}
    {supply : AliasSupply} (hrewrites : (Strategy.lateral force).rewrites threshold = true)
    (hfresh : subqueryName supply j.aliasName ∉ p.tables.map Table.aliasName) :
    ∃ r t k, (p.pad (j :: bs) (ks ++ [j.absent ty])).toLateral force threshold [j] supply = .ok r ∧
      p.Lacks schema holder j.link r.1.plan [t] [.raw k] := by
  obtain ⟨T, hT, hsub, -⟩ := @exists_tree_pad p (j :: bs) (ks ++ [j.absent ty]) hp h.ordered
  have hjoins : ∀ j' ∈ [j], j' ∈ T.joins :=
    List.forall_mem_singleton.2 (hsub List.mem_cons_self)
  have hs : (Collections.ofPlan (p.pad (j :: bs) (ks ++ [j.absent ty])) [j]).Sole j _ := h.sole hp
  have heligible := @eligible_eq _ j force threshold hs.collections hs.join
  rw [if_pos hrewrites] at heligible
  have hsettle : settle (Collections.ofPlan (p.pad (j :: bs) (ks ++ [j.absent ty])) [j])
      [j.aliasName] (p.pad (j :: bs) (ks ++ [j.absent ty])).topConditions
      ((Collections.ofPlan (p.pad (j :: bs) (ks ++ [j.absent ty])) [j]).collections.length + 1) [] [] =
        .ok (⟨Collections.ofPlan (p.pad (j :: bs) (ks ++ [j.absent ty])) [j], [j.aliasName]⟩, []) := by
    have hpinned := @Absence.pinned_absent p j bs ks _ ty h hs hp
    rw [← topmost_eq hs] at hpinned
    rw [settle_eq_ok (h.spanningOf?_eq_none hp) hpinned, topmost_eq hs]
  have hscope : (p.pad (j :: bs) (ks ++ [j.absent ty])).lateralScope force threshold [j] =
      ⟨Collections.ofPlan (p.pad (j :: bs) (ks ++ [j.absent ty])) [j], [j.aliasName]⟩ := by
    unfold lateralScope
    simp only [heligible, hsettle]
  obtain ⟨r, hr⟩ : ∃ r, (p.pad (j :: bs) (ks ++ [j.absent ty])).toLateral force threshold [j] supply =
      .ok r := by
    unfold toLateral
    simp only [heligible, hsettle]
    exact ⟨_, rfl⟩
  obtain ⟨resolved, supply'⟩ := r
  obtain ⟨hnil, -⟩ | hplan := toLateral_eq hT hjoins hr
  · rw [heligible] at hnil
    cases hnil
  · obtain ⟨t', k, hlacks⟩ := @Absence.lacks_absorbed p j bs ks ty holder schema hp h _ hs supply hfresh
    exact ⟨_, t', k, hr, by rw [hplan, hscope]; exact hlacks⟩

/-! ### Strategies -/

/-- Whatever the strategy, a collection that it rewrites is denied or counted. -/
theorem resolveCollections_absent (hp : p.Bare) (h : p.Absence j bs ks) {strategy : Strategy}
    {threshold : Nat} {supply : AliasSupply} (hrewrites : strategy.rewrites threshold = true)
    (hfresh : subqueryName supply j.aliasName ∉ p.tables.map Table.aliasName) :
    ∃ r extra cs, (p.pad (j :: bs) (ks ++ [j.absent ty])).resolveCollections strategy threshold [j]
        supply = .ok r ∧
      p.Lacks schema holder j.link r.1.plan extra cs ∧ (∀ c, .column c ∉ cs) ∧
      (strategy = .existence → extra = [] ∧ cs = [j.link.denial j.aliasName]) := by
  cases strategy with
  | existence =>
    obtain ⟨r, hr, hadds⟩ := @toExistence_absent p j bs ks ty hp h
    refine ⟨(r, supply), [], [_], ?_, ⟨hadds, .denied fun he => ?_⟩, by simp [Link.denial],
      fun _ => ⟨rfl, rfl⟩⟩
    · show ((p.pad (j :: bs) (ks ++ [j.absent ty])).toExistence [j]).map (·, supply) = _
      rw [hr]
      rfl
    · exact h.disjoint _ h.ordered.1 (he ▸ List.mem_cons_self)
  | lateral force =>
    obtain ⟨r, t, k, hr, hlacks⟩ := @toLateral_absent p j bs ks ty holder schema hp h force threshold
      supply hrewrites hfresh
    exact ⟨r, [t], [.raw k], hr, hlacks, by simp, fun h => by cases h⟩
  | keep => cases hrewrites

/-- A strategy that rewrites no collection without siblings leaves the only one as it is. -/
theorem resolveCollections_of_not_rewrites (hp : p.Bare)
    (h : Join.Ordered (p.tables.map Table.aliasName) (j :: bs)) {cs : List Condition}
    {strategy : Strategy} {threshold : Nat} {supply : AliasSupply}
    (hrewrites : strategy.rewrites threshold = false) :
    (p.pad (j :: bs) cs).resolveCollections strategy threshold [j] supply =
      .ok (⟨p.pad (j :: bs) cs, []⟩, supply) := by
  cases strategy with
  | existence => cases hrewrites
  | lateral force =>
    obtain ⟨hc, hj⟩ := @collections_pad p j bs cs hp h
    have heligible := @eligible_eq _ j force threshold hc hj
    rw [if_neg (by simp [hrewrites])] at heligible
    show (p.pad (j :: bs) cs).toLateral force threshold [j] supply = _
    unfold toLateral
    simp only [heligible]
    rfl
  | keep => rfl

end Plan

end EntityQuery
