import EntityQuery.Proofs.Existence.Division
import EntityQuery.Proofs.Existence.Plan
import EntityQuery.Proofs.Strategy.Leaves

/-!
# Existence conditions with other leaves

Where a condition goes is decided by the tables that it reads.  So it makes no difference whether
leaves are replaced before collections become existence conditions or afterwards.

* `Existence.build?_mapLeavesAll`: the condition that stands for a collection;
* `Plan.rows_toExistence_mapLeaves`: the rows of the rewritten plan.
-/

namespace EntityQuery

open Condition

namespace Existence

section

variable {t : Collections} {children : List String} {f : Condition → List Condition}
  {k k' : Condition} {c d : String} {conditions : List Condition}

theorem touched_twin (h : Twin k k') : touched t children k' = touched t children k := by
  rw [touched, touched, h.aliases]

theorem only?_twin (h : Twin k k') : only? t children k' = only? t children k := by
  rw [only?, only?, touched_twin h, h.aliases]

theorem rootsReferenced_twin (h : Twin k k') : t.rootsReferenced k' = t.rootsReferenced k := by
  rw [Collections.rootsReferenced, Collections.rootsReferenced, owners, owners, h.aliases]

theorem route?_twin (h : Twin k k') : route? t k' = route? t k := by
  rw [route?, route?, rootsReferenced_twin h, h.isPruneable]

/-- What was not asked for reads one table, so it does not stay outside for what it reads besides. -/
theorem touched_of_only?_eq_none (hF : t.IsForest) (hk : k.Parted) (hp : k.isPruneable = true)
    (h : only? t (t.childrenOf c) k = none) : touched t (t.childrenOf c) k = [] := by
  rcases hk with hk | ⟨n, rfl, -⟩
  · rw [hk.isPruneable] at hp
    cases hp
  rw [List.eq_nil_iff_forall_not_mem]
  intro d hd
  have hone : touched t (t.childrenOf c) (.column n) = [d] := by
    refine List.perm_singleton.1 ((List.perm_ext_iff_of_nodup (hF.nodup_childrenOf.filter _)
      (List.nodup_singleton d)).2 fun d' => ?_)
    rw [List.mem_singleton]
    refine ⟨fun hd' => ?_, fun he => he ▸ hd⟩
    obtain ⟨hchild, a, ha, hm⟩ := mem_touched_iff.1 hd
    obtain ⟨hchild', a', ha', hm'⟩ := mem_touched_iff.1 hd'
    rw [List.mem_singleton.1 ha] at hm
    rw [List.mem_singleton.1 ha'] at hm'
    exact hF.child_unique hchild' hchild hm' hm
  obtain ⟨-, a, ha, hm⟩ := mem_touched_iff.1 hd
  rw [List.mem_singleton.1 ha] at hm
  rw [only?, hone] at h
  simp [aliases, Collections.inSubtree_iff.2 hm] at h

/-- What was not asked for reads one table, so it stays outside only if no collection has it. -/
theorem rootsReferenced_of_route?_eq_none (hk : k.Parted) (hp : k.isPruneable = true)
    (h : route? t k = none) : (t.rootsReferenced k).1 = [] := by
  rcases hk with hk | ⟨n, rfl, hn⟩
  · rw [hk.isPruneable] at hp
    cases hp
  cases hr : t.root? n.aliasName with
  | none => simp [Collections.rootsReferenced, owners, ownersOf, aliases, hr]
  | some r =>
    have hone : t.rootsReferenced (.column n) = ([r], false) := by
      simp [Collections.rootsReferenced, owners, ownersOf, aliases, hr, insertNew]
    rw [route?, hone] at h
    simp at h

variable (hf : Steady f) (hparted : ∀ k ∈ conditions, k.Parted)

include hf hparted

theorem twin_of_mem : ∀ k ∈ conditions, ∀ k' ∈ k.mapLeaves f, Twin k k' := fun k hk =>
  (hparted k hk).twin hf

theorem staying_mapLeavesAll {send : Condition → Option String}
    (hsend : ∀ {k k' : Condition}, Twin k k' → send k' = send k) :
    staying send (mapLeavesAll f conditions) = mapLeavesAll f (staying send conditions) :=
  filter_mapLeavesAll fun k hk k' hk' => by rw [hsend (twin_of_mem hf hparted k hk k' hk')]

theorem sentTo_mapLeavesAll {send : Condition → Option String}
    (hsend : ∀ {k k' : Condition}, Twin k k' → send k' = send k) (place : String) :
    sentTo send place (mapLeavesAll f conditions) = mapLeavesAll f (sentTo send place conditions) :=
  filter_mapLeavesAll fun k hk k' hk' => by rw [hsend (twin_of_mem hf hparted k hk k' hk')]

theorem sent_mapLeavesAll (d : String) :
    sent t c (mapLeavesAll f conditions) d = mapLeavesAll f (sent t c conditions d) :=
  sentTo_mapLeavesAll hf hparted only?_twin d

theorem tainted_mapLeavesAll (hF : t.IsForest) :
    tainted t c (mapLeavesAll f conditions) = tainted t c conditions := by
  have hstays : ∀ k ∈ staying (only? t (t.childrenOf c)) conditions,
      k ∈ conditions ∧ only? t (t.childrenOf c) k = none := fun k hk => by
    simpa [staying] using hk
  rw [tainted, tainted, staying_mapLeavesAll hf hparted only?_twin,
    flatMap_of_parted hf (fun k hk => hparted k (hstays k hk).1) (fun k _ k' => touched_twin)
      fun k hk hp => touched_of_only?_eq_none hF (hparted k (hstays k hk).1) hp (hstays k hk).2]

theorem own_mapLeavesAll (hF : t.IsForest) :
    own t c (mapLeavesAll f conditions) = mapLeavesAll f (own t c conditions) := by
  rw [own, own, tainted_mapLeavesAll hf hparted hF, staying_mapLeavesAll hf hparted only?_twin,
    mapLeavesAll_append, mapLeavesAll_flatMap]
  exact congrArg _ (List.flatMap_congr fun d _ => sent_mapLeavesAll hf hparted d)

omit hf in
theorem parted_of_mem_own : ∀ k ∈ own t c conditions, k.Parted := fun k hk =>
  hparted k (mem_own_iff.1 hk).1

omit hf in
theorem asked_of_mem (hk : (own t c conditions).filter (!·.isPruneable) = [k]) : k.Asked := by
  have hm : k ∈ (own t c conditions).filter (!·.isPruneable) := hk ▸ List.mem_singleton_self k
  obtain ⟨hk, hp⟩ := List.mem_filter.1 hm
  exact (parted_of_mem_own hparted k hk).asked (by simpa using hp)

theorem asked_own_mapLeavesAll (hF : t.IsForest) :
    (own t c (mapLeavesAll f conditions)).filter (!·.isPruneable) =
      ((own t c conditions).filter (!·.isPruneable)).map (changed f) := by
  have hown := parted_of_mem_own (t := t) (c := c) hparted
  rw [own_mapLeavesAll hf hparted hF,
    filter_mapLeavesAll fun k hk k' hk' => by rw [((hown k hk).twin hf k' hk').isPruneable],
    mapLeavesAll_of_asked hf fun k hk => ?_]
  obtain ⟨hk, hp⟩ := List.mem_filter.1 hk
  exact (hown k hk).asked (by simpa using hp)

end

/-! ### The condition of a collection -/

section

variable {tables : List Table} {t : Collections} {f : Condition → List Condition} {c : String}
  {conditions : List Condition} {n : Nat}

theorem changed_existence {query : Plan} {negate : Bool} {outer : List String} :
    (Condition.existence query negate outer).changed f =
      .existence (query.mapLeaves f) negate outer := rfl

theorem mapLeaves_subquery (hf : Steady f) (htables : ∀ x ∈ tables, x.plans = []) {j : Join} :
    (subquery tables (.raw (.correlation j.parent j.own) :: conditions)).mapLeaves f =
      subquery tables (.raw (.correlation j.parent j.own) :: mapLeavesAll f conditions) := by
  have hraw : (Condition.raw (.correlation j.parent j.own)).mapLeaves f =
    [.raw (.correlation j.parent j.own)] := hf.raw _ rfl
  rw [subquery, Plan.mapLeaves, Table.mapLeavesAll_of_flat htables, Group.mapLeavesTop, Group.all,
    Group.mapLeaves, mapLeavesAll, hraw]
  rfl

/-- What stands for a collection is a subquery, and one stands in its place. -/
theorem mapLeaves_of_build? {k : Condition} (h : build? tables t n c conditions = some k) :
    k.mapLeaves f = [k.changed f] := by
  obtain ⟨m, j, -, -, rfl | rfl⟩ := build?_cases h <;> rfl

theorem mapLeavesAll_nested : mapLeavesAll f (nested tables t n c conditions) =
    (nested tables t n c conditions).map (changed f) :=
  mapLeavesAll_eq_map fun k hk => by
    obtain ⟨d, -, -, hb⟩ := mem_nested_iff.1 hk
    exact mapLeaves_of_build? hb

variable (hF : t.IsForest) (hf : Steady f) (htables : ∀ x ∈ tables, x.plans = [])

include hF hf htables

/-- The condition that stands for a collection, with other leaves. -/
theorem build?_mapLeavesAll (hparted : ∀ k ∈ conditions, k.Parted) :
    build? tables t n c (mapLeavesAll f conditions) =
      (build? tables t n c conditions).map (changed f) := by
  induction n generalizing c conditions with
  | zero => rfl
  | succ n ih =>
    cases hj : t.join? c with
    | none => rw [build?, build?, hj]; rfl
    | some j =>
      have hnested : nested tables t n c (mapLeavesAll f conditions) =
          (nested tables t n c conditions).map (changed f) := by
        rw [nested, nested, tainted_mapLeavesAll hf hparted hF, List.map_filterMap]
        refine List.filterMap_congr fun d _ => ?_
        rw [sent_mapLeavesAll hf hparted, ih fun k hk => hparted k (mem_sent_iff.1 hk).1]
      have hmissing : asksMissing tables t n c (mapLeavesAll f conditions) =
          asksMissing tables t n c conditions := by
        rw [Bool.eq_iff_iff, asksMissing_iff, asksMissing_iff, hnested, List.map_eq_nil_iff,
          tainted_mapLeavesAll hf hparted hF, asked_own_mapLeavesAll hf hparted hF]
        refine and_congr_left fun _ => ?_
        constructor
        · rintro ⟨k, hk, hm⟩
          obtain ⟨k', hk', rfl⟩ := List.map_eq_singleton_iff.1 hk
          exact ⟨k', hk', ((asked_of_mem hparted hk').twin hf).isMissing c ▸ hm⟩
        · rintro ⟨k, hk, hm⟩
          exact ⟨k.changed f, by rw [hk]; rfl,
            (((asked_of_mem hparted hk).twin hf).isMissing c).trans hm⟩
      have hkept : kept t c (mapLeavesAll f conditions) = kept t c conditions := by
        rw [kept, kept, tainted_mapLeavesAll hf hparted hF]
      rw [build?_succ hj, build?_succ hj, hmissing, hnested, asked_own_mapLeavesAll hf hparted hF,
        own_mapLeavesAll hf hparted hF, hkept, List.isEmpty_map, List.isEmpty_map]
      split_ifs
      · rw [Option.map_some, changed_existence, mapLeaves_subquery hf (plans_subqueryTables htables)]
        rfl
      · rfl
      · rw [Option.map_some, changed_existence, mapLeaves_subquery hf (plans_subqueryTables htables),
          mapLeavesAll_append, mapLeavesAll_nested]

end

/-! ### The rewritten plan -/

section

variable {p : Plan} {joins : List Join} {t : Collections} {f : Condition → List Condition}
  (htables : ∀ x ∈ p.tables, x.plans = []) (hparted : ∀ k ∈ p.topConditions, k.Parted)
  (hF : t.IsForest) (hf : Steady f)

include hparted hf

theorem spoiled_mapLeaves :
    spoiled t (p.mapLeaves f).topConditions = spoiled t p.topConditions := by
  have hstays : ∀ k ∈ staying (route? t) p.topConditions,
      k ∈ p.topConditions ∧ route? t k = none := fun k hk => by simpa [staying] using hk
  rw [Plan.topConditions_mapLeaves, spoiled, spoiled, staying_mapLeavesAll hf hparted route?_twin,
    flatMap_of_parted hf (fun k hk => hparted k (hstays k hk).1)
      (fun k _ k' h => by rw [rootsReferenced_twin h])
      fun k hk hp => rootsReferenced_of_route?_eq_none (hparted k (hstays k hk).1) hp (hstays k hk).2]

include htables hF

theorem demand_mapLeaves (root : String) :
    demand (p.mapLeaves f) t root = (demand p t root).map (changed f) := by
  rw [demand, demand, Plan.tables_mapLeaves_of_flat htables, Plan.topConditions_mapLeaves,
    sentTo_mapLeavesAll hf hparted route?_twin,
    build?_mapLeavesAll hF hf htables fun k hk => hparted k (mem_sentTo_iff.1 hk).1]

theorem results_mapLeaves :
    results (p.mapLeaves f) t = (results p t).map fun x => (x.1, x.2.map (changed f)) := by
  rw [results, results, spoiled_mapLeaves hparted hf, List.map_map]
  exact List.map_congr_left fun root _ => by
    rw [demand_mapLeaves htables hparted hF hf]
    rfl

theorem rewritten_mapLeaves : rewritten (p.mapLeaves f) t = mapLeavesAll f (rewritten p t) := by
  have hsent : ∀ root, sentTo (route? t) root (p.mapLeaves f).topConditions =
      mapLeavesAll f (sentTo (route? t) root p.topConditions) := fun root => by
    rw [Plan.topConditions_mapLeaves, sentTo_mapLeavesAll hf hparted route?_twin]
  have hresults : (results (p.mapLeaves f) t).filterMap (·.2) =
      mapLeavesAll f ((results p t).filterMap (·.2)) := by
    rw [results_mapLeaves htables hparted hF hf, List.filterMap_map,
      mapLeavesAll_eq_map fun k hk => ?_, List.map_filterMap]
    · rfl
    · obtain ⟨x, hx, hk⟩ := List.mem_filterMap.1 hk
      exact mapLeaves_of_build? (((mem_results_iff.1 hx).2).trans hk)
  simp only [rewritten, mapLeavesAll_append, mapLeavesAll_flatMap, hresults, hsent,
    spoiled_mapLeaves hparted hf]
  rw [Plan.topConditions_mapLeaves, staying_mapLeavesAll hf hparted route?_twin,
    results_mapLeaves htables hparted hF hf, List.filter_map, List.flatMap_map]
  simp [Function.comp_def]

end

end Existence

open Existence

namespace Plan

variable {p : Plan} {joins : List Join} {r : Resolved} {f : Condition → List Condition}

/-- The plan with the collections that can be asked for as existence conditions. -/
def withExistence (p : Plan) (t : Collections) : Plan :=
  { p with
    tables := p.tables.filter (·.aliasName ∉
      ((results p t).filter (·.2.isSome)).flatMap fun x => t.subtree x.1)
    condition := Group.ofTop p.isDisjunctive (Existence.rewritten p t) }

theorem toExistence_eq : p.toExistence joins =
    if (Collections.ofPlan p joins).isEmpty then .ok ⟨p, []⟩
    else match spanningOf? (Collections.ofPlan p joins).root? p.topConditions with
      | some (sql, roots) => .error (.fragmentSpansRoots sql roots)
      | none => .ok ⟨p.withExistence (Collections.ofPlan p joins),
          (spoiled (Collections.ofPlan p joins) p.topConditions).map warning⟩ := rfl

section

variable {t : Collections} (hF : t.IsForest)

include hF

/-- A disjunction at the top stays one condition. -/
theorem topConditions_withExistence :
    (p.withExistence t).topConditions = Existence.rewritten p t := by
  refine topConditions_ofTop rfl fun hd g hg => ?_
  rcases (mem_rewritten_iff hF).1 hg with ⟨hg, -⟩ | ⟨root, -, hb⟩
  · exact op_of_isDisjunctive hd hg
  · obtain ⟨m, j, -, -, he | he⟩ := build?_cases hb <;> cases he

variable (htables : ∀ x ∈ p.tables, x.plans = []) (hparted : ∀ k ∈ p.topConditions, k.Parted)
  (hf : Steady f)

include htables hparted hf

theorem tables_withExistence_mapLeaves :
    ((p.mapLeaves f).withExistence t).tables = ((p.withExistence t).mapLeaves f).tables := by
  have hflat : ∀ x ∈ (p.withExistence t).tables, x.plans = [] := fun x hx =>
    htables x (List.mem_filter.1 hx).1
  rw [tables_mapLeaves_of_flat hflat, withExistence, withExistence,
    results_mapLeaves htables hparted hF hf, List.filter_map, List.flatMap_map,
    tables_mapLeaves_of_flat htables]
  simp only [Function.comp_def, Option.isSome_map]

theorem topConditions_withExistence_mapLeaves :
    ((p.mapLeaves f).withExistence t).topConditions =
      ((p.withExistence t).mapLeaves f).topConditions := by
  rw [topConditions_withExistence hF, rewritten_mapLeaves htables hparted hF hf,
    topConditions_mapLeaves, topConditions_withExistence hF]

end

/-- It makes no difference whether leaves are replaced before or after collections become existence
conditions. -/
theorem exists_toExistence_mapLeaves (htables : ∀ x ∈ p.tables, x.plans = [])
    (hparted : ∀ k ∈ p.topConditions, k.Parted) (hF : (Collections.ofPlan p joins).IsForest)
    (hf : Steady f) (h : p.toExistence joins = .ok r) :
    ∃ r', (p.mapLeaves f).toExistence joins = .ok r' ∧
      r'.plan.tables = (r.plan.mapLeaves f).tables ∧
      r'.plan.topConditions = (r.plan.mapLeaves f).topConditions := by
  rw [toExistence_eq] at h ⊢
  rw [ofPlan_mapLeaves htables, topConditions_mapLeaves, spanningOf?_mapLeavesAll hf hparted]
  split_ifs at h ⊢ with hempty
  · obtain rfl := Except.ok.inj h
    exact ⟨_, rfl, rfl, rfl⟩
  · split at h
    · cases h
    · obtain rfl := Except.ok.inj h
      exact ⟨_, rfl, tables_withExistence_mapLeaves hF htables hparted hf,
        topConditions_withExistence_mapLeaves hF htables hparted hf⟩

end Plan

end EntityQuery
