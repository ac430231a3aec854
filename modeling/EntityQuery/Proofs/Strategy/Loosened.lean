import EntityQuery.Proofs.Existence.Leaves
import EntityQuery.Proofs.Lateral.Combinations
import EntityQuery.Proofs.Pruning.Loosened
import EntityQuery.Proofs.Scoping.Existence

/-!
# Collections of a plan with fewer inner joins

A collection and the tables below it are outer-joined already.  So it makes no difference whether inner
joins become outer ones before collections become subqueries or afterwards.

* `JoinTree.loosened`, `Plan.Gathered.loosened`: the join tree of such a plan;
* `Plan.toExistence_loosened`: the plan with existence conditions;
* `Lateral.lateralPlan_loosened`: the plan with lateral subqueries.
-/

namespace EntityQuery

/-! ### The join tree -/

theorem Join.Ordered.loosened {before names : List String} {js : List Join} (h : Ordered before js) :
    Ordered before (js.map (Join.loosened names)) := by
  induction js generalizing before with
  | nil => trivial
  | cons j js ih =>
    obtain ⟨hparent, hnew, hown, hjs⟩ := h
    refine ⟨?_, ?_, ?_, ?_⟩
    · rwa [Join.parent_loosened]
    · rwa [Join.aliasName_loosened]
    · rw [Join.own_loosened, Join.aliasName_loosened, hown]
    · rw [Join.aliasName_loosened]
      exact ih hjs

namespace JoinTree

variable {names : List String} {T : JoinTree} {j : Join} {a b : String}

/-- The tree with outer joins of the named tables. -/
def loosened (names : List String) (T : JoinTree) : JoinTree where
  aliasName := T.aliasName
  table := T.table
  joins := T.joins.map (Join.loosened names)
  ordered := T.ordered.loosened

theorem tables_loosened : (T.loosened names).tables = T.tables.map (Table.loosened names) := by
  simp only [tables, loosened, List.map_cons, List.map_map]
  rfl

theorem aliases_loosened : (T.loosened names).aliases = T.aliases := by
  simp [aliases, loosened, Function.comp_def]

/-- An outer join stays in the tree. -/
theorem mem_joins_loosened (hj : j ∈ T.joins) (hkind : j.kind = .outer) :
    j ∈ (T.loosened names).joins :=
  List.mem_map.2 ⟨j, hj, Join.loosened_of_outer hkind⟩

theorem IsPartOf.loosened (h : T.IsPartOf a b) : (T.loosened names).IsPartOf a b := by
  refine h.imp_right fun ⟨j, hj, hname, hparent, hdistinct⟩ =>
    ⟨_, List.mem_map_of_mem hj, ?_, ?_, ?_⟩
  · rw [Join.aliasName_loosened, hname]
  · rw [Join.parent_loosened, hparent]
  · rw [Join.distinct_loosened, hdistinct]

end JoinTree

namespace Plan

variable {names : List String} {p : Plan} {T : JoinTree} {joins : List Join}

theorem Gathered.loosened (h : p.Gathered T joins) (houter : ∀ j ∈ joins, j.kind = .outer) :
    (p.loosened names).Gathered (T.loosened names) joins where
  tables := by rw [JoinTree.tables_loosened, ← h.tables]; rfl
  collections j hj := ⟨JoinTree.mem_joins_loosened (h.mem_joins j hj) (houter j hj),
    (h.collections j hj).2⟩
  flat := h.flat
  reads k hk a ha := by
    rw [JoinTree.aliases_loosened]
    exact h.reads k hk a ha
  single := h.single
  selects s hs := ⟨(h.selects s hs).1, fun a ha => ((h.selects s hs).2 a ha).loosened⟩
  sortKeys := h.sortKeys
  groupBys := h.groupBys

/-- The collections are the same. -/
theorem ofPlan_loosened : Collections.ofPlan (p.loosened names) joins = Collections.ofPlan p joins := by
  have hparents : (p.loosened names).tables.filterMap
      (fun t => t.parentAlias?.map (t.aliasName, ·)) =
        p.tables.filterMap fun t => t.parentAlias?.map (t.aliasName, ·) := by
    rw [loosened, List.filterMap_map]
    exact List.filterMap_congr fun t _ => by simp
  have hhas : ∀ a, (p.loosened names).hasAlias a = p.hasAlias a := fun a => by
    simp [hasAlias, loosened, Function.comp_def]
  simp only [Collections.ofPlan, hparents, hhas]
  rw [loosened, Table.map_aliasName_loosened]

end Plan

/-! ### Subqueries -/

section

variable {names : List String} {tables : List Table} {t : Collections}

/-- Tables that stay as they are make the same subquery. -/
theorem subqueryTables_loosened {root : String} {below : List String}
    (h : ∀ x ∈ tables, x.aliasName ∈ below → x.loosened names = x) :
    subqueryTables (tables.map (Table.loosened names)) root below =
      subqueryTables tables root below := by
  have hfilter : (tables.map (Table.loosened names)).filter (·.aliasName ∈ below) =
      tables.filter (·.aliasName ∈ below) := by
    rw [List.filter_map]
    have hsame : ((fun x : Table => decide (x.aliasName ∈ below)) ∘ Table.loosened names) =
        fun x => decide (x.aliasName ∈ below) := funext fun x => by simp
    rw [hsame]
    refine (List.map_congr_left fun x hx => ?_).trans (List.map_id _)
    obtain ⟨hx, hm⟩ := List.mem_filter.1 hx
    exact h x hx (of_decide_eq_true hm)
  rw [subqueryTables, hfilter, subqueryTables]

variable (hF : t.IsForest) (h : ∀ x ∈ tables, t.above x.aliasName ≠ [] → x.loosened names = x)

include hF h

theorem Existence.build?_loosened {n : Nat} {c : String} {conditions : List Condition} :
    build? (tables.map (Table.loosened names)) t n c conditions = build? tables t n c conditions := by
  induction n generalizing c conditions with
  | zero => rfl
  | succ n ih =>
    cases hj : t.join? c with
    | none => rw [build?, build?, hj]
    | some j =>
      have hcol : t.isCollection c := Option.isSome_iff_exists.2 ⟨j, hj⟩
      have hself := hF.mem_above_self hcol
      have hone : subqueryTables (tables.map (Table.loosened names)) c [c] =
          subqueryTables tables c [c] :=
        subqueryTables_loosened fun x hx hm => h x hx (by
          rw [List.mem_singleton.1 hm]
          exact List.ne_nil_of_mem hself)
      have hkept : subqueryTables (tables.map (Table.loosened names)) c (kept t c conditions) =
          subqueryTables tables c (kept t c conditions) :=
        subqueryTables_loosened fun x hx hm => h x hx
          (List.ne_nil_of_mem ((mem_kept_iff hF).1 hm).1)
      have hnested : nested (tables.map (Table.loosened names)) t n c conditions =
          nested tables t n c conditions := by
        simp only [nested, ih]
      rw [build?_succ hj, build?_succ hj, hone, hkept, asksMissing, hnested, asksMissing]

end

namespace Plan

variable {names : List String} {p : Plan} {T : JoinTree} {joins : List Join} {t : Collections}
  {r : Resolved}

/-- Tables that are not loosened make the same existence conditions. -/
theorem withExistence_loosened (hF : t.IsForest)
    (h : ∀ x ∈ p.tables, t.above x.aliasName ≠ [] → x.loosened names = x) :
    (p.loosened names).withExistence t = (p.withExistence t).loosened names := by
  have hresults : Existence.results (p.loosened names) t = Existence.results p t := by
    unfold Existence.results Existence.demand
    simp only [loosened, Existence.build?_loosened hF h]
    rfl
  have hrewritten : Existence.rewritten (p.loosened names) t = Existence.rewritten p t := by
    unfold Existence.rewritten
    rw [hresults]
    rfl
  unfold withExistence
  rw [hresults, hrewritten, loosened, loosened]
  congr 1
  rw [List.filter_map]
  congr 1
  exact List.filter_congr fun x _ => by simp

section

variable (h : p.Gathered T joins)
  (houter : ∀ j ∈ T.joins, (Collections.ofPlan p joins).above j.aliasName ≠ [] → j.kind = .outer)

include h houter

/-- A table below a collection is outer-joined already. -/
theorem Gathered.loosened_eq_of_above : ∀ x ∈ p.tables,
    (Collections.ofPlan p joins).above x.aliasName ≠ [] → x.loosened names = x := by
  intro x hx habove
  rw [h.tables, JoinTree.mem_tables_iff] at hx
  rcases hx with rfl | ⟨j, hj, rfl⟩
  · rfl
  · exact congrArg Table.join (Join.loosened_of_outer (houter j hj habove))

/-- It makes no difference whether joins are loosened before or after collections become existence
conditions. -/
theorem Gathered.toExistence_loosened (hr : p.toExistence joins = .ok r) :
    (p.loosened names).toExistence joins = .ok ⟨r.plan.loosened names, r.warnings⟩ := by
  have hF := JoinTree.isForest h.tables h.mem_joins
  rw [toExistence_eq] at hr ⊢
  have htop : (p.loosened names).topConditions = p.topConditions := rfl
  rw [ofPlan_loosened, withExistence_loosened hF (h.loosened_eq_of_above houter), htop]
  split_ifs at hr ⊢
  · obtain rfl := Except.ok.inj hr
    rfl
  · cases hspan : Condition.spanningOf? (Collections.ofPlan p joins).root? p.topConditions with
    | some found =>
      rw [hspan] at hr
      cases hr
    | none =>
      rw [hspan] at hr
      obtain rfl := Except.ok.inj hr
      rfl

end

end Plan

/-! ### Lateral subqueries -/

namespace Lateral

variable {names : List String} {p : Plan} {T : JoinTree} {joins : List Join} {s : Scope}
  {supply : AliasSupply}

/-- It makes no difference whether joins are loosened before or after collections become lateral
subqueries. -/
theorem lateralPlan_loosened (hF : s.tree.IsForest)
    (h : ∀ x ∈ p.tables, s.tree.above x.aliasName ≠ [] → x.loosened names = x) :
    lateralPlan s supply (p.loosened names) = (lateralPlan s supply p).loosened names := by
  have hlateral : ∀ columns u, lateral? s p.topConditions columns (subqueryName supply)
      (p.tables.map (Table.loosened names)) u =
        lateral? s p.topConditions columns (subqueryName supply) p.tables u := fun columns u => by
    unfold lateral? subqueryOf
    rw [subqueryTables_loosened fun x hx hm => h x hx
      (List.ne_nil_of_mem (hF.mem_subtree_iff.1 hm))]
  have houtside : ∀ columns, outside s columns s.active (p.tables.map (Table.loosened names)) =
      (outside s columns s.active p.tables).map (Table.loosened names) := fun columns => by
    rw [outside, outside, List.filter_map]
    congr 1
    exact List.filter_congr fun x _ => by simp
  have hlaterals : ∀ columns, (laterals s p.topConditions columns supply p.tables).map
      (Table.loosened names) = laterals s p.topConditions columns supply p.tables := fun columns => by
    refine (List.map_congr_left fun x hx => ?_).trans (List.map_id _)
    obtain ⟨u, -, j, -, -, rfl⟩ := mem_laterals_iff.1 hx
    rfl
  unfold lateralPlan Plan.loosened
  show Plan.mk _ (outside s _ s.active (p.tables.map _) ++ s.active.filterMap (lateral? s
    p.topConditions _ (subqueryName supply) (p.tables.map _))) _ _ _ _ = _
  simp only [hlateral, houtside, List.map_append]
  rw [hlaterals]
  rfl

end Lateral

end EntityQuery
