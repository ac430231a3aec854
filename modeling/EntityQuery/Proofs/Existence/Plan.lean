import EntityQuery.Proofs.Existence.Demand
import EntityQuery.Proofs.Evaluation.Tables

/-!
# Plans with existence conditions

A plan whose outermost collections became conditions selects what it selected before, as far as the
tables that it still has are concerned.

* `Existence.Admissible`: what is asked of the conditions of a plan;
* `Existence.Telling`: what is needed of them;
* `Existence.absorbed`: the collections that became conditions;
* `Plan.combinations_toExistence`: the rewritten plan selects the same combinations of rows.
-/

namespace EntityQuery

namespace Existence

/-- What is asked of the conditions of a plan.  Those that were asked of one outermost collection are
not true when the tables that they read have no row; or nothing is asked but that the collection has
no row, and what was not asked for are checks for null.  Where a condition that was not asked for
reads a collection's own tables, one that was asked for reads the collection too. -/
structure Admissible (db : Database) (t : Collections) (conditions : List Condition) : Prop where
  flat : ∀ k ∈ conditions, k.plans = []
  rejects : ∀ r ∈ t.roots,
    (∀ k ∈ conditions, asksOf t r k = true → ∀ e : Assignment, (∀ a ∈ k.aliases, e a = none) →
      ¬ k.Holds db e) ∨
    (∃ k, conditions.filter (asksOf t r) = [k] ∧ k.isMissing r = true) ∧
      ∀ k ∈ conditions, k.isPruneable = true → (∃ a ∈ k.aliases, r ∈ t.above a) →
        k.isNullCheck = true
  covered : ∀ k ∈ conditions, k.isPruneable = true → ∀ a ∈ k.aliases, ∀ d, t.nearest? a = some d →
    ∃ k' ∈ conditions, k'.isPruneable = false ∧ ∃ a' ∈ k'.aliases, d ∈ t.above a'

/-- The conditions tell of each collection that they read alone.  Where a condition that was not asked
for reads a collection's own tables, one that was asked for reads the collection too. -/
structure Telling (db : Database) (t : Collections) (conditions : List Condition) : Prop where
  flat : ∀ k ∈ conditions, k.plans = []
  tells : ∀ r ∈ t.roots, Tells db t r conditions
  covered : ∀ k ∈ conditions, k.isPruneable = true → ∀ a ∈ k.aliases, ∀ d, t.nearest? a = some d →
    ∃ k' ∈ conditions, k'.isPruneable = false ∧ ∃ a' ∈ k'.aliases, d ∈ t.above a'

/-- Conditions that are not true without rows tell of nested collections too; one that asks for no row
reads no nested collection. -/
theorem Admissible.telling {db : Database} {t : Collections} {conditions : List Condition}
    (h : Admissible db t conditions) (hF : t.IsForest) : Telling db t conditions where
  flat := h.flat
  covered := h.covered
  tells r hr d _ hd _ hasks := by
    obtain ⟨k, hk, hasks⟩ := hasks
    have hroot : asksOf t r k = true := by
      obtain ⟨hp, hne, hall⟩ := asksOf_iff.1 hasks
      exact asksOf_iff.2 ⟨hp, hne, fun a ha => hF.mem_above_trans (hall a ha) hd⟩
    rcases h.rejects r hr with hnull | ⟨⟨k₀, hone, hk₀⟩, hchecks⟩
    · exact .inl ⟨k, hk, hasks, hnull k hk hroot⟩
    · have hm : k ∈ conditions.filter (asksOf t r) := List.mem_filter.2 ⟨hk, hroot⟩
      rw [hone, List.mem_singleton] at hm
      subst hm
      have hdr : d ∈ t.above r := (asksOf_iff.1 hasks).2.2 r
        (by rw [aliases_of_isMissing hk₀]; exact List.mem_singleton_self r)
      rw [(hF.mem_roots_iff.1 hr).2, List.mem_singleton] at hdr
      exact .inr ⟨⟨k, hdr ▸ hone, hdr ▸ hk₀⟩, hdr ▸ hchecks⟩

/-! ### Where conditions go -/

section

variable {t : Collections} {k : Condition} {r : String}

theorem mem_rootsReferenced_iff (hF : t.IsForest) : r ∈ (t.rootsReferenced k).1 ↔
    r ∈ t.roots ∧ ∃ a ∈ k.aliases, r ∈ t.above a := by
  rw [Collections.rootsReferenced, Condition.owners, ownersOf, mem_foldl_insertNew,
    List.mem_filterMap]
  simp only [hF.root?_eq_some_iff, List.not_mem_nil, false_or]
  constructor
  · rintro ⟨a, ha, hr, hm⟩
    exact ⟨hr, a, ha, hm⟩
  · rintro ⟨hr, a, ha, hm⟩
    exact ⟨a, ha, hr, hm⟩

theorem nodup_rootsReferenced : (t.rootsReferenced k).1.Nodup :=
  nodup_foldl_insertNew List.nodup_nil

theorem rootsReferenced_outer : (t.rootsReferenced k).2 = true ↔
    ∃ a ∈ k.aliases, t.above a = [] := by
  rw [Collections.rootsReferenced, Condition.owners, ownersOf, List.any_eq_true]
  simp only [Option.isNone_iff_eq_none, Collections.IsForest.root?_eq_none_iff]

/-- A condition goes to the collection whose tables it reads; what is asked for reads no table
outside. -/
theorem of_route? (hF : t.IsForest) (h : route? t k = some r) : r ∈ t.roots ∧
    (∃ a ∈ k.aliases, r ∈ t.above a) ∧ (∀ a ∈ k.aliases, t.above a = [] ∨ r ∈ t.above a) ∧
      (k.isPruneable = false → ∀ a ∈ k.aliases, r ∈ t.above a) := by
  unfold route? at h
  split at h
  · next root outer he =>
    split_ifs at h with hc
    obtain rfl := Option.some.inj h
    have hroots : ∀ r', r' ∈ (t.rootsReferenced k).1 ↔ r' = root := by simp [he]
    have hm := (mem_rootsReferenced_iff hF).1 ((hroots root).2 rfl)
    have inside : ∀ a ∈ k.aliases, t.above a = [] ∨ root ∈ t.above a := by
      intro a ha
      cases hr : t.root? a with
      | none => exact .inl (Collections.IsForest.root?_eq_none_iff.1 hr)
      | some r' =>
        obtain ⟨hr', hm'⟩ := hF.root?_eq_some_iff.1 hr
        rw [(hroots r').1 ((mem_rootsReferenced_iff hF).2 ⟨hr', a, ha, hm'⟩)] at hm'
        exact .inr hm'
    refine ⟨hm.1, hm.2, inside, fun hp a ha => (inside a ha).resolve_left fun hnil => ?_⟩
    have hout : (t.rootsReferenced k).2 = true := rootsReferenced_outer.2 ⟨a, ha, hnil⟩
    rw [he] at hout
    simp only at hout
    rw [hp, hout] at hc
    cases hc
  · cases h

/-- A condition that reads the subtree of an outermost collection alone goes there. -/
theorem route?_of_forall (hF : t.IsForest) (hr : r ∈ t.roots) (hne : k.aliases ≠ [])
    (hall : ∀ a ∈ k.aliases, r ∈ t.above a) : route? t k = some r := by
  obtain ⟨a, ha⟩ := List.exists_mem_of_ne_nil k.aliases hne
  have hroots : (t.rootsReferenced k).1 = [r] := by
    refine List.perm_singleton.1 ((List.perm_ext_iff_of_nodup nodup_rootsReferenced
      (List.nodup_singleton r)).2 fun r' => ?_)
    rw [mem_rootsReferenced_iff hF, List.mem_singleton]
    constructor
    · rintro ⟨hr', a', ha', hm⟩
      exact hF.root_unique hr' hr hm (hall a' ha')
    · rintro rfl
      exact ⟨hr, a, ha, hall a ha⟩
  have hout : (t.rootsReferenced k).2 = false := by
    rw [← Bool.not_eq_true, rootsReferenced_outer]
    rintro ⟨a', ha', hnil⟩
    have := hall a' ha'
    rw [hnil] at this
    cases this
  have : t.rootsReferenced k = ([r], false) := Prod.ext hroots hout
  rw [route?, this]
  simp

end

/-! ### The collections that become conditions -/

/-- The outermost collections that conditions read together with other tables. -/
def spoiled (t : Collections) (conditions : List Condition) : List String :=
  ((staying (route? t) conditions).flatMap fun c => (t.rootsReferenced c).1).foldl insertNew []

/-- The condition that an outermost collection becomes. -/
def demand (p : Plan) (t : Collections) (root : String) : Option Condition :=
  build? p.tables t t.collections.length root (sentTo (route? t) root p.topConditions)

/-- The outermost collections that become conditions. -/
def absorbed (p : Plan) (t : Collections) : List String :=
  t.roots.filter fun r => r ∉ spoiled t p.topConditions && (demand p t r).isSome

section

variable {t : Collections} {conditions : List Condition} {k : Condition}
  {r : String}

theorem mem_sentTo_iff {send : Condition → Option String} :
    k ∈ sentTo send r conditions ↔ k ∈ conditions ∧ send k = some r := by
  rw [sentTo, List.mem_filter, decide_eq_true_iff]

theorem mem_absorbed_iff {p : Plan} : r ∈ absorbed p t ↔
    r ∈ t.roots ∧ r ∉ spoiled t p.topConditions ∧ ∃ q, demand p t r = some q := by
  rw [absorbed, List.mem_filter, Bool.and_eq_true, decide_eq_true_iff, Option.isSome_iff_exists]

/-- A condition that reads a collection that is not spoiled goes there. -/
theorem route?_of_mem_above (hF : t.IsForest) (hr : r ∈ t.roots) (hs : r ∉ spoiled t conditions)
    (hk : k ∈ conditions) {a : String} (ha : a ∈ k.aliases) (hm : r ∈ t.above a) :
    route? t k = some r := by
  cases h : route? t k with
  | none =>
    refine absurd ?_ hs
    rw [spoiled, mem_foldl_insertNew, List.mem_flatMap]
    refine .inr ⟨k, ?_, (mem_rootsReferenced_iff hF).2 ⟨hr, a, ha, hm⟩⟩
    rw [staying, List.mem_filter, decide_eq_true_iff]
    exact ⟨hk, h⟩
  | some r' =>
    obtain ⟨hr', -, hin, -⟩ := of_route? hF h
    rcases hin a ha with hnil | hm'
    · rw [hnil] at hm
      cases hm
    · rw [hF.root_unique hr hr' hm hm']

theorem routed_of_telling {db : Database} (hF : t.IsForest) (h : Telling db t conditions)
    (hr : r ∈ t.roots) (hs : r ∉ spoiled t conditions) :
    Routed t r (sentTo (route? t) r conditions) where
  flat k hk := h.flat k (mem_sentTo_iff.1 hk).1
  touches k hk := (of_route? hF (mem_sentTo_iff.1 hk).2).2.1
  inside k hk := (of_route? hF (mem_sentTo_iff.1 hk).2).2.2.2
  covered k hk hp a ha d hn hd := by
    obtain ⟨k', hk', hasked, a', ha', hm⟩ := h.covered k (mem_sentTo_iff.1 hk).1 hp a ha d hn
    exact ⟨k', mem_sentTo_iff.2 ⟨hk', route?_of_mem_above hF hr hs hk' ha'
      (hF.mem_above_trans hm hd)⟩, hasked, a', ha', hm⟩

theorem tells_sentTo {db : Database} (hF : t.IsForest) (h : Telling db t conditions)
    (hr : r ∈ t.roots) (hs : r ∉ spoiled t conditions) :
    Tells db t r (sentTo (route? t) r conditions) := by
  refine (h.tells r hr).filter hF (hF.mem_above_self (hF.mem_roots_iff.1 hr).1) ?_
  exact fun k hk ⟨a, ha, hm⟩ => decide_eq_true (route?_of_mem_above hF hr hs hk ha hm)

end

end Existence

open Existence

/-! ### The rewritten plan -/

/-- The outermost collections that are not spoiled, with their conditions. -/
def Existence.results (p : Plan) (t : Collections) : List (String × Option Condition) :=
  ((t.roots.filter (· ∉ spoiled t p.topConditions)).foldl insertNew []).map fun root =>
    (root, demand p t root)

theorem Existence.mem_results_iff {p : Plan} {t : Collections} {x : String × Option Condition} :
    x ∈ results p t ↔
      (x.1 ∈ t.roots ∧ x.1 ∉ spoiled t p.topConditions) ∧ demand p t x.1 = x.2 := by
  rw [results, List.mem_map]
  simp only [mem_foldl_insertNew, List.mem_filter, List.not_mem_nil, false_or, decide_eq_true_iff]
  constructor
  · rintro ⟨root, hroot, rfl⟩
    exact ⟨hroot, rfl⟩
  · rintro ⟨hroot, hx⟩
    exact ⟨x.1, hroot, Prod.ext rfl hx⟩

/-- The conditions of the rewritten plan: those that stay, those of spoiled collections and of
collections that nothing is asked of, and those that stand for a collection. -/
def Existence.rewritten (p : Plan) (t : Collections) : List Condition :=
  staying (route? t) p.topConditions ++
    ((spoiled t p.topConditions).flatMap fun root => sentTo (route? t) root p.topConditions) ++
    (((results p t).filter (·.2.isNone)).flatMap fun x =>
      sentTo (route? t) x.1 p.topConditions) ++
    (results p t).filterMap (·.2)

/-- The rewritten plan asks for what went to no collection that became a condition, and for these
conditions. -/
theorem Existence.mem_rewritten_iff {p : Plan} {t : Collections} (hF : t.IsForest) {k : Condition} :
    k ∈ rewritten p t ↔
      (k ∈ p.topConditions ∧ ∀ root ∈ absorbed p t, route? t k ≠ some root) ∨
      ∃ root ∈ absorbed p t, demand p t root = some k := by
  simp only [rewritten, List.mem_append, List.mem_flatMap, List.mem_filterMap, List.mem_filter,
    mem_results_iff, mem_sentTo_iff]
  constructor
  · rintro (((hk | ⟨root, hs, hk, hroute⟩) | ⟨x, ⟨⟨-, hx⟩, hnone⟩, hk, hroute⟩) |
      ⟨x, ⟨⟨hroots, hs⟩, hx⟩, hsome⟩)
    · rw [staying, List.mem_filter, decide_eq_true_iff] at hk
      exact .inl ⟨hk.1, fun root _ hroute => by rw [hk.2] at hroute; cases hroute⟩
    · refine .inl ⟨hk, fun root' hroot' hroute' => (mem_absorbed_iff.1 hroot').2.1 ?_⟩
      rw [hroute, Option.some.injEq] at hroute'
      exact hroute' ▸ hs
    · refine .inl ⟨hk, fun root' hroot' hroute' => ?_⟩
      rw [hroute, Option.some.injEq] at hroute'
      obtain ⟨q, hq⟩ := (mem_absorbed_iff.1 hroot').2.2
      rw [← hroute', hx] at hq
      rw [hq] at hnone
      cases hnone
    · rw [hsome] at hx
      exact .inr ⟨x.1, mem_absorbed_iff.2 ⟨hroots, hs, k, hx⟩, hx⟩
  · rintro (⟨hk, hno⟩ | ⟨root, hroot, hq⟩)
    · cases hroute : route? t k with
      | none =>
        refine .inl (.inl (.inl ?_))
        rw [staying, List.mem_filter, decide_eq_true_iff]
        exact ⟨hk, hroute⟩
      | some root =>
        have hroots := (of_route? hF hroute).1
        by_cases hs : root ∈ spoiled t p.topConditions
        · exact .inl (.inl (.inr ⟨root, hs, hk, rfl⟩))
        · refine .inl (.inr ⟨(root, none), ⟨⟨⟨hroots, hs⟩, ?_⟩, rfl⟩, hk, rfl⟩)
          rw [Option.eq_none_iff_forall_ne_some]
          exact fun q hq => hno root (mem_absorbed_iff.2 ⟨hroots, hs, q, hq⟩) hroute
    · obtain ⟨hroots, hs, -⟩ := mem_absorbed_iff.1 hroot
      exact .inr ⟨(root, some k), ⟨⟨hroots, hs⟩, hq⟩, rfl⟩

namespace Plan

variable {p : Plan} {joins : List Join} {r : Resolved}

theorem toExistence_cases (h : p.toExistence joins = .ok r) :
    ((Collections.ofPlan p joins).collections = [] ∧ r.plan = p) ∨
    r.plan = { p with
      tables := p.tables.filter (·.aliasName ∉
        ((results p (Collections.ofPlan p joins)).filter
          (·.2.isSome)).flatMap fun x => (Collections.ofPlan p joins).subtree x.1)
      condition := Group.ofTop p.isDisjunctive (rewritten p (Collections.ofPlan p joins)) } := by
  unfold toExistence at h
  simp only at h
  split_ifs at h with he
  · obtain rfl := Except.ok.inj h
    exact .inl ⟨List.isEmpty_iff.1 he, rfl⟩
  · split at h
    · cases h
    · obtain rfl := Except.ok.inj h
      exact .inr rfl

/-- The tables that are left are those below no collection that became a condition. -/
theorem tables_toExistence (h : p.toExistence joins = .ok r) :
    r.plan.tables = p.tables.filter fun x => x.aliasName ∉
      (absorbed p (Collections.ofPlan p joins)).flatMap
        (Collections.ofPlan p joins).subtree := by
  rcases toExistence_cases h with ⟨hnil, hr⟩ | hr
  · simp [hr, absorbed, Collections.roots, hnil]
  · rw [hr]
    refine List.filter_congr fun x _ => ?_
    rw [decide_eq_decide, not_iff_not, List.mem_flatMap, List.mem_flatMap]
    simp only [List.mem_filter, mem_results_iff, mem_absorbed_iff]
    constructor
    · rintro ⟨y, ⟨⟨hroot, hy⟩, hsome⟩, hx⟩
      rw [← hy] at hsome
      exact ⟨y.1, ⟨hroot.1, hroot.2, Option.isSome_iff_exists.1 hsome⟩, hx⟩
    · rintro ⟨root, ⟨hroot, hs, hsome⟩, hx⟩
      exact ⟨(root, _), ⟨⟨⟨hroot, hs⟩, rfl⟩, Option.isSome_iff_exists.2 hsome⟩, hx⟩

/-- The rewritten plan's conditions hold when what was not sent to a collection does and what stands
for the collections does. -/
theorem holds_toExistence_iff {db : Database} {e : Assignment}
    (hF : (Collections.ofPlan p joins).IsForest) (h : p.toExistence joins = .ok r) :
    (∀ k ∈ r.plan.topConditions, k.Holds db e) ↔
      (∀ k ∈ p.topConditions, (∀ root ∈ absorbed p (Collections.ofPlan p joins),
        route? (Collections.ofPlan p joins) k ≠ some root) → k.Holds db e) ∧
      ∀ root ∈ absorbed p (Collections.ofPlan p joins), ∀ q,
        demand p (Collections.ofPlan p joins) root = some q → q.Holds db e := by
  rcases toExistence_cases h with ⟨hnil, hr⟩ | hr
  · simp [hr, absorbed, Collections.roots, hnil]
  · rw [← evalTop_condition_iff, hr, Group.evalTop_ofTop_iff]
    simp only [mem_rewritten_iff hF]
    constructor
    · intro hall
      exact ⟨fun k hk hno => hall k (.inl ⟨hk, hno⟩),
        fun root hroot q hq => hall q (.inr ⟨root, hroot, hq⟩)⟩
    · rintro ⟨hout, hin⟩ k (⟨hk, hno⟩ | ⟨root, hroot, hq⟩)
      · exact hout k hk hno
      · exact hin root hroot k hq

/-! ### What the plans select -/

section

variable {T : JoinTree} {db : Database} {e : Assignment} {root : String} {q : Condition}
  (hT : p.tables = T.tables) (hjoins : ∀ j ∈ joins, j ∈ T.joins)

include hT hjoins

theorem holds_demand_iff
    (houter : ∀ j ∈ T.joins, (Collections.ofPlan p joins).above j.aliasName ≠ [] → j.kind = .outer)
    (hcorr : ∀ j ∈ joins, db.Correlates j) (hids : db.HasIds)
    (htelling : Telling db (Collections.ofPlan p joins) p.topConditions)
    (hroot : root ∈ absorbed p (Collections.ofPlan p joins))
    (hq : demand p (Collections.ofPlan p joins) root = some q) :
    q.Holds db e ↔ ∃ e', Completes db T (Collections.ofPlan p joins) root
      (sentTo (route? (Collections.ofPlan p joins)) root p.topConditions) e e' := by
  have hF := JoinTree.isForest hT hjoins
  obtain ⟨hroots, hs, -⟩ := mem_absorbed_iff.1 hroot
  obtain ⟨hc, habove⟩ := hF.mem_roots_iff.1 hroots
  have hfuel : (Collections.ofPlan p joins).collections.length <
      (Collections.ofPlan p joins).collections.length +
        ((Collections.ofPlan p joins).above root).length := by
    rw [habove, List.length_singleton]
    omega
  exact holds_build?_iff hT hjoins houter hcorr hids hc hfuel (routed_of_telling hF htelling hroots hs)
    (tells_sentTo hF htelling hroots hs) hq

theorem mem_tables_toExistence (h : p.toExistence joins = .ok r) {x : Table} :
    x ∈ r.plan.tables ↔ x ∈ T.tables ∧ ∀ root ∈ absorbed p (Collections.ofPlan p joins),
      root ∉ (Collections.ofPlan p joins).above x.aliasName := by
  rw [tables_toExistence h, hT, List.mem_filter, decide_eq_true_iff, List.mem_flatMap]
  simp only [(JoinTree.isForest hT hjoins).mem_subtree_iff, not_exists, not_and]

theorem mem_aliases_toExistence (h : p.toExistence joins = .ok r) {a : String} :
    a ∈ r.plan.tables.map Table.aliasName ↔ a ∈ T.aliases ∧
      ∀ root ∈ absorbed p (Collections.ofPlan p joins),
        root ∉ (Collections.ofPlan p joins).above a := by
  rw [← T.map_aliasName_tables, List.mem_map, List.mem_map]
  simp only [mem_tables_toExistence hT hjoins h]
  constructor
  · rintro ⟨x, ⟨hx, hout⟩, rfl⟩
    exact ⟨⟨x, hx, rfl⟩, hout⟩
  · rintro ⟨⟨x, hx, rfl⟩, hout⟩
    exact ⟨x, ⟨hx, hout⟩, rfl⟩

/-- The table that a table is joined to is left with it. -/
theorem parent_mem_toExistence (h : p.toExistence joins = .ok r) {j : Join} (hj : j ∈ T.joins)
    (hm : j.aliasName ∈ r.plan.tables.map Table.aliasName) :
    j.parent.aliasName ∈ r.plan.tables.map Table.aliasName := by
  rw [mem_aliases_toExistence hT hjoins h] at hm ⊢
  exact ⟨JoinTree.parent_mem hj, fun root hroot hp => hm.2 root hroot
    ((JoinTree.isForest hT hjoins).mem_above_of_parent (JoinTree.parent?_of_mem hT hj) hp)⟩

/-- The collections that became conditions are read by what went to them alone. -/
theorem not_mem_above_of_route? {k : Condition} (hk : k ∈ p.topConditions)
    (hroute : ∀ root ∈ absorbed p (Collections.ofPlan p joins),
      route? (Collections.ofPlan p joins) k ≠ some root) :
    ∀ a ∈ k.aliases, ∀ root ∈ absorbed p (Collections.ofPlan p joins),
      root ∉ (Collections.ofPlan p joins).above a := by
  intro a ha root hroot hm
  obtain ⟨hroots, hs, -⟩ := mem_absorbed_iff.1 hroot
  exact hroute root hroot
    (route?_of_mem_above (JoinTree.isForest hT hjoins) hroots hs hk ha hm)

/-- What the plan selects is selected by the rewritten plan, as far as its tables are concerned. -/
theorem restrict_mem_rows_toExistence
    (houter : ∀ j ∈ T.joins, (Collections.ofPlan p joins).above j.aliasName ≠ [] → j.kind = .outer)
    (hcorr : ∀ j ∈ joins, db.Correlates j) (hids : db.HasIds)
    (htelling : Telling db (Collections.ofPlan p joins) p.topConditions)
    (h : p.toExistence joins = .ok r) (he : e ∈ p.rows db .empty) :
    e.restrict (r.plan.tables.map Table.aliasName) ∈ r.plan.rows db .empty := by
  have hF := JoinTree.isForest hT hjoins
  have hstaged : Table.Staged r.plan.tables := by
    rw [tables_toExistence h, hT]
    exact T.staged.sublist List.filter_sublist
  rw [mem_rows_iff_fits (by rw [hT]; exact T.staged), hT, T.map_aliasName_tables] at he
  obtain ⟨hout, hfits, hholds⟩ := he
  set t := Collections.ofPlan p joins with ht
  set names := r.plan.tables.map Table.aliasName with hnames
  have mem_names := fun a => mem_aliases_toExistence (a := a) hT hjoins h
  have left : ∀ a ∈ names, e.restrict names a = e a := fun a ha => if_pos ha
  have agrees : ∀ a, (∀ root ∈ absorbed p t, root ∉ t.above a) → e.restrict names a = e a := by
    intro a ha
    by_cases hm : a ∈ names
    · exact left a hm
    · rw [hout a fun haT => hm ((mem_names a).2 ⟨haT, ha⟩)]
      exact if_neg hm
  rw [mem_rows_iff_fits hstaged, holds_toExistence_iff hF h]
  refine ⟨fun a ha => if_neg ha, fun x hx => ?_, fun k hk hroute => ?_, fun root hroot q hq => ?_⟩
  · have hxT := (mem_tables_toExistence hT hjoins h).1 hx
    have hxn : x.aliasName ∈ names := List.mem_map_of_mem hx
    refine (Table.fits_congr (T.staged.flat x hxT.1) (left _ hxn) fun a ha => ?_).2
      (hfits x hxT.1)
    rcases JoinTree.mem_tables_iff.1 hxT.1 with rfl | ⟨j, hj, rfl⟩
    · cases ha
    · rw [← Option.some.inj ha]
      exact left _ (parent_mem_toExistence hT hjoins h hj hxn)
  · exact (Condition.holds_congr (htelling.flat k hk) fun a ha => agrees a
      (not_mem_above_of_route? hT hjoins hk hroute a ha)).2 (hholds k hk)
  · rw [holds_demand_iff hT hjoins houter hcorr hids htelling hroot hq]
    obtain ⟨hroots, -, -⟩ := mem_absorbed_iff.1 hroot
    obtain ⟨j, hj, rfl⟩ := (JoinTree.isCollection_iff hT hjoins).1 (hF.mem_roots_iff.1 hroots).1
    have bare : ∀ a, t.above a = [] → e.restrict names a = e a := fun a ha =>
      agrees a fun root _ hm => by rw [ha] at hm; cases hm
    refine (JoinTree.completes_of_agree hT hjoins (hjoins j hj)
      (fun j' hj' _ => hfits (.join j') (JoinTree.mem_tables_iff.2 (.inr ⟨j', hj', rfl⟩)))
      (bare _ ?_) (fun k hk => htelling.flat k (mem_sentTo_iff.1 hk).1) (fun k hk a ha => ?_)
      (fun k hk => hholds k (mem_sentTo_iff.1 hk).1)).imp fun _ => And.left
    · exact Collections.IsForest.root?_eq_none_iff.1
        (hF.root?_parent_of_root (JoinTree.parent?_of_mem hT (hjoins j hj)) hroots)
    · rcases (of_route? hF (mem_sentTo_iff.1 hk).2).2.2.1 a ha with hnil | hm
      · exact .inr (bare a hnil)
      · exact .inl hm

/-- What the rewritten plan selects is a part of what the plan selects. -/
theorem exists_mem_rows_of_toExistence
    (houter : ∀ j ∈ T.joins, (Collections.ofPlan p joins).above j.aliasName ≠ [] → j.kind = .outer)
    (hcorr : ∀ j ∈ joins, db.Correlates j) (hids : db.HasIds)
    (htelling : Telling db (Collections.ofPlan p joins) p.topConditions)
    (h : p.toExistence joins = .ok r) (he : e ∈ r.plan.rows db .empty) :
    ∃ e' ∈ p.rows db .empty, ∀ a ∈ r.plan.tables.map Table.aliasName, e' a = e a := by
  have hF := JoinTree.isForest hT hjoins
  have hstaged : Table.Staged r.plan.tables := by
    rw [tables_toExistence h, hT]
    exact T.staged.sublist List.filter_sublist
  rw [mem_rows_iff_fits hstaged, holds_toExistence_iff hF h] at he
  obtain ⟨hout, hfits, hholds, hdemands⟩ := he
  have mem_names := fun a => mem_aliases_toExistence (a := a) hT hjoins h
  have hparts : ∀ root ∈ absorbed p (Collections.ofPlan p joins), ∃ e',
      Completes db T (Collections.ofPlan p joins) root
        (sentTo (route? (Collections.ofPlan p joins)) root p.topConditions) e e' := by
    intro root hroot
    obtain ⟨-, -, q, hq⟩ := mem_absorbed_iff.1 hroot
    exact (holds_demand_iff hT hjoins houter hcorr hids htelling hroot hq).1 (hdemands root hroot q hq)
  have sameRoot : ∀ a, ∀ root ∈ absorbed p (Collections.ofPlan p joins),
      ∀ root' ∈ absorbed p (Collections.ofPlan p joins),
        root ∈ (Collections.ofPlan p joins).above a →
          root' ∈ (Collections.ofPlan p joins).above a → root = root' :=
    fun a root hroot root' hroot' =>
      hF.root_unique (mem_absorbed_iff.1 hroot).1 (mem_absorbed_iff.1 hroot').1
  -- each subtree is bound as its condition demands, and the bindings are put together
  obtain ⟨e', hout', hin⟩ := JoinTree.exists_glued hT hjoins sameRoot
    (fun root _ k hk => htelling.flat k (mem_sentTo_iff.1 hk).1)
    (fun root hroot k hk a ha root' hroot' hm => by
      rcases (of_route? hF (mem_sentTo_iff.1 hk).2).2.2.1 a ha with hnil | hm'
      · rw [hnil] at hm
        cases hm
      · exact sameRoot a root' hroot' root hroot hm hm') hparts
  refine ⟨e', ?_, fun a ha => hout' a ((mem_names a).1 ha).2⟩
  rw [mem_rows_iff_fits (by rw [hT]; exact T.staged), hT, T.map_aliasName_tables]
  refine ⟨fun a ha => ?_, fun x hx => ?_, fun k hk => ?_⟩
  · rw [hout' a fun root _ hm => ha ?_]
    · exact hout a fun hm => ha ((mem_names a).1 hm).1
    · obtain ⟨j, hj, rfl⟩ := JoinTree.exists_join_of_mem_above hT hjoins hm
      exact JoinTree.aliasName_mem hj
  · by_cases hm : ∃ root ∈ absorbed p (Collections.ofPlan p joins),
        root ∈ (Collections.ofPlan p joins).above x.aliasName
    · obtain ⟨root, hroot, hm⟩ := hm
      rcases JoinTree.mem_tables_iff.1 hx with rfl | ⟨j, hj, rfl⟩
      · exact absurd hm (JoinTree.not_mem_above_primary hT hjoins)
      · exact (hin root hroot).1 j hj hm
    · push Not at hm
      refine (Table.fits_congr (T.staged.flat x hx) (hout' _ hm) fun a ha => ?_).2
        (hfits x ((mem_tables_toExistence hT hjoins h).2 ⟨hx, hm⟩))
      rcases JoinTree.mem_tables_iff.1 hx with rfl | ⟨j, hj, rfl⟩
      · cases ha
      · rw [← Option.some.inj ha]
        exact hout' _ fun root hroot hp => hm root hroot
          (hF.mem_above_of_parent (JoinTree.parent?_of_mem hT hj) hp)
  · by_cases hroute : ∃ root ∈ absorbed p (Collections.ofPlan p joins),
        route? (Collections.ofPlan p joins) k = some root
    · obtain ⟨root, hroot, hroute⟩ := hroute
      exact (hin root hroot).2 k (mem_sentTo_iff.2 ⟨hk, hroute⟩)
    · push Not at hroute
      exact (Condition.holds_congr (htelling.flat k hk) fun a ha => hout' a
        (not_mem_above_of_route? hT hjoins hk hroute a ha)).2 (hholds k hk hroute)

/-- Where the conditions tell of the collections, the plan selects the same combinations of rows of
the tables that are left. -/
theorem combinations_toExistence_of_telling
    (houter : ∀ j ∈ T.joins, (Collections.ofPlan p joins).above j.aliasName ≠ [] → j.kind = .outer)
    (hcorr : ∀ j ∈ joins, db.Correlates j) (hids : db.HasIds)
    (htelling : Telling db (Collections.ofPlan p joins) p.topConditions)
    (h : p.toExistence joins = .ok r) :
    p.combinations db (r.plan.tables.map Table.aliasName) =
      r.plan.combinations db (r.plan.tables.map Table.aliasName) := by
  ext f
  constructor
  · rintro ⟨e, he, rfl⟩
    refine ⟨_, restrict_mem_rows_toExistence hT hjoins houter hcorr hids htelling h he, ?_⟩
    exact Assignment.restrict_congr fun a ha => if_pos ha
  · rintro ⟨e, he, rfl⟩
    obtain ⟨e', he', heq⟩ := exists_mem_rows_of_toExistence hT hjoins houter hcorr hids htelling h he
    exact ⟨e', he', Assignment.restrict_congr heq⟩

/-- Existence conditions instead of joins: where the conditions are admissible, the plan selects the
same combinations of rows of the tables that are left. -/
theorem combinations_toExistence
    (houter : ∀ j ∈ T.joins, (Collections.ofPlan p joins).above j.aliasName ≠ [] → j.kind = .outer)
    (hcorr : ∀ j ∈ joins, db.Correlates j) (hids : db.HasIds)
    (hadm : Admissible db (Collections.ofPlan p joins) p.topConditions)
    (h : p.toExistence joins = .ok r) :
    p.combinations db (r.plan.tables.map Table.aliasName) =
      r.plan.combinations db (r.plan.tables.map Table.aliasName) :=
  combinations_toExistence_of_telling hT hjoins houter hcorr hids
    (hadm.telling (JoinTree.isForest hT hjoins)) h

end

/-- The authors of a book, found by a join and by an existence condition. -/
theorem combinations_toExistence_books :
    ∃ r, Bookshelf.found.toExistence [Bookshelf.books] = .ok r ∧
      Bookshelf.found.combinations Bookshelf.database ["a", "b1", "_b"] =
        r.plan.combinations Bookshelf.database ["a", "b1", "_b"] := by
  have hadm : Admissible Bookshelf.database (Collections.ofPlan Bookshelf.found [Bookshelf.books])
      Bookshelf.found.topConditions := by
    refine ⟨fun k hk => ?_, fun _ _ => .inl fun k hk _ e he => ?_, fun k hk hp => ?_⟩
    · rw [List.mem_singleton.1 hk]
      rfl
    · rw [List.mem_singleton.1 hk] at he ⊢
      exact Bookshelf.titled_rejects_null he
    · rw [List.mem_singleton.1 hk] at hp
      cases hp
  have hjoins : ∀ j ∈ [Bookshelf.books], j ∈ Bookshelf.tree.joins := by
    simp [Bookshelf.tree]
  have houter : ∀ j ∈ Bookshelf.tree.joins, j.kind = .outer := by
    simp [Bookshelf.tree, Bookshelf.books, Bookshelf.edited, Bookshelf.biography]
  obtain ⟨r, h⟩ : ∃ r, Bookshelf.found.toExistence [Bookshelf.books] = .ok r := ⟨_, rfl⟩
  have hnames : r.plan.tables.map Table.aliasName = ["a", "b1", "_b"] := by
    rw [tables_toExistence h]
    rfl
  have hsame := combinations_toExistence rfl hjoins (fun j hj _ => houter j hj)
    (fun j hj => Bookshelf.correlates_database j (hjoins j hj)) Bookshelf.hasIds_database hadm h
  rw [hnames] at hsame
  exact ⟨r, h, hsame⟩

end Plan

end EntityQuery
