import EntityQuery.Proofs.Lateral.Reference
import EntityQuery.Proofs.Evaluation.Tables

/-!
# Plans with lateral aggregates

A plan whose collections became lateral aggregates loses nothing that it selected before.  Columns
are told apart by the rows that meet them: two groups on one collection may be met by different
rows.  Where each collection has one column, no more is selected either.

* `Plan.lateralScope`: the collections that become subqueries;
* `Lateral.Rejects`: the groups that are not true without a row of the collection;
* `Lateral.topConditions_lateralPlan`: the conditions that the rewritten plan has at the top;
* `Plan.toLateral_eq_of_ordered`, `Plan.toLateral_cases_of_ordered`: the rewritten plan, with
  `Plan.toLateral_eq` and `Plan.toLateral_cases` for join trees.
-/

namespace EntityQuery

open Lateral

/-- The collections that become lateral subqueries. -/
def Plan.lateralScope (p : Plan) (force : Bool) (threshold : Nat) (joins : List Join) : Scope :=
  let t := Collections.ofPlan p joins
  match settle t (eligible t force threshold) p.topConditions (t.collections.length + 1) [] [] with
  | .ok (s, _) => s
  | .error _ => ⟨t, []⟩

namespace Lateral

/-- The conditions at the top that are no guards. -/
def askedOf (s : Scope) (top : List Condition) : List Condition := top.filter (!isGuard s ·)

/-- The name of a collection's subquery; other tables keep their name. -/
def aliasOf (s : Scope) (supply : AliasSupply) (unit : String) : String :=
  (((s.active.map fun u => (u, subqueryName supply u)).find? (·.1 = unit)).map (·.2)).getD unit

/-- The conditions with references in them, and the columns that they refer to. -/
def divided (s : Scope) (supply : AliasSupply) (top : List Condition) :
    List Condition × List Column :=
  decompose s (aliasOf s supply) .and (askedOf s top) [] (askedOf s top) []

/-- Every group that is replaced asks for no row of the collection, and no more than that, or is not
true where the tables below the collection have no row. -/
def Rejects (db : Database) (s : Scope) (top : List Condition) : Prop :=
  ∀ unit c, Lifts s .and (askedOf s top) unit c → c.isMissing unit = true ∨
    ∀ e : Assignment, (∀ a ∈ s.tree.subtree unit, e a = none) → ¬ c.Holds db e

section

variable {s : Scope} {supply : AliasSupply} {top : List Condition} {u : String} {c : Condition}

theorem aliasOf_of_mem (hu : u ∈ s.active) : aliasOf s supply u = subqueryName supply u := by
  unfold aliasOf
  rw [List.find?_map]
  cases hf : s.active.find? ((fun x : String × String => decide (x.1 = u)) ∘
      fun u => (u, subqueryName supply u)) with
  | none =>
    rw [List.find?_eq_none] at hf
    exact absurd (by simp) (hf u hu)
  | some v =>
    have hv : v = u := by simpa using List.find?_some hf
    simp [hv]

/-- What is replaced reads tables below the collection alone. -/
theorem unit?_of_lifts {op : Connective} {siblings : List Condition} (h : Lifts s op siblings u c) :
    ∀ a ∈ c.aliases, s.unit? a = some u := by
  induction h with
  | here =>
    intro a ha
    obtain ⟨m, hm, ha⟩ := mem_aliases_asOne_iff.1 ha
    rw [List.mem_filter, decide_eq_true_iff] at hm
    exact (Scope.only?_eq_some_iff.1 hm.2).2 a ha
  | inside _ _ _ ih => exact ih

/-- A group that is replaced reads the collection. -/
theorem exists_unit?_of_lifts {op : Connective} {siblings : List Condition} (h : Lifts s op siblings u c) :
    ∃ m ∈ siblings, ∃ a ∈ m.aliases, s.unit? a = some u := by
  induction h with
  | here h =>
    obtain ⟨m, hm, hu⟩ := h
    exact ⟨m, hm, (Scope.only?_eq_some_iff.1 hu).1⟩
  | inside hm _ _ ih =>
    obtain ⟨m, hm', a, ha, hu⟩ := ih
    exact ⟨_, hm, a, Condition.mem_aliases_group.2 ⟨m, hm', ha⟩, hu⟩

theorem plans_of_lifts {op : Connective} {siblings : List Condition} (h : Lifts s op siblings u c)
    (hflat : ∀ k ∈ siblings, k.plans = []) : c.plans = [] := by
  induction h with
  | here => exact plans_asOne_eq_nil_iff.2 fun k hk => hflat k (List.mem_filter.1 hk).1
  | inside hm _ _ ih =>
    refine ih ?_
    have := hflat _ hm
    rwa [Condition.plans_group, Condition.plansOf_eq_nil_iff] at this

theorem mem_active_of_lifts {op : Connective} {siblings : List Condition}
    (h : Lifts s op siblings u c) : u ∈ s.active := by
  induction h with
  | here h =>
    obtain ⟨m, -, hm⟩ := h
    obtain ⟨⟨a, -, ha⟩, -⟩ := Scope.only?_eq_some_iff.1 hm
    exact (Scope.of_unit? ha).1
  | inside _ _ _ ih => exact ih

theorem numbered_divided : Numbered (divided s supply top).2 :=
  decompose_induction (fun _ _ _ _ h => numbered_addColumn h) _ (List.Subset.refl _) fun _ => rfl

/-- Every column is that of a group that is replaced. -/
theorem exists_lifts_of_mem_divided {column : Column} (h : column ∈ (divided s supply top).2) :
    ∃ k name, Lifts s .and (askedOf s top) column.unit k ∧
      column.select = columnOf column.unit name k := by
  refine decompose_induction (P := fun columns => ∀ column ∈ columns, ∃ k name,
    Lifts s .and (askedOf s top) column.unit k ∧ column.select = columnOf column.unit name k)
    (fun unit k columns hk hcolumns => List.forall_mem_append.2 ⟨hcolumns,
      List.forall_mem_singleton.2 ⟨k, _, hk, rfl⟩⟩) _ (List.Subset.refl _) (List.forall_mem_nil _)
    column h

theorem exists_lifts_of_mem_selectsOf {x : Select} (h : x ∈ selectsOf u (divided s supply top).2) :
    ∃ k name, Lifts s .and (askedOf s top) u k ∧ x = columnOf u name k := by
  obtain ⟨column, hcolumn, rfl⟩ := List.mem_map.1 h
  obtain ⟨hcolumn, hunit⟩ := List.mem_filter.1 hcolumn
  exact of_decide_eq_true hunit ▸ exists_lifts_of_mem_divided hcolumn

/-- A collection with columns has a group that is replaced. -/
theorem exists_lifts_of_isRewritten (h : isRewritten (divided s supply top).2 u = true) :
    ∃ k, Lifts s .and (askedOf s top) u k := by
  rw [isRewritten, Bool.not_eq_true', List.isEmpty_eq_false_iff] at h
  obtain ⟨x, hx⟩ := List.exists_mem_of_ne_nil _ h
  obtain ⟨k, -, hl, -⟩ := exists_lifts_of_mem_selectsOf hx
  exact ⟨k, hl⟩

theorem mem_guardsOf_iff : c ∈ guardsOf s top u ↔
    c ∈ top ∧ c.isPruneable = true ∧ (s.units c).1 = [u] := by
  rw [guardsOf, List.mem_filter, isGuard, Bool.and_eq_true, Bool.and_eq_true, decide_eq_true_iff,
    decide_eq_true_iff]
  constructor
  · rintro ⟨hc, ⟨hp, -⟩, hu⟩
    exact ⟨hc, hp, hu⟩
  · rintro ⟨hc, hp, hu⟩
    exact ⟨hc, ⟨hp, by rw [hu]; rfl⟩, hu⟩

/-- A condition at the top is asked for or guards one of the collections. -/
theorem mem_askedOf_or_guard (hc : c ∈ top) :
    c ∈ askedOf s top ∨ ∃ u ∈ s.active, c ∈ guardsOf s top u := by
  cases hg : isGuard s c with
  | false => exact .inl (List.mem_filter.2 ⟨hc, by simp [hg]⟩)
  | true =>
    rw [isGuard, Bool.and_eq_true, decide_eq_true_iff, List.length_eq_one_iff] at hg
    obtain ⟨hp, u, hu⟩ := hg
    obtain ⟨⟨a, -, ha⟩, -⟩ := Scope.units_eq_singleton_iff.1 hu
    exact .inr ⟨u, (Scope.of_unit? ha).1, mem_guardsOf_iff.2 ⟨hc, hp, hu⟩⟩

/-- The first condition that was asked for leaves one that was. -/
theorem exists_mem_decompose_cons {aliasOf : String → String} {op : Connective}
    {siblings rest : List Condition} {c : Condition} {columns : List Column}
    (hc : c.isPruneable = false) :
    ∃ k ∈ (decompose s aliasOf op siblings [] (c :: rest) columns).1, k.isPruneable = false := by
  rw [decompose]
  cases s.only? c with
  | some unit => exact ⟨_, List.mem_cons_self, rfl⟩
  | none =>
    refine ⟨_, List.mem_cons_self, ?_⟩
    cases c with
    | group g =>
      obtain ⟨op', cs⟩ := g
      rw [decomposeOne]
      split_ifs <;> rfl
    | column | raw | existence =>
      rw [decomposeOne_leaf (by simp)]
      exact hc

/-- A group that is left was a group before, with the same connective; it has a member that was asked
for if its first member was. -/
theorem exists_group_of_mem_decompose {aliasOf : String → String} {op : Connective}
    {siblings rest : List Condition} {seen : List String} {columns : List Column} {g : Group}
    (hg : .group g ∈ (decompose s aliasOf op siblings seen rest columns).1) :
    ∃ g', .group g' ∈ rest ∧ g'.op = g.op ∧
      ∀ c cs, g'.conditions = c :: cs → c.isPruneable = false →
        ∃ k ∈ g.conditions, k.isPruneable = false := by
  induction rest generalizing seen columns with
  | nil =>
    rw [decompose] at hg
    cases hg
  | cons c rest ih =>
    have later : ∀ {seen columns}, .group g ∈ (decompose s aliasOf op siblings seen rest columns).1 →
        ∃ g', .group g' ∈ c :: rest ∧ g'.op = g.op ∧
          ∀ c cs, g'.conditions = c :: cs → c.isPruneable = false →
            ∃ k ∈ g.conditions, k.isPruneable = false := fun hg => by
      obtain ⟨g', hg', he⟩ := ih hg
      exact ⟨g', List.mem_cons_of_mem c hg', he⟩
    rw [decompose] at hg
    split at hg
    · split_ifs at hg
      · exact later hg
      · -- a reference is no group
        exact later ((List.mem_cons.1 hg).resolve_left fun h => by cases h)
    · rcases List.mem_cons.1 hg with hg | hg
      · cases c with
        | group g' =>
          obtain ⟨op', cs⟩ := g'
          refine ⟨_, List.mem_cons_self, ?_⟩
          rw [decomposeOne] at hg
          split_ifs at hg
          · rw [Condition.group.inj hg]
            exact ⟨rfl, fun c cs hcs hc => ⟨c, hcs ▸ List.mem_cons_self, hc⟩⟩
          · rw [Condition.group.inj hg]
            exact ⟨rfl, fun c cs hcs hc => by
              obtain rfl := hcs
              exact exists_mem_decompose_cons hc⟩
        | column | raw | existence =>
          rw [decomposeOne_leaf (by simp)] at hg
          cases hg
      · exact later hg

/-- What is asked for can be divided. -/
theorem pinnedByAll_askedOf (hset : Divisible s top) : s.pinnedByAll (askedOf s top) = [] := by
  rw [Scope.pinnedByAll_eq_nil_iff]
  intro c hc
  obtain ⟨hc, hg⟩ := List.mem_filter.1 hc
  cases hp : c.isPruneable with
  | false => exact hset.divided c hc hp
  | true =>
    -- it reads one collection at most, and would be a guard if it read one
    refine Scope.pinnedBy_eq_nil_iff.2 (.inl (List.length_eq_zero_iff.1 ?_))
    have hle := hset.single c hc hp
    have hne : (s.units c).1.length ≠ 1 := fun h => by simp [isGuard, hp, h] at hg
    omega

end

/-- The plan with the tables and the conditions that the chosen collections leave one after the
other. -/
def absorbedPlan (s : Scope) (supply : AliasSupply) (p : Plan) : Plan :=
  let left := absorbAll s p.topConditions (divided s supply p.topConditions).2
    (s.active.map fun u => (u, subqueryName supply u)) p.tables
  { p with
    tables := left.1
    condition := Group.ofTop p.isDisjunctive ((divided s supply p.topConditions).1 ++ left.2) }

/-- The plan with the chosen collections as lateral subqueries. -/
def lateralPlan (s : Scope) (supply : AliasSupply) (p : Plan) : Plan :=
  let columns := (divided s supply p.topConditions).2
  { p with
    tables := outside s columns s.active p.tables ++ laterals s p.topConditions columns supply p.tables
    condition := Group.ofTop p.isDisjunctive ((divided s supply p.topConditions).1 ++
      s.active.flatMap fun u => if isRewritten columns u then [] else guardsOf s p.topConditions u) }

/-- A disjunction at the top stays one condition. -/
theorem topConditions_lateralPlan {s : Scope} {supply : AliasSupply} {p : Plan} :
    (lateralPlan s supply p).topConditions = (divided s supply p.topConditions).1 ++
      s.active.flatMap fun u => if isRewritten (divided s supply p.topConditions).2 u then []
        else guardsOf s p.topConditions u := by
  refine Plan.topConditions_ofTop rfl fun hd g hg => ?_
  rcases List.mem_append.1 hg with hg | hg
  · obtain ⟨g', hg', hop, -⟩ := exists_group_of_mem_decompose hg
    rw [← hop]
    exact Plan.op_of_isDisjunctive hd (List.mem_filter.1 hg').1
  · obtain ⟨u, -, hg⟩ := List.mem_flatMap.1 hg
    split_ifs at hg
    · cases hg
    · exact Plan.op_of_isDisjunctive hd (mem_guardsOf_iff.1 hg).1

end Lateral

/-! ### The rewritten plan -/

namespace Plan

section

variable {p : Plan} {joins : List Join} {force : Bool} {threshold : Nat}
  {supply supply' : AliasSupply} {r : Resolved}

section

variable (hts : Table.Ordered [] p.tables)

include hts

theorem divisible_of_ordered :
    (p.lateralScope force threshold joins).tree = Collections.ofPlan p joins ∧
      Divisible (p.lateralScope force threshold joins) p.topConditions := by
  unfold lateralScope
  simp only
  split
  · next s warnings h =>
    exact divisible_of_settle (isForest joins hts) (pairwise_collections joins hts) h
  · exact ⟨rfl, divisible_nil⟩

/-- The rewritten plan, as the collections leave it one after the other, unless none is eligible. -/
theorem toLateral_eq_of_ordered (h : p.toLateral force threshold joins supply = .ok (r, supply')) :
    (eligible (Collections.ofPlan p joins) force threshold = [] ∧ r.plan = p) ∨
      r.plan = absorbedPlan (p.lateralScope force threshold joins) supply p := by
  obtain ⟨-, hset⟩ : (p.lateralScope force threshold joins).tree = Collections.ofPlan p joins ∧
      Divisible (p.lateralScope force threshold joins) p.topConditions :=
    divisible_of_ordered hts
  unfold toLateral at h
  simp only at h
  split_ifs at h with he
  · obtain ⟨hr, -⟩ := Prod.mk.inj (Except.ok.inj h)
    exact .inl ⟨List.isEmpty_iff.1 he, by rw [← hr]⟩
  · right
    cases hs : settle (Collections.ofPlan p joins)
        (eligible (Collections.ofPlan p joins) force threshold) p.topConditions
        ((Collections.ofPlan p joins).collections.length + 1) [] [] with
    | error err =>
      rw [hs] at h
      cases h
    | ok result =>
      obtain ⟨s, warnings⟩ := result
      have hscope : p.lateralScope force threshold joins = s := by
        unfold lateralScope
        simp only [hs]
      rw [hscope] at hset ⊢
      rw [hs] at h
      have hnames := nameUnits_eq hset.independent.nodup supply
      obtain ⟨hr, -⟩ := Prod.mk.inj (Except.ok.inj h)
      rw [← hr]
      simp only [hnames]
      rfl

/-- Where no table is called as one of the subqueries, the rewritten plan has the lateral tables
behind the others, unless no collection has enough siblings. -/
theorem toLateral_cases_of_ordered
    (hnew : ∀ u ∈ (p.lateralScope force threshold joins).active,
      subqueryName supply u ∉ p.tables.map Table.aliasName)
    (h : p.toLateral force threshold joins supply = .ok (r, supply')) :
    (eligible (Collections.ofPlan p joins) force threshold = [] ∧ r.plan = p) ∨
      r.plan = lateralPlan (p.lateralScope force threshold joins) supply p := by
  have hF := isForest joins hts
  obtain ⟨htree, hset⟩ : (p.lateralScope force threshold joins).tree = Collections.ofPlan p joins ∧
      Divisible (p.lateralScope force threshold joins) p.topConditions :=
    divisible_of_ordered hts
  refine (toLateral_eq_of_ordered hts h).imp id fun hr => hr.trans ?_
  generalize p.lateralScope force threshold joins = s at htree hset hnew
  have hout : ∀ u ∈ s.active, ∀ v ∈ s.active, subqueryName supply u ∉ s.tree.subtree v := by
    intro u hu v _ hm
    rw [htree, hF.mem_subtree_iff] at hm
    exact hnew u hu (hF.mem_aliases_of_above hm)
  have habsorb : absorbAll s p.topConditions (divided s supply p.topConditions).2
      (s.active.map fun u => (u, subqueryName supply u)) (p.tables ++ []) = _ :=
    absorbAll_eq (htree ▸ hF) hset.independent hout (List.Subset.refl _)
      hset.independent.nodup (by simp)
  rw [List.append_nil, List.append_nil] at habsorb
  unfold absorbedPlan
  simp only [habsorb]
  rfl

end

/-! ### Join trees -/

section

variable {T : JoinTree} (hT : p.tables = T.tables)

include hT

theorem divisible_lateralScope (_hjoins : ∀ j ∈ joins, j ∈ T.joins) :
    (p.lateralScope force threshold joins).tree = Collections.ofPlan p joins ∧
      Divisible (p.lateralScope force threshold joins) p.topConditions :=
  divisible_of_ordered (JoinTree.ordered_tables hT)

theorem toLateral_eq (_hjoins : ∀ j ∈ joins, j ∈ T.joins)
    (h : p.toLateral force threshold joins supply = .ok (r, supply')) :
    (eligible (Collections.ofPlan p joins) force threshold = [] ∧ r.plan = p) ∨
      r.plan = absorbedPlan (p.lateralScope force threshold joins) supply p :=
  toLateral_eq_of_ordered (JoinTree.ordered_tables hT) h

/-- Where the names of the subqueries are fresh, the rewritten plan has the lateral tables behind the
others, unless no collection has enough siblings. -/
theorem toLateral_cases (_hjoins : ∀ j ∈ joins, j ∈ T.joins)
    (hfresh : Fresh (p.lateralScope force threshold joins) p supply)
    (h : p.toLateral force threshold joins supply = .ok (r, supply')) :
    r.plan = p ∨ r.plan = lateralPlan (p.lateralScope force threshold joins) supply p :=
  (toLateral_cases_of_ordered (JoinTree.ordered_tables hT) hfresh.tables h).imp And.right id

end

end

end Plan

end EntityQuery
