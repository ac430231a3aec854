import EntityQuery.Plan.NullCheck
import EntityQuery.Proofs.Pruning.Apart
import Mathlib.Data.List.Flatten

/-!
# The tables of a plan and of the plans inside it

The passes behind the resolution of collections bring no table into a nested plan: tests for null
leave all tables where they are, and pruning takes some away.

* `Plan.allAliases_eq`, `Plan.allAliases_eq_nested`: the tables of the plan itself and of its nested
  plans;
* `Condition.Flat`: leaves that are replaced by conditions without subqueries;
* `Plan.allAliases_mapLeaves`: a plan with other leaves has the same tables;
* `Plan.sublist_allAliases_prune`: a pruned plan has some of them.
-/

namespace EntityQuery

/-! ### Nested plans -/

mutual

theorem Group.allAliases_eq : ∀ g : Group, g.allAliases = g.plans.flatMap Plan.allAliases
  | ⟨_, cs⟩ => Condition.allAliasesOf_eq cs

theorem Condition.allAliasesOf_eq : ∀ cs : List Condition,
    Condition.allAliasesOf cs = (Condition.plansOf cs).flatMap Plan.allAliases
  | [] => rfl
  | c :: cs => by
    rw [Condition.allAliasesOf, Condition.plansOf, List.flatMap_append,
      Condition.allAliases_eq c, Condition.allAliasesOf_eq cs]

theorem Condition.allAliases_eq : ∀ c : Condition, c.allAliases = c.plans.flatMap Plan.allAliases
  | .group g => Group.allAliases_eq g
  | .column _ => rfl
  | .raw _ => rfl
  | .existence _ _ _ => (List.flatMap_singleton _ _).symm

end

theorem Condition.allAliasesOf_append {cs cs' : List Condition} :
    Condition.allAliasesOf (cs ++ cs') = Condition.allAliasesOf cs ++ Condition.allAliasesOf cs' := by
  induction cs with
  | nil => rfl
  | cons c cs ih => rw [List.cons_append, Condition.allAliasesOf, ih, ← List.append_assoc]; rfl

theorem Condition.allAliasesOf_of_flat {cs : List Condition} (h : ∀ c ∈ cs, c.plans = []) :
    Condition.allAliasesOf cs = [] := by
  rw [Condition.allAliasesOf_eq, Condition.plansOf_eq_nil_iff.2 h, List.flatMap_nil]

theorem Table.allAliasesOf_eq {ts : List Table} :
    Table.allAliasesOf ts = (ts.flatMap Table.plans).flatMap Plan.allAliases := by
  induction ts with
  | nil => rfl
  | cons t ts ih => cases t <;> simp [Table.allAliasesOf, Table.plans, ih]

theorem Table.allAliasesOf_append {ts ts' : List Table} :
    Table.allAliasesOf (ts ++ ts') = Table.allAliasesOf ts ++ Table.allAliasesOf ts' := by
  simp only [Table.allAliasesOf_eq, List.flatMap_append]

theorem Table.allAliasesOf_of_flat {ts : List Table} (h : ∀ t ∈ ts, t.plans = []) :
    Table.allAliasesOf ts = [] := by
  rw [Table.allAliasesOf_eq, List.flatMap_eq_nil_iff.2 h, List.flatMap_nil]

theorem Select.allAliasesOf_eq {xs : List Select} :
    Select.allAliasesOf xs = (xs.flatMap Select.plans).flatMap Plan.allAliases := by
  induction xs with
  | nil => rfl
  | cons x xs ih =>
    cases x <;> simp [Select.allAliasesOf, Select.plans, ih, Group.allAliases_eq]

theorem Select.allAliasesOf_of_flat {xs : List Select} (h : ∀ x ∈ xs, x.plans = []) :
    Select.allAliasesOf xs = [] := by
  rw [Select.allAliasesOf_eq, List.flatMap_eq_nil_iff.2 h, List.flatMap_nil]

namespace Plan

variable {p query : Plan} {a : String}

/-- The tables of the plan itself come first, then those of the plans inside its parts. -/
theorem allAliases_eq : p.allAliases = p.tables.map Table.aliasName ++
    Table.allAliasesOf p.tables ++ Group.allAliasesOf p.condition ++
      Select.allAliasesOf p.selects := by
  cases p
  rfl

/-- The tables of the plan, then those of the plans inside it. -/
theorem allAliases_eq_nested : p.allAliases =
    p.tables.map Table.aliasName ++ p.nestedPlans.flatMap allAliases := by
  have hcondition : Group.allAliasesOf p.condition =
      ((p.condition.map Group.plans).getD []).flatMap allAliases := by
    cases p.condition with
    | none => rfl
    | some g => exact Group.allAliases_eq g
  rw [allAliases_eq, Table.allAliasesOf_eq, hcondition, Select.allAliasesOf_eq, nestedPlans,
    List.flatMap_append, List.flatMap_append, List.append_assoc, List.append_assoc,
    List.append_assoc]

theorem sublist_allAliases_of_nested (h : query ∈ p.nestedPlans) :
    query.allAliases.Sublist p.allAliases := by
  rw [allAliases_eq_nested (p := p)]
  exact (List.sublist_flatten_of_mem (List.mem_map_of_mem h)).trans (List.sublist_append_right _ _)

theorem nodup_names (h : p.allAliases.Nodup) : (p.tables.map Table.aliasName).Nodup := by
  rw [allAliases_eq_nested] at h
  exact h.of_append_left

theorem not_mem_names_of_nested (h : p.allAliases.Nodup) (hq : query ∈ p.nestedPlans)
    (ha : a ∈ query.allAliases) : a ∉ p.tables.map Table.aliasName := by
  rw [allAliases_eq_nested, List.nodup_append'] at h
  exact fun hm => h.2.2 hm (List.mem_flatMap.2 ⟨query, hq, ha⟩)

theorem allAliasesOf_topConditions :
    Condition.allAliasesOf p.topConditions = Group.allAliasesOf p.condition := by
  obtain ⟨selects, tables, condition, sortKeys, groupBys, ctes⟩ := p
  match condition with
  | none => rfl
  | some ⟨.and, cs⟩ => rfl
  | some ⟨.or, cs⟩ => exact List.append_nil _

/-- The condition at the top has no subqueries if its conditions have none. -/
theorem allAliasesOf_ofTop {disjunctive : Bool} {cs : List Condition}
    (h : ∀ c ∈ cs, c.plans = []) : Group.allAliasesOf (Group.ofTop disjunctive cs) = [] := by
  have hall : ∀ cs : List Condition, (∀ c ∈ cs, c.plans = []) →
      Group.allAliasesOf (some (.all cs)) = [] := fun _ => Condition.allAliasesOf_of_flat
  match cs, h with
  | [], _ => rfl
  | [.group g], h =>
    cases disjunctive with
    | false => exact hall _ h
    | true =>
      have hg : g.plans = [] := h _ (List.mem_singleton_self _)
      show g.allAliases = []
      rw [Group.allAliases_eq, hg, List.flatMap_nil]
  | [.column _], h | [.raw _], h | [.existence _ _ _], h => exact hall _ h
  | c :: c' :: rest, h => cases c <;> exact hall _ h

end Plan

/-! ### Other leaves -/

/-- A condition without subqueries is replaced by such conditions. -/
def Condition.Flat (f : Condition → List Condition) : Prop :=
  ∀ c, c.plans = [] → ∀ c' ∈ f c, c'.plans = []

theorem Condition.flat_withNullCheck {outer : List String} {idDbType : String → String} :
    Condition.Flat (Condition.withNullCheck outer idDbType) := by
  intro c hc c' hc'
  cases c with
  | column c =>
    simp only [Condition.withNullCheck] at hc'
    split_ifs at hc' <;>
    · rw [List.mem_singleton.1 hc']
      rfl
  | _ =>
    rw [List.mem_singleton.1 hc']
    exact hc

theorem Condition.flat_withoutRemoved {removed : List String} :
    Condition.Flat (Condition.withoutRemoved removed) := fun _ hc _ hc' => by
  rw [Condition.withoutRemoved_subset hc']
  exact hc

section

variable {f : Condition → List Condition}

mutual

/-- A plan with other leaves has the same tables, and so have the plans inside it. -/
theorem Plan.allAliases_mapLeaves (hf : Condition.Flat f) : ∀ p : Plan,
    (p.mapLeaves f).allAliases = p.allAliases
  | ⟨selects, tables, condition, _, _, _⟩ => by
    rw [Plan.mapLeaves, Plan.allAliases, Plan.allAliases, Table.map_aliasName_mapLeavesAll,
      Table.allAliasesOf_mapLeavesAll hf tables, Group.allAliasesOf_mapLeavesTop hf condition,
      Select.allAliasesOf_mapLeavesAll hf selects]

theorem Table.allAliasesOf_mapLeavesAll (hf : Condition.Flat f) : ∀ ts : List Table,
    Table.allAliasesOf (Table.mapLeavesAll f ts) = Table.allAliasesOf ts
  | [] => rfl
  | .lateral _ _ query :: ts => by
    rw [Table.mapLeavesAll, Table.allAliasesOf, Table.allAliasesOf,
      Plan.allAliases_mapLeaves hf query, Table.allAliasesOf_mapLeavesAll hf ts]
  | .primary _ _ :: ts => Table.allAliasesOf_mapLeavesAll hf ts
  | .join _ :: ts => Table.allAliasesOf_mapLeavesAll hf ts
  | .cross _ _ :: ts => Table.allAliasesOf_mapLeavesAll hf ts

theorem Group.allAliasesOf_mapLeavesTop (hf : Condition.Flat f) : ∀ g : Option Group,
    Group.allAliasesOf (Group.mapLeavesTop f g) = Group.allAliasesOf g
  | none => rfl
  | some g => Group.allAliases_mapLeaves hf g

theorem Group.allAliases_mapLeaves (hf : Condition.Flat f) : ∀ g : Group,
    (g.mapLeaves f).allAliases = g.allAliases
  | ⟨_, cs⟩ => Condition.allAliasesOf_mapLeavesAll hf cs

theorem Condition.allAliasesOf_mapLeavesAll (hf : Condition.Flat f) : ∀ cs : List Condition,
    Condition.allAliasesOf (Condition.mapLeavesAll f cs) = Condition.allAliasesOf cs
  | [] => rfl
  | c :: cs => by
    rw [Condition.mapLeavesAll, Condition.allAliasesOf_append, Condition.allAliasesOf,
      Condition.allAliasesOf_mapLeaves hf c, Condition.allAliasesOf_mapLeavesAll hf cs]

theorem Condition.allAliasesOf_mapLeaves (hf : Condition.Flat f) : ∀ c : Condition,
    Condition.allAliasesOf (c.mapLeaves f) = c.allAliases
  | .column _ => Condition.allAliasesOf_of_flat (hf _ rfl)
  | .raw _ => Condition.allAliasesOf_of_flat (hf _ rfl)
  | .group g => (List.append_nil _).trans (Group.allAliases_mapLeaves hf g)
  | .existence query _ _ => (List.append_nil _).trans (Plan.allAliases_mapLeaves hf query)

theorem Select.allAliasesOf_mapLeavesAll (hf : Condition.Flat f) : ∀ xs : List Select,
    Select.allAliasesOf (Select.mapLeavesAll f xs) = Select.allAliasesOf xs
  | [] => rfl
  | .boolOr g _ :: xs => by
    rw [Select.mapLeavesAll, Select.allAliasesOf, Select.allAliasesOf,
      Group.allAliases_mapLeaves hf g, Select.allAliasesOf_mapLeavesAll hf xs]
  | .star _ :: xs => Select.allAliasesOf_mapLeavesAll hf xs
  | .column _ _ :: xs => Select.allAliasesOf_mapLeavesAll hf xs
  | .discriminator _ _ _ :: xs => Select.allAliasesOf_mapLeavesAll hf xs
  | .countIsZero _ :: xs => Select.allAliasesOf_mapLeavesAll hf xs
  | .raw _ _ _ :: xs => Select.allAliasesOf_mapLeavesAll hf xs

end

end

/-! ### Pruning -/

section

variable {g : Plan → Plan}

mutual

theorem Group.sublist_allAliases_mapPlans (hg : ∀ q, (g q).allAliases.Sublist q.allAliases) :
    ∀ h : Group,
    (h.mapPlans g).allAliases.Sublist h.allAliases
  | ⟨_, cs⟩ => Condition.sublist_allAliasesOf_mapPlansOf hg cs

theorem Condition.sublist_allAliasesOf_mapPlansOf
    (hg : ∀ q, (g q).allAliases.Sublist q.allAliases) : ∀ cs : List Condition,
    (Condition.allAliasesOf (Condition.mapPlansOf g cs)).Sublist (Condition.allAliasesOf cs)
  | [] => List.Sublist.refl _
  | c :: cs => (Condition.sublist_allAliases_mapPlans hg c).append
      (Condition.sublist_allAliasesOf_mapPlansOf hg cs)

theorem Condition.sublist_allAliases_mapPlans
    (hg : ∀ q, (g q).allAliases.Sublist q.allAliases) : ∀ c : Condition,
    (c.mapPlans g).allAliases.Sublist c.allAliases
  | .column _ => List.Sublist.refl _
  | .raw _ => List.Sublist.refl _
  | .group h => Group.sublist_allAliases_mapPlans hg h
  | .existence query _ _ => hg query

end

theorem Table.sublist_allAliasesOf_mapPlan (hg : ∀ q, (g q).allAliases.Sublist q.allAliases)
    {ts : List Table} :
    (Table.allAliasesOf (ts.map (Table.mapPlan g))).Sublist (Table.allAliasesOf ts) := by
  induction ts with
  | nil => exact List.Sublist.refl _
  | cons t ts ih =>
    cases t with
    | lateral a fromAlias query => exact (hg query).append ih
    | _ => exact ih

theorem Plan.sublist_allAliases_mapPlans (hg : ∀ q, (g q).allAliases.Sublist q.allAliases)
    {p : Plan} :
    (p.mapPlans g).allAliases.Sublist p.allAliases := by
  obtain ⟨selects, tables, condition, sortKeys, groupBys, ctes⟩ := p
  have hcondition : (Group.allAliasesOf (condition.map (Group.mapPlans g))).Sublist
      (Group.allAliasesOf condition) := by
    cases condition with
    | none => exact List.Sublist.refl _
    | some h => exact Group.sublist_allAliases_mapPlans hg h
  rw [Plan.mapPlans, Plan.allAliases, Plan.allAliases, Table.map_aliasName_map_mapPlan]
  exact (((List.Sublist.refl _).append (Table.sublist_allAliasesOf_mapPlan hg)).append
    hcondition).append (List.Sublist.refl _)

end

namespace Plan

variable {p : Plan} {keep removed : List String}

/-- A group without conditions at the top has no subqueries. -/
theorem allAliases_nonempty? :
    allAliases { p with condition := Group.nonempty? p.condition } = p.allAliases := by
  obtain ⟨selects, tables, condition, sortKeys, groupBys, ctes⟩ := p
  match condition with
  | none => rfl
  | some ⟨_, []⟩ => rfl
  | some ⟨_, _ :: _⟩ => rfl

/-- Removing tables leaves the others in their order. -/
theorem sublist_allAliases_remove : (p.remove removed).allAliases.Sublist p.allAliases := by
  let left : Plan := { p with tables := p.tables.filter (·.aliasName ∉ removed) }
  have hleft : left.allAliases.Sublist p.allAliases := by
    have htables : left.tables.Sublist p.tables := List.filter_sublist
    have hnested : (Table.allAliasesOf left.tables).Sublist (Table.allAliasesOf p.tables) := by
      rw [Table.allAliasesOf_eq, Table.allAliasesOf_eq]
      exact (htables.flatMap _).flatMap _
    rw [allAliases_eq, allAliases_eq]
    exact (((htables.map _).append hnested).append (List.Sublist.refl _)).append
      (List.Sublist.refl _)
  have hsame : (p.remove removed).allAliases = left.allAliases :=
    allAliases_nonempty?.trans (allAliases_mapLeaves Condition.flat_withoutRemoved left)
  rwa [hsame]

theorem sublist_allAliases_trim : (p.trim keep).allAliases.Sublist p.allAliases :=
  trim_induct (P := fun q => q.allAliases.Sublist p.allAliases)
    (fun _ h => sublist_allAliases_remove.trans h) (List.Sublist.refl _)

theorem sublist_allAliases_pruneWithin {n : Nat} :
    (pruneWithin n keep p).allAliases.Sublist p.allAliases := by
  induction n generalizing keep p with
  | zero => exact sublist_allAliases_trim
  | succ n ih => exact (sublist_allAliases_mapPlans fun _ => ih).trans sublist_allAliases_trim

/-- A pruned plan has some of the tables, and so have the plans inside it. -/
theorem sublist_allAliases_prune : (p.prune keep).allAliases.Sublist p.allAliases :=
  sublist_allAliases_pruneWithin

end Plan

end EntityQuery
