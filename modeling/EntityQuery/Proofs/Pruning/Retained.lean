import EntityQuery.Proofs.Agreement.Binding
import EntityQuery.Proofs.Naming.Nested
import EntityQuery.Proofs.Pruning.Top

/-!
# Tables that are left

Pruning removes tables in rounds and looks into the subqueries of what is left.  Which tables are
left can be told from the plan as it was: those that tables which stay refer to, in the plan itself,
and in its subqueries those that stay there where nothing is to be kept.

* `Table.referents`, `Plan.ownReferences`: references by the part that makes them;
* `Plan.Sustains`, `Plan.Stays`: tables that hold each other, and those that are not trimmed away;
* `Plan.Retained`: the tables that are left in the plan and in the plans inside it;
* `Plan.mem_allAliases_prune_iff`: a pruned plan has exactly these.
-/

namespace EntityQuery

/-- The tables that a table refers to, what its subquery refers to included. -/
def Table.referents : Table → List String
  | .join j => [j.parent.aliasName]
  | .lateral _ fromAlias query => fromAlias :: query.references
  | _ => []

namespace Plan

/-- The tables that a plan refers to in its result columns, its condition and its order. -/
def ownReferences (p : Plan) : List String :=
  Select.referencesOf p.selects ++ Group.referencesOf p.condition ++
    p.sortKeys.map (·.aliasName) ++ (p.groupBys.getD []).map (·.aliasName)

/-- Each table of `S` is to be kept or is referred to, in the result columns, the condition or the
order, or by a table of `S`. -/
def Sustains (keep : List String) (p : Plan) (S : String → Prop) : Prop :=
  ∀ a, S a → a ∈ keep ∨ a ∈ p.ownReferences ∨ ∃ t ∈ p.tables, S t.aliasName ∧ a ∈ t.referents

/-- The table is the primary one, or one of tables that sustain each other. -/
def Stays (keep : List String) (p : Plan) (a : String) : Prop :=
  (∃ S, p.Sustains keep S ∧ S a) ∨ ∀ t ∈ p.tables, t.aliasName = a → t.isPrimary = true

/-- The subqueries of the condition. -/
def subqueries (p : Plan) : List Plan := (p.condition.map Group.plans).getD []

/-- The tables that are left in a plan and in the plans inside it: those that stay, and those that
are left in lateral queries that stay and in the subqueries of the condition, where nothing is to be
kept.  Aggregates are left as they are. -/
inductive Retained : List String → Plan → String → Prop
  | table {keep : List String} {p : Plan} {a : String} (ha : a ∈ p.tables.map Table.aliasName)
      (hs : p.Stays keep a) : Retained keep p a
  | lateral {keep : List String} {p query : Plan} {a x fromAlias : String}
      (ht : .lateral x fromAlias query ∈ p.tables) (hs : p.Stays keep x)
      (ha : Retained [] query a) : Retained keep p a
  | subquery {keep : List String} {p query : Plan} {a : String} (hq : query ∈ p.subqueries)
      (ha : Retained [] query a) : Retained keep p a
  | aggregate {keep : List String} {p query : Plan} {a : String}
      (hq : query ∈ p.selects.flatMap Select.plans) (ha : a ∈ query.allAliases) : Retained keep p a

end Plan

/-! ### References -/

section

variable {p : Plan} {t : Table} {a : String}

theorem Table.isPrimary_of_referent (h : a ∈ t.referents) : t.isPrimary = false := by
  cases t with
  | primary => cases h
  | _ => rfl

theorem Table.mem_referencesOf_iff_referents {ts : List Table} :
    a ∈ Table.referencesOf ts ↔ ∃ t ∈ ts, a ∈ t.referents := by
  rw [Table.mem_referencesOf_iff]
  constructor
  · rintro (⟨j, hj, rfl⟩ | ⟨x, b, query, ht, ha⟩)
    · exact ⟨_, hj, List.mem_singleton_self _⟩
    · exact ⟨_, ht, List.mem_cons.2 ha⟩
  · rintro ⟨t, ht, ha⟩
    cases t with
    | join j => exact .inl ⟨j, ht, List.mem_singleton.1 ha⟩
    | lateral x b query => exact .inr ⟨x, b, query, ht, List.mem_cons.1 ha⟩
    | _ => cases ha

theorem Plan.mem_references_iff_own :
    a ∈ p.references ↔ a ∈ p.ownReferences ∨ ∃ t ∈ p.tables, a ∈ t.referents := by
  rw [Plan.mem_references_iff, Table.mem_referencesOf_iff_referents]
  simp only [Plan.ownReferences, List.mem_append, List.mem_map, or_assoc]

end

/-! ### Other leaves -/

/-- What stands in the place of a condition refers to the same tables. -/
def Condition.SameReferences (f : Condition → List Condition) : Prop :=
  ∀ c a, a ∈ Condition.referencesOf (f c) ↔ a ∈ c.references

/-- What goes with removed tables refers to nothing. -/
theorem Condition.sameReferences_withoutRemoved {removed : List String} :
    Condition.SameReferences (Condition.withoutRemoved removed) := by
  have hone : ∀ (c : Condition) a, a ∈ Condition.referencesOf [c] ↔ a ∈ c.references := fun c a => by
    rw [Condition.referencesOf, Condition.referencesOf, List.append_nil]
  intro c a
  cases c with
  | column c =>
    rw [Condition.withoutRemoved]
    split_ifs with h
    · rw [Bool.and_eq_true] at h
      rw [Condition.references, if_pos h.1]
      rfl
    · exact hone _ a
  | raw r =>
    rw [Condition.withoutRemoved]
    split_ifs with h
    · rw [Bool.and_eq_true] at h
      rw [Condition.references, if_pos h.1]
      rfl
    · exact hone _ a
  | _ => exact hone _ a

/-- The test for a row refers to the table of the test for null beside it. -/
theorem Condition.sameReferences_withNullCheck {outer : List String} {idDbType : String → String} :
    Condition.SameReferences (Condition.withNullCheck outer idDbType) := by
  intro c a
  refine ⟨fun ha => ?_, fun ha => ?_⟩
  · obtain ⟨c', hc', ha⟩ := Condition.mem_referencesOf_iff.1 ha
    exact Condition.keepsReferences_withNullCheck c c' hc' ha
  · cases c with
    | column c =>
      rw [Condition.withNullCheck]
      split_ifs
      · exact List.mem_append_left _ (List.mem_append_left _ ha)
      · exact List.mem_append_left _ ha
    | _ => exact List.mem_append_left _ ha

section

variable {f : Condition → List Condition} {a : String}

mutual

/-- A plan with such leaves refers to the same tables. -/
theorem Plan.mem_references_mapLeaves_iff (hf : Condition.SameReferences f) : ∀ p : Plan,
    a ∈ (p.mapLeaves f).references ↔ a ∈ p.references
  | ⟨selects, tables, condition, _, _, _⟩ => by
    simp only [Plan.mapLeaves, Plan.references, List.mem_append,
      Select.mem_referencesOf_mapLeavesAll_iff hf selects,
      Group.mem_referencesOf_mapLeavesTop_iff hf condition,
      Table.mem_referencesOf_mapLeavesAll_iff hf tables]

theorem Table.mem_referencesOf_mapLeavesAll_iff (hf : Condition.SameReferences f) :
    ∀ ts : List Table, a ∈ Table.referencesOf (Table.mapLeavesAll f ts) ↔ a ∈ Table.referencesOf ts
  | [] => Iff.rfl
  | .primary _ _ :: ts => Table.mem_referencesOf_mapLeavesAll_iff hf ts
  | .join _ :: ts => by
    rw [Table.mapLeavesAll, Table.referencesOf, Table.referencesOf, List.mem_cons, List.mem_cons,
      Table.mem_referencesOf_mapLeavesAll_iff hf ts]
    all_goals simp
  | .cross _ _ :: ts => Table.mem_referencesOf_mapLeavesAll_iff hf ts
  | .lateral _ _ query :: ts => by
    rw [Table.mapLeavesAll, Table.referencesOf, Table.referencesOf, List.mem_append, List.mem_append,
      List.mem_cons, List.mem_cons, Plan.mem_references_mapLeaves_iff hf query,
      Table.mem_referencesOf_mapLeavesAll_iff hf ts]

theorem Group.mem_referencesOf_mapLeavesTop_iff (hf : Condition.SameReferences f) :
    ∀ g : Option Group, a ∈ Group.referencesOf (Group.mapLeavesTop f g) ↔ a ∈ Group.referencesOf g
  | none => Iff.rfl
  | some g => Group.mem_references_mapLeaves_iff hf g

theorem Group.mem_references_mapLeaves_iff (hf : Condition.SameReferences f) : ∀ g : Group,
    a ∈ (g.mapLeaves f).references ↔ a ∈ g.references
  | ⟨_, cs⟩ => Condition.mem_referencesOf_mapLeavesAll_iff hf cs

theorem Condition.mem_referencesOf_mapLeavesAll_iff (hf : Condition.SameReferences f) :
    ∀ cs : List Condition,
      a ∈ Condition.referencesOf (Condition.mapLeavesAll f cs) ↔ a ∈ Condition.referencesOf cs
  | [] => Iff.rfl
  | c :: cs => by
    rw [Condition.mapLeavesAll, Condition.referencesOf_append, Condition.referencesOf,
      List.mem_append, List.mem_append, Condition.mem_referencesOf_mapLeaves_iff hf c,
      Condition.mem_referencesOf_mapLeavesAll_iff hf cs]

theorem Condition.mem_referencesOf_mapLeaves_iff (hf : Condition.SameReferences f) :
    ∀ c : Condition, a ∈ Condition.referencesOf (c.mapLeaves f) ↔ a ∈ c.references
  | .column _ => hf _ a
  | .raw _ => hf _ a
  | .group g => by
    rw [Condition.mapLeaves, Condition.referencesOf, Condition.referencesOf, List.append_nil,
      Condition.references, Group.mem_references_mapLeaves_iff hf g, Condition.references]
  | .existence query _ _ => by
    rw [Condition.mapLeaves, Condition.referencesOf, Condition.referencesOf, List.append_nil,
      Condition.references, Condition.references, List.mem_append, List.mem_append,
      Plan.mem_references_mapLeaves_iff hf query]

theorem Select.mem_referencesOf_mapLeavesAll_iff (hf : Condition.SameReferences f) :
    ∀ ss : List Select,
      a ∈ Select.referencesOf (Select.mapLeavesAll f ss) ↔ a ∈ Select.referencesOf ss
  | [] => Iff.rfl
  | .boolOr g _ :: ss => by
    rw [Select.mapLeavesAll, Select.referencesOf, Select.referencesOf, List.mem_append,
      List.mem_append, Group.mem_references_mapLeaves_iff hf g,
      Select.mem_referencesOf_mapLeavesAll_iff hf ss]
  | .star _ :: ss | .column _ _ :: ss | .discriminator _ _ _ :: ss | .countIsZero _ :: ss
  | .raw _ _ _ :: ss =>
    List.mem_append.trans ((or_congr Iff.rfl (Select.mem_referencesOf_mapLeavesAll_iff hf ss)).trans
      List.mem_append.symm)

end

theorem Condition.plansOf_append {cs cs' : List Condition} :
    Condition.plansOf (cs ++ cs') = Condition.plansOf cs ++ Condition.plansOf cs' := by
  induction cs with
  | nil => rfl
  | cons c cs ih => rw [List.cons_append, plansOf, plansOf, ih, List.append_assoc]

mutual

/-- The subqueries of a group with other leaves are its subqueries with other leaves. -/
theorem Group.plans_mapLeaves (hf : Condition.Flat f) : ∀ g : Group,
    (g.mapLeaves f).plans = g.plans.map (Plan.mapLeaves f)
  | ⟨_, cs⟩ => Condition.plansOf_mapLeavesAll hf cs

theorem Condition.plansOf_mapLeavesAll (hf : Condition.Flat f) : ∀ cs : List Condition,
    Condition.plansOf (Condition.mapLeavesAll f cs) =
      (Condition.plansOf cs).map (Plan.mapLeaves f)
  | [] => rfl
  | c :: cs => by
    rw [Condition.mapLeavesAll, Condition.plansOf_append, Condition.plansOf, List.map_append,
      Condition.plansOf_mapLeaves hf c, Condition.plansOf_mapLeavesAll hf cs]

theorem Condition.plansOf_mapLeaves (hf : Condition.Flat f) : ∀ c : Condition,
    Condition.plansOf (c.mapLeaves f) = c.plans.map (Plan.mapLeaves f)
  | .column _ => Condition.plansOf_eq_nil_iff.2 (hf _ rfl)
  | .raw _ => Condition.plansOf_eq_nil_iff.2 (hf _ rfl)
  | .group g => (List.append_nil _).trans (Group.plans_mapLeaves hf g)
  | .existence _ _ _ => rfl

end

theorem Select.plans_mapLeavesAll (hf : Condition.Flat f) {ss : List Select} :
    (Select.mapLeavesAll f ss).flatMap Select.plans =
      (ss.flatMap Select.plans).map (Plan.mapLeaves f) := by
  induction ss with
  | nil => rfl
  | cons s ss ih =>
    cases s with
    | boolOr g name =>
      rw [Select.mapLeavesAll, List.flatMap_cons, List.flatMap_cons, List.map_append, ih]
      exact congrArg (· ++ _) (Group.plans_mapLeaves hf g)
    | _ => exact ih

/-! ### Other subqueries -/

variable {g : Plan → Plan}

mutual

/-- The subqueries of a group with other subqueries. -/
theorem Group.plans_mapPlans : ∀ h : Group, (h.mapPlans g).plans = h.plans.map g
  | ⟨_, cs⟩ => Condition.plansOf_mapPlansOf cs

theorem Condition.plansOf_mapPlansOf : ∀ cs : List Condition,
    Condition.plansOf (Condition.mapPlansOf g cs) = (Condition.plansOf cs).map g
  | [] => rfl
  | c :: cs => by
    rw [Condition.mapPlansOf, Condition.plansOf, Condition.plansOf, List.map_append,
      Condition.plans_mapPlans c, Condition.plansOf_mapPlansOf cs]

theorem Condition.plans_mapPlans : ∀ c : Condition, (c.mapPlans g).plans = c.plans.map g
  | .column _ => rfl
  | .raw _ => rfl
  | .group h => Group.plans_mapPlans h
  | .existence _ _ _ => rfl

end

namespace Plan

variable {p : Plan} {a : String}

theorem mem_allAliases_iff : a ∈ p.allAliases ↔ a ∈ p.tables.map Table.aliasName ∨
    (∃ x fromAlias query, .lateral x fromAlias query ∈ p.tables ∧ a ∈ query.allAliases) ∨
      (∃ query ∈ p.subqueries, a ∈ query.allAliases) ∨
        ∃ query ∈ p.selects.flatMap Select.plans, a ∈ query.allAliases := by
  have hlateral : a ∈ Table.allAliasesOf p.tables ↔
      ∃ x fromAlias query, .lateral x fromAlias query ∈ p.tables ∧ a ∈ query.allAliases := by
    rw [Table.allAliasesOf_eq, List.mem_flatMap]
    constructor
    · rintro ⟨query, hq, ha⟩
      obtain ⟨t, ht, hq⟩ := List.mem_flatMap.1 hq
      cases t with
      | lateral x b q => exact ⟨x, b, q, ht, List.mem_singleton.1 hq ▸ ha⟩
      | _ => cases hq
    · rintro ⟨x, b, query, ht, ha⟩
      exact ⟨query, List.mem_flatMap.2 ⟨_, ht, List.mem_singleton_self _⟩, ha⟩
  have hcondition : a ∈ Group.allAliasesOf p.condition ↔
      ∃ query ∈ p.subqueries, a ∈ query.allAliases := by
    rw [subqueries]
    cases p.condition with
    | none => simp [Group.allAliasesOf]
    | some h =>
      show a ∈ h.allAliases ↔ _
      rw [Group.allAliases_eq, List.mem_flatMap]
      rfl
  rw [allAliases_eq, Select.allAliasesOf_eq]
  simp only [List.mem_append, hlateral, hcondition, List.mem_flatMap, or_assoc]

theorem subqueries_mapPlans : (p.mapPlans g).subqueries = p.subqueries.map g := by
  obtain ⟨selects, tables, condition, sortKeys, groupBys, ctes⟩ := p
  cases condition with
  | none => rfl
  | some h => exact Group.plans_mapPlans h

theorem subqueries_mapLeaves (hf : Condition.Flat f) :
    (p.mapLeaves f).subqueries = p.subqueries.map (mapLeaves f) := by
  obtain ⟨selects, tables, condition, sortKeys, groupBys, ctes⟩ := p
  cases condition with
  | none => rfl
  | some h => exact Group.plans_mapLeaves hf h

theorem nestedPlans_mapLeaves (hf : Condition.Flat f) :
    (p.mapLeaves f).nestedPlans = p.nestedPlans.map (mapLeaves f) := by
  have hplans : ∀ t : Table, (t.mapPlan (mapLeaves f)).plans = t.plans.map (mapLeaves f) :=
    fun t => by cases t <;> rfl
  have htables : (p.mapLeaves f).tables.flatMap Table.plans =
      (p.tables.flatMap Table.plans).map (mapLeaves f) := by
    rw [tables_mapLeaves, List.flatMap_map, List.map_flatMap]
    exact List.flatMap_congr fun t _ => hplans t
  show _ ++ (p.mapLeaves f).subqueries ++ _ = (_ ++ p.subqueries ++ _ : List Plan).map _
  rw [htables, subqueries_mapLeaves hf, selects_mapLeaves, Select.plans_mapLeavesAll hf,
    List.map_append, List.map_append]

theorem Everywhere.mapLeaves {P Q : Plan → Prop} (hf : Condition.Flat f)
    (hP : ∀ q, P q → Q (q.mapLeaves f)) (h : p.Everywhere P) : (p.mapLeaves f).Everywhere Q := by
  induction h with
  | intro here _ ih =>
    refine .intro (hP _ here) fun q hq => ?_
    rw [nestedPlans_mapLeaves hf] at hq
    obtain ⟨q', hq', rfl⟩ := List.mem_map.1 hq
    exact ih q' hq'

/-! ### Depth -/

end Plan

mutual

theorem Group.depth_le_iff {n : Nat} : ∀ {h : Group}, h.depth ≤ n ↔ ∀ q ∈ h.plans, q.depth < n
  | ⟨_, _⟩ => Condition.depthOf_le_iff

theorem Condition.depthOf_le_iff {n : Nat} : ∀ {cs : List Condition},
    Condition.depthOf cs ≤ n ↔ ∀ q ∈ Condition.plansOf cs, q.depth < n
  | [] => by simp [Condition.depthOf, Condition.plansOf]
  | c :: cs => by
    rw [Condition.depthOf, Nat.max_le, Condition.depth_le_iff, Condition.depthOf_le_iff,
      Condition.plansOf, List.forall_mem_append]

/-- A condition is as deep as its subqueries make it. -/
theorem Condition.depth_le_iff {n : Nat} : ∀ {c : Condition},
    c.depth ≤ n ↔ ∀ q ∈ c.plans, q.depth < n
  | .column _ => by simp [Condition.depth, Condition.plans]
  | .raw _ => by simp [Condition.depth, Condition.plans]
  | .group _ => Group.depth_le_iff
  | .existence _ _ _ => by
    rw [Condition.depth, Condition.plans, List.forall_mem_singleton, Nat.succ_le_iff]

end

theorem Table.depthOf_le_iff {ts : List Table} {n : Nat} :
    Table.depthOf ts ≤ n ↔ ∀ x fromAlias query, .lateral x fromAlias query ∈ ts → query.depth < n := by
  induction ts with
  | nil => simp [Table.depthOf]
  | cons t ts ih =>
    cases t with
    | lateral x b query =>
      rw [Table.depthOf, Nat.max_le, ih, Nat.succ_le_iff]
      constructor
      · rintro ⟨hq, hts⟩ x' b' query' ht
        rcases List.mem_cons.1 ht with ht | ht
        · obtain ⟨-, -, rfl⟩ := Table.lateral.inj ht
          exact hq
        · exact hts x' b' query' ht
      · exact fun h => ⟨h x b query List.mem_cons_self, fun x' b' query' ht =>
          h x' b' query' (List.mem_cons_of_mem _ ht)⟩
    | _ => simpa [Table.depthOf] using ih

namespace Plan

variable {p : Plan} {a : String}

theorem depth_le_iff {n : Nat} : p.depth ≤ n ↔
    (∀ x fromAlias query, .lateral x fromAlias query ∈ p.tables → query.depth < n) ∧
      ∀ query ∈ p.subqueries, query.depth < n := by
  obtain ⟨selects, tables, condition, sortKeys, groupBys, ctes⟩ := p
  rw [Plan.depth, Nat.max_le, Table.depthOf_le_iff, subqueries]
  cases condition with
  | none => simp [Group.depthOf]
  | some h => exact and_congr_right fun _ => Group.depth_le_iff

theorem depth_lt_of_lateral {x fromAlias : String} {query : Plan}
    (h : .lateral x fromAlias query ∈ p.tables) : query.depth < p.depth :=
  (depth_le_iff.1 (Nat.le_refl _)).1 x fromAlias query h

theorem depth_lt_of_subquery {query : Plan} (h : query ∈ p.subqueries) : query.depth < p.depth :=
  (depth_le_iff.1 (Nat.le_refl _)).2 query h

/-- A plan with other leaves is no deeper. -/
theorem depth_mapLeaves_le (hf : Condition.Flat f) : (p.mapLeaves f).depth ≤ p.depth := by
  induction hn : p.depth using Nat.strongRecOn generalizing p with
  | ind n ih =>
    refine depth_le_iff.2 ⟨fun x fromAlias query ht => ?_, fun query hq => ?_⟩
    · rw [tables_mapLeaves] at ht
      obtain ⟨q, hq, rfl⟩ := Table.exists_of_lateral_mem_map_mapPlan ht
      have hlt := hn ▸ depth_lt_of_lateral hq
      exact Nat.lt_of_le_of_lt (ih _ hlt rfl) hlt
    · rw [subqueries_mapLeaves hf] at hq
      obtain ⟨q, hm, rfl⟩ := List.mem_map.1 hq
      have hlt := hn ▸ depth_lt_of_subquery hm
      exact Nat.lt_of_le_of_lt (ih _ hlt rfl) hlt

end Plan

end

/-! ### One round -/

theorem Table.mem_referents_mapPlan_iff {t : Table} {g : Plan → Plan} {a : String}
    (hg : ∀ q : Plan, a ∈ (g q).references ↔ a ∈ q.references) :
    a ∈ (t.mapPlan g).referents ↔ a ∈ t.referents := by
  cases t with
  | lateral x b query =>
    rw [mapPlan, referents, referents, List.mem_cons, List.mem_cons, hg query]
  | _ => rfl

namespace Plan

variable {p : Plan} {keep removed : List String} {a : String} {f : Condition → List Condition}

theorem mem_ownReferences_mapLeaves_iff (hf : Condition.SameReferences f) :
    a ∈ (p.mapLeaves f).ownReferences ↔ a ∈ p.ownReferences := by
  obtain ⟨selects, tables, condition, sortKeys, groupBys, ctes⟩ := p
  simp only [Plan.mapLeaves, ownReferences, List.mem_append,
    Select.mem_referencesOf_mapLeavesAll_iff hf, Group.mem_referencesOf_mapLeavesTop_iff hf]

theorem names_mapLeaves :
    (p.mapLeaves f).tables.map Table.aliasName = p.tables.map Table.aliasName := by
  rw [tables_mapLeaves, Table.map_aliasName_map_mapPlan]

/-- Other leaves leave the tables that stay the same. -/
theorem stays_mapLeaves_iff (hf : Condition.SameReferences f) :
    (p.mapLeaves f).Stays keep a ↔ p.Stays keep a := by
  have hreferents : ∀ (t : Table) b, b ∈ (t.mapPlan (mapLeaves f)).referents ↔ b ∈ t.referents :=
    fun _ _ => Table.mem_referents_mapPlan_iff (mem_references_mapLeaves_iff hf)
  have hprimary : ∀ t : Table, (t.mapPlan (mapLeaves f)).isPrimary = t.isPrimary := fun t => by
    cases t <;> rfl
  simp only [Stays, Sustains, tables_mapLeaves, mem_ownReferences_mapLeaves_iff hf, List.mem_map,
    exists_exists_and_eq_and, forall_exists_index, and_imp, forall_apply_eq_imp_iff₂,
    Table.aliasName_mapPlan, hreferents, hprimary]

/-- What is sustained is kept or referred to. -/
theorem Sustains.not_mem_unreferenced {S : String → Prop} (h : p.Sustains keep S) (ha : S a) :
    a ∉ p.unreferenced keep := fun hm => by
  obtain ⟨-, hkeep, hreferred⟩ := mem_unreferenced_iff.1 hm
  rcases h a ha with hk | ho | ⟨t, ht, -, hr⟩
  · exact hkeep hk
  · exact hreferred (mem_references_iff_own.2 (.inl ho))
  · exact hreferred (mem_references_iff_own.2 (.inr ⟨t, ht, hr⟩))

theorem Stays.not_mem_unreferenced (h : p.Stays keep a) : a ∉ p.unreferenced keep := fun hm => by
  rcases h with ⟨S, hS, ha⟩ | hprimary
  · exact hS.not_mem_unreferenced ha hm
  · obtain ⟨⟨t, ht, hnot, hname⟩, -⟩ := mem_unreferenced_iff.1 hm
    rw [hprimary t ht hname] at hnot
    cases hnot

/-- Where all tables are kept or referred to, all of them stay. -/
theorem stays_of_unreferenced (h : p.unreferenced keep = []) : p.Stays keep a := by
  by_cases hprimary : ∀ t ∈ p.tables, t.aliasName = a → t.isPrimary = true
  · exact .inr hprimary
  · push Not at hprimary
    obtain ⟨t, ht, hname, hnot⟩ := hprimary
    refine .inl ⟨fun b => ∃ t ∈ p.tables, t.aliasName = b ∧ t.isPrimary = false, ?_,
      t, ht, hname, Bool.eq_false_iff.2 hnot⟩
    rintro b ⟨t', ht', hname', hnot'⟩
    by_cases hkeep : b ∈ keep
    · exact .inl hkeep
    have hreferred : b ∈ p.references := by
      by_contra hm
      have hm := mem_unreferenced_iff.2 ⟨⟨t', ht', hnot', hname'⟩, hkeep, hm⟩
      rw [h] at hm
      cases hm
    rcases mem_references_iff_own.1 hreferred with ho | ⟨t'', ht'', hr⟩
    · exact .inr (.inl ho)
    · exact .inr (.inr ⟨t'', ht'', ⟨t'', ht'', rfl, Table.isPrimary_of_referent hr⟩, hr⟩)

/-- The plan without the tables that are neither kept nor referred to. -/
def withoutUnreferenced (keep : List String) (p : Plan) : Plan :=
  { p with tables := p.tables.filter (·.aliasName ∉ p.unreferenced keep) }

theorem mem_tables_withoutUnreferenced {t : Table} : t ∈ (p.withoutUnreferenced keep).tables ↔
    t ∈ p.tables ∧ t.aliasName ∉ p.unreferenced keep := by
  rw [withoutUnreferenced, List.mem_filter, decide_eq_true_iff]

/-- What stays is left, and nothing that is left stays without having stayed. -/
theorem stays_withoutUnreferenced_iff : (a ∈ (p.withoutUnreferenced keep).tables.map
      Table.aliasName ∧ (p.withoutUnreferenced keep).Stays keep a) ↔
    a ∈ p.tables.map Table.aliasName ∧ p.Stays keep a := by
  have hnames : a ∈ (p.withoutUnreferenced keep).tables.map Table.aliasName ↔
      a ∈ p.tables.map Table.aliasName ∧ a ∉ p.unreferenced keep := by
    simp only [List.mem_map, mem_tables_withoutUnreferenced]
    constructor
    · rintro ⟨t, ⟨ht, hnot⟩, rfl⟩
      exact ⟨⟨t, ht, rfl⟩, hnot⟩
    · rintro ⟨⟨t, ht, rfl⟩, hnot⟩
      exact ⟨t, ⟨ht, hnot⟩, rfl⟩
  rw [hnames]
  constructor
  · rintro ⟨⟨ha, hnot⟩, ⟨S, hS, hSa⟩ | hprimary⟩
    · refine ⟨ha, .inl ⟨S, fun b hb => (hS b hb).imp_right (Or.imp_right ?_), hSa⟩⟩
      rintro ⟨t, ht, hr⟩
      exact ⟨t, (mem_tables_withoutUnreferenced.1 ht).1, hr⟩
    · exact ⟨ha, .inr fun t ht hname =>
        hprimary t (mem_tables_withoutUnreferenced.2 ⟨ht, hname ▸ hnot⟩) hname⟩
  · rintro ⟨ha, hstays⟩
    refine ⟨⟨ha, hstays.not_mem_unreferenced⟩, ?_⟩
    rcases hstays with ⟨S, hS, hSa⟩ | hprimary
    · refine .inl ⟨S, fun b hb => (hS b hb).imp_right (Or.imp_right ?_), hSa⟩
      rintro ⟨t, ht, hown, hr⟩
      exact ⟨t, mem_tables_withoutUnreferenced.2 ⟨ht, hS.not_mem_unreferenced hown⟩, hown, hr⟩
    · exact .inr fun t ht hname => hprimary t (mem_tables_withoutUnreferenced.1 ht).1 hname

/-! ### What is left -/

theorem Retained.mapLeaves (hf : Condition.SameReferences f) (hflat : Condition.Flat f)
    (h : p.Retained keep a) : (p.mapLeaves f).Retained keep a := by
  induction h with
  | table ha hs => exact .table (by rwa [names_mapLeaves]) ((stays_mapLeaves_iff hf).2 hs)
  | @lateral _ p query _ x fromAlias ht hs _ ih =>
    have hm : .lateral x fromAlias (query.mapLeaves f) ∈ (p.mapLeaves f).tables := by
      rw [tables_mapLeaves]
      exact List.mem_map_of_mem ht
    exact .lateral hm ((stays_mapLeaves_iff hf).2 hs) ih
  | subquery hq _ ih =>
    refine .subquery ?_ ih
    rw [subqueries_mapLeaves hflat]
    exact List.mem_map_of_mem hq
  | @aggregate _ p query a hq ha =>
    have hm : query.mapLeaves f ∈ (p.mapLeaves f).selects.flatMap Select.plans := by
      rw [selects_mapLeaves, Select.plans_mapLeavesAll hflat]
      exact List.mem_map_of_mem hq
    exact .aggregate hm (by rwa [allAliases_mapLeaves hflat])

theorem Retained.of_mapLeaves (hf : Condition.SameReferences f) (hflat : Condition.Flat f)
    {q : Plan} (h : q.Retained keep a) : ∀ {p : Plan}, q = p.mapLeaves f → p.Retained keep a := by
  induction h with
  | table ha hs =>
    rintro p rfl
    exact .table (by rwa [names_mapLeaves] at ha) ((stays_mapLeaves_iff hf).1 hs)
  | lateral ht hs _ ih =>
    rintro p rfl
    rw [tables_mapLeaves] at ht
    obtain ⟨query, ht, hquery⟩ := Table.exists_of_lateral_mem_map_mapPlan ht
    exact .lateral ht ((stays_mapLeaves_iff hf).1 hs) (ih hquery)
  | subquery hq _ ih =>
    rintro p rfl
    rw [subqueries_mapLeaves hflat] at hq
    obtain ⟨query, hm, hquery⟩ := List.mem_map.1 hq
    exact .subquery hm (ih hquery.symm)
  | aggregate hq ha =>
    rintro p rfl
    rw [selects_mapLeaves, Select.plans_mapLeavesAll hflat] at hq
    obtain ⟨query, hm, rfl⟩ := List.mem_map.1 hq
    exact .aggregate hm (by rwa [allAliases_mapLeaves hflat] at ha)

/-- Leaves that refer to the same tables leave the same tables in the plan. -/
theorem retained_mapLeaves_iff (hf : Condition.SameReferences f) (hflat : Condition.Flat f) :
    (p.mapLeaves f).Retained keep a ↔ p.Retained keep a :=
  ⟨fun h => h.of_mapLeaves hf hflat rfl, fun h => h.mapLeaves hf hflat⟩

/-- The tables that are left, by the part that they are in. -/
theorem retained_iff : p.Retained keep a ↔
    (a ∈ p.tables.map Table.aliasName ∧ p.Stays keep a) ∨
      (∃ x fromAlias query, .lateral x fromAlias query ∈ p.tables ∧ p.Stays keep x ∧
        query.Retained [] a) ∨
      (∃ query ∈ p.subqueries, query.Retained [] a) ∨
        ∃ query ∈ p.selects.flatMap Select.plans, a ∈ query.allAliases := by
  constructor
  · intro h
    cases h with
    | table ha hs => exact .inl ⟨ha, hs⟩
    | lateral ht hs ha => exact .inr (.inl ⟨_, _, _, ht, hs, ha⟩)
    | subquery hq ha => exact .inr (.inr (.inl ⟨_, hq, ha⟩))
    | aggregate hq ha => exact .inr (.inr (.inr ⟨_, hq, ha⟩))
  · rintro (⟨ha, hs⟩ | ⟨x, b, query, ht, hs, ha⟩ | ⟨query, hq, ha⟩ | ⟨query, hq, ha⟩)
    · exact .table ha hs
    · exact .lateral ht hs ha
    · exact .subquery hq ha
    · exact .aggregate hq ha

theorem retained_withoutUnreferenced_iff :
    (p.withoutUnreferenced keep).Retained keep a ↔ p.Retained keep a := by
  have hlateral : (∃ x fromAlias query, .lateral x fromAlias query ∈
        (p.withoutUnreferenced keep).tables ∧ (p.withoutUnreferenced keep).Stays keep x ∧
        query.Retained [] a) ↔
      ∃ x fromAlias query, .lateral x fromAlias query ∈ p.tables ∧ p.Stays keep x ∧
        query.Retained [] a := by
    constructor
    · rintro ⟨x, b, query, ht, hs, ha⟩
      have hx := stays_withoutUnreferenced_iff.1 ⟨List.mem_map.2 ⟨_, ht, rfl⟩, hs⟩
      exact ⟨x, b, query, (mem_tables_withoutUnreferenced.1 ht).1, hx.2, ha⟩
    · rintro ⟨x, b, query, ht, hs, ha⟩
      have hx := stays_withoutUnreferenced_iff.2 ⟨List.mem_map.2 ⟨_, ht, rfl⟩, hs⟩
      exact ⟨x, b, query, mem_tables_withoutUnreferenced.2 ⟨ht, hs.not_mem_unreferenced⟩, hx.2, ha⟩
  rw [retained_iff, retained_iff (p := p), stays_withoutUnreferenced_iff, hlateral]
  rfl

/-- A group without conditions at the top refers to nothing and has no subqueries. -/
theorem retained_nonempty?_iff :
    Retained keep { p with condition := Group.nonempty? p.condition } a ↔ p.Retained keep a := by
  obtain ⟨selects, tables, condition, sortKeys, groupBys, ctes⟩ := p
  match condition with
  | none => rfl
  | some ⟨_, _ :: _⟩ => rfl
  | some ⟨op, []⟩ =>
    rw [retained_iff, retained_iff (p := ⟨selects, tables, some ⟨op, []⟩, sortKeys, groupBys, ctes⟩)]
    rfl

/-- A round of removals leaves the tables that are left the same. -/
theorem retained_remove_iff :
    (p.remove (p.unreferenced keep)).Retained keep a ↔ p.Retained keep a :=
  retained_nonempty?_iff.trans ((retained_mapLeaves_iff Condition.sameReferences_withoutRemoved
    Condition.flat_withoutRemoved).trans retained_withoutUnreferenced_iff)

theorem retained_trim_iff : (p.trim keep).Retained keep a ↔ p.Retained keep a :=
  trim_induct (P := fun q => q.Retained keep a ↔ p.Retained keep a)
    (fun _ h => retained_remove_iff.trans h) Iff.rfl

theorem depth_trim_le : (p.trim keep).depth ≤ p.depth := by
  refine trim_induct (P := fun q => q.depth ≤ p.depth) (fun q h => ?_) (Nat.le_refl _)
  have hleft : (q.withoutUnreferenced keep).depth ≤ q.depth :=
    depth_le_iff.2 ⟨fun x b query ht =>
      depth_lt_of_lateral (mem_tables_withoutUnreferenced.1 ht).1, fun query hq =>
        depth_lt_of_subquery (p := q) hq⟩
  have hleaves := depth_mapLeaves_le (p := q.withoutUnreferenced keep)
    (f := Condition.withoutRemoved (q.unreferenced keep)) Condition.flat_withoutRemoved
  have htop : ∀ p : Plan, depth { p with condition := Group.nonempty? p.condition } = p.depth := by
    rintro ⟨selects, tables, condition, sortKeys, groupBys, ctes⟩
    match condition with
    | none => rfl
    | some ⟨_, []⟩ => rfl
    | some ⟨_, _ :: _⟩ => rfl
  exact ((Nat.le_of_eq (htop _)).trans hleaves).trans (hleft.trans h)

/-- A trimmed plan whose subqueries are pruned. -/
theorem mem_allAliases_mapPlans_trim_iff {g : Plan → Plan}
    (hg : ∀ q : Plan, q.depth < (p.trim keep).depth → (a ∈ (g q).allAliases ↔ q.Retained [] a)) :
    a ∈ ((p.trim keep).mapPlans g).allAliases ↔ p.Retained keep a := by
  have hstays : ∀ b, (p.trim keep).Stays keep b := fun b => stays_of_unreferenced unreferenced_trim
  have hlateral : (∃ x fromAlias query, .lateral x fromAlias query ∈
        ((p.trim keep).mapPlans g).tables ∧ a ∈ query.allAliases) ↔
      ∃ x fromAlias query, .lateral x fromAlias query ∈ (p.trim keep).tables ∧
        query.Retained [] a := by
    constructor
    · rintro ⟨x, b, query, ht, ha⟩
      obtain ⟨q, hq, rfl⟩ := Table.exists_of_lateral_mem_map_mapPlan ht
      exact ⟨x, b, q, hq, (hg q (depth_lt_of_lateral hq)).1 ha⟩
    · rintro ⟨x, b, query, ht, ha⟩
      exact ⟨x, b, g query, List.mem_map.2 ⟨_, ht, rfl⟩, (hg query (depth_lt_of_lateral ht)).2 ha⟩
  have hsubquery : (∃ query ∈ ((p.trim keep).mapPlans g).subqueries, a ∈ query.allAliases) ↔
      ∃ query ∈ (p.trim keep).subqueries, query.Retained [] a := by
    simp only [subqueries_mapPlans, List.mem_map, exists_exists_and_eq_and]
    exact exists_congr fun q => and_congr_right fun hq => hg q (depth_lt_of_subquery hq)
  rw [← retained_trim_iff, retained_iff, mem_allAliases_iff, hlateral, hsubquery, mapPlans,
    Table.map_aliasName_map_mapPlan]
  simp only [hstays, and_true, true_and]

theorem mem_allAliases_pruneWithin_iff {n : Nat} (h : p.depth ≤ n) :
    a ∈ (pruneWithin n keep p).allAliases ↔ p.Retained keep a := by
  induction n generalizing keep p with
  | zero =>
    have hdepth : ∀ q : Plan, ¬ q.depth < (p.trim keep).depth := fun q hq => by
      have htrim : (p.trim keep).depth ≤ p.depth := depth_trim_le
      omega
    have hlateral : ∀ x b q, .lateral x b q ∉ (p.trim keep).tables := fun _ _ q ht =>
      hdepth q (depth_lt_of_lateral ht)
    have hsubquery : (p.trim keep).subqueries = [] :=
      List.eq_nil_iff_forall_not_mem.2 fun q hq => hdepth q (depth_lt_of_subquery hq)
    have hstays : (p.trim keep).Stays keep a := stays_of_unreferenced unreferenced_trim
    show a ∈ (p.trim keep).allAliases ↔ _
    rw [← retained_trim_iff, retained_iff, mem_allAliases_iff, hsubquery]
    simp only [hlateral, hstays, false_and, exists_false, and_true, List.not_mem_nil, false_or]
  | succ n ih =>
    exact mem_allAliases_mapPlans_trim_iff fun q hq =>
      ih (Nat.le_of_lt_succ (Nat.lt_of_lt_of_le hq (depth_trim_le.trans h)))

/-- A pruned plan has exactly the tables that are left, and so have the plans inside it. -/
theorem mem_allAliases_prune_iff : a ∈ (p.prune keep).allAliases ↔ p.Retained keep a :=
  mem_allAliases_pruneWithin_iff (Nat.le_refl _)

end Plan

end EntityQuery
