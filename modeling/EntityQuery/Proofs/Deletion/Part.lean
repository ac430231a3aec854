import EntityQuery.Proofs.Pruning.Apart
import EntityQuery.Proofs.Pruning.Top

/-!
# The parts of a plan

A plan has rows only if the subqueries that it asks to have a row have one, and reads what its
lateral queries aggregate.  Passes over a plan are passes over these parts.

* `Condition.asserted`, `Plan.asserted`: the subqueries that are asked to have a row;
* `Plan.laterals`: the lateral queries;
* `Plan.exists_of_mem_asserted_mapLeaves`: the parts of a plan with other leaves;
* `Plan.exists_of_mem_asserted_remove`: the parts of a plan without some tables;
* `Plan.exists_of_mem_asserted_mapPlans`: the parts of a plan with other subqueries.
-/

namespace EntityQuery

mutual

/-- The subqueries that a condition asks to have a row. -/
def Condition.asserted : Condition → List Plan
  | .group g => g.asserted
  | .existence query negated _ => if negated then [] else [query]
  | _ => []

/-- The subqueries that a group asks to have a row. -/
def Group.asserted : Group → List Plan
  | ⟨_, conditions⟩ => Condition.assertedOf conditions

/-- The subqueries that conditions ask to have a row. -/
def Condition.assertedOf : List Condition → List Plan
  | [] => []
  | c :: rest => c.asserted ++ Condition.assertedOf rest

end

/-- The subqueries that an aggregate asks to have a row. -/
def Select.asserted : Select → List Plan
  | .boolOr g _ => g.asserted
  | _ => []

/-- The subqueries that a plan asks to have a row. -/
def Plan.asserted (p : Plan) : List Plan :=
  (p.condition.map Group.asserted).getD [] ++ p.selects.flatMap Select.asserted

/-- The lateral queries of a plan. -/
def Plan.laterals (p : Plan) : List Plan := p.tables.flatMap Table.plans

section

variable {f : Condition → List Condition} {g : Plan → Plan} {p q : Plan} {cs : List Condition}

theorem Condition.mem_assertedOf_iff : q ∈ assertedOf cs ↔ ∃ c ∈ cs, q ∈ c.asserted := by
  induction cs with
  | nil => simp [assertedOf]
  | cons c cs ih => simp [assertedOf, ih]

theorem Condition.assertedOf_append {cs' : List Condition} :
    assertedOf (cs ++ cs') = assertedOf cs ++ assertedOf cs' := by
  induction cs with
  | nil => rfl
  | cons c cs ih => rw [List.cons_append, assertedOf, assertedOf, ih, List.append_assoc]

mutual

/-- A condition without subqueries asks none to have a row. -/
theorem Group.asserted_of_flat : ∀ {g : Group}, g.plans = [] → g.asserted = []
  | ⟨_, _⟩, h => Condition.assertedOf_of_flat h

theorem Condition.assertedOf_of_flat : ∀ {cs : List Condition}, Condition.plansOf cs = [] →
    Condition.assertedOf cs = []
  | [], _ => rfl
  | _ :: _, h => by
    obtain ⟨hc, hcs⟩ := List.append_eq_nil_iff.1 h
    rw [Condition.assertedOf, Condition.asserted_of_flat hc, Condition.assertedOf_of_flat hcs]
    rfl

theorem Condition.asserted_of_flat : ∀ {c : Condition}, c.plans = [] → c.asserted = []
  | .group _, h => Group.asserted_of_flat h
  | .column _, _ => rfl
  | .raw _, _ => rfl
  | .existence _ _ _, h => absurd h (List.cons_ne_nil _ _)

end

theorem Group.getD_asserted_top :
    (p.condition.map Group.asserted).getD [] = Condition.assertedOf p.topConditions := by
  unfold Plan.topConditions
  split
  · next h => simp [h, Condition.assertedOf]
  · next h => simp [h, Group.asserted]
  · next h => simp [h, Condition.assertedOf, Condition.asserted]

theorem Plan.mem_asserted_iff : q ∈ p.asserted ↔
    (∃ c ∈ p.topConditions, q ∈ c.asserted) ∨ ∃ x ∈ p.selects, q ∈ x.asserted := by
  rw [Plan.asserted, List.mem_append, List.mem_flatMap, Group.getD_asserted_top,
    Condition.mem_assertedOf_iff]

theorem Plan.mem_laterals_iff : q ∈ p.laterals ↔ ∃ a fromAlias, .lateral a fromAlias q ∈ p.tables := by
  rw [Plan.laterals, List.mem_flatMap]
  constructor
  · rintro ⟨t, ht, hq⟩
    cases t with
    | lateral a fromAlias query => exact ⟨a, fromAlias, List.mem_singleton.1 hq ▸ ht⟩
    | _ => cases hq
  · rintro ⟨a, fromAlias, ht⟩
    exact ⟨_, ht, List.mem_singleton_self _⟩

/-! ### Other leaves -/

/-- What stands in the place of a condition asks for no other subquery. -/
def Condition.KeepsParts (f : Condition → List Condition) : Prop :=
  ∀ c, ∀ c' ∈ f c, c'.asserted ⊆ c.asserted

theorem Condition.keepsParts_withNullCheck {outer : List String} {idDbType : String → String} :
    Condition.KeepsParts (Condition.withNullCheck outer idDbType) := by
  intro c c' hc'
  cases c with
  | column c =>
    simp only [Condition.withNullCheck] at hc'
    split_ifs at hc' <;>
    · rw [List.mem_singleton.1 hc']
      exact List.Subset.refl _
  | _ =>
    rw [List.mem_singleton.1 hc']
    exact List.Subset.refl _

theorem Condition.keepsParts_withoutRemoved {removed : List String} :
    Condition.KeepsParts (Condition.withoutRemoved removed) := fun _ _ hc' => by
  rw [Condition.withoutRemoved_subset hc']
  exact List.Subset.refl _

mutual

theorem Group.exists_of_mem_asserted_mapLeaves (hf : Condition.KeepsParts f) : ∀ {g : Group},
    q ∈ (g.mapLeaves f).asserted → ∃ q' ∈ g.asserted, q = q'.mapLeaves f
  | ⟨_, _⟩, h => Condition.exists_of_mem_assertedOf_mapLeavesAll hf h

theorem Condition.exists_of_mem_assertedOf_mapLeavesAll (hf : Condition.KeepsParts f) :
    ∀ {cs : List Condition}, q ∈ Condition.assertedOf (Condition.mapLeavesAll f cs) →
      ∃ q' ∈ Condition.assertedOf cs, q = q'.mapLeaves f
  | [], h => absurd h List.not_mem_nil
  | c :: cs, h => by
    rw [Condition.mapLeavesAll, Condition.assertedOf_append] at h
    rcases List.mem_append.1 h with h | h
    · obtain ⟨q', hq', he⟩ := Condition.exists_of_mem_asserted_mapLeaves hf h
      exact ⟨q', List.mem_append_left _ hq', he⟩
    · obtain ⟨q', hq', he⟩ := Condition.exists_of_mem_assertedOf_mapLeavesAll hf h
      exact ⟨q', List.mem_append_right _ hq', he⟩

theorem Condition.exists_of_mem_asserted_mapLeaves (hf : Condition.KeepsParts f) :
    ∀ {c : Condition}, q ∈ Condition.assertedOf (c.mapLeaves f) →
      ∃ q' ∈ c.asserted, q = q'.mapLeaves f
  | .column c, h => by
    obtain ⟨c', hc', hq⟩ := Condition.mem_assertedOf_iff.1 h
    exact absurd (hf _ c' hc' hq) List.not_mem_nil
  | .raw r, h => by
    obtain ⟨c', hc', hq⟩ := Condition.mem_assertedOf_iff.1 h
    exact absurd (hf _ c' hc' hq) List.not_mem_nil
  | .group g, h => by
    have h : q ∈ (g.mapLeaves f).asserted ++ [] := h
    rw [List.append_nil] at h
    exact Group.exists_of_mem_asserted_mapLeaves hf h
  | .existence query negated _, h => by
    cases negated with
    | true => cases h
    | false => exact ⟨query, List.mem_singleton_self _, List.mem_singleton.1 h⟩

end

namespace Plan

theorem mem_selects_mapLeaves {x : Select} (h : x ∈ (p.mapLeaves f).selects) :
    ∃ x' ∈ p.selects, x = match x' with
      | .boolOr g name => .boolOr (g.mapLeaves f) name
      | _ => x' := by
  obtain ⟨selects, tables, condition, sortKeys, groupBys, ctes⟩ := p
  replace h : x ∈ Select.mapLeavesAll f selects := h
  show ∃ x' ∈ selects, _
  induction selects with
  | nil => cases h
  | cons x' selects ih =>
    cases x' <;>
    · rcases List.mem_cons.1 h with rfl | h
      · exact ⟨_, List.mem_cons_self, rfl⟩
      · obtain ⟨y, hy, he⟩ := ih h
        exact ⟨y, List.mem_cons_of_mem _ hy, he⟩

/-- What a plan with other leaves asks to have a row, the plan asks for with its leaves. -/
theorem exists_of_mem_asserted_mapLeaves (hf : Condition.KeepsParts f)
    (h : q ∈ (p.mapLeaves f).asserted) : ∃ q' ∈ p.asserted, q = q'.mapLeaves f := by
  simp only [mem_asserted_iff] at h ⊢
  rcases h with ⟨c, hc, hq⟩ | ⟨x, hx, hq⟩
  · rw [topConditions_mapLeaves] at hc
    obtain ⟨q', hq', he⟩ := Condition.exists_of_mem_assertedOf_mapLeavesAll hf
      (Condition.mem_assertedOf_iff.2 ⟨c, hc, hq⟩)
    exact ⟨q', .inl (Condition.mem_assertedOf_iff.1 hq'), he⟩
  · obtain ⟨x', hx', rfl⟩ := mem_selects_mapLeaves hx
    cases x' with
    | boolOr g name =>
      obtain ⟨q', hq', he⟩ := Group.exists_of_mem_asserted_mapLeaves hf hq
      exact ⟨q', .inr ⟨_, hx', hq'⟩, he⟩
    | _ => cases hq

theorem exists_of_mem_laterals_mapLeaves (h : q ∈ (p.mapLeaves f).laterals) :
    ∃ q' ∈ p.laterals, q = q'.mapLeaves f := by
  obtain ⟨a, fromAlias, ht⟩ := mem_laterals_iff.1 h
  rw [tables_mapLeaves] at ht
  obtain ⟨q', hq', he⟩ := Table.exists_of_lateral_mem_map_mapPlan ht
  exact ⟨q', mem_laterals_iff.2 ⟨a, fromAlias, hq'⟩, he⟩

/-! ### Removed tables -/

variable {removed : List String}

theorem topConditions_nonempty?_subset :
    topConditions { p with condition := Group.nonempty? p.condition } ⊆ p.topConditions := by
  obtain ⟨selects, tables, condition, sortKeys, groupBys, ctes⟩ := p
  match condition with
  | none => exact List.Subset.refl _
  | some ⟨.and, []⟩ => exact List.Subset.refl _
  | some ⟨.or, []⟩ => exact List.nil_subset _
  | some ⟨.and, _ :: _⟩ => exact List.Subset.refl _
  | some ⟨.or, _ :: _⟩ => exact List.Subset.refl _

/-- The parts of a plan without some tables are parts of the plan without their conditions. -/
theorem exists_of_mem_asserted_remove (h : q ∈ (p.remove removed).asserted) :
    ∃ q' ∈ p.asserted, q = q'.mapLeaves (Condition.withoutRemoved removed) := by
  let left : Plan := { p with tables := p.tables.filter (·.aliasName ∉ removed) }
  refine exists_of_mem_asserted_mapLeaves (p := left) Condition.keepsParts_withoutRemoved ?_
  rw [mem_asserted_iff] at h ⊢
  exact h.imp_left fun ⟨c, hc, hq⟩ => ⟨c, topConditions_nonempty?_subset hc, hq⟩

theorem exists_of_mem_laterals_remove (h : q ∈ (p.remove removed).laterals) :
    ∃ q' ∈ p.laterals, q = q'.mapLeaves (Condition.withoutRemoved removed) := by
  let left : Plan := { p with tables := p.tables.filter (·.aliasName ∉ removed) }
  obtain ⟨q', hq', he⟩ := exists_of_mem_laterals_mapLeaves (p := left) h
  obtain ⟨a, fromAlias, ht⟩ := mem_laterals_iff.1 hq'
  exact ⟨q', mem_laterals_iff.2 ⟨a, fromAlias, (List.mem_filter.1 ht).1⟩, he⟩

end Plan

/-! ### Other subqueries -/

mutual

theorem Group.exists_of_mem_asserted_mapPlans : ∀ {h : Group}, q ∈ (h.mapPlans g).asserted →
    ∃ q' ∈ h.asserted, q = g q'
  | ⟨_, _⟩, h => Condition.exists_of_mem_assertedOf_mapPlansOf h

theorem Condition.exists_of_mem_assertedOf_mapPlansOf : ∀ {cs : List Condition},
    q ∈ Condition.assertedOf (Condition.mapPlansOf g cs) → ∃ q' ∈ Condition.assertedOf cs, q = g q'
  | [], h => absurd h List.not_mem_nil
  | _ :: _, h => by
    rcases List.mem_append.1 h with h | h
    · obtain ⟨q', hq', he⟩ := Condition.exists_of_mem_asserted_mapPlans h
      exact ⟨q', List.mem_append_left _ hq', he⟩
    · obtain ⟨q', hq', he⟩ := Condition.exists_of_mem_assertedOf_mapPlansOf h
      exact ⟨q', List.mem_append_right _ hq', he⟩

theorem Condition.exists_of_mem_asserted_mapPlans : ∀ {c : Condition},
    q ∈ (c.mapPlans g).asserted → ∃ q' ∈ c.asserted, q = g q'
  | .column _, h => absurd h List.not_mem_nil
  | .raw _, h => absurd h List.not_mem_nil
  | .group _, h => Group.exists_of_mem_asserted_mapPlans h
  | .existence query negated _, h => by
    cases negated with
    | true => cases h
    | false => exact ⟨query, List.mem_singleton_self _, List.mem_singleton.1 h⟩

end

namespace Plan

/-- What a plan with other subqueries asks to have a row is the other form of what the plan asks
for, or belongs to an aggregate, which is left as it is. -/
theorem exists_of_mem_asserted_mapPlans (h : q ∈ (p.mapPlans g).asserted) :
    ∃ q' ∈ p.asserted, q = g q' ∨ q = q' := by
  rcases List.mem_append.1 h with h | h
  · obtain ⟨selects, tables, condition, sortKeys, groupBys, ctes⟩ := p
    cases condition with
    | none => cases h
    | some top =>
      obtain ⟨q', hq', he⟩ := Group.exists_of_mem_asserted_mapPlans h
      exact ⟨q', List.mem_append_left _ hq', .inl he⟩
  · exact ⟨q, List.mem_append_right _ h, .inr rfl⟩

theorem exists_of_mem_laterals_mapPlans (h : q ∈ (p.mapPlans g).laterals) :
    ∃ q' ∈ p.laterals, q = g q' := by
  obtain ⟨a, fromAlias, ht⟩ := mem_laterals_iff.1 h
  obtain ⟨q', hq', he⟩ := Table.exists_of_lateral_mem_map_mapPlan ht
  exact ⟨q', mem_laterals_iff.2 ⟨a, fromAlias, hq'⟩, he⟩

end Plan

end

end EntityQuery
