import EntityQuery.Proofs.Pruning.Reference

/-!
# The conditions at the top of a plan

Passes over a plan leave its result columns what they are, and act on the conditions at the top one
by one.

* `Plan.topConditions_mapLeaves`, `Plan.topConditions_mapPlans`: other leaves and other subqueries;
* `Plan.topConditions_remove`: the conditions that are left when tables are removed;
* `Plan.mem_references_of_topConditions`: what they refer to.
-/

namespace EntityQuery

section

variable {p : Plan} {f : Condition → List Condition} {g : Plan → Plan} {keep removed : List String}

theorem Condition.mapLeavesAll_eq_self {cs : List Condition} (h : ∀ k ∈ cs, k.mapLeaves f = [k]) :
    mapLeavesAll f cs = cs := by
  induction cs with
  | nil => rfl
  | cons k cs ih =>
    rw [List.forall_mem_cons] at h
    rw [mapLeavesAll, h.1, ih h.2, List.singleton_append]

theorem Condition.mem_mapLeavesAll_iff {cs : List Condition} {k : Condition} :
    k ∈ mapLeavesAll f cs ↔ ∃ k' ∈ cs, k ∈ k'.mapLeaves f := by
  induction cs with
  | nil => simp [mapLeavesAll]
  | cons k' cs ih => simp [mapLeavesAll, ih]

theorem Condition.mapPlansOf_eq_map {cs : List Condition} :
    mapPlansOf g cs = cs.map (mapPlans g) := by
  induction cs with
  | nil => rfl
  | cons k cs ih => rw [mapPlansOf, ih, List.map_cons]

theorem Select.mapLeavesAll_eq_self {xs : List Select} (h : ∀ x ∈ xs, ∀ g name, x ≠ .boolOr g name) :
    mapLeavesAll f xs = xs := by
  induction xs with
  | nil => rfl
  | cons x xs ih =>
    rw [List.forall_mem_cons] at h
    cases x with
    | boolOr g name => exact absurd rfl (h.1 g name)
    | _ => exact congrArg _ (ih h.2)

theorem Select.mem_referencesOf_star {xs : List Select} {a : String} (h : .star a ∈ xs) :
    a ∈ referencesOf xs := by
  induction xs with
  | nil => cases h
  | cons x xs ih =>
    rcases List.mem_cons.1 h with rfl | hxs
    · exact List.mem_cons_self
    · have hrest := ih hxs
      cases x <;> exact List.mem_append_right _ hrest

theorem Select.star_mem_mapLeavesAll {xs : List Select} {a : String} (h : .star a ∈ xs) :
    .star a ∈ mapLeavesAll f xs := by
  induction xs with
  | nil => cases h
  | cons x xs ih =>
    rcases List.mem_cons.1 h with rfl | hxs
    · exact List.mem_cons_self
    · have hrest := ih hxs
      cases x <;> exact List.mem_cons_of_mem _ hrest

namespace Plan

theorem selects_mapLeaves : (p.mapLeaves f).selects = Select.mapLeavesAll f p.selects := by
  cases p
  rfl

theorem topConditions_mapLeaves :
    (p.mapLeaves f).topConditions = Condition.mapLeavesAll f p.topConditions := by
  obtain ⟨selects, tables, condition, sortKeys, groupBys, ctes⟩ := p
  match condition with
  | none => rfl
  | some ⟨.and, cs⟩ => rfl
  | some ⟨.or, cs⟩ => rfl

theorem topConditions_mapPlans :
    (p.mapPlans g).topConditions = p.topConditions.map (Condition.mapPlans g) := by
  obtain ⟨selects, tables, condition, sortKeys, groupBys, ctes⟩ := p
  rw [← Condition.mapPlansOf_eq_map]
  match condition with
  | none => rfl
  | some ⟨.and, cs⟩ => rfl
  | some ⟨.or, cs⟩ => rfl

theorem trim_eq_self (h : p.unreferenced keep = []) : p.trim keep = p := by
  rw [trim]
  cases p.tables.length with
  | zero => rfl
  | succ n => rw [trimWithin, h]

theorem mem_references_condition_iff {a : String} :
    a ∈ Group.referencesOf p.condition ↔ ∃ c ∈ p.topConditions, a ∈ c.references := by
  obtain ⟨selects, tables, condition, sortKeys, groupBys, ctes⟩ := p
  match condition with
  | none => exact ⟨fun ha => absurd ha List.not_mem_nil, fun ⟨_, hc, _⟩ => absurd hc List.not_mem_nil⟩
  | some ⟨.and, cs⟩ => exact Condition.mem_referencesOf_iff
  | some ⟨.or, cs⟩ =>
    exact ⟨fun ha => ⟨_, List.mem_singleton_self _, ha⟩, fun ⟨_, hc, ha⟩ => by
      rwa [List.mem_singleton.1 hc] at ha⟩

theorem mem_references_of_topConditions {k : Condition} (hk : k ∈ p.topConditions) {a : String}
    (ha : a ∈ k.references) : a ∈ p.references :=
  mem_references_iff.2 (.inr (.inl (mem_references_condition_iff.2 ⟨k, hk, ha⟩)))

theorem mem_references_of_join {j : Join} (hj : .join j ∈ p.tables) :
    j.parent.aliasName ∈ p.references :=
  mem_references_iff.2 (.inr (.inr (.inr (.inr (Table.mem_referencesOf_iff.2 (.inl ⟨j, hj, rfl⟩))))))

theorem mem_references_of_star {a : String} (h : .star a ∈ p.selects) : a ∈ p.references :=
  mem_references_iff.2 (.inl (Select.mem_referencesOf_star h))

theorem isDisjunctive_of_no_group (h : ∀ g, .group g ∉ p.topConditions) :
    p.isDisjunctive = false := by
  obtain ⟨selects, tables, condition, sortKeys, groupBys, ctes⟩ := p
  match condition with
  | none => rfl
  | some ⟨.and, cs⟩ => rfl
  | some ⟨.or, cs⟩ => exact absurd (List.mem_singleton_self _) (h _)

/-- A plan with a predicate at the top is no disjunction. -/
theorem isDisjunctive_of_mem {c : ColumnCondition}
    (hc : .column c ∈ p.topConditions) : p.isDisjunctive = false := by
  obtain ⟨selects, tables, condition, sortKeys, groupBys, ctes⟩ := p
  match condition, hc with
  | some ⟨.and, _⟩, _ => rfl
  | some ⟨.or, _⟩, hc => exact absurd (List.mem_singleton.1 hc) nofun

/-- Where the top is no disjunction, the conditions that are left are those of the plan that are
left. -/
theorem topConditions_remove (h : p.isDisjunctive = false) :
    (p.remove removed).topConditions =
      Condition.mapLeavesAll (Condition.withoutRemoved removed) p.topConditions := by
  obtain ⟨selects, tables, condition, sortKeys, groupBys, ctes⟩ := p
  match condition with
  | none => rfl
  | some ⟨.or, cs⟩ => cases h
  | some ⟨.and, cs⟩ =>
    show Plan.topConditions ⟨_, _, Group.nonempty? (some ⟨.and, _⟩), _, _, _⟩ = _
    show _ = Condition.mapLeavesAll (Condition.withoutRemoved removed) cs
    cases Condition.mapLeavesAll (Condition.withoutRemoved removed) cs <;> rfl

theorem isDisjunctive_remove (h : p.isDisjunctive = false) :
    (p.remove removed).isDisjunctive = false := by
  obtain ⟨selects, tables, condition, sortKeys, groupBys, ctes⟩ := p
  match condition with
  | none => rfl
  | some ⟨.or, cs⟩ => cases h
  | some ⟨.and, cs⟩ =>
    show Plan.isDisjunctive ⟨_, _, Group.nonempty? (some ⟨.and, _⟩), _, _, _⟩ = _
    cases Condition.mapLeavesAll (Condition.withoutRemoved removed) cs <;> rfl

/-- What is left at the top stands in the place of a condition there. -/
theorem exists_of_mem_topConditions_remove {c : Condition}
    (h : c ∈ (p.remove removed).topConditions) :
    ∃ c' ∈ p.topConditions, c ∈ c'.mapLeaves (Condition.withoutRemoved removed) := by
  cases hp : p.isDisjunctive with
  | false =>
    rw [topConditions_remove hp] at h
    exact Condition.mem_mapLeavesAll_iff.1 h
  | true =>
    obtain ⟨selects, tables, condition, sortKeys, groupBys, ctes⟩ := p
    match condition with
    | none => cases hp
    | some ⟨.and, cs⟩ => cases hp
    | some ⟨.or, cs⟩ =>
      refine ⟨.group ⟨.or, cs⟩, List.mem_singleton_self _, ?_⟩
      change c ∈ Plan.topConditions ⟨_, _, Group.nonempty? (some ⟨.or,
        Condition.mapLeavesAll (Condition.withoutRemoved removed) cs⟩), _, _, _⟩ at h
      show c ∈ [Condition.group ⟨.or, Condition.mapLeavesAll (Condition.withoutRemoved removed) cs⟩]
      cases hcs : Condition.mapLeavesAll (Condition.withoutRemoved removed) cs with
      | nil =>
        rw [hcs] at h
        cases h
      | cons c' cs' =>
        rw [hcs] at h
        exact h

theorem selects_remove : (p.remove removed).selects =
    Select.mapLeavesAll (Condition.withoutRemoved removed) p.selects := by
  cases p
  rfl

end Plan

end

end EntityQuery
