import EntityQuery.Plan.Prune
import EntityQuery.Proofs.Agreement.Binding
import EntityQuery.Proofs.Pruning.Reference

/-!
# Conditions that were not asked for

A condition that was not asked for does not hold its table, and goes when the table goes.  Where such
conditions read other tables than those that are removed, all conditions are left.

* `Plan.implied`: the tables that are read by what was not asked for;
* `Plan.Spared`: no condition goes with the removed tables, in the plan and in all plans inside it;
* `Plan.references_of_nested`: a plan refers to what its subqueries refer to;
* `Plan.mapLeaves_withoutRemoved`: the conditions of a spared plan are all left.
-/

namespace EntityQuery

mutual

/-- The tables that a group reads without having been asked. -/
def Group.implied : Group → List String
  | ⟨_, conditions⟩ => Condition.impliedOf conditions

/-- The tables that conditions read without having been asked. -/
def Condition.impliedOf : List Condition → List String
  | [] => []
  | c :: rest => c.implied ++ Condition.impliedOf rest

/-- The tables that a condition reads without having been asked, its subqueries aside. -/
def Condition.implied : Condition → List String
  | .group g => g.implied
  | .column c => if c.pruneable then [c.aliasName] else []
  | .raw r => if r.pruneable then r.aliases else []
  | .existence .. => []

end

/-- The tables that a boolean column reads without having been asked. -/
def Select.implied : Select → List String
  | .boolOr condition _ => condition.implied
  | _ => []

/-- The tables that a plan reads without having been asked, its subqueries aside. -/
def Plan.implied (p : Plan) : List String :=
  (p.condition.map Group.implied).getD [] ++ p.selects.flatMap Select.implied

theorem Condition.impliedOf_append {cs cs' : List Condition} :
    Condition.impliedOf (cs ++ cs') = Condition.impliedOf cs ++ Condition.impliedOf cs' := by
  induction cs with
  | nil => rfl
  | cons c cs ih => rw [List.cons_append, impliedOf, impliedOf, ih, List.append_assoc]

theorem Condition.mem_impliedOf_iff {cs : List Condition} {a : String} :
    a ∈ Condition.impliedOf cs ↔ ∃ c ∈ cs, a ∈ c.implied := by
  induction cs with
  | nil => simp [impliedOf]
  | cons c cs ih => simp [impliedOf, ih]

/-- Nothing that was not asked for reads the removed tables, in the plan and in all plans inside
it. -/
def Plan.Spared (removed : List String) (p : Plan) : Prop :=
  p.Everywhere fun q => ∀ a ∈ q.implied, a ∉ removed

/-! ### What a subquery refers to -/

mutual

theorem Group.references_of_plans {q : Plan} : ∀ {g : Group}, q ∈ g.plans →
    q.references ⊆ g.references
  | ⟨_, _⟩, hq => Condition.references_of_plansOf hq

theorem Condition.references_of_plansOf {q : Plan} : ∀ {cs : List Condition},
    q ∈ Condition.plansOf cs → q.references ⊆ Condition.referencesOf cs
  | [], hq => absurd hq List.not_mem_nil
  | _ :: _, hq => fun _ ha => (List.mem_append.1 hq).elim
    (fun hq => List.mem_append_left _ (Condition.references_of_plans hq ha))
    fun hq => List.mem_append_right _ (Condition.references_of_plansOf hq ha)

theorem Condition.references_of_plans {q : Plan} : ∀ {c : Condition}, q ∈ c.plans →
    q.references ⊆ c.references
  | .group _, hq => Group.references_of_plans hq
  | .column _, hq => absurd hq List.not_mem_nil
  | .raw _, hq => absurd hq List.not_mem_nil
  | .existence _ _ _, hq => fun _ ha => by
    rw [List.mem_singleton.1 hq] at ha
    exact List.mem_append_right _ ha

end

theorem Select.references_of_plans {q : Plan} {ss : List Select} {s : Select} (hs : s ∈ ss)
    (hq : q ∈ s.plans) : q.references ⊆ Select.referencesOf ss := by
  induction ss with
  | nil => cases hs
  | cons x ss ih =>
    intro a ha
    rcases List.mem_cons.1 hs with rfl | hs
    · cases s with
      | boolOr g name => exact List.mem_append_left _ (Group.references_of_plans hq ha)
      | _ => cases hq
    · have hrest := ih hs ha
      cases x <;> exact List.mem_append_right _ hrest

/-- A plan refers to what its subqueries refer to. -/
theorem Plan.references_of_nested {p q : Plan} (hq : q ∈ p.nestedPlans) :
    q.references ⊆ p.references := by
  intro a ha
  rw [Plan.mem_references_iff]
  rcases List.mem_append.1 hq with hq | hq
  · rcases List.mem_append.1 hq with hq | hq
    · obtain ⟨t, ht, hq⟩ := List.mem_flatMap.1 hq
      cases t with
      | lateral x b query =>
        rw [List.mem_singleton.1 hq] at ha
        exact .inr (.inr (.inr (.inr (Table.mem_referencesOf_iff.2
          (.inr ⟨x, b, query, ht, .inr ha⟩)))))
      | _ => cases hq
    · cases hg : p.condition with
      | none =>
        rw [hg] at hq
        cases hq
      | some g =>
        rw [hg] at hq
        exact .inr (.inl (Group.references_of_plans hq ha))
  · obtain ⟨s, hs, hq⟩ := List.mem_flatMap.1 hq
    exact .inl (Select.references_of_plans hs hq ha)

/-! ### Conditions that are left -/

section

variable {removed : List String}

mutual

/-- No condition of a spared plan goes with the removed tables. -/
theorem Plan.mapLeaves_withoutRemoved : ∀ {p : Plan}, p.Spared removed →
    p.mapLeaves (Condition.withoutRemoved removed) = p
  | ⟨selects, tables, condition, sortKeys, groupBys, ctes⟩, h => by
    cases h with
    | intro here nested =>
    rw [Plan.mapLeaves,
      Select.mapLeavesAll_withoutRemoved (fun s hs a ha => here a (List.mem_append_right _
        (List.mem_flatMap.2 ⟨s, hs, ha⟩)))
        fun s hs q hq => nested q (Plan.mem_nestedPlans_of_select hs hq),
      Table.mapLeavesAll_withoutRemoved
        fun t ht q hq => nested q (Plan.mem_nestedPlans_of_table ht hq),
      Group.mapLeavesTop_withoutRemoved (fun a ha => here a (List.mem_append_left _ ha))
        fun q hq => nested q (Plan.mem_nestedPlans_of_condition hq)]

theorem Table.mapLeavesAll_withoutRemoved : ∀ {ts : List Table},
    (∀ t ∈ ts, ∀ q ∈ t.plans, q.Spared removed) →
    Table.mapLeavesAll (Condition.withoutRemoved removed) ts = ts
  | [], _ => rfl
  | .lateral _ _ query :: ts, h => by
    rw [Table.mapLeavesAll, Plan.mapLeaves_withoutRemoved (h _ List.mem_cons_self query
      (List.mem_singleton_self _)),
      Table.mapLeavesAll_withoutRemoved fun t ht => h t (List.mem_cons_of_mem _ ht)]
  | .primary _ _ :: _, h => congrArg (List.cons _)
    (Table.mapLeavesAll_withoutRemoved fun t ht => h t (List.mem_cons_of_mem _ ht))
  | .join _ :: _, h => congrArg (List.cons _)
    (Table.mapLeavesAll_withoutRemoved fun t ht => h t (List.mem_cons_of_mem _ ht))
  | .cross _ _ :: _, h => congrArg (List.cons _)
    (Table.mapLeavesAll_withoutRemoved fun t ht => h t (List.mem_cons_of_mem _ ht))

theorem Group.mapLeavesTop_withoutRemoved : ∀ {g : Option Group},
    (∀ a ∈ (g.map Group.implied).getD [], a ∉ removed) →
    (∀ q ∈ (g.map Group.plans).getD [], q.Spared removed) →
    Group.mapLeavesTop (Condition.withoutRemoved removed) g = g
  | none, _, _ => rfl
  | some _, h, hq => congrArg some (Group.mapLeaves_withoutRemoved h hq)

theorem Group.mapLeaves_withoutRemoved : ∀ {g : Group}, (∀ a ∈ g.implied, a ∉ removed) →
    (∀ q ∈ g.plans, q.Spared removed) → g.mapLeaves (Condition.withoutRemoved removed) = g
  | ⟨op, _⟩, h, hq => congrArg (Group.mk op) (Condition.mapLeavesAll_withoutRemoved h hq)

theorem Condition.mapLeavesAll_withoutRemoved : ∀ {cs : List Condition},
    (∀ a ∈ Condition.impliedOf cs, a ∉ removed) →
    (∀ q ∈ Condition.plansOf cs, q.Spared removed) →
    Condition.mapLeavesAll (Condition.withoutRemoved removed) cs = cs
  | [], _, _ => rfl
  | c :: cs, h, hq => by
    rw [Condition.mapLeavesAll,
      Condition.mapLeaves_withoutRemoved (fun a ha => h a (List.mem_append_left _ ha))
        fun q hm => hq q (List.mem_append_left _ hm),
      Condition.mapLeavesAll_withoutRemoved (fun a ha => h a (List.mem_append_right _ ha))
        fun q hm => hq q (List.mem_append_right _ hm)]
    rfl

theorem Condition.mapLeaves_withoutRemoved : ∀ {c : Condition}, (∀ a ∈ c.implied, a ∉ removed) →
    (∀ q ∈ c.plans, q.Spared removed) → c.mapLeaves (Condition.withoutRemoved removed) = [c]
  | .group _, h, hq => by rw [Condition.mapLeaves, Group.mapLeaves_withoutRemoved h hq]
  | .column c, h, _ => by
    rw [Condition.mapLeaves, Condition.withoutRemoved, if_neg]
    intro hdrop
    rw [Bool.and_eq_true, decide_eq_true_iff] at hdrop
    exact h c.aliasName (by simp [Condition.implied, hdrop.1]) hdrop.2
  | .raw r, h, _ => by
    rw [Condition.mapLeaves, Condition.withoutRemoved, if_neg]
    intro hdrop
    rw [Bool.and_eq_true, List.any_eq_true] at hdrop
    obtain ⟨hp, a, ha, hm⟩ := hdrop
    exact h a (by simpa [Condition.implied, hp] using ha) (of_decide_eq_true hm)
  | .existence query _ _, _, hq => by
    rw [Condition.mapLeaves, Plan.mapLeaves_withoutRemoved (hq query (List.mem_singleton_self _))]

theorem Select.mapLeavesAll_withoutRemoved : ∀ {ss : List Select},
    (∀ s ∈ ss, ∀ a ∈ s.implied, a ∉ removed) → (∀ s ∈ ss, ∀ q ∈ s.plans, q.Spared removed) →
    Select.mapLeavesAll (Condition.withoutRemoved removed) ss = ss
  | [], _, _ => rfl
  | .boolOr _ _ :: _, h, hq => by
    rw [Select.mapLeavesAll, Group.mapLeaves_withoutRemoved (h _ List.mem_cons_self)
      (hq _ List.mem_cons_self), Select.mapLeavesAll_withoutRemoved
        (fun s hs => h s (List.mem_cons_of_mem _ hs)) fun s hs => hq s (List.mem_cons_of_mem _ hs)]
  | .star _ :: _, h, hq => congrArg (List.cons _) (Select.mapLeavesAll_withoutRemoved
      (fun s hs => h s (List.mem_cons_of_mem _ hs)) fun s hs => hq s (List.mem_cons_of_mem _ hs))
  | .column _ _ :: _, h, hq => congrArg (List.cons _) (Select.mapLeavesAll_withoutRemoved
      (fun s hs => h s (List.mem_cons_of_mem _ hs)) fun s hs => hq s (List.mem_cons_of_mem _ hs))
  | .discriminator _ _ _ :: _, h, hq => congrArg (List.cons _) (Select.mapLeavesAll_withoutRemoved
      (fun s hs => h s (List.mem_cons_of_mem _ hs)) fun s hs => hq s (List.mem_cons_of_mem _ hs))
  | .countIsZero _ :: _, h, hq => congrArg (List.cons _) (Select.mapLeavesAll_withoutRemoved
      (fun s hs => h s (List.mem_cons_of_mem _ hs)) fun s hs => hq s (List.mem_cons_of_mem _ hs))
  | .raw _ _ _ :: _, h, hq => congrArg (List.cons _) (Select.mapLeavesAll_withoutRemoved
      (fun s hs => h s (List.mem_cons_of_mem _ hs)) fun s hs => hq s (List.mem_cons_of_mem _ hs))

end

end

end EntityQuery
