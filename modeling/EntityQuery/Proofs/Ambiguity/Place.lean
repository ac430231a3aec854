import EntityQuery.Plan.NullCheck
import EntityQuery.Proofs.Evaluation.Reading

/-!
# Corresponding places of two plans

When the leaves of a plan are replaced one by one, each condition of the plan and of the plans inside
it has a counterpart at the same place of the new plan.

* `Condition.Place`, `Plan.Place`: conditions and nested plans at the same place;
* `Plan.ConditionPlace`: conditions of two plans at the same place;
* `Condition.Place.mapLeaves_eq`, `Plan.Place.mapLeaves_eq`: what stands there is what is replaced.
-/

namespace EntityQuery

/-- The conditions `k` and `k'` stand at the same place of `c` and `c'`. -/
inductive Condition.Place : Condition → Condition → Condition → Condition → Prop
  | here {c c' : Condition} : Place c c' c c'
  | inside {op op' : Connective} {cs cs' : List Condition} {i : Nat} {c c' k k' : Condition}
      (hc : cs[i]? = some c) (hc' : cs'[i]? = some c') (h : Place c c' k k') :
      Place (.group ⟨op, cs⟩) (.group ⟨op', cs'⟩) k k'

/-- The plans `q` and `q'` stand at the same place of `p` and `p'`. -/
inductive Plan.Place : Plan → Plan → Plan → Plan → Prop
  | here {p p' : Plan} : Place p p' p p'
  | inside {p p' r r' q q' : Plan} {i : Nat} (hr : p.nestedPlans[i]? = some r)
      (hr' : p'.nestedPlans[i]? = some r') (h : Place r r' q q') : Place p p' q q'

/-- The conditions stand at the same place of the two plans, subqueries aside: in the condition at
the top, or in that of a boolean column. -/
inductive Plan.ConditionPlace (p p' : Plan) (k k' : Condition) : Prop
  | top {g g' : Group} (hg : p.condition = some g) (hg' : p'.condition = some g')
      (h : Condition.Place (.group g) (.group g') k k')
  | column {i : Nat} {g g' : Group} {name name' : String} (hg : p.selects[i]? = some (.boolOr g name))
      (hg' : p'.selects[i]? = some (.boolOr g' name'))
      (h : Condition.Place (.group g) (.group g') k k')

section

variable {f : Condition → List Condition}

/-- Each leaf is replaced by one condition. -/
structure Condition.Replaces (f : Condition → List Condition) : Prop where
  column : ∀ c, ∃ k, f (.column c) = [k]
  raw : ∀ r, ∃ k, f (.raw r) = [k]

theorem Condition.Replaces.exists_eq (hf : Condition.Replaces f) :
    ∀ c : Condition, ∃ c', c.mapLeaves f = [c'] := by
  intro c
  cases c with
  | group g => exact ⟨.group (g.mapLeaves f), by rw [Condition.mapLeaves]⟩
  | column c => exact hf.column c
  | raw r => exact hf.raw r
  | existence query negate outer =>
    exact ⟨.existence (query.mapLeaves f) negate outer, by rw [Condition.mapLeaves]⟩

theorem Condition.Replaces.forall₂ (hf : Condition.Replaces f) {cs : List Condition} :
    List.Forall₂ (fun c c' => c.mapLeaves f = [c']) cs (Condition.mapLeavesAll f cs) := by
  induction cs with
  | nil => exact .nil
  | cons c cs ih =>
    obtain ⟨c', hc'⟩ := hf.exists_eq c
    rw [Condition.mapLeavesAll, hc']
    exact .cons hc' ih

theorem Condition.plans_subset_plansOf {c : Condition} {cs : List Condition} (hc : c ∈ cs) :
    c.plans ⊆ Condition.plansOf cs := by
  induction cs with
  | nil => cases hc
  | cons d cs ih =>
    rcases List.mem_cons.1 hc with rfl | hc
    · exact List.subset_append_left _ _
    · exact List.Subset.trans (ih hc) (List.subset_append_right _ _)

theorem forall₂_getElem? {α β : Type} {R : α → β → Prop} {as : List α} {bs : List β} {i : Nat}
    {a : α} {b : β} (h : List.Forall₂ R as bs) (ha : as[i]? = some a) (hb : bs[i]? = some b) :
    R a b := by
  induction h generalizing i with
  | nil => cases ha
  | cons hab _ ih =>
    cases i with
    | zero =>
      cases ha
      cases hb
      exact hab
    | succ i => exact ih ha hb

/-- What stands in the new condition is what the old condition is replaced by; its subqueries are
among those around it. -/
theorem Condition.Place.mapLeaves_eq (hf : Condition.Replaces f) {c c' k k' : Condition}
    (h : Condition.Place c c' k k') (hc : c.mapLeaves f = [c']) :
    k.mapLeaves f = [k'] ∧ k.plans ⊆ c.plans := by
  induction h with
  | here => exact ⟨hc, fun _ => id⟩
  | @inside op op' cs cs' i c c' k k' hi hi' _ ih =>
    have hcs : cs' = Condition.mapLeavesAll f cs := by
      rw [Condition.mapLeaves, Group.mapLeaves] at hc
      cases hc
      rfl
    subst hcs
    have hchild := forall₂_getElem? hf.forall₂ hi hi'
    obtain ⟨hk, hplans⟩ := ih hchild
    exact ⟨hk, fun q hq => Condition.plans_subset_plansOf (List.mem_of_getElem? hi) (hplans hq)⟩

theorem Plan.Place.mapLeaves_eq (hf : Condition.Flat f) {P : Plan → Prop} {p p' q q' : Plan}
    (h : Plan.Place p p' q q') (hp' : p' = p.mapLeaves f) (hp : p.Everywhere P) :
    q' = q.mapLeaves f ∧ q.Everywhere P := by
  induction h with
  | here => exact ⟨hp', hp⟩
  | inside hr hr' _ ih =>
    subst hp'
    rw [nestedPlans_mapLeaves hf, List.getElem?_map, hr] at hr'
    cases hr'
    exact ih rfl (hp.nested _ (List.mem_of_getElem? hr))

end

end EntityQuery
