import EntityQuery.Proofs.Existence.Leaves
import EntityQuery.Proofs.Lateral.Combinations

/-!
# Plans that read no collection

Where the conditions of a plan read no table of a collection, there is nothing to ask for in a
subquery.  The plan stays as it is under every strategy.

* `Existence.withExistence_of_unread`: no collection becomes an existence condition;
* `Lateral.decompose_of_unread`, `Lateral.lateralPlan_of_unread`: none becomes a lateral subquery;
* `Plan.resolveCollections_cases`: what collections can become.
-/

namespace EntityQuery

/-- The conditions read no table of a collection. -/
def Condition.Unread (t : Collections) (ks : List Condition) : Prop :=
  ∀ k ∈ ks, ∀ a ∈ k.aliases, t.above a = []

namespace Existence

open Condition

variable {p : Plan} {t : Collections} {ks : List Condition} {root : String}

section

variable (hF : t.IsForest)

include hF

theorem route?_of_unread (h : Unread t ks) : ∀ k ∈ ks, route? t k = none := by
  intro k hk
  rw [Option.eq_none_iff_forall_ne_some]
  intro root hroute
  obtain ⟨-, ⟨a, ha, hm⟩, -⟩ := of_route? hF hroute
  rw [h k hk a ha] at hm
  cases hm

theorem sentTo_of_unread (h : Unread t ks) : sentTo (route? t) root ks = [] :=
  List.filter_eq_nil_iff.2 fun k hk => by simp [route?_of_unread hF h k hk]

/-- Nothing is asked of a collection. -/
theorem demand_of_unread (h : Unread t p.topConditions) (hroot : root ∈ t.roots) :
    demand p t root = none := by
  obtain ⟨hcol, habove⟩ := hF.mem_roots_iff.1 hroot
  rw [demand, sentTo_of_unread hF h, build?_eq_none_iff hF hcol (by simp [habove])]
  exact List.forall_mem_nil _

/-- No collection becomes an existence condition. -/
theorem withExistence_of_unread (h : Unread t p.topConditions)
    (htop : Group.ofTop p.isDisjunctive p.topConditions = p.condition) : p.withExistence t = p := by
  have hnone : ∀ x ∈ results p t, x.2 = none := fun x hx => by
    obtain ⟨⟨hroot, -⟩, hd⟩ := mem_results_iff.1 hx
    rw [← hd, demand_of_unread hF h hroot]
  have habsorbed : (results p t).filter (·.2.isSome) = [] :=
    List.filter_eq_nil_iff.2 fun x hx => by simp [hnone x hx]
  have hdemanded : (results p t).filterMap (·.2) = [] :=
    List.filterMap_eq_nil_iff.2 hnone
  have hstaying : staying (route? t) p.topConditions = p.topConditions :=
    List.filter_eq_self.2 fun k hk => decide_eq_true (route?_of_unread hF h k hk)
  have hrewritten : Existence.rewritten p t = p.topConditions := by
    simp [rewritten, hdemanded, hstaying, sentTo_of_unread hF h, List.flatMap_eq_nil_iff]
  rw [Plan.withExistence, habsorbed, hrewritten, htop]
  simp only [List.flatMap_nil, List.not_mem_nil, not_false_eq_true, decide_true, List.filter_true]
  cases p
  rfl

end

end Existence

namespace Lateral

variable {s : Scope} {top rest siblings : List Condition} {p : Plan} {supply : AliasSupply}

theorem units_of_unread (h : Condition.Unread s.tree top) : ∀ k ∈ top, (s.units k).1 = [] :=
  fun k hk => Scope.units_eq_nil_iff.2 fun a ha => Scope.unit?_eq_none_iff.2 fun u _ => by
    rw [h k hk a ha]
    exact List.not_mem_nil

/-- Conditions that read no collection are left as they are. -/
theorem decompose_of_unread {aliasOf : String → String} {op : Connective} {seen : List String}
    {columns : List Column} (h : ∀ k ∈ rest, (s.units k).1 = []) :
    decompose s aliasOf op siblings seen rest columns = (rest, columns) := by
  induction rest with
  | nil => rw [decompose]
  | cons k rest ih =>
    have hunits := h k List.mem_cons_self
    have honly : s.only? k = none := by
      rw [Option.eq_none_iff_forall_ne_some]
      intro u hu
      obtain ⟨⟨a, ha, hm⟩, -⟩ := Scope.only?_eq_some_iff.1 hu
      rw [Scope.units_eq_nil_iff.1 hunits a ha] at hm
      cases hm
    have hone : decomposeOne s aliasOf k columns = (k, columns) := by
      cases k with
      | group g =>
        obtain ⟨op, cs⟩ := g
        rw [decomposeOne, hunits]
        rfl
      | _ => exact decomposeOne_leaf nofun
    rw [decompose, honly]
    dsimp only
    rw [hone, ih fun k hk => h k (List.mem_cons_of_mem _ hk)]

/-- No collection becomes a lateral subquery. -/
theorem lateralPlan_of_unread (h : Condition.Unread s.tree p.topConditions)
    (htop : Group.ofTop p.isDisjunctive p.topConditions = p.condition) :
    lateralPlan s supply p = p := by
  have hunits := units_of_unread h
  have hasked : askedOf s p.topConditions = p.topConditions :=
    List.filter_eq_self.2 fun k hk => by simp [isGuard, hunits k hk]
  have hdivided : divided s supply p.topConditions = (p.topConditions, []) := by
    rw [divided, hasked, decompose_of_unread hunits]
  have hguards : ∀ u, guardsOf s p.topConditions u = [] := fun u =>
    List.filter_eq_nil_iff.2 fun k hk => by simp [hunits k hk]
  have hrewritten : ∀ u, isRewritten [] u = false := fun _ => rfl
  have houtside : outside s [] s.active p.tables = p.tables :=
    List.filter_eq_self.2 fun x _ => List.all_eq_true.2 fun u _ => by simp [hrewritten]
  have hlaterals : laterals s p.topConditions [] supply p.tables = [] :=
    List.eq_nil_iff_forall_not_mem.2 fun x hx => by
      obtain ⟨u, -, j, -, hr, -⟩ := mem_laterals_iff.1 hx
      cases hr
  have hleft : (s.active.flatMap fun u => if isRewritten [] u then [] else guardsOf s p.topConditions u) =
      [] := List.flatMap_eq_nil_iff.2 fun u _ => by rw [hguards, ite_self]
  rw [lateralPlan, hdivided, hleft, houtside, hlaterals, List.append_nil, List.append_nil, htop]
  cases p
  rfl

end Lateral

namespace Plan

variable {T : JoinTree} {p : Plan} {joins : List Join} {threshold : Nat} {supply supply' : AliasSupply}
  {r : Resolved} {strategy : Strategy}

/-- Collections stay joins, or become existence conditions or lateral subqueries. -/
theorem resolveCollections_cases
    (hr : p.resolveCollections strategy threshold joins supply = .ok (r, supply')) :
    r.plan = p ∨ p.toExistence joins = .ok r ∨
      ∃ force, p.toLateral force threshold joins supply = .ok (r, supply') := by
  unfold resolveCollections at hr
  split_ifs at hr
  · obtain ⟨rfl, -⟩ := Prod.mk.inj (Except.ok.inj hr)
    exact .inl rfl
  cases strategy with
  | existence =>
    obtain ⟨r', hr', he⟩ := exists_of_map_eq_ok hr
    obtain ⟨rfl, -⟩ := Prod.mk.inj he
    exact .inr (.inl hr')
  | lateral force => exact .inr (.inr ⟨force, hr⟩)
  | keep =>
    obtain ⟨rfl, -⟩ := Prod.mk.inj (Except.ok.inj hr)
    exact .inl rfl

namespace Gathered

variable (h : p.Gathered T joins)
  (hfresh : ∀ force, Lateral.Fresh (p.lateralScope force threshold joins) p supply)
  (hr : p.resolveCollections strategy threshold joins supply = .ok (r, supply'))

include h hfresh hr

/-- What becomes of a plan whose collections are resolved. -/
theorem plan_resolveCollections_cases :
    r.plan = p ∨ r.plan = p.withExistence (Collections.ofPlan p joins) ∨
      ∃ force, r.plan = Lateral.lateralPlan (p.lateralScope force threshold joins) supply p := by
  rcases resolveCollections_cases hr with he | hr | ⟨force, hr⟩
  · exact .inl he
  · exact (toExistence_cases hr).elim (fun hnone => .inl hnone.2) fun he => .inr (.inl he)
  · exact (toLateral_cases h.tables h.mem_joins (hfresh force) hr).imp_right fun he =>
      .inr ⟨force, he⟩

/-- A plan that reads no collection stays as it is. -/
theorem resolveCollections_of_unread
    (hunread : Condition.Unread (Collections.ofPlan p joins) p.topConditions)
    (htop : Group.ofTop p.isDisjunctive p.topConditions = p.condition) : r.plan = p := by
  rcases h.plan_resolveCollections_cases hfresh hr with he | he | ⟨force, he⟩
  · exact he
  · exact he.trans (Existence.withExistence_of_unread (JoinTree.isForest h.tables h.mem_joins)
      hunread htop)
  · obtain ⟨hs, -⟩ : (p.lateralScope force threshold joins).tree = _ ∧ _ :=
      divisible_lateralScope h.tables h.mem_joins
    exact he.trans (Lateral.lateralPlan_of_unread (hs ▸ hunread) htop)

/-- No order comes from collections. -/
theorem sortKeys_resolveCollections : r.plan.sortKeys = [] := by
  rcases h.plan_resolveCollections_cases hfresh hr with he | he | ⟨force, he⟩ <;>
    exact (congrArg Plan.sortKeys he).trans h.sortKeys

/-- The result columns are those of the plan. -/
theorem selects_resolveCollections : r.plan.selects = p.selects := by
  rcases h.plan_resolveCollections_cases hfresh hr with he | he | ⟨force, he⟩ <;>
    exact (congrArg Plan.selects he).trans rfl

end Gathered

end Plan

end EntityQuery
