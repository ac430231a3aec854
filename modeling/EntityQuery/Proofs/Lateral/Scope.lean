import EntityQuery.Proofs.Evaluation.Truth
import EntityQuery.Proofs.Collection.JoinTree
import EntityQuery.Collection.Lateral

/-!
# The choice of lateral collections

The collections that become subqueries are chosen in rounds.  Whatever the rounds exclude, no chosen
collection is below another one, and in the end every condition reads the chosen ones in parts that
can be moved.

* `Lateral.Scope.Independent`: no chosen collection is below another one;
* `Lateral.Scope.only?_eq_some_iff`: the conditions that move into a subquery;
* `Lateral.Divisible`: every condition can be divided;
* `Lateral.divisible_of_settle`: what comes out of the rounds is divisible.
-/

namespace EntityQuery.Lateral

namespace Scope

/-- The chosen collections are collections of the plan, none of them below another. -/
structure Independent (s : Scope) : Prop where
  collection : ∀ u ∈ s.active, s.tree.isCollection u
  nodup : s.active.Nodup
  apart : ∀ u ∈ s.active, ∀ v ∈ s.active, u ∈ s.tree.above v → u = v

variable {s : Scope} {a u v : String} {c : Condition}

theorem Independent.unique (h : s.Independent) (hF : s.tree.IsForest) (hu : u ∈ s.active)
    (hv : v ∈ s.active) (hau : u ∈ s.tree.above a) (hav : v ∈ s.tree.above a) : u = v := by
  rcases hF.mem_above_or_mem_above hau hav with huv | hvu
  · exact h.apart u hu v hv huv
  · exact (h.apart v hv u hu hvu).symm

theorem of_unit? (h : s.unit? a = some u) : u ∈ s.active ∧ u ∈ s.tree.above a := by
  have hm := List.find?_some h
  exact ⟨List.mem_of_find?_eq_some h, Collections.inSubtree_iff.1 (by simpa using hm)⟩

theorem unit?_eq_none_iff : s.unit? a = none ↔ ∀ u ∈ s.active, u ∉ s.tree.above a := by
  rw [unit?, List.find?_eq_none]
  simp only [Collections.inSubtree_iff]

/-- A table belongs to the chosen collection that it is below. -/
theorem unit?_eq_some_iff (h : s.Independent) (hF : s.tree.IsForest) :
    s.unit? a = some u ↔ u ∈ s.active ∧ u ∈ s.tree.above a := by
  refine ⟨of_unit?, fun ⟨hu, ha⟩ => ?_⟩
  cases hs : s.unit? a with
  | none => exact absurd ha (unit?_eq_none_iff.1 hs u hu)
  | some v => rw [h.unique hF (of_unit? hs).1 hu (of_unit? hs).2 ha]

theorem mem_units_iff : u ∈ (s.units c).1 ↔ ∃ a ∈ c.aliases, s.unit? a = some u := by
  rw [units, Condition.owners, ownersOf, mem_foldl_insertNew, List.mem_filterMap]
  simp

theorem nodup_units : (s.units c).1.Nodup := nodup_foldl_insertNew List.nodup_nil

theorem units_outer_iff : (s.units c).2 = true ↔ ∃ a ∈ c.aliases, s.unit? a = none := by
  rw [units, Condition.owners, ownersOf, List.any_eq_true]
  simp only [Option.isNone_iff_eq_none]

theorem units_eq_nil_iff : (s.units c).1 = [] ↔ ∀ a ∈ c.aliases, s.unit? a = none := by
  rw [List.eq_nil_iff_forall_not_mem]
  simp only [mem_units_iff, not_exists, not_and]
  constructor
  · intro h a ha
    rw [Option.eq_none_iff_forall_ne_some]
    exact fun u => h u a ha
  · intro h u a ha hu
    rw [h a ha] at hu
    cases hu

theorem units_eq_singleton_iff : (s.units c).1 = [u] ↔
    (∃ a ∈ c.aliases, s.unit? a = some u) ∧
      ∀ a ∈ c.aliases, ∀ v, s.unit? a = some v → v = u := by
  constructor
  · intro h
    have hm : ∀ v, (∃ a ∈ c.aliases, s.unit? a = some v) ↔ v = u := fun v => by
      rw [← mem_units_iff, h, List.mem_singleton]
    exact ⟨(hm u).2 rfl, fun a ha v hv => (hm v).1 ⟨a, ha, hv⟩⟩
  · rintro ⟨hex, huniq⟩
    refine List.perm_singleton.1 ((List.perm_ext_iff_of_nodup nodup_units
      (List.nodup_singleton u)).2 fun v => ?_)
    rw [mem_units_iff, List.mem_singleton]
    exact ⟨fun ⟨a, ha, hv⟩ => huniq a ha v hv, fun hv => hv ▸ hex⟩

/-- A condition moves into the subquery of the collection that all of its tables belong to. -/
theorem only?_eq_some_iff : s.only? c = some u ↔
    (∃ a ∈ c.aliases, s.unit? a = some u) ∧ ∀ a ∈ c.aliases, s.unit? a = some u := by
  have hshape : s.only? c = some u ↔ (s.units c).1 = [u] ∧ (s.units c).2 = false := by
    unfold only?
    split
    · next unit he => simp [he]
    · next hne =>
      refine iff_of_false (by simp) fun ⟨h1, h2⟩ => hne u ?_
      exact Prod.ext h1 h2
  rw [hshape, units_eq_singleton_iff, ← Bool.not_eq_true, units_outer_iff]
  constructor
  · rintro ⟨⟨hex, huniq⟩, hin⟩
    refine ⟨hex, fun a ha => ?_⟩
    cases h : s.unit? a with
    | none => exact absurd ⟨a, ha, h⟩ hin
    | some v => rw [huniq a ha v h]
  · rintro ⟨hex, hall⟩
    refine ⟨⟨hex, fun a ha v hv => ?_⟩, fun ⟨a, ha, hn⟩ => ?_⟩
    · rw [hall a ha, Option.some.injEq] at hv
      exact hv.symm
    · rw [hall a ha] at hn
      cases hn

/-! ### Conditions that can be divided -/

theorem moves_iff : ((s.units c).1.length = 1 && !(s.units c).2) = true ↔
    ∃ u, s.only? c = some u := by
  rw [Bool.and_eq_true, decide_eq_true_iff, List.length_eq_one_iff, Bool.not_eq_true']
  unfold only?
  constructor
  · rintro ⟨⟨u, hu⟩, hout⟩
    exact ⟨u, by rw [show s.units c = ([u], false) from Prod.ext hu hout]⟩
  · rintro ⟨u, hu⟩
    split at hu
    · next unit he => simp [he]
    · cases hu

/-- A condition pins no collection when it reads none, moves as a whole, or is a group of such
conditions. -/
theorem pinnedBy_eq_nil_iff : s.pinnedBy c = [] ↔ (s.units c).1 = [] ∨ (∃ u, s.only? c = some u) ∨
    ∃ op cs, c = .group ⟨op, cs⟩ ∧ s.pinnedByAll cs = [] := by
  have hcond : ((s.units c).1.isEmpty || ((s.units c).1.length = 1 && !(s.units c).2)) = true ↔
      (s.units c).1 = [] ∨ ∃ u, s.only? c = some u := by
    rw [Bool.or_eq_true, List.isEmpty_iff, moves_iff]
  rw [← or_assoc, ← hcond]
  cases c with
  | group g =>
    obtain ⟨op, cs⟩ := g
    simp only [pinnedBy]
    split_ifs with h
    · simp [h]
    · simp [h]
  | column c =>
    simp only [pinnedBy]
    split_ifs with h
    · simp [h]
    · simp only [h, reduceCtorEq, false_and, exists_false, or_false, iff_false]
      exact fun hnil => h (by simp [hnil])
  | raw r =>
    simp only [pinnedBy]
    split_ifs with h
    · simp [h]
    · simp only [h, reduceCtorEq, false_and, exists_false, or_false, iff_false]
      exact fun hnil => h (by simp [hnil])
  | existence q n o =>
    simp only [pinnedBy]
    split_ifs with h
    · simp [h]
    · simp only [h, reduceCtorEq, false_and, exists_false, or_false, iff_false]
      exact fun hnil => h (by simp [hnil])

/-- A leaf that pins no collection and does not move reads no chosen collection. -/
theorem units_eq_nil_of_leaf (h : s.pinnedBy c = []) (hu : s.only? c = none)
    (hc : ∀ g, c ≠ .group g) : (s.units c).1 = [] := by
  rcases pinnedBy_eq_nil_iff.1 h with hnil | ⟨u, hu'⟩ | ⟨op, cs, he, -⟩
  · exact hnil
  · rw [hu] at hu'
    cases hu'
  · exact absurd he (hc _)

theorem pinnedByAll_eq_nil_iff {cs : List Condition} :
    s.pinnedByAll cs = [] ↔ ∀ c ∈ cs, s.pinnedBy c = [] := by
  induction cs with
  | nil => simp [pinnedByAll]
  | cons c cs ih => rw [pinnedByAll, List.append_eq_nil_iff, ih, List.forall_mem_cons]

theorem pinned_eq_nil_iff {top : List Condition} : s.pinned top = [] ↔
    ∀ c ∈ top, c.isPruneable = false → s.pinnedBy c = [] := by
  have hnil : s.pinned top = [] ↔ s.pinnedByAll (top.filter (!·.isPruneable)) = [] := by
    rw [List.eq_nil_iff_forall_not_mem, List.eq_nil_iff_forall_not_mem, pinned]
    simp only [mem_foldl_insertNew, List.not_mem_nil, false_or]
  rw [hnil, pinnedByAll_eq_nil_iff]
  simp only [List.mem_filter, Bool.not_eq_true', and_imp]

end Scope

/-! ### The rounds -/

/-- No chosen collection is below another one, what was asked for can be divided, and what was not
asked for reads one of them at most. -/
structure Divisible (s : Scope) (top : List Condition) : Prop where
  independent : s.Independent
  divided : ∀ c ∈ top, c.isPruneable = false → s.pinnedBy c = []
  single : ∀ c ∈ top, c.isPruneable = true → (s.units c).1.length ≤ 1

section

variable {t : Collections} {eligible excluded warnings warnings' : List String}
  {top : List Condition} {s : Scope} {rounds : Nat}

/-- The topmost collections are apart, since a collection comes before those below it. -/
theorem independent_topmost (hF : t.IsForest)
    (hsorted : t.collections.Pairwise fun c d => d ∉ t.above c) :
    Scope.Independent ⟨t, topmost t eligible excluded⟩ := by
  have step : ∀ cs units : List String, (∀ c ∈ cs, t.isCollection c) →
      cs.Pairwise (fun c d => d ∉ t.above c) → (∀ u ∈ units, ∀ c ∈ cs, c ∉ t.above u) →
      Scope.Independent ⟨t, units⟩ → Scope.Independent ⟨t, cs.foldl (fun units c =>
        if c ∉ eligible || c ∈ excluded || units.any (t.inSubtree c ·) then units
        else units ++ [c]) units⟩ := by
    intro cs
    induction cs with
    | nil => exact fun units _ _ _ h => h
    | cons c cs ih =>
      intro units hcol hp hbefore h
      obtain ⟨hpc, hps⟩ := List.pairwise_cons.1 hp
      have hcol' := fun d hd => hcol d (List.mem_cons_of_mem c hd)
      have hbefore' := fun u hu d hd => hbefore u hu d (List.mem_cons_of_mem c hd)
      rw [List.foldl_cons]
      split_ifs with hskip
      · exact ih units hcol' hps hbefore' h
      · have hfree : ∀ u ∈ units, u ∉ t.above c := fun u hu hm => hskip (by
          rw [Bool.or_eq_true, List.any_eq_true]
          exact .inr ⟨u, hu, Collections.inSubtree_iff.2 hm⟩)
        have hself := hF.mem_above_self (hcol c List.mem_cons_self)
        refine ih (units ++ [c]) hcol' hps (fun u hu d hd => ?_) ⟨fun u hu => ?_, ?_, ?_⟩
        · rcases List.mem_append.1 hu with hu | hu
          · exact hbefore' u hu d hd
          · rw [List.mem_singleton.1 hu]
            exact hpc d hd
        · rcases List.mem_append.1 hu with hu | hu
          · exact h.collection u hu
          · rw [List.mem_singleton.1 hu]
            exact hcol c List.mem_cons_self
        · refine List.nodup_append.2 ⟨h.nodup, List.nodup_singleton c, fun u hu v hv he => ?_⟩
          rw [List.mem_singleton.1 hv] at he
          exact hfree u hu (he ▸ hself)
        · intro u hu v hv hm
          rcases List.mem_append.1 hu with hu | hu <;> rcases List.mem_append.1 hv with hv | hv
          · exact h.apart u hu v hv hm
          · rw [List.mem_singleton.1 hv] at hm
            exact absurd hm (hfree u hu)
          · rw [List.mem_singleton.1 hu] at hm
            exact absurd hm (hbefore v hv c List.mem_cons_self)
          · rw [List.mem_singleton.1 hu, List.mem_singleton.1 hv]
  exact step t.collections [] (fun c hc => hF.mem_collections_iff.1 hc) hsorted (by simp)
    ⟨by simp, List.nodup_nil, by simp⟩

/-- Every eligible collection is below a topmost one. -/
theorem exists_mem_topmost (hF : t.IsForest) {c : String} (hc : c ∈ t.collections)
    (he : c ∈ eligible) (hx : c ∉ excluded) : ∃ u ∈ topmost t eligible excluded, u ∈ t.above c := by
  have step : ∀ cs units : List String, ((∃ u ∈ units, u ∈ t.above c) ∨ c ∈ cs) →
      ∃ u ∈ cs.foldl (fun units c =>
        if c ∉ eligible || c ∈ excluded || units.any (t.inSubtree c ·) then units
        else units ++ [c]) units, u ∈ t.above c := by
    intro cs
    induction cs with
    | nil => exact fun units h => h.resolve_right List.not_mem_nil
    | cons d cs ih =>
      intro units h
      rw [List.foldl_cons]
      refine ih _ ?_
      rcases h with ⟨u, hu, hm⟩ | h
      · left
        split_ifs
        · exact ⟨u, hu, hm⟩
        · exact ⟨u, List.mem_append_left _ hu, hm⟩
      · rcases List.mem_cons.1 h with rfl | h
        · left
          split_ifs with hskip
          · simp only [he, hx, not_true_eq_false, decide_false, Bool.false_or,
              List.any_eq_true, Collections.inSubtree_iff] at hskip
            exact hskip
          · exact ⟨c, List.mem_append_right _ (List.mem_singleton_self c),
              hF.mem_above_self (hF.mem_collections_iff.1 hc)⟩
        · exact .inr h
  exact step t.collections [] (.inr hc)

theorem spanning?_eq_none_of_mem {ownerOf : String → Option String} {cs : List Condition}
    (h : Condition.spanningOf? ownerOf cs = none) : ∀ c ∈ cs, c.spanning? ownerOf = none := by
  induction cs with
  | nil => simp
  | cons c cs ih =>
    rw [Condition.spanningOf?] at h
    split at h
    · cases h
    · next hc => exact List.forall_mem_cons.2 ⟨hc, ih h⟩

/-- A condition that was not asked for is one leaf, which is not split between collections. -/
theorem length_units_le {c : Condition} (hp : c.isPruneable = true)
    (hc : c.spanning? s.unit? = none) : (s.units c).1.length ≤ 1 := by
  cases c with
  | column c =>
    rw [Scope.units, Condition.owners, Condition.aliases, ownersOf, List.filterMap_cons]
    cases s.unit? c.aliasName <;> simp [insertNew]
  | raw r =>
    rw [Condition.spanning?] at hc
    split_ifs at hc with hlt
    rw [Scope.units, Condition.owners, Condition.aliases]
    omega
  | group | existence => cases hp

theorem divisible_nil : Divisible ⟨t, []⟩ top := by
  have hnil : ∀ c : Condition, (Scope.units ⟨t, []⟩ c).1 = [] := fun c =>
    Scope.units_eq_nil_iff.2 fun a _ => rfl
  refine ⟨⟨by simp, List.nodup_nil, by simp⟩, fun c _ _ => ?_, fun c _ _ => ?_⟩
  · exact Scope.pinnedBy_eq_nil_iff.2 (.inl (hnil c))
  · rw [hnil c]
    exact Nat.zero_le 1

/-- Where no collection is read together with other tables, the first choice is the last. -/
theorem settle_of_pinned_eq_nil {result : Scope × List String}
    (hpinned : Scope.pinned ⟨t, topmost t eligible excluded⟩ top = [])
    (h : settle t eligible top rounds excluded warnings = .ok result) :
    result = (⟨t, topmost t eligible excluded⟩, warnings) := by
  unfold settle at h
  simp only [hpinned] at h
  split at h
  · cases h
  · exact (Except.ok.inj h).symm

/-- The choice that the rounds end with. -/
theorem divisible_of_settle (hF : t.IsForest)
    (hsorted : t.collections.Pairwise fun c d => d ∉ t.above c)
    (h : settle t eligible top rounds excluded warnings = .ok (s, warnings')) :
    s.tree = t ∧ Divisible s top := by
  induction rounds generalizing excluded warnings with
  | zero =>
    unfold settle at h
    simp only at h
    split at h
    · cases h
    · next hspan =>
      split at h
      · next hpinned =>
        obtain ⟨rfl, -⟩ := Prod.mk.inj (Except.ok.inj h)
        exact ⟨rfl, independent_topmost hF hsorted, Scope.pinned_eq_nil_iff.1 hpinned,
          fun c hc hp => length_units_le hp (spanning?_eq_none_of_mem hspan c hc)⟩
      · obtain ⟨rfl, -⟩ := Prod.mk.inj (Except.ok.inj h)
        exact ⟨rfl, divisible_nil⟩
      · next he _ => cases he
  | succ rounds ih =>
    unfold settle at h
    simp only at h
    split at h
    · cases h
    · next hspan =>
      split at h
      · next hpinned =>
        obtain ⟨rfl, -⟩ := Prod.mk.inj (Except.ok.inj h)
        exact ⟨rfl, independent_topmost hF hsorted, Scope.pinned_eq_nil_iff.1 hpinned,
          fun c hc hp => length_units_le hp (spanning?_eq_none_of_mem hspan c hc)⟩
      · next he _ => cases he
      · next he _ =>
        obtain rfl := Nat.succ.inj he
        exact ih h

end

end EntityQuery.Lateral
