import EntityQuery.Proofs.Lateral.Scope

/-!
# Conditions with columns in them

Conditions under one connective that read the same collection are put together; each of these groups
is replaced by a reference to a column.  Since there is no negation, what is known of the groups and
the references carries over to the conditions that they are in.

* `Lateral.Lifts`: the groups that are replaced;
* `Lateral.regroup`, `Lateral.eval_regroup`: putting conditions together changes nothing;
* `Lateral.Follows`, `Lateral.follows_decompose`: what holds of all groups and references, and is
  handed on by connectives, holds of the conditions;
* `Lateral.decompose_induction`: what every new column preserves.
-/

namespace EntityQuery.Lateral

/-- A group of conditions that read the collection `unit` alone, side by side under a connective
that other conditions are read through. -/
inductive Lifts (s : Scope) : Connective → List Condition → String → Condition → Prop
  | here {op : Connective} {siblings : List Condition} {unit : String}
      (h : ∃ c ∈ siblings, s.only? c = some unit) :
      Lifts s op siblings unit (asOne op (siblings.filter fun m => s.only? m = some unit))
  | inside {op op' : Connective} {siblings conditions : List Condition} {unit : String}
      {c : Condition} (hm : .group ⟨op', conditions⟩ ∈ siblings)
      (hn : s.only? (.group ⟨op', conditions⟩) = none) (h : Lifts s op' conditions unit c) :
      Lifts s op siblings unit c

/-- The conditions with those that read one collection alone put together, in the place of the first
of them. -/
def regroup (s : Scope) (op : Connective) (siblings : List Condition) (seen : List String) :
    List Condition → List Condition
  | [] => []
  | c :: rest =>
    match s.only? c with
    | some unit =>
      if unit ∈ seen then regroup s op siblings seen rest
      else asOne op (siblings.filter fun m => s.only? m = some unit) ::
        regroup s op siblings (unit :: seen) rest
    | none => c :: regroup s op siblings seen rest

/-- The condition that refers to a column. -/
def reference (aliasOf : String → String) (unit name : String) : Condition :=
  .raw ⟨[aliasOf unit], aliasOf unit ++ "." ++ name, [], false⟩

section

variable {s : Scope} {op : Connective} {siblings rest : List Condition} {seen : List String}
  {db : Database} {e : Assignment}

theorem mem_regroup_iff {x : Condition} : x ∈ regroup s op siblings seen rest ↔
    (x ∈ rest ∧ s.only? x = none) ∨ ∃ unit, unit ∉ seen ∧ (∃ c ∈ rest, s.only? c = some unit) ∧
      x = asOne op (siblings.filter fun m => s.only? m = some unit) := by
  induction rest generalizing seen with
  | nil => simp [regroup]
  | cons c rest ih =>
    rw [regroup]
    cases hc : s.only? c with
    | none =>
      simp only [List.mem_cons, ih]
      constructor
      · rintro (rfl | ⟨hx, hn⟩ | ⟨unit, hs, ⟨c', hc', hu⟩, he⟩)
        · exact .inl ⟨.inl rfl, hc⟩
        · exact .inl ⟨.inr hx, hn⟩
        · exact .inr ⟨unit, hs, ⟨c', .inr hc', hu⟩, he⟩
      · rintro (⟨rfl | hx, hn⟩ | ⟨unit, hs, ⟨c', rfl | hc', hu⟩, he⟩)
        · exact .inl rfl
        · exact .inr (.inl ⟨hx, hn⟩)
        · rw [hc] at hu
          cases hu
        · exact .inr (.inr ⟨unit, hs, ⟨c', hc', hu⟩, he⟩)
    | some u =>
      simp only
      split_ifs with hu
      -- the conditions on this collection have been put together before, or are now
      · rw [ih]
        constructor
        · rintro (⟨hx, hn⟩ | ⟨unit, hs, ⟨c', hc', hu'⟩, he⟩)
          · exact .inl ⟨List.mem_cons_of_mem _ hx, hn⟩
          · exact .inr ⟨unit, hs, ⟨c', List.mem_cons_of_mem _ hc', hu'⟩, he⟩
        · rintro (⟨hx, hn⟩ | ⟨unit, hs, ⟨c', hc', hu'⟩, he⟩)
          · rcases List.mem_cons.1 hx with rfl | hx
            · rw [hc] at hn
              cases hn
            · exact .inl ⟨hx, hn⟩
          · rcases List.mem_cons.1 hc' with rfl | hc'
            · rw [hc, Option.some.injEq] at hu'
              exact absurd (hu' ▸ hu) hs
            · exact .inr ⟨unit, hs, ⟨c', hc', hu'⟩, he⟩
      · rw [List.mem_cons, ih]
        constructor
        · rintro (rfl | ⟨hx, hn⟩ | ⟨unit, hs, ⟨c', hc', hu'⟩, he⟩)
          · exact .inr ⟨u, hu, ⟨c, List.mem_cons_self, hc⟩, rfl⟩
          · exact .inl ⟨List.mem_cons_of_mem _ hx, hn⟩
          · exact .inr ⟨unit, fun h => hs (List.mem_cons_of_mem _ h),
              ⟨c', List.mem_cons_of_mem _ hc', hu'⟩, he⟩
        · rintro (⟨hx, hn⟩ | ⟨unit, hs, ⟨c', hc', hu'⟩, rfl⟩)
          · rcases List.mem_cons.1 hx with rfl | hx
            · rw [hc] at hn
              cases hn
            · exact .inr (.inl ⟨hx, hn⟩)
          · by_cases hne : unit = u
            · exact .inl (by rw [hne])
            · rcases List.mem_cons.1 hc' with rfl | hc'
              · rw [hc, Option.some.injEq] at hu'
                exact absurd hu'.symm hne
              · refine .inr (.inr ⟨unit, fun h => ?_, ⟨c', hc', hu'⟩, rfl⟩)
                exact (List.mem_cons.1 h).elim hne hs

theorem eval_asOne {members : List Condition} :
    (asOne op members).eval db e = (Condition.group ⟨op, members⟩).eval db e := by
  match members with
  | [c] => rw [asOne, Condition.eval_group, List.map_singleton, Connective.combine_singleton]
  | [] => rfl
  | _ :: _ :: _ => rfl

theorem holds_asOne_iff {members : List Condition} :
    (asOne op members).Holds db e ↔ (Condition.group ⟨op, members⟩).Holds db e := by
  rw [Condition.Holds, Condition.Holds, eval_asOne]

theorem mem_aliases_asOne_iff {members : List Condition} {a : String} :
    a ∈ (asOne op members).aliases ↔ ∃ m ∈ members, a ∈ m.aliases := by
  unfold asOne
  split
  · simp
  · exact Condition.mem_aliases_group

theorem plans_asOne_eq_nil_iff {members : List Condition} :
    (asOne op members).plans = [] ↔ ∀ m ∈ members, m.plans = [] := by
  unfold asOne
  split
  · simp
  · rw [Condition.plans_group, Condition.plansOf_eq_nil_iff]

/-- A truth value that a group has exactly when one of its members has it is found before and after
conditions are put together. -/
theorem mem_eval_regroup_iff {v : Option Bool}
    (hv : ∀ unit, (asOne op (siblings.filter fun m => s.only? m = some unit)).eval db e = v ↔
      ∃ c ∈ siblings, s.only? c = some unit ∧ c.eval db e = v) :
    v ∈ (regroup s op siblings [] siblings).map (·.eval db e) ↔ v ∈ siblings.map (·.eval db e) := by
  simp only [List.mem_map, mem_regroup_iff]
  constructor
  · rintro ⟨x, ⟨hx, -⟩ | ⟨unit, -, -, rfl⟩, hx'⟩
    · exact ⟨x, hx, hx'⟩
    · obtain ⟨c, hc, -, hcv⟩ := (hv unit).1 hx'
      exact ⟨c, hc, hcv⟩
  · rintro ⟨c, hc, hcv⟩
    cases hu : s.only? c with
    | none => exact ⟨c, .inl ⟨hc, hu⟩, hcv⟩
    | some unit =>
      exact ⟨_, .inr ⟨unit, by simp, ⟨c, hc, hu⟩, rfl⟩, (hv unit).2 ⟨c, hc, hu, hcv⟩⟩

/-- Putting conditions together that stand under the same connective changes nothing. -/
theorem eval_regroup : (Condition.group ⟨op, regroup s op siblings [] siblings⟩).eval db e =
    (Condition.group ⟨op, siblings⟩).eval db e := by
  have hmem : ∀ unit v, v ∈ (siblings.filter fun m => s.only? m = some unit).map (·.eval db e) ↔
      ∃ c ∈ siblings, s.only? c = some unit ∧ c.eval db e = v := fun unit v => by
    simp only [List.mem_map, List.mem_filter, decide_eq_true_iff, and_assoc]
  have hdecisive : some (decide (op = .or)) ∈
      (regroup s op siblings [] siblings).map (·.eval db e) ↔
        some (decide (op = .or)) ∈ siblings.map (·.eval db e) :=
    mem_eval_regroup_iff fun unit => by
      rw [eval_asOne, Condition.eval_group, Connective.combine_eq_decisive_iff, hmem]
  rw [Condition.eval_group, Condition.eval_group]
  refine Connective.combine_congr hdecisive fun hno => mem_eval_regroup_iff fun unit => ?_
  -- without a decisive value a group is unknown when one of its members is
  rw [eval_asOne, Condition.eval_group, Connective.combine_eq_none_iff, hmem, hmem]
  refine and_iff_right ?_
  rintro ⟨c, hc, -, hcv⟩
  exact hno (hdecisive.2 (List.mem_map.2 ⟨c, hc, hcv⟩))

theorem holds_regroup_iff : (Condition.group ⟨op, regroup s op siblings [] siblings⟩).Holds db e ↔
    (Condition.group ⟨op, siblings⟩).Holds db e := by
  rw [Condition.Holds, Condition.Holds, eval_regroup]

end

/-! ### The columns -/

theorem decomposeOne_leaf {s : Scope} {aliasOf : String → String} {c : Condition}
    {columns : List Column} (hc : ∀ g, c ≠ .group g) :
    decomposeOne s aliasOf c columns = (c, columns) := by
  cases c with
  | group g => exact absurd rfl (hc g)
  | column | raw | existence => simp [decomposeOne]

mutual

/-- What every new column preserves is preserved by all of them. -/
theorem decompose_induction {s : Scope} {aliasOf : String → String} {P : List Column → Prop}
    {op : Connective} {siblings : List Condition}
    (hadd : ∀ unit c columns, Lifts s op siblings unit c → P columns →
      P (addColumn aliasOf unit c columns).2) :
    ∀ (rest : List Condition) {seen : List String} {columns : List Column}, rest ⊆ siblings →
      P columns → P (decompose s aliasOf op siblings seen rest columns).2
  | [], _, _, _, h => by rwa [decompose]
  | c :: rest, seen, columns, hsub, h => by
    obtain ⟨hc, hrest⟩ := List.cons_subset.1 hsub
    rw [decompose]
    split
    · next unit hu =>
      split_ifs
      · exact decompose_induction hadd rest hrest h
      · exact decompose_induction hadd rest hrest (hadd unit _ columns (.here ⟨c, hc, hu⟩) h)
    · next hu =>
      refine decompose_induction hadd rest hrest (decomposeOne_induction c ?_ h)
      rintro op' cs rfl unit x columns hx
      exact hadd unit x columns (.inside hc hu hx)

theorem decomposeOne_induction {s : Scope} {aliasOf : String → String} {P : List Column → Prop} :
    ∀ (c : Condition), (∀ op cs, c = .group ⟨op, cs⟩ → ∀ unit x columns, Lifts s op cs unit x →
      P columns → P (addColumn aliasOf unit x columns).2) →
    ∀ {columns : List Column}, P columns → P (decomposeOne s aliasOf c columns).2
  | .group ⟨op, conditions⟩, hadd, columns, h => by
    rw [decomposeOne]
    split_ifs
    · exact h
    · exact decompose_induction (hadd op conditions rfl) conditions (List.Subset.refl _) h
  | .column _, _, _, h => by rwa [decomposeOne_leaf (by simp)]
  | .raw _, _, _, h => by rwa [decomposeOne_leaf (by simp)]
  | .existence .., _, _, h => by rwa [decomposeOne_leaf (by simp)]

end

/-- Conditions that read one collection alone leave a reference to the column of their group. -/
theorem exists_reference_mem_decompose {s : Scope} (aliasOf : String → String) (op : Connective)
    {siblings : List Condition} {unit : String} : ∀ (columns : List Column) (rest : List Condition)
    {seen : List String}, rest ⊆ siblings → (∃ m ∈ rest, s.only? m = some unit) →
      unit ∉ seen → ∃ name,
      reference aliasOf unit name ∈ (decompose s aliasOf op siblings seen rest columns).1 ∧
      ⟨unit, columnOf unit name (asOne op (siblings.filter fun m => s.only? m = some unit))⟩ ∈
        (decompose s aliasOf op siblings seen rest columns).2
  | _, [], _, _, ⟨_, hm, _⟩, _ => absurd hm List.not_mem_nil
  | columns, c :: rest, seen, hsub, ⟨m, hm, hu⟩, hseen => by
    have hrests := (List.cons_subset.1 hsub).2
    rw [decompose]
    cases hc : s.only? c with
    | none =>
      have hrest : m ∈ rest := (List.mem_cons.1 hm).resolve_left fun he => by
        rw [he, hc] at hu
        cases hu
      obtain ⟨name, href, hcolumn⟩ :=
        exists_reference_mem_decompose aliasOf op _ rest hrests ⟨m, hrest, hu⟩ hseen
      exact ⟨name, List.mem_cons_of_mem _ href, hcolumn⟩
    | some v =>
      by_cases hv : v = unit
      · subst hv
        simp only [if_neg hseen]
        refine ⟨_, List.mem_cons_self, ?_⟩
        exact decompose_induction (P := fun cols => _ ∈ cols)
          (fun _ _ _ _ hm => List.mem_append_left _ hm) rest hrests
          (List.mem_append_right _ (List.mem_singleton_self _))
      · have hrest : m ∈ rest := (List.mem_cons.1 hm).resolve_left fun he => by
          rw [he, hc, Option.some.injEq] at hu
          exact hv hu
        simp only
        split_ifs
        · exact exists_reference_mem_decompose aliasOf op _ rest hrests ⟨m, hrest, hu⟩ hseen
        · obtain ⟨name, href, hcolumn⟩ :=
            exists_reference_mem_decompose aliasOf op _ rest hrests ⟨m, hrest, hu⟩ fun h =>
              (List.mem_cons.1 h).elim (fun h => hv h.symm) hseen
          exact ⟨name, List.mem_cons_of_mem _ href, hcolumn⟩

/-! ### What carries over -/

/-- What connectives hand on, holds between conditions that read no chosen collection and themselves,
and holds between the groups that are replaced and the references to their columns.  The conditions
have a property `Q`, the groups that are replaced have `P`. -/
structure Follows (s : Scope) (aliasOf : String → String) (columns : List Column)
    (Q : Condition → Prop) (P : String → Condition → Prop) (rel : Condition → Condition → Prop) :
    Prop where
  member : ∀ {op cs}, Q (.group ⟨op, cs⟩) → ∀ c ∈ cs, Q c
  group : ∀ {op cs cs'}, List.Forall₂ rel cs cs' → rel (.group ⟨op, cs⟩) (.group ⟨op, cs'⟩)
  regroup : ∀ {op cs c}, rel (.group ⟨op, regroup s op cs [] cs⟩) c → rel (.group ⟨op, cs⟩) c
  keep : ∀ {c}, Q c → (s.units c).1 = [] → rel c c
  column : ∀ {unit name c}, P unit c → ⟨unit, columnOf unit name c⟩ ∈ columns →
    rel c (reference aliasOf unit name)

section

variable {s : Scope} {aliasOf : String → String} {columns' : List Column} {Q : Condition → Prop}
  {P : String → Condition → Prop} {rel : Condition → Condition → Prop}

mutual

theorem follows_decompose (h : Follows s aliasOf columns' Q P rel) {op : Connective}
    {siblings : List Condition} (hP : ∀ unit c, Lifts s op siblings unit c → P unit c) :
    ∀ (rest : List Condition) {seen : List String} {columns : List Column}, rest ⊆ siblings →
      (∀ c ∈ rest, Q c) → s.pinnedByAll rest = [] →
      (decompose s aliasOf op siblings seen rest columns).2 ⊆ columns' →
      List.Forall₂ rel (regroup s op siblings seen rest)
        (decompose s aliasOf op siblings seen rest columns).1
  | [], _, _, _, _, _, _ => by
    rw [regroup, decompose]
    exact .nil
  | c :: rest, seen, columns, hsub, hQ, hpin, hcols => by
    obtain ⟨hc, hrest⟩ := List.cons_subset.1 hsub
    obtain ⟨hQc, hQ⟩ := List.forall_mem_cons.1 hQ
    rw [Scope.pinnedByAll, List.append_eq_nil_iff] at hpin
    rw [decompose] at hcols ⊢
    rw [regroup]
    cases hu : s.only? c with
    | some unit =>
      simp only [hu] at hcols ⊢
      split_ifs at hcols ⊢ with hseen
      · exact follows_decompose h hP rest hrest hQ hpin.2 hcols
      · refine .cons (h.column (hP unit _ (.here ⟨c, hc, hu⟩)) (hcols ?_))
          (follows_decompose h hP rest hrest hQ hpin.2 hcols)
        refine decompose_induction (P := fun cols => _ ∈ cols) (fun _ _ _ _ hm => ?_) rest hrest ?_
        · exact List.mem_append_left _ hm
        · exact List.mem_append_right _ (List.mem_singleton_self _)
    | none =>
      simp only [hu] at hcols ⊢
      refine .cons (follows_decomposeOne h c (fun op' cs he unit x hx => hP unit x ?_) hQc hu
        hpin.1 fun K hK => hcols ?_) (follows_decompose h hP rest hrest hQ hpin.2 hcols)
      · subst he
        exact .inside hc hu hx
      · exact decompose_induction (P := fun cols => K ∈ cols)
          (fun _ _ _ _ hm => List.mem_append_left _ hm) rest hrest hK

/-- What holds of the groups and the references to their columns, and is handed on by connectives,
holds of the conditions. -/
theorem follows_decomposeOne (h : Follows s aliasOf columns' Q P rel) :
    ∀ (c : Condition) {columns : List Column},
      (∀ op cs, c = .group ⟨op, cs⟩ → ∀ unit x, Lifts s op cs unit x → P unit x) →
      Q c → s.only? c = none → s.pinnedBy c = [] →
      (decomposeOne s aliasOf c columns).2 ⊆ columns' → rel c (decomposeOne s aliasOf c columns).1
  | .group ⟨op, conditions⟩, columns, hP, hQ, hu, hpin, hcols => by
    rw [decomposeOne] at hcols ⊢
    split_ifs at hcols ⊢ with hunits
    · exact h.keep hQ (List.isEmpty_iff.1 hunits)
    · refine h.regroup (h.group (follows_decompose h (hP op conditions rfl) conditions
        (List.Subset.refl _) (h.member hQ) ?_ hcols))
      rcases Scope.pinnedBy_eq_nil_iff.1 hpin with hnil | ⟨u, hu'⟩ | ⟨op', cs, he, hcs⟩
      · exact absurd (List.isEmpty_iff.2 hnil) hunits
      · rw [hu] at hu'
        cases hu'
      · obtain ⟨-, rfl⟩ := Group.mk.inj (Condition.group.inj he)
        exact hcs
  | .column c, columns, _, hQ, hu, hpin, _ => by
    rw [decomposeOne_leaf (by simp)]
    exact h.keep hQ (Scope.units_eq_nil_of_leaf hpin hu (by simp))
  | .raw r, columns, _, hQ, hu, hpin, _ => by
    rw [decomposeOne_leaf (by simp)]
    exact h.keep hQ (Scope.units_eq_nil_of_leaf hpin hu (by simp))
  | .existence .., columns, _, hQ, hu, hpin, _ => by
    rw [decomposeOne_leaf (by simp)]
    exact h.keep hQ (Scope.units_eq_nil_of_leaf hpin hu (by simp))

end

/-- What holds of the groups and the references to their columns holds of all conditions under a
connective. -/
theorem follows_group (h : Follows s aliasOf columns' Q P rel) {op : Connective}
    {conditions : List Condition} (hP : ∀ unit c, Lifts s op conditions unit c → P unit c)
    (hQ : ∀ c ∈ conditions, Q c) (hpin : s.pinnedByAll conditions = [])
    (hcols : (decompose s aliasOf op conditions [] conditions []).2 ⊆ columns') :
    rel (.group ⟨op, conditions⟩)
      (.group ⟨op, (decompose s aliasOf op conditions [] conditions []).1⟩) :=
  h.regroup (h.group (follows_decompose h hP conditions (List.Subset.refl _) hQ hpin hcols))

end

end EntityQuery.Lateral
