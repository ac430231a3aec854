import EntityQuery.Proofs.Ambiguity.Checked
import EntityQuery.Proofs.Pruning.Result

/-!
# Conditions that go with their tables

Pruning drops what was not asked for together with the table that it reads.  Where it is known which
tables these are, the conditions can be dropped beforehand: the pruned plan is the same, and the plan
without them selects what the pruned plan selects.

* `Plan.Settled`: what was not asked for reads tables of the plan, and which of these go is known;
* `Plan.prune_withoutRemoved`: the conditions on the tables that go make no difference to pruning;
* `Plan.selectsSame_of_settled`: nothing else goes that makes a difference.
-/

namespace EntityQuery

/-! ### What is read without having been asked -/

/-- What stands in the place of a leaf reads, without having been asked, tables that the leaf read so,
and none of `gone`. -/
structure Condition.Sheds (gone : List String) (f : Condition → List Condition) : Prop where
  column : ∀ c, ∀ a ∈ Condition.impliedOf (f (.column c)), a ∈ (Condition.column c).implied ∧ a ∉ gone
  raw : ∀ r, ∀ a ∈ Condition.impliedOf (f (.raw r)), a ∈ (Condition.raw r).implied ∧ a ∉ gone

theorem Condition.mem_plansOf_iff {cs : List Condition} {q : Plan} :
    q ∈ Condition.plansOf cs ↔ ∃ c ∈ cs, q ∈ c.plans := by
  induction cs with
  | nil => simp [plansOf]
  | cons c cs ih => simp [plansOf, ih]

/-- The conditions at the top and the columns read what was not asked for. -/
theorem Plan.mem_implied_iff {p : Plan} {a : String} : a ∈ p.implied ↔
    (∃ c ∈ p.topConditions, a ∈ c.implied) ∨ ∃ x ∈ p.selects, a ∈ x.implied := by
  rw [implied, List.mem_append, List.mem_flatMap]
  refine or_congr_left ?_
  obtain ⟨selects, tables, condition, sortKeys, groupBys, ctes⟩ := p
  match condition with
  | none => simp [topConditions]
  | some ⟨.and, cs⟩ => exact Condition.mem_impliedOf_iff
  | some ⟨.or, cs⟩ =>
    exact ⟨fun ha => ⟨_, List.mem_singleton_self _, ha⟩, fun ⟨_, hc, ha⟩ => by
      rwa [List.mem_singleton.1 hc] at ha⟩

/-- The plans inside a plan are those of its tables, of the conditions at the top and of columns. -/
theorem Plan.mem_nestedPlans_iff {p q : Plan} : q ∈ p.nestedPlans ↔
    (∃ t ∈ p.tables, q ∈ t.plans) ∨ (∃ c ∈ p.topConditions, q ∈ c.plans) ∨
      ∃ x ∈ p.selects, q ∈ x.plans := by
  rw [nestedPlans, List.mem_append, List.mem_append, List.mem_flatMap, List.mem_flatMap, or_assoc]
  refine or_congr_right (or_congr_left ?_)
  obtain ⟨selects, tables, condition, sortKeys, groupBys, ctes⟩ := p
  rcases condition with _ | ⟨_ | _, cs⟩
  · simp [topConditions]
  · exact Condition.mem_plansOf_iff
  · constructor
    · exact fun hq => ⟨_, List.mem_singleton_self _, hq⟩
    · rintro ⟨c, hc, hq⟩
      rwa [List.mem_singleton.1 hc] at hq

section

variable {gone : List String} {f : Condition → List Condition} {a : String}

mutual

theorem Group.implied_mapLeaves (hf : Condition.Sheds gone f) : ∀ {g : Group},
    a ∈ (g.mapLeaves f).implied → a ∈ g.implied ∧ a ∉ gone
  | ⟨_, _⟩, ha => Condition.impliedOf_mapLeavesAll hf ha

theorem Condition.impliedOf_mapLeavesAll (hf : Condition.Sheds gone f) : ∀ {cs : List Condition},
    a ∈ Condition.impliedOf (Condition.mapLeavesAll f cs) →
      a ∈ Condition.impliedOf cs ∧ a ∉ gone
  | [], ha => absurd ha List.not_mem_nil
  | c :: cs, ha => by
    rw [Condition.mapLeavesAll, Condition.impliedOf_append, List.mem_append] at ha
    rw [Condition.impliedOf, List.mem_append]
    rcases ha with ha | ha
    · exact (Condition.impliedOf_mapLeaves hf ha).imp_left .inl
    · exact (Condition.impliedOf_mapLeavesAll hf ha).imp_left .inr

theorem Condition.impliedOf_mapLeaves (hf : Condition.Sheds gone f) : ∀ {c : Condition},
    a ∈ Condition.impliedOf (c.mapLeaves f) → a ∈ c.implied ∧ a ∉ gone
  | .column c, ha => hf.column c a ha
  | .raw r, ha => hf.raw r a ha
  | .group _, ha => Group.implied_mapLeaves hf (by
      rwa [Condition.mapLeaves, Condition.impliedOf, Condition.impliedOf, List.append_nil] at ha)
  | .existence _ _ _, ha => by
    rw [Condition.mapLeaves] at ha
    exact absurd ha List.not_mem_nil

end

theorem Plan.implied_mapLeaves {p : Plan} (hf : Condition.Sheds gone f)
    (ha : a ∈ (p.mapLeaves f).implied) : a ∈ p.implied ∧ a ∉ gone := by
  obtain ⟨selects, tables, condition, sortKeys, groupBys, ctes⟩ := p
  rcases List.mem_append.1 ha with ha | ha
  · cases condition with
    | none => exact absurd ha List.not_mem_nil
    | some g => exact (Group.implied_mapLeaves hf ha).imp_left (List.mem_append_left _)
  · have hselects : ∀ xs : List Select, a ∈ (Select.mapLeavesAll f xs).flatMap Select.implied →
        a ∈ xs.flatMap Select.implied ∧ a ∉ gone := by
      intro xs
      induction xs with
      | nil => exact fun ha => absurd ha List.not_mem_nil
      | cons x xs ih =>
        cases x with
        | boolOr g name =>
          intro ha
          rcases List.mem_append.1 ha with ha | ha
          · exact (Group.implied_mapLeaves hf ha).imp_left (List.mem_append_left _)
          · exact (ih ha).imp_left (List.mem_append_right _)
        | _ => exact ih
    exact (hselects selects ha).imp_left (List.mem_append_right _)

theorem Condition.sheds_withoutRemoved : Condition.Sheds gone (Condition.withoutRemoved gone) := by
  constructor
  · intro c a ha
    rw [Condition.withoutRemoved] at ha
    split_ifs at ha with hgone
    · cases ha
    · rw [Condition.impliedOf, Condition.impliedOf, List.append_nil] at ha
      refine ⟨ha, fun hm => hgone ?_⟩
      rw [Condition.implied] at ha
      split_ifs at ha with hp
      · rw [hp, Bool.true_and, decide_eq_true_iff, ← List.mem_singleton.1 ha]
        exact hm
      · cases ha
  · intro r a ha
    rw [Condition.withoutRemoved] at ha
    split_ifs at ha with hgone
    · cases ha
    · rw [Condition.impliedOf, Condition.impliedOf, List.append_nil] at ha
      refine ⟨ha, fun hm => hgone ?_⟩
      rw [Condition.implied] at ha
      split_ifs at ha with hp
      · rw [hp, Bool.true_and, List.any_eq_true]
        exact ⟨a, ha, decide_eq_true hm⟩
      · cases ha

/-- Tests for rows are added to what was asked for. -/
theorem Condition.sheds_withNullCheck {outer : List String} {idDbType : String → String} :
    Condition.Sheds [] (Condition.withNullCheck outer idDbType) := by
  refine ⟨fun c a ha => ⟨?_, List.not_mem_nil⟩, fun r a ha => ⟨?_, List.not_mem_nil⟩⟩
  · rw [Condition.withNullCheck] at ha
    split_ifs at ha with hambiguous
    · have hasked := (ColumnCondition.isAmbiguous_iff.1 hambiguous).1
      rw [Condition.impliedOf, Condition.impliedOf, List.append_nil] at ha
      change a ∈ Condition.impliedOf [_, _] at ha
      simp [Condition.impliedOf, Condition.implied, hasked, ColumnCondition.asked] at ha
    · rwa [Condition.impliedOf, Condition.impliedOf, List.append_nil] at ha
  · change a ∈ Condition.impliedOf [_] at ha
    rwa [Condition.impliedOf, Condition.impliedOf, List.append_nil] at ha

end

/-! ### Pruning -/

section

variable {gone removed removed' : List String} {g : Plan → Plan}

/-- The removals have the same effect on what was not asked for. -/
def SameEffect (removed removed' implied : List String) : Prop :=
  ∀ a ∈ implied, a ∈ removed ↔ a ∈ removed'

mutual

/-- Removals with the same effect on the conditions and on the subqueries. -/
theorem Group.mapPlans_withoutRemoved : ∀ {group : Group},
    SameEffect removed removed' group.implied →
    (∀ q ∈ group.plans, g (q.mapLeaves (Condition.withoutRemoved removed)) =
      g (q.mapLeaves (Condition.withoutRemoved removed'))) →
    (group.mapLeaves (Condition.withoutRemoved removed)).mapPlans g =
      (group.mapLeaves (Condition.withoutRemoved removed')).mapPlans g
  | ⟨op, _⟩, h, hq => congrArg (Group.mk op) (Condition.mapPlansOf_withoutRemoved h hq)

theorem Condition.mapPlansOf_withoutRemoved : ∀ {cs : List Condition},
    SameEffect removed removed' (Condition.impliedOf cs) →
    (∀ q ∈ Condition.plansOf cs, g (q.mapLeaves (Condition.withoutRemoved removed)) =
      g (q.mapLeaves (Condition.withoutRemoved removed'))) →
    Condition.mapPlansOf g (Condition.mapLeavesAll (Condition.withoutRemoved removed) cs) =
      Condition.mapPlansOf g (Condition.mapLeavesAll (Condition.withoutRemoved removed') cs)
  | [], _, _ => rfl
  | c :: cs, h, hq => by
    have hrest : Condition.mapPlansOf g (Condition.mapLeavesAll _ cs) =
        Condition.mapPlansOf g (Condition.mapLeavesAll _ cs) :=
      Condition.mapPlansOf_withoutRemoved (fun a ha => h a (List.mem_append_right _ ha))
        fun q hm => hq q (List.mem_append_right _ hm)
    rw [Condition.mapPlansOf_eq_map, Condition.mapPlansOf_eq_map] at hrest
    rw [Condition.mapLeavesAll, Condition.mapLeavesAll, Condition.mapPlansOf_eq_map,
      Condition.mapPlansOf_eq_map, List.map_append, List.map_append, hrest,
      Condition.map_mapPlans_withoutRemoved (c := c) (fun a ha => h a (List.mem_append_left _ ha))
        fun q hm => hq q (List.mem_append_left _ hm)]

theorem Condition.map_mapPlans_withoutRemoved : ∀ {c : Condition},
    SameEffect removed removed' c.implied →
    (∀ q ∈ c.plans, g (q.mapLeaves (Condition.withoutRemoved removed)) =
      g (q.mapLeaves (Condition.withoutRemoved removed'))) →
    (c.mapLeaves (Condition.withoutRemoved removed)).map (Condition.mapPlans g) =
      (c.mapLeaves (Condition.withoutRemoved removed')).map (Condition.mapPlans g)
  | .group _, h, hq => by
    rw [Condition.mapLeaves, Condition.mapLeaves, List.map_singleton, List.map_singleton,
      Condition.mapPlans, Condition.mapPlans, Group.mapPlans_withoutRemoved h hq]
  | .column c, h, _ => by
    rw [Condition.mapLeaves, Condition.mapLeaves, Condition.withoutRemoved, Condition.withoutRemoved]
    cases hp : c.pruneable with
    | false => rfl
    | true => simp only [Bool.true_and, h c.aliasName (by simp [Condition.implied, hp])]
  | .raw r, h, _ => by
    have hany : r.pruneable = true → r.aliases.any (· ∈ removed) = r.aliases.any (· ∈ removed') :=
      fun hp => by
        rw [Bool.eq_iff_iff, List.any_eq_true, List.any_eq_true]
        refine exists_congr fun a => and_congr_right fun ha => ?_
        rw [decide_eq_true_iff, decide_eq_true_iff, h a (by simpa [Condition.implied, hp] using ha)]
    rw [Condition.mapLeaves, Condition.mapLeaves, Condition.withoutRemoved, Condition.withoutRemoved]
    cases hp : r.pruneable with
    | false => rfl
    | true => simp only [Bool.true_and, hany hp]
  | .existence query _ _, _, hq => by
    rw [Condition.mapLeaves, Condition.mapLeaves, List.map_singleton, List.map_singleton,
      Condition.mapPlans, Condition.mapPlans, hq query (List.mem_singleton_self _)]

end

theorem Group.mapLeavesTop_mapPlans_withoutRemoved {condition : Option Group}
    (h : SameEffect removed removed' ((condition.map Group.implied).getD []))
    (hq : ∀ q ∈ (condition.map Group.plans).getD [],
      g (q.mapLeaves (Condition.withoutRemoved removed)) =
        g (q.mapLeaves (Condition.withoutRemoved removed'))) :
    (Group.mapLeavesTop (Condition.withoutRemoved removed) condition).map (Group.mapPlans g) =
      (Group.mapLeavesTop (Condition.withoutRemoved removed') condition).map (Group.mapPlans g) := by
  cases condition with
  | none => rfl
  | some group => exact congrArg some (Group.mapPlans_withoutRemoved h hq)

theorem Select.mapLeavesAll_withoutRemoved_congr : ∀ {xs : List Select},
    (∀ x ∈ xs, x.plans = []) → SameEffect removed removed' (xs.flatMap Select.implied) →
    Select.mapLeavesAll (Condition.withoutRemoved removed) xs =
      Select.mapLeavesAll (Condition.withoutRemoved removed') xs
  | [], _, _ => rfl
  | x :: xs, hflat, h => by
    obtain ⟨hx, hxs⟩ := List.forall_mem_cons.1 hflat
    have hrest := Select.mapLeavesAll_withoutRemoved_congr hxs fun a ha =>
      h a (List.mem_append_right _ ha)
    cases x with
    | boolOr group name =>
      have hgroup := Group.mapPlans_withoutRemoved (g := id)
        (fun a ha => h a (List.mem_append_left _ ha))
        fun q hq => absurd (show q ∈ (Select.boolOr group name).plans from hq) (by rw [hx]; simp)
      rw [Group.mapPlans_id, Group.mapPlans_id] at hgroup
      rw [Select.mapLeavesAll, Select.mapLeavesAll, hgroup, hrest]
    | _ => exact congrArg _ hrest

end

namespace Plan

/-- What was not asked for reads tables of the plan, and `gone` tells those that do not stay. -/
structure Settled (gone : List String) (p : Plan) : Prop where
  flat : ∀ s ∈ p.selects, s.plans = []
  own : ∀ a ∈ p.implied, a ∈ p.tables.map Table.aliasName
  gone : ∀ a ∈ p.implied, a ∈ gone ↔ ¬ p.Stays [] a

section

variable {p q : Plan} {gone removed : List String} {a : String}

/-- What was not asked for reads no tables of other plans. -/
theorem spared_of_own (h : p.Everywhere fun q => ∀ a ∈ q.implied, a ∈ q.tables.map Table.aliasName)
    (hnames : ∀ a ∈ p.allAliases, a ∉ removed) : p.Spared removed := by
  induction h with
  | @intro p here _ ih =>
    refine .intro (fun a ha => hnames a ?_) fun q hq => ih q hq fun a ha =>
      hnames a ((sublist_allAliases_of_nested hq).subset ha)
    rw [allAliases_eq_nested]
    exact List.mem_append_left _ (here a ha)

theorem isRemoved_mapLeaves_iff {f : Condition → List Condition} (hf : Condition.SameReferences f) :
    (p.mapLeaves f).IsRemoved [] removed ↔ p.IsRemoved [] removed := by
  refine forall_congr' fun a => iff_congr Iff.rfl (and_congr ?_
    (not_congr (stays_mapLeaves_iff hf)))
  have hprimary : ∀ t : Table, (t.mapPlan (mapLeaves f)).isPrimary = t.isPrimary := fun t => by
    cases t <;> rfl
  simp only [tables_mapLeaves, List.mem_map, exists_exists_and_eq_and, Table.aliasName_mapPlan,
    hprimary]

theorem condition_mapLeaves {f : Condition → List Condition} :
    (p.mapLeaves f).condition = Group.mapLeavesTop f p.condition := by
  cases p
  rfl

/-- Other leaves that refer to the same tables and read no more without having been asked. -/
theorem Settled.mapLeaves {f : Condition → List Condition} (hf : Condition.SameReferences f)
    (hflat : Condition.Flat f) (hsheds : Condition.Sheds [] f) (h : p.Settled gone) :
    (p.mapLeaves f).Settled gone where
  flat s hs := by
    have hnone : (p.mapLeaves f).selects.flatMap Select.plans = [] := by
      rw [selects_mapLeaves, Select.plans_mapLeavesAll hflat, List.map_eq_nil_iff,
        List.flatMap_eq_nil_iff]
      exact h.flat
    exact List.flatMap_eq_nil_iff.1 hnone s hs
  own a ha := by
    rw [names_mapLeaves]
    exact h.own a (implied_mapLeaves hsheds ha).1
  gone a ha := by
    rw [stays_mapLeaves_iff hf]
    exact h.gone a (implied_mapLeaves hsheds ha).1

/-- What reads a table without having been asked for goes with it exactly if `gone` tells the table. -/
theorem Settled.mem_gone_iff (h : p.Settled gone) (hremoved : p.IsRemoved [] removed)
    (ha : a ∈ p.implied) : a ∈ gone ↔ a ∈ removed := by
  rw [h.gone a ha, hremoved a]
  obtain ⟨t, ht, rfl⟩ := List.mem_map.1 (h.own a ha)
  refine ⟨fun hs => ⟨?_, hs⟩, And.right⟩
  by_contra hprimary
  refine hs (.inr fun t' ht' hname => ?_)
  rw [← Bool.not_eq_false]
  exact fun hnot => hprimary ⟨t', ht', hnot, hname⟩

section

variable (heffect : SameEffect (gone ++ removed) removed p.implied)
  (hnested : ∀ q ∈ p.nestedPlans, q.depth < p.depth →
    (q.mapLeaves (Condition.withoutRemoved (gone ++ removed))).prune [] =
      (q.mapLeaves (Condition.withoutRemoved removed)).prune [])

include hnested

/-- One round of pruning leaves the same tables, with the same subqueries in them. -/
theorem tables_without_withoutRemoved :
    (((p.mapLeaves (Condition.withoutRemoved gone)).without removed).mapPlans (prune [])).tables =
      ((p.without removed).mapPlans (prune [])).tables := by
  show List.map _ (List.map _ (List.filter _ (p.mapLeaves _).tables)) =
    List.map _ (List.map _ (List.filter _ p.tables))
  rw [tables_mapLeaves, filter_map_mapPlan, List.map_map, List.map_map, List.map_map]
  refine List.map_congr_left fun t ht => ?_
  cases t with
  | lateral x b query =>
    have ht := (List.mem_filter.1 ht).1
    refine congrArg (Table.lateral x b) ?_
    show ((query.mapLeaves _).mapLeaves _).prune [] = _
    rw [mapLeaves_mapLeaves Condition.composes_withoutRemoved]
    exact hnested query (mem_nestedPlans_of_table ht (List.mem_singleton_self _))
      (depth_lt_of_lateral ht)
  | _ => rfl

include heffect

/-- One round of pruning leaves the same conditions. -/
theorem condition_without_withoutRemoved :
    (((p.mapLeaves (Condition.withoutRemoved gone)).without removed).mapPlans (prune [])).condition =
      ((p.without removed).mapPlans (prune [])).condition := by
  have hown : SameEffect (gone ++ removed) removed ((p.condition.map Group.implied).getD []) :=
    fun a ha => heffect a (List.mem_append_left _ ha)
  have hsub : ∀ q ∈ (p.condition.map Group.plans).getD [],
      (q.mapLeaves (Condition.withoutRemoved (gone ++ removed))).prune [] =
        (q.mapLeaves (Condition.withoutRemoved removed)).prune [] := fun q hq =>
    hnested q (mem_nestedPlans_of_condition hq) (depth_lt_of_subquery hq)
  show (if removed = [] then (p.mapLeaves _).condition else _).map _ =
    (if removed = [] then p.condition else _).map _
  rw [condition_mapLeaves]
  split_ifs with hnil
  · rw [hnil, List.append_nil] at hown hsub
    conv_rhs => rw [← Group.mapLeavesTop_id p.condition, ← Condition.withoutRemoved_nil]
    exact Group.mapLeavesTop_mapPlans_withoutRemoved hown hsub
  · rw [nonempty?_map_mapPlans, nonempty?_map_mapPlans,
      Group.mapLeavesTop_mapLeavesTop Condition.composes_withoutRemoved,
      Group.mapLeavesTop_mapPlans_withoutRemoved hown hsub]

end

/-- What goes with the tables can go before them.  By induction on the depth: the tables that go from
a plan are no tables of the plans inside it. -/
theorem prune_withoutRemoved (h : p.Orderly) (hsettled : p.Everywhere (Settled gone)) :
    (p.mapLeaves (Condition.withoutRemoved gone)).prune [] = p.prune [] := by
  induction hd : p.depth using Nat.strongRecOn generalizing p with
  | ind d ih =>
    obtain ⟨removed, htrim, hremoved⟩ := exists_trim_eq [] p
    obtain ⟨removed', htrim', hremoved'⟩ :=
      exists_trim_eq [] (p.mapLeaves (Condition.withoutRemoved gone))
    rw [isRemoved_mapLeaves_iff Condition.sameReferences_withoutRemoved] at hremoved'
    have heffect : SameEffect (gone ++ removed) removed p.implied := fun a ha => by
      rw [List.mem_append, hsettled.here.mem_gone_iff hremoved ha, or_self]
    have hnested : ∀ q ∈ p.nestedPlans, q.depth < p.depth →
        (q.mapLeaves (Condition.withoutRemoved (gone ++ removed))).prune [] =
          (q.mapLeaves (Condition.withoutRemoved removed)).prune [] := fun q hq hdepth => by
      have hspared : q.Spared removed :=
        spared_of_own ((hsettled.nested q hq).imp fun _ hs => hs.own) fun a ha hm => by
          obtain ⟨⟨t, ht, -, rfl⟩, -⟩ := (hremoved a).1 hm
          exact not_mem_names_of_nested h.nodup hq ha (List.mem_map_of_mem ht)
      have hswap : Condition.withoutRemoved (gone ++ removed) =
          Condition.withoutRemoved (removed ++ gone) :=
        Condition.withoutRemoved_congr fun a => by rw [List.mem_append, List.mem_append, or_comm]
      rw [hswap, ← mapLeaves_mapLeaves Condition.composes_withoutRemoved,
        mapLeaves_withoutRemoved hspared]
      exact ih q.depth (hd ▸ hdepth) (h.nested hq) (hsettled.nested q hq) rfl
    have hselects : Select.mapLeavesAll (Condition.withoutRemoved removed)
        (p.mapLeaves (Condition.withoutRemoved gone)).selects =
          Select.mapLeavesAll (Condition.withoutRemoved removed) p.selects := by
      rw [selects_mapLeaves, Select.mapLeavesAll_mapLeavesAll Condition.composes_withoutRemoved]
      exact Select.mapLeavesAll_withoutRemoved_congr hsettled.here.flat
        fun a ha => heffect a (List.mem_append_right _ ha)
    have htables := tables_without_withoutRemoved hnested
    have hcondition := condition_without_withoutRemoved heffect hnested
    rw [prune_eq, htrim', without_congr fun a => (hremoved' a).trans (hremoved a).symm, prune_eq,
      htrim]
    obtain ⟨selects, tables, condition, sortKeys, groupBys, ctes⟩ := p
    exact Plan.mk.injEq .. ▸ ⟨hselects, htables, hcondition, rfl, rfl, rfl⟩

/-! ### Results -/

/-- What was not asked for reads tables of the plan that stay. -/
def Supports (p : Plan) : Prop := ∀ a ∈ p.implied, a ∈ p.tables.map Table.aliasName ∧ p.Stays [] a

theorem Settled.supports (h : p.Settled gone) :
    (p.mapLeaves (Condition.withoutRemoved gone)).Supports := fun a ha => by
  obtain ⟨ha, hleft⟩ := implied_mapLeaves Condition.sheds_withoutRemoved ha
  rw [names_mapLeaves, stays_mapLeaves_iff Condition.sameReferences_withoutRemoved]
  exact ⟨h.own a ha, not_not.1 fun hs => hleft ((h.gone a ha).2 hs)⟩

/-- Where what was not asked for reads tables that stay, none of it goes. -/
theorem Drops.not_mem_implied (h : p.Orderly) (hsupports : p.Everywhere Supports)
    (hdrops : p.Drops [] a) : p.Everywhere fun q => a ∉ q.implied := by
  induction hsupports with
  | @intro p here nested ih =>
    have hapart : ∀ q ∈ p.nestedPlans, a ∉ q.allAliases → q.Everywhere fun q => a ∉ q.implied :=
      fun q hq hnot => by
        have hspared : q.Spared [a] := spared_of_own
          ((nested q hq).imp fun _ hs b hb => (hs b hb).1)
          fun b hb hm => hnot (List.mem_singleton.1 hm ▸ hb)
        exact hspared.imp fun _ hs ha => hs a ha (List.mem_singleton_self a)
    have hother : ∀ q ∈ p.nestedPlans, ∀ query ∈ p.nestedPlans, query.Drops [] a →
        q.Everywhere fun q => a ∉ q.implied := fun q hq query hquery hdrops => by
      by_cases heq : query = q
      · exact ih q hq (h.nested hq) (heq ▸ hdrops)
      · exact hapart q hq (not_mem_allAliases_of_nested h.nodup hquery hq heq hdrops.mem_allAliases)
    refine .intro (fun ha => ?_) fun q hq => ?_
    · obtain ⟨hown, hstays⟩ := here a ha
      refine hdrops.not_mem_names h ?_
      obtain ⟨removed, htrim, hremoved⟩ := exists_trim_eq [] p
      obtain ⟨t, ht, rfl⟩ := List.mem_map.1 hown
      exact (mem_names_prune_iff htrim ht).2 fun hgone => ((hremoved _).1 hgone).2 hstays
    · cases hdrops with
      | table ht _ =>
        exact hapart q hq fun hm => not_mem_names_of_nested h.nodup hq hm (List.mem_map_of_mem ht)
      | lateral ht _ hdrops =>
        exact hother q hq _ (mem_nestedPlans_of_table ht (List.mem_singleton_self _)) hdrops
      | subquery hquery hdrops => exact hother q hq _ (mem_nestedPlans_of_condition hquery) hdrops

theorem Lossless.mapLeaves {f : Condition → List Condition} (hf : Condition.SameReferences f)
    (h : p.Lossless []) : (p.mapLeaves f).Lossless [] := by
  rw [Lossless, tables_mapLeaves]
  refine List.forall_mem_map.2 fun t ht hgone => ?_
  rw [Table.aliasName_mapPlan, stays_mapLeaves_iff hf] at hgone
  have hkeeps := h t ht hgone
  cases t <;> exact hkeeps

/-- Pruning selects what the plan without the conditions on the tables that go selects. -/
theorem selectsSame_of_settled {db : Database} (h : p.Orderly) (hlossless : p.Everywhere (Lossless []))
    (hroot : (p.mapLeaves (Condition.withoutRemoved gone)).Everywhere fun q =>
      q.condition ≠ some ⟨.or, []⟩)
    (hsettled : p.Everywhere (Settled gone)) :
    SelectsSame db [] (p.mapLeaves (Condition.withoutRemoved gone)) (p.prune []) := by
  have hafter : (p.mapLeaves (Condition.withoutRemoved gone)).Everywhere (Lossless []) :=
    hlossless.mapLeaves Condition.flat_withoutRemoved fun _ =>
      Lossless.mapLeaves Condition.sameReferences_withoutRemoved
  rw [← prune_withoutRemoved h hsettled]
  exact selectsSame_of_lossless h.withoutRemoved hafter.here hafter.nested
    (not_forgets_of_everywhere hroot) fun a => Drops.not_mem_implied h.withoutRemoved
      (hsettled.mapLeaves Condition.flat_withoutRemoved fun _ => Settled.supports)

end

end Plan

end EntityQuery
