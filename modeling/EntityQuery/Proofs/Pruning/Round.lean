import EntityQuery.Proofs.Pruning.Retained

/-!
# Rounds of pruning as one removal

Each round of pruning removes tables and the conditions that go with them, and the next round looks
at what is left.  What goes in any round can go at once, and so can what goes inside the subqueries,
since these are pruned one by one.

* `Plan.without`: the plan without some tables and what goes with them;
* `Plan.mapLeaves_mapLeaves`, `Plan.without_remove`: one removal behind another one;
* `Plan.exists_trim_eq`: the rounds remove the tables that do not stay, at once;
* `Plan.prune_eq`: the subqueries are pruned as plans of their own.
-/

namespace EntityQuery

/-- The plan without the named tables, with the conditions that were not asked for and read them
gone; when a table goes, a top that is left without conditions goes too. -/
def Plan.without (removed : List String) (p : Plan) : Plan where
  selects := Select.mapLeavesAll (Condition.withoutRemoved removed) p.selects
  tables := (p.tables.filter (·.aliasName ∉ removed)).map
    (Table.mapPlan (Plan.mapLeaves (Condition.withoutRemoved removed)))
  condition :=
    if removed = [] then p.condition
    else Group.nonempty? (Group.mapLeavesTop (Condition.withoutRemoved removed) p.condition)
  sortKeys := p.sortKeys
  groupBys := p.groupBys
  ctes := p.ctes

/-! ### Leaves that are replaced twice -/

/-- To replace leaves by `f` and what stands there by `g` is to replace them by `k`. -/
structure Condition.Composes (f g k : Condition → List Condition) : Prop where
  column : ∀ c, mapLeavesAll g (f (.column c)) = k (.column c)
  raw : ∀ r, mapLeavesAll g (f (.raw r)) = k (.raw r)

theorem Condition.mapLeavesAll_append {f : Condition → List Condition} {cs cs' : List Condition} :
    mapLeavesAll f (cs ++ cs') = mapLeavesAll f cs ++ mapLeavesAll f cs' := by
  induction cs with
  | nil => rfl
  | cons c cs ih => rw [List.cons_append, mapLeavesAll, mapLeavesAll, ih, List.append_assoc]

section

variable {f g k : Condition → List Condition}

mutual

/-- A plan whose leaves are replaced twice. -/
theorem Plan.mapLeaves_mapLeaves (h : Condition.Composes f g k) : ∀ p : Plan,
    (p.mapLeaves f).mapLeaves g = p.mapLeaves k
  | ⟨selects, tables, condition, _, _, _⟩ => by
    rw [Plan.mapLeaves, Plan.mapLeaves, Plan.mapLeaves, Select.mapLeavesAll_mapLeavesAll h selects,
      Table.mapLeavesAll_mapLeavesAll h tables, Group.mapLeavesTop_mapLeavesTop h condition]

theorem Table.mapLeavesAll_mapLeavesAll (h : Condition.Composes f g k) : ∀ ts : List Table,
    Table.mapLeavesAll g (Table.mapLeavesAll f ts) = Table.mapLeavesAll k ts
  | [] => rfl
  | .lateral _ _ query :: ts => by
    rw [Table.mapLeavesAll, Table.mapLeavesAll, Table.mapLeavesAll, Plan.mapLeaves_mapLeaves h query,
      Table.mapLeavesAll_mapLeavesAll h ts]
  | .primary _ _ :: ts => congrArg (List.cons _) (Table.mapLeavesAll_mapLeavesAll h ts)
  | .join _ :: ts => congrArg (List.cons _) (Table.mapLeavesAll_mapLeavesAll h ts)
  | .cross _ _ :: ts => congrArg (List.cons _) (Table.mapLeavesAll_mapLeavesAll h ts)

theorem Group.mapLeavesTop_mapLeavesTop (h : Condition.Composes f g k) : ∀ group : Option Group,
    Group.mapLeavesTop g (Group.mapLeavesTop f group) = Group.mapLeavesTop k group
  | none => rfl
  | some group => congrArg some (Group.mapLeaves_mapLeaves h group)

theorem Group.mapLeaves_mapLeaves (h : Condition.Composes f g k) : ∀ group : Group,
    (group.mapLeaves f).mapLeaves g = group.mapLeaves k
  | ⟨op, cs⟩ => congrArg (Group.mk op) (Condition.mapLeavesAll_mapLeavesAll h cs)

theorem Condition.mapLeavesAll_mapLeavesAll (h : Condition.Composes f g k) : ∀ cs : List Condition,
    Condition.mapLeavesAll g (Condition.mapLeavesAll f cs) = Condition.mapLeavesAll k cs
  | [] => rfl
  | c :: cs => by
    rw [Condition.mapLeavesAll, Condition.mapLeavesAll_append, Condition.mapLeavesAll,
      Condition.mapLeavesAll_mapLeaves h c, Condition.mapLeavesAll_mapLeavesAll h cs]

theorem Condition.mapLeavesAll_mapLeaves (h : Condition.Composes f g k) : ∀ c : Condition,
    Condition.mapLeavesAll g (c.mapLeaves f) = c.mapLeaves k
  | .column c => h.column c
  | .raw r => h.raw r
  | .group group => by
    rw [Condition.mapLeaves, Condition.mapLeaves, Condition.mapLeavesAll, Condition.mapLeaves,
      Group.mapLeaves_mapLeaves h group]
    rfl
  | .existence query _ _ => by
    rw [Condition.mapLeaves, Condition.mapLeaves, Condition.mapLeavesAll, Condition.mapLeaves,
      Plan.mapLeaves_mapLeaves h query]
    rfl

theorem Select.mapLeavesAll_mapLeavesAll (h : Condition.Composes f g k) : ∀ ss : List Select,
    Select.mapLeavesAll g (Select.mapLeavesAll f ss) = Select.mapLeavesAll k ss
  | [] => rfl
  | .boolOr group _ :: ss => by
    rw [Select.mapLeavesAll, Select.mapLeavesAll, Select.mapLeavesAll,
      Group.mapLeaves_mapLeaves h group, Select.mapLeavesAll_mapLeavesAll h ss]
  | .star _ :: ss => congrArg (List.cons _) (Select.mapLeavesAll_mapLeavesAll h ss)
  | .column _ _ :: ss => congrArg (List.cons _) (Select.mapLeavesAll_mapLeavesAll h ss)
  | .discriminator _ _ _ :: ss => congrArg (List.cons _) (Select.mapLeavesAll_mapLeavesAll h ss)
  | .countIsZero _ :: ss => congrArg (List.cons _) (Select.mapLeavesAll_mapLeavesAll h ss)
  | .raw _ _ _ :: ss => congrArg (List.cons _) (Select.mapLeavesAll_mapLeavesAll h ss)

end

end

/-! ### Removals -/

section

variable {removed removed' : List String} {p : Plan} {keep : List String} {a : String}

/-- A condition goes that was not asked for and reads a removed table. -/
theorem Condition.withoutRemoved_eq (removed : List String) (c : Condition) :
    c.withoutRemoved removed =
    if c.isPruneable = true ∧ ∃ a ∈ c.aliases, a ∈ removed then [] else [c] := by
  cases c with
  | column c => exact if_congr (by simp [isPruneable, aliases]) rfl rfl
  | raw r => exact if_congr (by simp [isPruneable, aliases]) rfl rfl
  | _ => rfl

theorem Condition.withoutRemoved_nil : Condition.withoutRemoved [] = fun c => [c] := by
  funext c
  simp [Condition.withoutRemoved_eq]

/-- It does not matter how often and in which order tables are named that go. -/
theorem Condition.withoutRemoved_congr (h : ∀ a, a ∈ removed ↔ a ∈ removed') :
    Condition.withoutRemoved removed = Condition.withoutRemoved removed' := by
  funext c
  simp only [Condition.withoutRemoved_eq, h]

/-- Conditions that go with some tables, and then those that go with others. -/
theorem Condition.composes_withoutRemoved : Condition.Composes (Condition.withoutRemoved removed)
    (Condition.withoutRemoved removed') (Condition.withoutRemoved (removed ++ removed')) := by
  have hleaf : ∀ c : Condition, c.mapLeaves (withoutRemoved removed') = c.withoutRemoved removed' →
      mapLeavesAll (withoutRemoved removed') (c.withoutRemoved removed) =
        c.withoutRemoved (removed ++ removed') := by
    intro c hc
    rw [withoutRemoved_eq removed c, withoutRemoved_eq (removed ++ removed') c]
    by_cases hgone : c.isPruneable = true ∧ ∃ a ∈ c.aliases, a ∈ removed
    · obtain ⟨hp, a, ha, hm⟩ := hgone
      rw [if_pos ⟨hp, a, ha, hm⟩, if_pos ⟨hp, a, ha, List.mem_append_left _ hm⟩]
      rfl
    · rw [if_neg hgone, mapLeavesAll, hc, withoutRemoved_eq, mapLeavesAll, List.append_nil]
      refine if_congr (and_congr_right fun hp => exists_congr fun a => and_congr_right fun ha => ?_)
        rfl rfl
      rw [List.mem_append, or_iff_right fun hm => hgone ⟨hp, a, ha, hm⟩]
  exact ⟨fun c => hleaf (.column c) rfl, fun r => hleaf (.raw r) rfl⟩

theorem Group.nonempty?_mapLeavesTop {f : Condition → List Condition} {g : Option Group} :
    Group.nonempty? (Group.mapLeavesTop f (Group.nonempty? g)) =
      Group.nonempty? (Group.mapLeavesTop f g) := by
  match g with
  | none => rfl
  | some ⟨_, []⟩ => rfl
  | some ⟨_, _ :: _⟩ => rfl

namespace Plan

theorem without_nil : p.without [] = p := by
  obtain ⟨selects, tables, condition, sortKeys, groupBys, ctes⟩ := p
  rw [without, Condition.withoutRemoved_nil, ← Table.mapLeavesAll_eq_map, Table.mapLeavesAll_id,
    Select.mapLeavesAll_id, if_pos rfl]
  simp

theorem without_eq_remove (h : removed ≠ []) : p.without removed = p.remove removed := by
  obtain ⟨selects, tables, condition, sortKeys, groupBys, ctes⟩ := p
  rw [without, if_neg h, ← Table.mapLeavesAll_eq_map]
  rfl

/-- Tables are told apart by their names, whatever their subqueries are. -/
theorem filter_map_mapPlan {ts : List Table} {g : Plan → Plan} :
    (ts.map (Table.mapPlan g)).filter (·.aliasName ∉ removed) =
      (ts.filter (·.aliasName ∉ removed)).map (Table.mapPlan g) := by
  rw [List.filter_map]
  simp only [Function.comp_def, Table.aliasName_mapPlan]

/-- One removal behind another one is the removal of all these tables. -/
theorem remove_remove : (p.remove removed).remove removed' = p.remove (removed ++ removed') := by
  obtain ⟨selects, tables, condition, sortKeys, groupBys, ctes⟩ := p
  have htables : Table.mapLeavesAll (Condition.withoutRemoved removed')
      ((Table.mapLeavesAll (Condition.withoutRemoved removed)
        (tables.filter (·.aliasName ∉ removed))).filter (·.aliasName ∉ removed')) =
      Table.mapLeavesAll (Condition.withoutRemoved (removed ++ removed'))
        (tables.filter (·.aliasName ∉ removed ++ removed')) := by
    rw [Table.mapLeavesAll_eq_map (g := Condition.withoutRemoved removed), filter_map_mapPlan,
      ← Table.mapLeavesAll_eq_map, Table.mapLeavesAll_mapLeavesAll Condition.composes_withoutRemoved,
      List.filter_filter]
    congr 2
    funext t
    simp [Bool.and_comm]
  show Plan.mk (Select.mapLeavesAll _ (Select.mapLeavesAll _ selects)) (Table.mapLeavesAll _
    (List.filter _ (Table.mapLeavesAll _ (List.filter _ tables)))) (Group.nonempty?
      (Group.mapLeavesTop _ (Group.nonempty? (Group.mapLeavesTop _ condition)))) _ _ _ = _
  rw [htables, Select.mapLeavesAll_mapLeavesAll Condition.composes_withoutRemoved,
    Group.nonempty?_mapLeavesTop,
    Group.mapLeavesTop_mapLeavesTop Condition.composes_withoutRemoved]
  rfl

theorem without_remove (h : removed ≠ []) :
    (p.remove removed).without removed' = p.without (removed ++ removed') := by
  rw [without_eq_remove (List.append_ne_nil_of_left_ne_nil h removed')]
  by_cases h' : removed' = []
  · rw [h', without_nil, List.append_nil]
  · rw [without_eq_remove h', remove_remove]

/-! ### Rounds -/

theorem stays_nonempty?_iff :
    Stays keep { p with condition := Group.nonempty? p.condition } a ↔ p.Stays keep a := by
  obtain ⟨selects, tables, condition, sortKeys, groupBys, ctes⟩ := p
  match condition with
  | none => rfl
  | some ⟨_, []⟩ => rfl
  | some ⟨_, _ :: _⟩ => rfl

/-- What stays is not changed by a round, and all that is left stays if it did. -/
theorem stays_remove_iff : (a ∈ (p.remove (p.unreferenced keep)).tables.map Table.aliasName ∧
      (p.remove (p.unreferenced keep)).Stays keep a) ↔
    a ∈ p.tables.map Table.aliasName ∧ p.Stays keep a := by
  refine Iff.trans (and_congr ?_ ?_) stays_withoutUnreferenced_iff
  · rw [tables_remove, Table.map_aliasName_mapLeavesAll]
    rfl
  · exact stays_nonempty?_iff.trans (stays_mapLeaves_iff Condition.sameReferences_withoutRemoved)

/-- The tables besides the primary one that do not stay. -/
def IsRemoved (keep : List String) (p : Plan) (removed : List String) : Prop :=
  ∀ a, a ∈ removed ↔ (∃ t ∈ p.tables, t.isPrimary = false ∧ t.aliasName = a) ∧ ¬ p.Stays keep a

theorem exists_mem_tables_remove_iff : (∃ t ∈ (p.remove removed).tables,
      t.isPrimary = false ∧ t.aliasName = a) ↔
    (∃ t ∈ p.tables, t.isPrimary = false ∧ t.aliasName = a) ∧ a ∉ removed := by
  rw [tables_remove, Table.mapLeavesAll_eq_map]
  have hsame : ∀ t : Table, (t.mapPlan (mapLeaves (Condition.withoutRemoved removed))).isPrimary =
      t.isPrimary := fun t => by cases t <;> rfl
  constructor
  · rintro ⟨t', ht', hp, rfl⟩
    obtain ⟨t, ht, rfl⟩ := List.mem_map.1 ht'
    obtain ⟨ht, hleft⟩ := List.mem_filter.1 ht
    rw [Table.aliasName_mapPlan]
    exact ⟨⟨t, ht, hsame t ▸ hp, rfl⟩, of_decide_eq_true hleft⟩
  · rintro ⟨⟨t, ht, hp, rfl⟩, hleft⟩
    exact ⟨_, List.mem_map_of_mem (List.mem_filter.2 ⟨ht, decide_eq_true hleft⟩),
      (hsame t).trans hp, Table.aliasName_mapPlan⟩

/-- One more round before the others. -/
theorem IsRemoved.append {rest : List String}
    (h : (p.remove (p.unreferenced keep)).IsRemoved keep rest) :
    p.IsRemoved keep (p.unreferenced keep ++ rest) := by
  intro a
  have hstays : a ∈ p.tables.map Table.aliasName → a ∉ p.unreferenced keep →
      ((p.remove (p.unreferenced keep)).Stays keep a ↔ p.Stays keep a) := by
    intro ha hleft
    have hm : a ∈ (p.remove (p.unreferenced keep)).tables.map Table.aliasName := by
      rw [tables_remove, Table.map_aliasName_mapLeavesAll]
      obtain ⟨t, ht, rfl⟩ := List.mem_map.1 ha
      exact List.mem_map.2 ⟨t, List.mem_filter.2 ⟨ht, decide_eq_true hleft⟩, rfl⟩
    exact ⟨fun hs => (stays_remove_iff.1 ⟨hm, hs⟩).2, fun hs => (stays_remove_iff.2 ⟨ha, hs⟩).2⟩
  rw [List.mem_append, h a, exists_mem_tables_remove_iff]
  constructor
  · rintro (hgone | ⟨⟨⟨t, ht, hp, rfl⟩, hleft⟩, hs⟩)
    · exact ⟨(mem_unreferenced_iff.1 hgone).1, fun hs => hs.not_mem_unreferenced hgone⟩
    · exact ⟨⟨t, ht, hp, rfl⟩, fun h => hs ((hstays (List.mem_map_of_mem ht) hleft).2 h)⟩
  · rintro ⟨⟨t, ht, hp, rfl⟩, hs⟩
    by_cases hgone : t.aliasName ∈ p.unreferenced keep
    · exact .inl hgone
    · exact .inr ⟨⟨⟨t, ht, hp, rfl⟩, hgone⟩, fun h =>
        hs ((hstays (List.mem_map_of_mem ht) hgone).1 h)⟩

theorem exists_trimWithin_eq {n : Nat} (hn : p.tables.length ≤ n) :
    ∃ removed, p.trimWithin keep n = p.without removed ∧ p.IsRemoved keep removed := by
  have hdone : ∀ q : Plan, q.unreferenced keep = [] → q.IsRemoved keep [] := fun q hq a =>
    ⟨fun ha => absurd ha List.not_mem_nil, fun ha => absurd (stays_of_unreferenced hq) ha.2⟩
  induction n generalizing p with
  | zero =>
    refine ⟨[], without_nil.symm, hdone p ?_⟩
    simp [unreferenced, List.length_eq_zero_iff.1 (Nat.le_zero.1 hn)]
  | succ n ih =>
    rw [trimWithin]
    split
    · next hnil => exact ⟨[], without_nil.symm, hdone p hnil⟩
    · next hne =>
      obtain ⟨a, ha⟩ := List.exists_mem_of_ne_nil _ hne
      obtain ⟨⟨t, ht, -, rfl⟩, -⟩ := mem_unreferenced_iff.1 ha
      have hshorter := length_tables_remove ⟨t, ht, ha⟩
      obtain ⟨rest, htrim, hrest⟩ := ih (p := p.remove (p.unreferenced keep)) (by omega)
      exact ⟨_, htrim.trans (without_remove hne), hrest.append⟩

/-- All rounds of pruning together remove the tables that do not stay. -/
theorem exists_trim_eq (keep : List String) (p : Plan) :
    ∃ removed, p.trim keep = p.without removed ∧ p.IsRemoved keep removed :=
  exists_trimWithin_eq (Nat.le_refl _)

end Plan

end

/-! ### Subqueries -/

mutual

theorem Group.mapPlans_id : ∀ h : Group, h.mapPlans id = h
  | ⟨op, cs⟩ => congrArg (Group.mk op) (Condition.mapPlansOf_id cs)

theorem Condition.mapPlansOf_id : ∀ cs : List Condition, Condition.mapPlansOf id cs = cs
  | [] => rfl
  | c :: cs => congrArg₂ List.cons (Condition.mapPlans_id c) (Condition.mapPlansOf_id cs)

theorem Condition.mapPlans_id : ∀ c : Condition, c.mapPlans id = c
  | .column _ => rfl
  | .raw _ => rfl
  | .group h => congrArg Condition.group (Group.mapPlans_id h)
  | .existence _ _ _ => rfl

end

section

variable {g g' : Plan → Plan}

mutual

theorem Group.mapPlans_congr : ∀ {h : Group}, (∀ q ∈ h.plans, g q = g' q) →
    h.mapPlans g = h.mapPlans g'
  | ⟨op, _⟩, hg => congrArg (Group.mk op) (Condition.mapPlansOf_congr hg)

theorem Condition.mapPlansOf_congr : ∀ {cs : List Condition},
    (∀ q ∈ Condition.plansOf cs, g q = g' q) →
    Condition.mapPlansOf g cs = Condition.mapPlansOf g' cs
  | [], _ => rfl
  | _ :: _, hg => congrArg₂ List.cons
    (Condition.mapPlans_congr fun q hq => hg q (List.mem_append_left _ hq))
    (Condition.mapPlansOf_congr fun q hq => hg q (List.mem_append_right _ hq))

theorem Condition.mapPlans_congr : ∀ {c : Condition}, (∀ q ∈ c.plans, g q = g' q) →
    c.mapPlans g = c.mapPlans g'
  | .column _, _ => rfl
  | .raw _, _ => rfl
  | .group _, hg => congrArg Condition.group (Group.mapPlans_congr hg)
  | .existence query _ _, hg => by
    rw [Condition.mapPlans, Condition.mapPlans, hg query (List.mem_singleton_self _)]

end

namespace Plan

variable {p : Plan} {keep : List String}

/-- Only what becomes of the lateral queries and of the subqueries of the condition matters. -/
theorem mapPlans_congr
    (hlaterals : ∀ x fromAlias query, .lateral x fromAlias query ∈ p.tables → g query = g' query)
    (hsubqueries : ∀ query ∈ p.subqueries, g query = g' query) : p.mapPlans g = p.mapPlans g' := by
  obtain ⟨selects, tables, condition, sortKeys, groupBys, ctes⟩ := p
  have htables : tables.map (Table.mapPlan g) = tables.map (Table.mapPlan g') :=
    List.map_congr_left fun t ht => by
      cases t with
      | lateral x b query => exact congrArg (Table.lateral x b) (hlaterals x b query ht)
      | _ => rfl
  have hcondition : condition.map (Group.mapPlans g) = condition.map (Group.mapPlans g') := by
    cases condition with
    | none => rfl
    | some h => exact congrArg some (Group.mapPlans_congr hsubqueries)
  rw [mapPlans, mapPlans, htables, hcondition]

theorem mapPlans_id : p.mapPlans id = p := by
  obtain ⟨selects, tables, condition, sortKeys, groupBys, ctes⟩ := p
  have htables : tables.map (Table.mapPlan id) = tables :=
    List.map_id'' (fun t => by cases t <;> rfl) tables
  have hcondition : condition.map (Group.mapPlans id) = condition := by
    cases condition with
    | none => rfl
    | some h => exact congrArg some (Group.mapPlans_id h)
  rw [mapPlans, htables, hcondition]

/-- A plan without subqueries in its tables and its condition. -/
theorem mapPlans_of_depth (h : p.depth = 0) : p.mapPlans g = p :=
  (mapPlans_congr (fun _ _ _ ht => absurd (depth_lt_of_lateral ht) (by omega))
    fun _ hq => absurd (depth_lt_of_subquery hq) (by omega)).trans mapPlans_id

/-- No more rounds are needed than plans are nested. -/
theorem pruneWithin_eq_prune {n : Nat} (h : p.depth ≤ n) : p.pruneWithin n keep = p.prune keep := by
  induction hd : p.depth using Nat.strongRecOn generalizing n keep p with
  | ind d ih =>
    have htrim : (p.trim keep).depth ≤ p.depth := depth_trim_le
    rw [prune]
    match hd' : p.depth, n with
    | 0, 0 => rfl
    | 0, n + 1 =>
      have hflat : (p.trim keep).depth = 0 := by omega
      exact mapPlans_of_depth hflat
    | d' + 1, n + 1 =>
      have hnested : ∀ q : Plan, q.depth < (p.trim keep).depth →
          q.pruneWithin n [] = q.pruneWithin d' [] := fun q hq =>
        (ih q.depth (by omega) (by omega) rfl).trans (ih q.depth (by omega) (by omega) rfl).symm
      exact mapPlans_congr (fun _ _ _ ht => hnested _ (depth_lt_of_lateral ht))
        fun _ hq => hnested _ (depth_lt_of_subquery hq)
    | d' + 1, 0 => omega

/-- The subqueries of what is left are pruned as plans of their own, where nothing is kept. -/
theorem prune_eq : p.prune keep = (p.trim keep).mapPlans (prune []) := by
  have htrim : (p.trim keep).depth ≤ p.depth := depth_trim_le
  rw [prune]
  match hd : p.depth with
  | 0 =>
    have hflat : (p.trim keep).depth = 0 := by omega
    exact (mapPlans_of_depth hflat).symm
  | d + 1 =>
    have hnested : ∀ q : Plan, q.depth < (p.trim keep).depth → q.pruneWithin d [] = q.prune [] :=
      fun q hq => pruneWithin_eq_prune (by omega)
    exact mapPlans_congr (fun _ _ _ ht => hnested _ (depth_lt_of_lateral ht))
      fun _ hq => hnested _ (depth_lt_of_subquery hq)

end Plan

end

end EntityQuery
