import EntityQuery.Collection.Resolved
import EntityQuery.Proofs.Blank.Draft
import EntityQuery.Proofs.Collection.Subtree
import EntityQuery.Proofs.Existence.Conservation
import EntityQuery.Proofs.Lateral.Plan

/-!
# Passes over a plan with joins of which nothing was asked

Whatever the strategy, collections of which nothing was asked stay joins, at most their conditions
change places.  Then pruning removes these joins from the last one to the first, and with them all
conditions that came with them.

* `Plan.pad`: the plan with more joins and conditions;
* `Plan.Spare`: the joins have names of their own, and the conditions came with them;
* `Plan.resolveCollections_pad`: what a strategy makes of them;
* `Plan.trim_pad`, `Plan.prune_pad`: the plan without them.
-/

namespace EntityQuery

/-- The plan with more joins behind its tables, and with more conditions behind its own. -/
def Plan.pad (p : Plan) (js : List Join) (ks : List Condition) : Plan :=
  { p with
    tables := p.tables ++ js.map .join
    condition := Group.ofTop false (p.topConditions ++ ks) }

/-- Joins on tables in front of them, and conditions that came with them. -/
structure Plan.Spare (p : Plan) (js : List Join) (ks : List Condition) : Prop where
  ordered : Join.Ordered (p.tables.map Table.aliasName) js
  idle : ∀ k ∈ ks, k.Idle (js.map (·.aliasName))

namespace Condition

variable {names : List String} {k : Condition}

theorem Idle.isPruneable (h : k.Idle names) : k.isPruneable = true := by
  obtain ⟨c, rfl, hp, -⟩ := h
  exact hp

theorem Idle.exists_aliases (h : k.Idle names) : ∃ a ∈ names, k.aliases = [a] := by
  obtain ⟨c, rfl, -, hc⟩ := h
  exact ⟨c.aliasName, hc, rfl⟩

end Condition

namespace Plan

variable {p : Plan} {js : List Join} {ks ks' : List Condition} {joins : List Join}

theorem Spare.mono (h : p.Spare js ks) (hsub : ks' ⊆ ks) : p.Spare js ks' :=
  ⟨h.ordered, fun k hk => h.idle k (hsub hk)⟩

@[simp] theorem tables_pad : (p.pad js ks).tables = p.tables ++ js.map .join := rfl

theorem topConditions_pad : (p.pad js ks).topConditions = p.topConditions ++ ks :=
  topConditions_ofTop rfl nofun

theorem pad_nil (hp : p.Bare) : p.pad [] [] = p := by
  obtain ⟨selects, tables, condition, sortKeys, groupBys, ctes⟩ := p
  rw [pad, List.append_nil, ← hp.condition, List.map_nil, List.append_nil]

/-- The joins extend the join tree of the plan. -/
theorem exists_tree_pad (hp : p.Bare) (h : Join.Ordered (p.tables.map Table.aliasName) js) :
    ∃ T : JoinTree, (p.pad js ks).tables = T.tables ∧ js ⊆ T.joins ∧
      T.aliases = p.tables.map Table.aliasName ++ js.map (·.aliasName) := by
  obtain ⟨T, hT⟩ := hp.tables
  have hnames : p.tables.map Table.aliasName = T.aliases := by rw [hT, T.map_aliasName_tables]
  have hordered : Join.Ordered T.aliases js := hnames ▸ h
  exact ⟨T.append js hordered, by rw [tables_pad, JoinTree.tables_append, hT],
    List.subset_append_right _ _, by rw [JoinTree.aliases_append, hnames]⟩

theorem adds_pad (hp : p.Bare) (h : Join.Ordered (p.tables.map Table.aliasName) js) :
    p.Adds (p.pad js ks) (js.map .join) ks where
  tables := rfl
  nodup := by
    obtain ⟨T, hT, -⟩ := @exists_tree_pad p js ks hp h
    rw [hT, T.map_aliasName_tables]
    exact T.nodup_aliases
  conditions k := by rw [topConditions_pad, List.mem_append]
  selects _ := id

theorem idle_of_mem_pad (hp : p.Bare) (h : p.Spare js ks) :
    ∀ k ∈ (p.pad js ks).topConditions, k.Idle ((p.pad js ks).tables.map Table.aliasName) := by
  have hnames : (p.pad js ks).tables.map Table.aliasName =
      p.tables.map Table.aliasName ++ js.map (·.aliasName) := by
    rw [tables_pad, List.map_append, List.map_map]
    rfl
  rw [topConditions_pad, hnames]
  exact List.forall_mem_append.2
    ⟨fun k hk => (hp.conditions k hk).mono (List.subset_append_left _ _),
      fun k hk => (h.idle k hk).mono (List.subset_append_right _ _)⟩

/-- The tables of the plan are below no collection. -/
theorem above_pad (hp : p.Bare) (h : Join.Ordered (p.tables.map Table.aliasName) js)
    (hjoins : joins ⊆ js) {a : String} (ha : a ∈ p.tables.map Table.aliasName) :
    (Collections.ofPlan (p.pad js ks) joins).above a = [] := by
  obtain ⟨T, hT, hsub, hnames⟩ := @exists_tree_pad p js ks hp h
  have hjoinsT : ∀ j ∈ joins, j ∈ T.joins := fun j hj => hsub (hjoins hj)
  refine List.eq_nil_iff_forall_not_mem.2 fun c hc => ?_
  obtain ⟨j, hj, rfl⟩ := (JoinTree.isCollection_iff hT hjoinsT).1
    (Collections.mem_above.1 hc).2
  -- the collection would stand in front of the table
  have hle := JoinTree.idxOf_le_of_mem_above hT hjoinsT _ hc
  rw [hnames, List.idxOf_append_of_mem ha,
    List.idxOf_append_of_notMem (h.alias_not_mem j (hjoins hj))] at hle
  have := List.idxOf_lt_length_of_mem ha
  omega

end Plan

theorem Group.ofTop_false {cs : List Condition} :
    Group.ofTop false cs = if cs.isEmpty then none else some (.all cs) := by
  match cs with
  | [] => rfl
  | [.group _] => rfl
  | [.column _] => rfl
  | [.raw _] => rfl
  | [.existence _ _ _] => rfl
  | c :: _ :: _ => cases c <;> rfl

/-! ### Existence conditions -/

namespace Existence

variable {t : Collections} {names : List String} {cs : List Condition} {k : Condition}

/-- A predicate on a table that belongs to no collection goes to none. -/
theorem route?_eq_none_of_idle (hF : t.IsForest) (hk : k.Idle names)
    (habove : ∀ a ∈ names, t.above a = []) : route? t k = none := by
  obtain ⟨a, ha, hk⟩ := hk.exists_aliases
  cases hroute : route? t k with
  | none => rfl
  | some root =>
    obtain ⟨-, ⟨b, hb, hm⟩, -⟩ := of_route? hF hroute
    rw [hk, List.mem_singleton] at hb
    rw [hb, habove a ha] at hm
    cases hm

/-- Predicates read no collection together with other tables. -/
theorem spoiled_of_idle (hF : t.IsForest) (h : ∀ k ∈ cs, k.Idle names) : spoiled t cs = [] := by
  have hnil : (staying (route? t) cs).flatMap (fun c => (t.rootsReferenced c).1) = [] := by
    refine List.flatMap_eq_nil_iff.2 fun k hk => List.eq_nil_iff_forall_not_mem.2 fun root hroot => ?_
    rw [staying, List.mem_filter, decide_eq_true_iff] at hk
    obtain ⟨a, -, ha⟩ := (h k hk.1).exists_aliases
    obtain ⟨hroot, b, hb, hm⟩ := (mem_rootsReferenced_iff hF).1 hroot
    have hall : ∀ b' ∈ k.aliases, root ∈ t.above b' := fun b' hb' => by
      rw [ha, List.mem_singleton] at hb hb'
      exact hb' ▸ hb ▸ hm
    have hgoes := route?_of_forall hF hroot (by simp [ha]) hall
    rw [hk.2] at hgoes
    cases hgoes
  rw [spoiled, hnil]
  rfl

/-- No collection becomes a condition where nothing was asked. -/
theorem demand_of_idle {p : Plan} (hF : t.IsForest) (h : ∀ k ∈ p.topConditions, k.Idle names)
    {root : String} (hroot : root ∈ t.roots) : demand p t root = none := by
  obtain ⟨hc, habove⟩ := hF.mem_roots_iff.1 hroot
  refine (build?_eq_none_iff hF hc (by rw [habove]; simp)).2 fun k hk => ?_
  exact (h k (mem_sentTo_iff.1 hk).1).isPruneable

end Existence

namespace Plan

open Existence

variable {p : Plan} {js : List Join} {ks : List Condition} {joins : List Join} {r : Resolved}

theorem isDisjunctive_pad : (p.pad js ks).isDisjunctive = false := by
  have hcondition : (p.pad js ks).condition = Group.ofTop false (p.topConditions ++ ks) := rfl
  rw [isDisjunctive, hcondition, Group.ofTop_false]
  split_ifs <;> rfl

/-- Nothing is told where no collection is read together with other tables. -/
theorem warnings_toExistence (h : p.toExistence joins = .ok r)
    (hspoiled : spoiled (Collections.ofPlan p joins) p.topConditions = []) : r.warnings = [] := by
  unfold toExistence at h
  simp only at h
  split_ifs at h
  · exact Except.ok.inj h ▸ rfl
  · split at h
    · cases h
    · rw [← Except.ok.inj h]
      show (spoiled (Collections.ofPlan p joins) p.topConditions).map warning = []
      rw [hspoiled, List.map_nil]

/-- Collections of which nothing was asked become no conditions. -/
theorem toExistence_pad (hp : p.Bare) (h : p.Spare js ks) (hjoins : joins ⊆ js)
    (hr : (p.pad js ks).toExistence joins = .ok r) : ∃ ks' ⊆ ks, r = ⟨p.pad js ks', []⟩ := by
  have hF : (Collections.ofPlan (p.pad js ks) joins).IsForest := by
    obtain ⟨T, hT, hsub, -⟩ := @exists_tree_pad p js ks hp h.ordered
    exact JoinTree.isForest hT fun j hj => hsub (hjoins hj)
  have hcases := toExistence_cases hr
  have hwarnings := warnings_toExistence hr
  have hbare : ∀ k ∈ p.topConditions, route? (Collections.ofPlan (p.pad js ks) joins) k = none :=
    fun k hk => route?_eq_none_of_idle hF (hp.conditions k hk) fun _ => above_pad hp h.ordered hjoins
  generalize Collections.ofPlan (p.pad js ks) joins = t at hF hcases hwarnings hbare
  have hidle := idle_of_mem_pad hp h
  have hspoiled := spoiled_of_idle hF hidle
  have hresults : ∀ x ∈ results (p.pad js ks) t, x.2 = none := fun x hx => by
    obtain ⟨⟨hroot, -⟩, hx⟩ := mem_results_iff.1 hx
    rw [← hx, demand_of_idle hF hidle hroot]
  obtain ⟨-, hplan⟩ | hplan := hcases
  · exact ⟨ks, List.Subset.refl _, by rw [← hplan, ← hwarnings hspoiled]⟩
  -- the conditions of the collections stand behind the others
  set sent := ((results (p.pad js ks) t).filter (·.2.isNone)).flatMap fun x =>
    sentTo (route? t) x.1 (p.pad js ks).topConditions with hsent
  have hstaying : staying (route? t) (p.pad js ks).topConditions =
      p.topConditions ++ ks.filter (route? t · = none) := by
    rw [topConditions_pad, staying, List.filter_append, List.filter_eq_self.2 fun k hk =>
      decide_eq_true (hbare k hk)]
  have hrewritten : rewritten (p.pad js ks) t =
      p.topConditions ++ (ks.filter (route? t · = none) ++ sent) := by
    have hnone : (results (p.pad js ks) t).filterMap (·.2) = [] :=
      List.filterMap_eq_nil_iff.2 hresults
    rw [rewritten, hspoiled, hstaying, hnone, List.flatMap_nil, List.append_nil, List.append_nil,
      List.append_assoc, hsent]
  have habsorbed : (results (p.pad js ks) t).filter (·.2.isSome) = [] :=
    List.filter_eq_nil_iff.2 fun x hx => by simp [hresults x hx]
  refine ⟨ks.filter (route? t · = none) ++ sent, ?_, ?_⟩
  · refine List.append_subset.2 ⟨List.filter_sublist.subset, fun k hk => ?_⟩
    obtain ⟨x, -, hk⟩ := List.mem_flatMap.1 hk
    obtain ⟨hk, hroute⟩ := mem_sentTo_iff.1 hk
    rw [topConditions_pad] at hk
    refine (List.mem_append.1 hk).resolve_left fun hk => ?_
    rw [hbare k hk] at hroute
    cases hroute
  · have hr : r = ⟨r.plan, r.warnings⟩ := rfl
    rw [hr, hwarnings hspoiled, hplan, hrewritten, isDisjunctive_pad, habsorbed]
    simp [pad]

end Plan

/-! ### Lateral subqueries -/

namespace Lateral

variable {s : Scope} {names : List String} {top cs : List Condition} {k : Condition}

/-- A predicate reads one collection or another table. -/
theorem Scope.units_of_idle (hk : k.Idle names) :
    (s.units k).1 = [] ∨ ∃ a ∈ names, ∃ u, s.unit? a = some u ∧ (s.units k).1 = [u] := by
  obtain ⟨c, rfl, -, hc⟩ := hk
  unfold Scope.units Condition.owners ownersOf
  cases hu : s.unit? c.aliasName with
  | none => exact .inl (by simp [Condition.aliases, hu])
  | some u => exact .inr ⟨_, hc, u, hu, by simp [Condition.aliases, hu, insertNew]⟩

/-- Predicates that read no collection are left as they are. -/
theorem decompose_idle_append {aliasOf : String → String} {op : Connective}
    {siblings rest : List Condition} {seen : List String} {columns : List Column}
    (h : ∀ k ∈ cs, k.Idle names ∧ (s.units k).1 = []) :
    decompose s aliasOf op siblings seen (cs ++ rest) columns =
      (cs ++ (decompose s aliasOf op siblings seen rest columns).1,
        (decompose s aliasOf op siblings seen rest columns).2) := by
  induction cs with
  | nil => rfl
  | cons k cs ih =>
    rw [List.forall_mem_cons] at h
    obtain ⟨⟨⟨c, rfl, -⟩, hunits⟩, hcs⟩ := h
    have honly : s.only? (.column c) = none := by
      unfold Scope.only?
      split
      · next he => rw [he] at hunits; cases hunits
      · rfl
    rw [List.cons_append, decompose, honly]
    simp only [decomposeOne, ih hcs, List.cons_append]

theorem decompose_of_idle {aliasOf : String → String} {op : Connective} {siblings : List Condition}
    {seen : List String} {columns : List Column} (h : ∀ k ∈ cs, k.Idle names ∧ (s.units k).1 = []) :
    decompose s aliasOf op siblings seen cs columns = (cs, columns) := by
  have happend := @decompose_idle_append s names cs aliasOf op siblings [] seen columns h
  rwa [List.append_nil, decompose, List.append_nil] at happend

/-- Without columns no collection becomes a subquery, and its guards stay. -/
theorem absorbAll_of_nil {units : List (String × String)} {tables : List Table} :
    (absorbAll s top [] units tables).1 = tables ∧
      ∀ k ∈ (absorbAll s top [] units tables).2, ∃ u, k ∈ guardsOf s top u := by
  induction units with
  | nil => exact ⟨rfl, nofun⟩
  | cons unit units ih =>
    obtain ⟨unit, name⟩ := unit
    unfold absorbAll
    cases s.tree.join? unit with
    | none => exact ih
    | some j =>
      refine ⟨ih.1, fun k hk => ?_⟩
      rcases List.mem_append.1 hk with hk | hk
      · exact ⟨unit, hk⟩
      · exact ih.2 k hk

end Lateral

namespace Plan

open Lateral

variable {p : Plan} {js : List Join} {ks : List Condition} {joins : List Join}

/-- Collections of which nothing was asked become no subqueries. -/
theorem toLateral_pad (hp : p.Bare) (h : p.Spare js ks) (hjoins : joins ⊆ js) {force : Bool}
    {threshold : Nat} {supply : AliasSupply} {r : Resolved × AliasSupply}
    (hr : (p.pad js ks).toLateral force threshold joins supply = .ok r) :
    ∃ ks' ⊆ ks, r.1 = ⟨p.pad js ks', []⟩ := by
  unfold toLateral at hr
  simp only at hr
  split_ifs at hr
  · exact ⟨ks, List.Subset.refl _, by rw [← Except.ok.inj hr]⟩
  obtain ⟨⟨s, warnings⟩, hsettle, hr⟩ := exists_of_bind_eq_ok hr
  have hidle := idle_of_mem_pad hp h
  have hpinned : ∀ s : Scope, s.pinned (p.pad js ks).topConditions = [] := fun s => by
    have hnone : (p.pad js ks).topConditions.filter (!·.isPruneable) = [] :=
      List.filter_eq_nil_iff.2 fun k hk => by simp [(hidle k hk).isPruneable]
    rw [Scope.pinned, hnone]
    rfl
  obtain ⟨hs, rfl⟩ := Prod.mk.inj (settle_of_pinned_eq_nil (hpinned _) hsettle)
  have hbare : ∀ k ∈ p.topConditions, (s.units k).1 = [] := fun k hk => by
    refine (Scope.units_of_idle (hp.conditions k hk)).resolve_right ?_
    rintro ⟨a, ha, u, hu, -⟩
    have hm := (Scope.of_unit? hu).2
    rw [hs, above_pad hp h.ordered hjoins ha] at hm
    cases hm
  -- what guards no collection reads none
  have hasked : (p.pad js ks).topConditions.filter (!isGuard s ·) =
      p.topConditions ++ ks.filter (!isGuard s ·) := by
    rw [topConditions_pad, List.filter_append, List.filter_eq_self.2 fun k hk => by
      simp [isGuard, hbare k hk]]
  have hunits : ∀ k ∈ p.topConditions ++ ks.filter (!isGuard s ·),
      k.Idle ((p.pad js ks).tables.map Table.aliasName) ∧ (s.units k).1 = [] := fun k hk => by
    rw [← hasked, List.mem_filter] at hk
    refine ⟨hidle k hk.1, (Scope.units_of_idle (hidle k hk.1)).resolve_right ?_⟩
    rintro ⟨a, -, u, -, hu⟩
    simp [isGuard, (hidle k hk.1).isPruneable, hu] at hk
  simp only [hasked, decompose_of_idle hunits] at hr
  obtain rfl := Except.ok.inj hr
  obtain ⟨htables, hleft⟩ := @absorbAll_of_nil s (p.pad js ks).topConditions
    (nameUnits s.active supply).1 (p.pad js ks).tables
  refine ⟨ks.filter (!isGuard s ·) ++ (absorbAll s (p.pad js ks).topConditions []
    (nameUnits s.active supply).1 (p.pad js ks).tables).2, ?_, ?_⟩
  · refine List.append_subset.2 ⟨List.filter_sublist.subset, fun k hk => ?_⟩
    obtain ⟨u, hk⟩ := hleft k hk
    obtain ⟨hk, -, hu⟩ := mem_guardsOf_iff.1 hk
    rw [topConditions_pad] at hk
    refine (List.mem_append.1 hk).resolve_left fun hk => ?_
    rw [hbare k hk] at hu
    cases hu
  · rw [htables, isDisjunctive_pad, List.append_assoc]
    rfl

end Plan

/-! ### Strategies and tests for null -/

section

variable {f : Condition → List Condition} {cs : List Condition}

theorem Group.nonempty?_mapLeavesTop_ofTop :
    Group.nonempty? (Group.mapLeavesTop f (Group.ofTop false cs)) =
      Group.ofTop false (Condition.mapLeavesAll f cs) := by
  rw [Group.ofTop_false, Group.ofTop_false]
  cases cs with
  | nil => rfl
  | cons c cs =>
    show Group.nonempty? (some ⟨.and, Condition.mapLeavesAll f (c :: cs)⟩) = _
    cases Condition.mapLeavesAll f (c :: cs) <;> rfl

end

namespace Plan

variable {p : Plan} {js : List Join} {ks : List Condition} {joins : List Join} {keep : List String}

/-- Whatever the strategy, the joins stay, and at most the conditions change places. -/
theorem resolveCollections_pad (hp : p.Bare) (h : p.Spare js ks) (hjoins : joins ⊆ js)
    {strategy : Strategy} {threshold : Nat} {supply : AliasSupply} {r : Resolved × AliasSupply}
    (hr : (p.pad js ks).resolveCollections strategy threshold joins supply = .ok r) :
    ∃ ks' ⊆ ks, r.1 = ⟨p.pad js ks', []⟩ := by
  unfold resolveCollections at hr
  split_ifs at hr
  · exact ⟨ks, List.Subset.refl _, by rw [← Except.ok.inj hr]⟩
  · cases strategy with
    | existence =>
      obtain ⟨resolved, hresolved, rfl⟩ := exists_of_map_eq_ok hr
      exact toExistence_pad hp h hjoins hresolved
    | lateral force => exact toLateral_pad hp h hjoins hr
    | keep => exact ⟨ks, List.Subset.refl _, by rw [← Except.ok.inj hr]⟩

/-- Nothing that came with a table is taken for a test for null. -/
theorem addNullChecks_pad (hp : p.Bare) (h : p.Spare js ks) (idDbType : String → String) :
    (p.pad js ks).addNullChecks idDbType = p.pad js ks := by
  set f := Condition.withNullCheck (p.pad js ks).outerAliases idDbType with hf
  have hstays : Condition.mapLeavesAll f (p.topConditions ++ ks) = p.topConditions ++ ks := by
    refine Condition.mapLeavesAll_eq_self fun k hk => ?_
    rw [← topConditions_pad] at hk
    obtain ⟨c, rfl, hpruneable, -⟩ := idle_of_mem_pad hp h k hk
    rw [hf, Condition.mapLeaves, Condition.withNullCheck, if_neg]
    simp [ColumnCondition.isAmbiguous, hpruneable]
  have hcondition : Group.mapLeavesTop f (Group.ofTop false (p.topConditions ++ ks)) =
      Group.ofTop false (p.topConditions ++ ks) := by
    rw [Group.ofTop_false]
    split_ifs
    · rfl
    · exact congrArg (fun cs => some (Group.all cs)) hstays
  have htables : Table.mapLeavesAll f (p.tables ++ js.map .join) = p.tables ++ js.map .join := by
    rw [Table.mapLeavesAll_eq_map, List.map_append, hp.map_mapPlan, Table.map_mapPlan_joins]
  show (⟨Select.mapLeavesAll f p.selects, Table.mapLeavesAll f (p.tables ++ js.map .join),
    Group.mapLeavesTop f (Group.ofTop false (p.topConditions ++ ks)), _, _, _⟩ : Plan) = _
  rw [Select.mapLeavesAll_eq_self hp.plain, htables, hcondition]
  rfl

end Plan

/-! ### Pruning -/

namespace Condition

variable {removed names : List String} {ks : List Condition}

/-- Predicates go with their tables. -/
theorem mapLeavesAll_of_idle (h : ∀ k ∈ ks, k.Idle names) :
    mapLeavesAll (withoutRemoved removed) ks = leftBy removed ks := by
  induction ks with
  | nil => rfl
  | cons k ks ih =>
    rw [List.forall_mem_cons] at h
    obtain ⟨⟨c, rfl, hpruneable, -⟩, hks⟩ := h
    rw [mapLeavesAll, ih hks, mapLeaves, withoutRemoved, leftBy, leftBy]
    by_cases hc : c.aliasName ∈ removed
    · simp [hpruneable, hc, aliases]
    · simp [hpruneable, hc, aliases]

end Condition

/-- Joins stay ordered without some that no join refers to. -/
theorem Join.Ordered.filter {names names' removed : List String} {js : List Join}
    (h : Join.Ordered names js) (hparent : ∀ j ∈ js, j.parent.aliasName ∉ removed)
    (hsub : names' ⊆ names) (hnames : ∀ a ∈ names, a ∉ removed → a ∈ names') :
    Join.Ordered names' (js.filter (·.aliasName ∉ removed)) := by
  induction js generalizing names names' with
  | nil => trivial
  | cons j js ih =>
    obtain ⟨hj, hfresh, hown, hrest⟩ := h
    rw [List.forall_mem_cons] at hparent
    by_cases hr : j.aliasName ∈ removed
    · rw [List.filter_cons_of_neg (by simpa using hr)]
      refine ih hrest hparent.2 (List.Subset.trans hsub (List.subset_append_left _ _)) fun a ha hkept => ?_
      refine (List.mem_append.1 ha).elim (fun ha => hnames a ha hkept) fun ha => ?_
      exact absurd hr (List.mem_singleton.1 ha ▸ hkept)
    · rw [List.filter_cons_of_pos (by simpa using hr)]
      refine ⟨hnames _ hj hparent.1, fun hm => hfresh (hsub hm), hown, ih hrest hparent.2 ?_ ?_⟩
      · exact append_subset_append hsub (List.Subset.refl _)
      · intro a ha hkept
        exact List.mem_append.2 ((List.mem_append.1 ha).imp_left fun ha => hnames a ha hkept)

namespace Plan

variable {p : Plan} {js : List Join} {ks : List Condition} {keep : List String}

/-- Conditions that came with tables refer to none. -/
theorem of_mem_references_pad (hp : p.Bare) (h : p.Spare js ks) {a : String}
    (ha : a ∈ (p.pad js ks).references) :
    a ∈ p.tables.map Table.aliasName ∨ ∃ j ∈ js, a = j.parent.aliasName := by
  rcases mem_references_iff.1 ha with ha | ha | ha | ha | ha
  · exact .inl (hp.closed a (mem_references_iff.2 (.inl ha)))
  · obtain ⟨c, hc, ha⟩ := Group.exists_of_mem_referencesOf_ofTop ha
    rw [← topConditions_pad] at hc
    rw [Condition.references_of_isPruneable (idle_of_mem_pad hp h c hc).isPruneable] at ha
    cases ha
  · exact .inl (hp.closed a (mem_references_iff.2 (.inr (.inr (.inl ha)))))
  · exact .inl (hp.closed a (mem_references_iff.2 (.inr (.inr (.inr (.inl ha))))))
  · rcases Table.mem_referencesOf_iff.1 ha with ⟨j, hj, rfl⟩ | ⟨x, b, query, ht, -⟩
    · rcases List.mem_append.1 hj with hj | hj
      · exact .inl (hp.closed _ (mem_references_of_join hj))
      · obtain ⟨j', hj', he⟩ := List.mem_map.1 hj
        exact .inr ⟨j', hj', by rw [← Table.join.inj he]⟩
    · rcases List.mem_append.1 ht with ht | ht
      · obtain ⟨T, hT⟩ := hp.tables
        rw [hT, JoinTree.mem_tables_iff] at ht
        obtain ht | ⟨j, -, ht⟩ := ht <;> cases ht
      · obtain ⟨j, -, he⟩ := List.mem_map.1 ht
        cases he

/-- Without some of the joins that nothing refers to, and without what came with these. -/
theorem remove_pad (hp : p.Bare) (h : p.Spare js ks) :
    ∃ js' ks', p.Spare js' ks' ∧
      (p.pad js ks).remove ((p.pad js ks).unreferenced keep) = p.pad js' ks' := by
  set removed := (p.pad js ks).unreferenced keep with hremoved
  have hpad := @adds_pad p js ks hp h.ordered
  have hloose : ∀ a ∈ removed, a ∉ p.tables.map Table.aliasName ∧ a ∉ (p.pad js ks).references :=
    fun a ha => by
      obtain ⟨hm, hr⟩ := hpad.of_unreferenced hp ha
      exact ⟨fun hm' => hpad.disjoint a hm' hm, hr⟩
  refine ⟨js.filter (·.aliasName ∉ removed), Condition.leftBy removed ks, ⟨?_, fun k hk => ?_⟩, ?_⟩
  · refine h.ordered.filter (fun j hj hr => (hloose _ hr).2 (mem_references_of_join ?_))
      (List.Subset.refl _) fun a ha _ => ha
    exact List.mem_append_right _ (List.mem_map_of_mem hj)
  · obtain ⟨hk, hstays⟩ := Condition.mem_leftBy_iff.1 hk
    obtain ⟨c, rfl, hpruneable, hc⟩ := h.idle k hk
    obtain ⟨j, hj, hjc⟩ := List.mem_map.1 hc
    refine ⟨c, rfl, hpruneable, hjc ▸ List.mem_map_of_mem (List.mem_filter.2 ⟨hj, ?_⟩)⟩
    exact decide_eq_true (hjc ▸ hstays _ (List.mem_singleton_self _))
  · have hadds : p.Adds ((p.pad js ks).remove removed)
        ((js.filter (·.aliasName ∉ removed)).map .join) (Condition.leftBy removed ks) :=
      hpad.remove hp fun k hk => (h.idle k hk).imp fun _ hc => hc.1
    have htables : Table.mapLeavesAll (Condition.withoutRemoved removed)
        ((p.tables ++ js.map Table.join).filter (·.aliasName ∉ removed)) =
          p.tables ++ (js.filter (·.aliasName ∉ removed)).map Table.join :=
      tables_remove.symm.trans hadds.tables
    have hleft : Condition.mapLeavesAll (Condition.withoutRemoved removed) (p.topConditions ++ ks) =
        p.topConditions ++ Condition.leftBy removed ks := by
      rw [← topConditions_pad, Condition.mapLeavesAll_of_idle (idle_of_mem_pad hp h),
        topConditions_pad, Condition.leftBy, List.filter_append, List.filter_eq_self.2 fun k hk => ?_]
      · rfl
      · obtain ⟨a, ha, hk⟩ := (hp.conditions k hk).exists_aliases
        simpa [hk] using fun hr => (hloose a hr).1 ha
    show (⟨Select.mapLeavesAll (Condition.withoutRemoved removed) p.selects,
      Table.mapLeavesAll (Condition.withoutRemoved removed)
        ((p.tables ++ js.map Table.join).filter (·.aliasName ∉ removed)),
      Group.nonempty? (Group.mapLeavesTop _ (Group.ofTop false (p.topConditions ++ ks))),
      p.sortKeys, p.groupBys, p.ctes⟩ : Plan) = _
    rw [Select.mapLeavesAll_eq_self hp.plain, htables, Group.nonempty?_mapLeavesTop_ofTop, hleft]
    rfl

/-- The last of the joins is referred to by none. -/
theorem exists_unreferenced_pad (hp : p.Bare) (h : p.Spare js ks) (hne : js ≠ []) :
    ∃ a, a ∈ (p.pad js ks).unreferenced [] := by
  obtain ⟨front, j, rfl⟩ := List.eq_nil_or_concat js |>.resolve_left hne
  rw [List.concat_eq_append] at h
  refine ⟨j.aliasName, mem_unreferenced_iff.2 ⟨⟨Table.join j, by simp, rfl, rfl⟩, List.not_mem_nil, ?_⟩⟩
  intro hr
  rw [List.concat_eq_append] at hr
  rcases of_mem_references_pad hp h hr with ha | ⟨j', hj', he⟩
  · exact h.ordered.alias_not_mem j (by simp) ha
  · obtain ⟨hpairs, hself⟩ := h.ordered.parent_ne
    rcases List.mem_append.1 hj' with hj' | hj'
    · exact (List.pairwise_append.1 hpairs).2.2 j' hj' j (List.mem_singleton_self _) he.symm
    · rw [List.mem_singleton.1 hj'] at he
      exact hself j (by simp) he.symm

/-- Nothing is left of joins of which nothing was asked. -/
theorem trim_pad (hp : p.Bare) (h : p.Spare js ks) : (p.pad js ks).trim [] = p := by
  obtain ⟨js', ks', h', he⟩ : ∃ js' ks', p.Spare js' ks' ∧ (p.pad js ks).trim [] = p.pad js' ks' := by
    refine trim_induct (P := fun q => ∃ js' ks', p.Spare js' ks' ∧ q = p.pad js' ks') ?_
      ⟨js, ks, h, rfl⟩
    rintro q ⟨js, ks, h, rfl⟩
    exact remove_pad hp h
  have hend : (p.pad js' ks').unreferenced [] = [] := he ▸ unreferenced_trim
  have hjs : js' = [] := by
    by_contra hne
    obtain ⟨a, ha⟩ := exists_unreferenced_pad hp h' hne
    rw [hend] at ha
    cases ha
  subst hjs
  have hks : ks' = [] := List.eq_nil_iff_forall_not_mem.2 fun k hk => by
    obtain ⟨c, -, -, hc⟩ := h'.idle k hk
    cases hc
  rw [he, hks, pad_nil hp]

/-- A plan of which nothing was asked has no subqueries. -/
theorem Bare.mapPlans (hp : p.Bare) (g : Plan → Plan) : p.mapPlans g = p := by
  have hconditions : Condition.mapPlansOf g p.topConditions = p.topConditions := by
    rw [Condition.mapPlansOf_eq_map]
    refine (List.map_congr_left fun k hk => ?_).trans (List.map_id _)
    obtain ⟨c, rfl, -⟩ := hp.conditions k hk
    rfl
  have hcondition : p.condition.map (Group.mapPlans g) = p.condition := by
    rw [hp.condition, Group.ofTop_false]
    split_ifs
    · rfl
    · exact congrArg (fun cs => some (Group.all cs)) hconditions
  rw [Plan.mapPlans, hp.map_mapPlan, hcondition]
  cases p
  rfl

theorem prune_pad (hp : p.Bare) (h : p.Spare js ks) : (p.pad js ks).prune [] = p := by
  unfold prune
  cases (p.pad js ks).depth with
  | zero => exact trim_pad hp h
  | succ n =>
    rw [pruneWithin, trim_pad hp h]
    exact hp.mapPlans _

end Plan

end EntityQuery
