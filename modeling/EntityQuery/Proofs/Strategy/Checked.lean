import EntityQuery.Proofs.Strategy.Loosened
import EntityQuery.Proofs.Strategy.Mirror
import EntityQuery.Proofs.Strategy.Rows

/-!
# Rewritten plans, checked and pruned

A rewritten plan gets tests for rows and loses the tables that nothing refers to.  What is left selects
what the plan selects whose leaves alone are replaced: by the conditions with the tests that the plan
with joins gets, without those that go from it.

* `Condition.checked`: what stands in the place of a leaf;
* `Condition.matches_checked`: it does not matter which of the tables that have rows are tested for
  them;
* `Plan.primaryIds_prune_addNullChecks`: pruning changes nothing else.
-/

namespace EntityQuery

/-- The leaf with the test for a row beside it, without what goes with the removed tables. -/
def Condition.checked (removed outer : List String) (idDbType : String → String) (c : Condition) :
    List Condition :=
  mapLeavesAll (withoutRemoved removed) (c.withNullCheck outer idDbType)

namespace Condition

variable {removed outer outer' present : List String} {idDbType : String → String} {db : Database}

theorem composes_checked : Composes (withNullCheck outer idDbType) (withoutRemoved removed)
    (checked removed outer idDbType) := ⟨fun _ => rfl, fun _ => rfl⟩

theorem checked_raw {r : RawCondition} (h : r.pruneable = false) :
    checked removed outer idDbType (.raw r) = [.raw r] := by
  simp [checked, withNullCheck, mapLeavesAll, mapLeaves, withoutRemoved, h]

/-- What was not asked for goes with its table and is not tested. -/
theorem checked_implied {c : ColumnCondition} (h : c.pruneable = true) :
    checked removed outer idDbType (.column c) =
      if c.aliasName ∈ removed then [] else [.column c] := by
  have hplain : c.isAmbiguous outer = false := by simp [ColumnCondition.isAmbiguous, h]
  simp [checked, withNullCheck, hplain, mapLeavesAll, mapLeaves, withoutRemoved, h]

/-- What was asked for stays, and is tested where it is ambiguous. -/
theorem checked_asked {c : ColumnCondition} (h : c.pruneable = false) :
    checked removed outer idDbType (.column c) = withNullCheck outer idDbType (.column c) := by
  rw [checked, withNullCheck]
  split_ifs
  · simp [Condition.all, Group.all, Group.mapLeaves, mapLeavesAll, mapLeaves, withoutRemoved, h,
      ColumnCondition.asked]
  · simp [mapLeavesAll, mapLeaves, withoutRemoved, h]

theorem steady_checked : Steady (checked removed outer idDbType) where
  raw _ h := checked_raw h
  asked c h := by
    rw [checked_asked h, withNullCheck]
    split_ifs with hc
    · exact ⟨_, rfl, .beside rfl rfl (ColumnCondition.isAmbiguous_iff.1 hc).2.1⟩
    · exact ⟨_, rfl, .same⟩
  implied c h := by
    rw [checked_implied h]
    split_ifs
    · exact .inr rfl
    · exact .inl rfl

/-- Where the table has a row with an id, the test for one says nothing. -/
theorem evalAll_withNullCheck_of_present {c : ColumnCondition} {e : Assignment}
    (h : e.Present c.aliasName) :
    evalAll db (withNullCheck outer idDbType (.column c)) e = [(Condition.column c).eval db e] := by
  obtain ⟨row, hrow, hid⟩ := h
  rw [withNullCheck]
  split_ifs
  · have hrest : Condition.eval db (.column (.asked c.aliasName "id" (idDbType c.aliasName) .notNull)) e =
        some true := by
      rw [Condition.eval, ColumnCondition.asked, Assignment.value_of_some hrow]
      simpa [Predicate.eval, ← Value.isNull_iff] using hid
    have hone : ∀ v : Option Bool, Connective.combine .and [v, some true] = v := by decide
    rw [evalAll_eq_map, List.map_singleton, Condition.all, Group.all, eval_group, List.map_cons,
      List.map_singleton, hrest, hone]
  · rw [evalAll_eq_map, List.map_singleton]

section

variable (hsub : outer ⊆ outer') (hpresent : ∀ a ∈ outer', a ∉ outer → a ∈ present)

include hsub hpresent

/-- A table that only the second list names has a row with an id, so its test says nothing. -/
theorem evalAll_withNullCheck_of_matches {c : ColumnCondition} {e e' : Assignment}
    (he : e.Matches present (Condition.column c).aliases e') :
    evalAll db (withNullCheck outer idDbType (.column c)) e =
      evalAll db (withNullCheck outer' idDbType (.column c)) e' := by
  have hsame : evalAll db [Condition.column c] e = evalAll db [.column c] e' := by
    rw [evalAll_eq_map, evalAll_eq_map, List.map_singleton, List.map_singleton,
      eval_congr rfl he.agree]
  by_cases hc : c.isAmbiguous outer = true
  · obtain ⟨hasked, hid, hnull, hm⟩ := ColumnCondition.isAmbiguous_iff.1 hc
    have hc' := ColumnCondition.isAmbiguous_iff.2 ⟨hasked, hid, hnull, hsub hm⟩
    rw [withNullCheck, withNullCheck, if_pos hc, if_pos hc', evalAll_eq_map, evalAll_eq_map]
    refine congrArg (fun v => [v]) (eval_congr rfl fun a ha => he.agree a ?_)
    simpa [Condition.all, Group.all, aliases, Group.aliases, aliasesInto, insertNew,
      ColumnCondition.asked] using ha
  rw [withNullCheck, if_neg hc, hsame]
  by_cases hc' : c.isAmbiguous outer' = true
  · obtain ⟨hasked, hid, hnull, hm⟩ := ColumnCondition.isAmbiguous_iff.1 hc'
    have hnot : c.aliasName ∉ outer := fun hm => hc
      (ColumnCondition.isAmbiguous_iff.2 ⟨hasked, hid, hnull, hm⟩)
    obtain ⟨row, hrow, hid⟩ := he.present c.aliasName (List.mem_singleton_self _) (hpresent _ hm hnot)
    have hrow' : e' c.aliasName = some row := (he.agree _ (List.mem_singleton_self _)) ▸ hrow
    rw [evalAll_withNullCheck_of_present ⟨row, hrow', hid⟩]
    rfl
  · rw [withNullCheck, if_neg hc']

/-- Where a table has a row with an id, it makes no difference whether it is tested for one. -/
theorem matches_checked :
    Matches db present (checked removed outer idDbType) (checked removed outer' idDbType) := by
  intro c e e' hgroup hflat he
  have hsame : ∀ cs : List Condition, (∀ k ∈ cs, k = c) → evalAll db cs e = evalAll db cs e' :=
    fun cs hcs => by
      rw [evalAll_eq_map, evalAll_eq_map]
      exact List.map_congr_left fun k hk => hcs k hk ▸ eval_congr hflat he.agree
  cases c with
  | group g => exact absurd rfl (hgroup g)
  | existence => cases hflat
  | raw r =>
    refine hsame _ fun k hk => ?_
    rw [checked, withNullCheck, mapLeavesAll, mapLeaves, withoutRemoved] at hk
    · split_ifs at hk
      · cases hk
      · exact List.mem_singleton.1 hk
    · simp
  | column c =>
    cases hp : c.pruneable with
    | true =>
      rw [checked_implied hp, checked_implied hp]
      refine hsame _ fun k hk => ?_
      split_ifs at hk
      · cases hk
      · exact List.mem_singleton.1 hk
    | false =>
      rw [checked_asked hp, checked_asked hp]
      exact evalAll_withNullCheck_of_matches hsub hpresent he

end

theorem flat_checked : Flat (checked removed outer idDbType) := by
  intro c hc k hk
  have hflat : plansOf (c.withNullCheck outer idDbType) = [] :=
    plansOf_eq_nil_iff.2 fun k hk => flat_withNullCheck c hc k hk
  have hchecked : plansOf (mapLeavesAll (withoutRemoved removed) (c.withNullCheck outer idDbType)) = [] := by
    rw [plansOf_mapLeavesAll flat_withoutRemoved, hflat, List.map_nil]
  exact plansOf_eq_nil_iff.1 hchecked k hk

/-- Something stands in the place of what does not go with a table. -/
theorem mapLeaves_checked_ne_nil {c : Condition} (h : c.isPruneable = false) :
    c.mapLeaves (checked removed outer idDbType) ≠ [] := by
  cases c with
  | column c =>
    rw [mapLeaves, checked_asked h, withNullCheck]
    split_ifs <;> simp
  | raw r =>
    rw [mapLeaves, checked_raw h]
    simp
  | _ => simp [mapLeaves]

end Condition

namespace Plan

variable {p q r : Plan} {T : JoinTree} {removed outer outer' present names : List String} {a : String}
  {idDbType : String → String} {db : Database}

/-! ### Which tables are tested -/

theorem primaryIds_of_forall₂ (h : List.Forall₂ (Assignment.Matches present names)
      (p.rows db .empty) (q.rows db .empty))
    (hp : p.primaryAlias? = some a) (hq : q.primaryAlias? = some a) (ha : a ∈ names) :
    p.primaryIds db = q.primaryIds db := by
  have hmap : (p.rows db .empty).map (· a) = (q.rows db .empty).map (· a) := by
    rw [← List.forall₂_eq_eq_eq, List.forall₂_map_left_iff, List.forall₂_map_right_iff]
    exact h.imp fun _ _ hm => hm.agree a ha
  have hmem : ∀ {es es' : List Assignment}, es.map (· a) = es'.map (· a) → ∀ e ∈ es,
      ∃ e' ∈ es', e' a = e a := fun {es es'} hmap e he => by
    have hm : e a ∈ es.map (· a) := List.mem_map_of_mem he
    rw [hmap] at hm
    exact List.mem_map.1 hm
  exact primaryIds_eq hp hq (hmem hmap) (hmem hmap.symm)

theorem isPrimary_comp_mapPlan (g : Plan → Plan) : Table.isPrimary ∘ Table.mapPlan g = Table.isPrimary :=
  funext fun t => by cases t <;> rfl

theorem aliasName_comp_mapPlan (g : Plan → Plan) : Table.aliasName ∘ Table.mapPlan g = Table.aliasName :=
  funext fun _ => Table.aliasName_mapPlan

theorem primaryAlias?_mapLeaves {f : Condition → List Condition} :
    (p.mapLeaves f).primaryAlias? = p.primaryAlias? := by
  rw [primaryAlias?, primaryAlias?, tables_mapLeaves, List.find?_map, Option.map_map,
    isPrimary_comp_mapPlan, aliasName_comp_mapPlan]

theorem primaryAlias?_loosened : (p.loosened names).primaryAlias? = p.primaryAlias? := by
  rw [primaryAlias?, primaryAlias?, loosened, List.find?_map, Option.map_map]
  have hprimary : Table.isPrimary ∘ Table.loosened names = Table.isPrimary :=
    funext fun t => by cases t <;> rfl
  have hname : Table.aliasName ∘ Table.loosened names = Table.aliasName :=
    funext fun _ => Table.aliasName_loosened
  rw [hprimary, hname]

/-- The primary table stays. -/
theorem primaryAlias?_prune {keep : List String} (hnodup : (p.tables.map Table.aliasName).Nodup) :
    (p.prune keep).primaryAlias? = p.primaryAlias? := by
  obtain ⟨gone, htrim, hgone⟩ := exists_trim_eq keep p
  rw [primaryAlias?, primaryAlias?, prune_eq, htrim]
  show (List.find? _ (List.map _ (List.map _ (List.filter _ p.tables)))).map _ = _
  rw [List.find?_map, List.find?_map, Option.map_map, Option.map_map, isPrimary_comp_mapPlan,
    isPrimary_comp_mapPlan, aliasName_comp_mapPlan, aliasName_comp_mapPlan, ← List.head?_filter,
    ← List.head?_filter, List.filter_filter]
  refine congrArg (fun ts => (List.head? ts).map Table.aliasName) (List.filter_congr fun t ht => ?_)
  cases hp : t.isPrimary with
  | false => rw [Bool.false_and]
  | true =>
    have hleft : t.aliasName ∉ gone := fun hm => by
      exact ((hgone _).1 hm).2 (stays_of_isPrimary hnodup ht hp)
    simp [hleft]

theorem tables_loosened_of_tree (hT : p.tables = T.tables) :
    (p.loosened names).tables = (T.loosened names).tables := by
  rw [JoinTree.tables_loosened, ← hT]
  rfl

theorem nestedPlans_loosened : (p.loosened names).nestedPlans = p.nestedPlans := by
  have htables : (p.loosened names).tables.flatMap Table.plans = p.tables.flatMap Table.plans := by
    rw [loosened, List.flatMap_map]
    exact List.flatMap_congr fun t _ => by cases t <;> rfl
  rw [nestedPlans, nestedPlans, htables]
  rfl

theorem allAliases_loosened : (p.loosened names).allAliases = p.allAliases := by
  rw [allAliases_eq_nested, allAliases_eq_nested, nestedPlans_loosened, loosened,
    Table.map_aliasName_loosened]

theorem Everywhere.loosened {P : Plan → Prop} (h : p.Everywhere P) (hp : P (p.loosened names)) :
    (p.loosened names).Everywhere P :=
  .intro hp fun q hq => h.nested q (nestedPlans_loosened ▸ hq)

theorem Sequenced.loosened (h : p.Sequenced) : (p.loosened names).Sequenced := by
  have hreferents : ∀ t : Table, (t.loosened names).referents = t.referents := fun t => by
    cases t with
    | join j => simp [Table.loosened, Table.referents]
    | _ => rfl
  constructor
  · refine List.forall_mem_map.2 fun t ht => ?_
    rw [hreferents, Table.aliasName_loosened]
    exact h.irreflexive t ht
  · refine List.pairwise_map.2 (h.pairwise.imp fun hnot => ?_)
    rwa [hreferents, Table.aliasName_loosened]

/-- What is outer-joined in the whole plan and not in the parts is the primary table of a part. -/
theorem Mirrors.vouches (hnodup : (p.tables.map Table.aliasName).Nodup) (h : q.Everywhere p.Mirrors)
    (houter : ∀ a, q.OuterJoins a → a ∈ outer)
    (hpresent : ∀ a ∈ present, a ∈ outerJoined p.tables ∧ a ∉ outer) :
    q.Everywhere fun q => ∀ t ∈ q.tables, t.aliasName ∈ present → t.isPrimary = true := by
  induction h with
  | intro here _ ih =>
    refine .intro (fun t ht ha => ?_) fun r hr => ih r hr fun a ha => houter a (.nested hr ha)
    obtain ⟨hjoined, hnot⟩ := hpresent _ ha
    obtain ⟨j, hj, hkind, hname⟩ := mem_outerJoined_iff.1 hjoined
    rcases here.tables t ht with ⟨hprimary, -⟩ | ⟨j', rfl, hj'⟩ | ⟨x, b, query, rfl, hnew⟩
    · exact hprimary
    · rw [Table.join.inj (Table.eq_of_aliasName hnodup hj hj' hname)] at hkind
      exact absurd (houter _ (.here ht hkind)) hnot
    · exact absurd (List.mem_map.2 ⟨_, hj, hname⟩) hnew

theorem vouches_of_isPrimary
    (h : q.Everywhere fun q => ∀ t ∈ q.tables, t.aliasName ∈ present → t.isPrimary = true) :
    (q.loosened names).Everywhere (Vouches present) := by
  have hone : ∀ q : Plan, (∀ t ∈ q.tables, t.aliasName ∈ present → t.isPrimary = true) →
      q.Vouches present := fun q hq t ht ha => by
    have hprimary := hq t ht ha
    cases t with
    | primary => trivial
    | _ => cases hprimary
  refine (h.imp hone).loosened (hone _ ?_)
  refine List.forall_mem_map.2 fun t ht ha => ?_
  have hprimary := h.here t ht (by rwa [Table.aliasName_loosened] at ha)
  cases t with
  | primary => rfl
  | _ => cases hprimary

/-! ### Pruning -/

theorem Orderly.everywhere (h : p.Orderly) : p.Everywhere Orderly := by
  induction everywhere_of_forall (fun _ => trivial) p with
  | intro _ _ ih => exact .intro h fun r hr => ih r hr (h.nested hr)

theorem Everywhere.and {P R : Plan → Prop} (h : p.Everywhere P) (h' : p.Everywhere R) :
    p.Everywhere fun q => P q ∧ R q := by
  induction h with
  | intro here _ ih => exact .intro ⟨here, h'.here⟩ fun r hr => ih r hr (h'.nested r hr)

theorem Founded.condition_mapLeaves_ne (h : p.Founded) :
    (p.mapLeaves (Condition.checked removed outer idDbType)).condition ≠ some ⟨.or, []⟩ := by
  rw [condition_mapLeaves]
  cases hc : p.condition with
  | none => exact fun h => nomatch h
  | some g =>
    obtain ⟨op, cs⟩ := g
    intro heq
    rw [Group.mapLeavesTop, Group.mapLeaves, Option.some.injEq, Group.mk.injEq] at heq
    obtain ⟨rfl, hnil⟩ := heq
    obtain ⟨c, hm, hstays⟩ := h cs hc
    have hne : c.mapLeaves (Condition.checked removed outer idDbType) ≠ [] :=
      Condition.mapLeaves_checked_ne_nil hstays
    obtain ⟨k, hk⟩ := List.exists_mem_of_ne_nil _ hne
    have hall : k ∈ Condition.mapLeavesAll (Condition.checked removed outer idDbType) cs :=
      Condition.mem_mapLeavesAll_iff.2 ⟨c, hm, hk⟩
    rw [hnil] at hall
    cases hall

section

variable (hT : p.tables = T.tables) (hseqp : p.Sequenced) (hremoved : p.IsRemoved [] removed)
  (hmirrors : q.Everywhere p.Mirrors) (horderly : q.Orderly)

include hT hseqp hremoved hmirrors horderly

/-- Pruning selects what the plan without the conditions on the tables that go selects. -/
theorem selectsSame_checked (houter : ∀ j ∈ T.joins, ¬ p.Needed [] j.aliasName → j.kind = .outer) :
    SelectsSame db [] (q.mapLeaves (Condition.checked removed outer idDbType))
      ((q.mapLeaves (Condition.withNullCheck outer idDbType)).prune []) := by
  have hsame : Condition.SameReferences (Condition.withNullCheck outer idDbType) :=
    Condition.sameReferences_withNullCheck
  have hflat : Condition.Flat (Condition.withNullCheck outer idDbType) := Condition.flat_withNullCheck
  have hall := hmirrors.and horderly.everywhere
  rw [← mapLeaves_mapLeaves Condition.composes_checked]
  refine selectsSame_of_settled (horderly.mapLeaves hsame hflat)
    (hall.mapLeaves hflat fun r hr => ?_) ?_ (hall.mapLeaves hflat fun r hr => ?_)
  · exact (hr.1.lossless hT hr.2.sequenced.here (nodup_names hr.2.nodup) houter).mapLeaves hsame
  · rw [mapLeaves_mapLeaves Condition.composes_checked]
    exact hmirrors.mapLeaves Condition.flat_checked fun _ hr => hr.founded.condition_mapLeaves_ne
  · exact (hr.1.settled hT hr.2.sequenced.here (nodup_names hr.2.nodup) hseqp hremoved).mapLeaves
      hsame hflat Condition.sheds_withNullCheck

end

/-- A plan without subqueries loses the conditions that go with its tables. -/
theorem topConditions_prune_of_depth (hdepth : p.depth = 0) (hremoved : p.IsRemoved [] removed)
    (hne : (p.mapLeaves (Condition.withoutRemoved removed)).condition ≠ some ⟨.or, []⟩) :
    (p.prune []).topConditions =
      Condition.mapLeavesAll (Condition.withoutRemoved removed) p.topConditions := by
  obtain ⟨gone, htrim, hgone⟩ := exists_trim_eq [] p
  have htrimmed : (p.trim []).depth = 0 := Nat.le_zero.1 (depth_trim_le.trans hdepth.le)
  rw [prune_eq, mapPlans_of_depth htrimmed, htrim,
    without_congr fun a => (hgone a).trans (hremoved a).symm]
  by_cases hnil : removed = []
  · rw [hnil, without_nil, Condition.withoutRemoved_nil, Condition.mapLeavesAll_id]
  · rw [without_eq_remove hnil]
    obtain ⟨selects, tables, condition, sortKeys, groupBys, ctes⟩ := p
    rw [← topConditions_mapLeaves]
    unfold remove mapLeaves topConditions
    rw [condition_mapLeaves] at hne
    dsimp only at hne ⊢
    generalize Group.mapLeavesTop (Condition.withoutRemoved removed) condition = g at hne ⊢
    match g with
    | none => rfl
    | some ⟨.and, []⟩ => rfl
    | some ⟨.or, []⟩ => exact absurd rfl hne
    | some ⟨_, _ :: _⟩ => rfl

/-- The parts outer-join what the whole plan outer-joins. -/
theorem Mirrors.mem_outerJoined (h : q.Everywhere p.Mirrors) (ha : q.OuterJoins a) :
    a ∈ outerJoined p.tables := by
  induction ha with
  | here hj hkind =>
    rcases h.here.tables _ hj with ⟨hprimary, -⟩ | ⟨j, he, hm⟩ | ⟨x, b, query, he, -⟩
    · cases hprimary
    · exact mem_outerJoined_iff.2 ⟨_, hm, hkind, rfl⟩
    · cases he
  | nested hr _ ih => exact ih (h.nested _ hr)

/-- Plans with the same combinations of rows select the same primary rows. -/
theorem SelectsSame.primaryIds (h : SelectsSame db [] p q) (hp : p.primaryAlias? = some a)
    (hq : q.primaryAlias? = some a) : p.primaryIds db = q.primaryIds db := by
  cases h with
  | intro hcombinations =>
  have hrows := hcombinations .empty .empty fun _ _ => rfl
  have ha : a ∈ q.tables.map Table.aliasName := by
    obtain ⟨t, ht, rfl⟩ := Option.map_eq_some_iff.1 hq
    exact List.mem_map_of_mem (List.mem_of_find?_eq_some ht)
  refine primaryIds_eq hp hq (fun e he => ?_) fun e he => ?_
  · obtain ⟨e', he', heq⟩ := hrows.subset ⟨e, he, rfl⟩
    exact ⟨e', he', by simpa [Assignment.restrict, ha] using congrFun heq a⟩
  · obtain ⟨e', he', heq⟩ := hrows.superset ⟨e, he, rfl⟩
    exact ⟨e', he', by simpa [Assignment.restrict, ha] using congrFun heq a⟩

theorem orderly_loosened (hnodup : q.allAliases.Nodup) (hscoped : (q.loosened names).Scoped []) :
    (q.loosened names).Orderly :=
  hscoped.orderly (by rwa [allAliases_loosened])

section

variable (hT : p.tables = T.tables) (hseqp : p.Sequenced) (hremoved : p.IsRemoved [] removed)

include hT hseqp hremoved

/-- A join that is not needed is an outer one in the loosened plan. -/
theorem kind_of_not_needed {j : Join} (hj : j ∈ (T.loosened removed).joins)
    (hdead : ¬ (p.loosened removed).Needed [] j.aliasName) : j.kind = .outer := by
  have hgone : j.aliasName ∈ removed := by
    by_contra hleft
    have hT' : (p.loosened removed).tables = (T.loosened removed).tables := tables_loosened_of_tree hT
    have hm : Table.join j ∈ (p.loosened removed).tables :=
      hT' ▸ JoinTree.mem_tables_iff.2 (.inr ⟨j, hj, rfl⟩)
    rcases ((isRemoved_loosened_iff.2 hremoved).not_mem_iff hseqp.loosened (nodup_names_of_tree hT') _
      hm).1 hleft with hprimary | hneeded
    · cases hprimary
    · exact hdead hneeded
  obtain ⟨j', -, rfl⟩ := List.mem_map.1 hj
  rw [Join.aliasName_loosened] at hgone
  exact Join.kind_loosened hgone

variable (hnodup : q.allAliases.Nodup) (hscoped : (q.loosened removed).Scoped [])
  (hloosened : (q.loosened removed).Everywhere (p.loosened removed).Mirrors)

include hnodup hscoped hloosened

/-- Inner joins that go from the whole plan go from the part too. -/
theorem prune_addNullChecks_eq : (q.addNullChecks idDbType).prune [] =
    ((q.loosened removed).mapLeaves (Condition.withNullCheck q.outerAliases idDbType)).prune [] := by
  have hT' : (p.loosened removed).tables = (T.loosened removed).tables := tables_loosened_of_tree hT
  rw [addNullChecks, mapLeaves_loosened]
  refine (prune_loosened fun j hj hm => ?_).symm
  have hstays : (q.loosened removed).Stays [] j.aliasName ↔ q.Stays [] j.aliasName :=
    stays_loosened_iff
  rw [stays_mapLeaves_iff Condition.sameReferences_withNullCheck, ← hstays]
  have horderly := orderly_loosened hnodup hscoped
  have hj' : j.aliasName ∈ (q.loosened removed).tables.map Table.aliasName := by
    rw [loosened, Table.map_aliasName_loosened, ← names_mapLeaves]
    exact List.mem_map_of_mem hj
  have hp : j.aliasName ∈ (p.loosened removed).tables.map Table.aliasName := by
    obtain ⟨⟨t, ht, -, hname⟩, -⟩ := (hremoved _).1 hm
    rw [loosened, Table.map_aliasName_loosened]
    exact List.mem_map.2 ⟨t, ht, hname⟩
  exact (hloosened.here.mem_removed_iff hT' horderly.sequenced.here (nodup_names horderly.nodup)
    hseqp.loosened (isRemoved_loosened_iff.2 hremoved) hj' hp).1 hm

/-- The rewritten plan, checked and pruned, selects what the rewritten plan selects with the leaves
that the plan with joins gets in the end. -/
theorem primaryIds_prune_addNullChecks (hmirrors : q.Everywhere p.Mirrors) (hids : db.HasIds)
    (hprimary : q.primaryAlias? = some a) :
    ((q.addNullChecks idDbType).prune []).primaryIds db =
      ((q.loosened removed).mapLeaves
        (Condition.checked removed (outerJoined p.tables) idDbType)).primaryIds db := by
  have hT' : (p.loosened removed).tables = (T.loosened removed).tables := tables_loosened_of_tree hT
  have horderly := orderly_loosened hnodup hscoped
  have halias : ∀ f, ((q.loosened removed).mapLeaves f).primaryAlias? = some a := fun f => by
    rw [primaryAlias?_mapLeaves, primaryAlias?_loosened, hprimary]
  have hselects : SelectsSame db [] ((q.loosened removed).mapLeaves
      (Condition.checked removed q.outerAliases idDbType)) _ :=
    selectsSame_checked hT' hseqp.loosened (isRemoved_loosened_iff.2 hremoved) hloosened horderly
      fun j => kind_of_not_needed hT hseqp hremoved
  have hpruned : (((q.loosened removed).mapLeaves
      (Condition.withNullCheck q.outerAliases idDbType)).prune []).primaryAlias? = some a := by
    rw [primaryAlias?_prune, halias]
    rw [names_mapLeaves]
    exact nodup_names horderly.nodup
  rw [prune_addNullChecks_eq hT hseqp hremoved hnodup hscoped hloosened,
    ← hselects.primaryIds (halias _) hpruned]
  -- which tables are tested for rows makes no difference any more
  have hmatches : Condition.Matches db ((outerJoined p.tables).filter (· ∉ q.outerAliases))
      (Condition.checked removed q.outerAliases idDbType)
      (Condition.checked removed (outerJoined p.tables) idDbType) :=
    Condition.matches_checked (fun b hb => Mirrors.mem_outerJoined hmirrors (mem_outerAliases_iff.1 hb))
      fun b hb hnot => List.mem_filter.2 ⟨hb, decide_eq_true hnot⟩
  have hvouches : (q.loosened removed).Everywhere (Vouches _) :=
    vouches_of_isPrimary (Mirrors.vouches (nodup_names_of_tree hT) hmirrors
      (fun b => mem_outerAliases_iff.2) fun b hb =>
        (List.mem_filter.1 hb).imp_right fun hnot => of_decide_eq_true hnot)
  refine primaryIds_of_forall₂ (rows_mapLeaves hids hmatches hscoped hvouches
    ⟨fun _ _ => rfl, fun _ hb => absurd hb List.not_mem_nil⟩) (halias _) (halias _) ?_
  obtain ⟨t, ht, rfl⟩ := Option.map_eq_some_iff.1 (halias fun c => [c])
  rw [mapLeaves_id] at ht
  exact List.mem_append_left _ (List.mem_map_of_mem (List.mem_of_find?_eq_some ht))

end

end Plan

end EntityQuery
