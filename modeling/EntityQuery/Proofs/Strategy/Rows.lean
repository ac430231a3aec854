import EntityQuery.Proofs.Existence.Plan
import EntityQuery.Proofs.Lateral.Combinations

/-!
# Rows under different strategies

A collection can stay a join, become an existence condition or become a lateral subquery.  The three
differ in what they make of a parent without rows, of conditions that were not asked for beside a
disjunction, and of several groups of conditions on one collection.  Where the conditions leave no
room for these differences, the plans select the same rows of the primary table.

* `Plan.primaryIds`: the ids of the primary rows that a plan selects;
* `Plan.Agreeable`: what is asked of the conditions;
* `Plan.Supported`: conditions that were not asked for have one beside them that was;
* `Plan.primaryIds_toExistence`, `Plan.primaryIds_lateralPlan`: the rewritten plans select the same.
-/

namespace EntityQuery

open Existence Lateral

/-- The ids of the primary rows that a plan selects. -/
def Plan.primaryIds (db : Database) (p : Plan) : Set Value :=
  {v | ∃ e ∈ p.rows db .empty, ∃ a, p.primaryAlias? = some a ∧ e.value ⟨a, "id"⟩ = v}

/-- The conditions are met alike by a join, an existence condition and a column of a lateral subquery.
A collection that is read alone is decided on.  One that becomes a subquery and is read beside other
tables has no guards and one group, which is not true without a row or asks for no row. -/
structure Plan.Agreeable (db : Database) (threshold : Nat) (joins : List Join) (p : Plan) : Prop where
  alone : ∀ d, (Collections.ofPlan p joins).isCollection d = true →
    Decides db (Collections.ofPlan p joins) d p.topConditions
  shared : ∀ force, ∀ u ∈ (p.lateralScope force threshold joins).active,
    ¬ ReadsAlone (Collections.ofPlan p joins) u p.topConditions →
      guardsOf (p.lateralScope force threshold joins) p.topConditions u = [] ∧
      ∀ c, Lifts (p.lateralScope force threshold joins) .and
          (askedOf (p.lateralScope force threshold joins) p.topConditions) u c →
        (c.isMissing u = true ∨ RejectsNull db c) ∧
        ∀ c', Lifts (p.lateralScope force threshold joins) .and
          (askedOf (p.lateralScope force threshold joins) p.topConditions) u c' → c = c'

/-- Where a condition that was not asked for reads a collection's own tables, one that was asked for
reads the collection too. -/
def Plan.Supported (joins : List Join) (p : Plan) : Prop :=
  ∀ k ∈ p.topConditions, k.isPruneable = true → ∀ a ∈ k.aliases, ∀ d,
    (Collections.ofPlan p joins).nearest? a = some d →
      ∃ k' ∈ p.topConditions, k'.isPruneable = false ∧
        ∃ a' ∈ k'.aliases, d ∈ (Collections.ofPlan p joins).above a'

theorem Plan.primaryIds_eq {db : Database} {p q : Plan} {a : String}
    (hp : p.primaryAlias? = some a) (hq : q.primaryAlias? = some a)
    (hpq : ∀ e ∈ p.rows db .empty, ∃ e' ∈ q.rows db .empty, e' a = e a)
    (hqp : ∀ e ∈ q.rows db .empty, ∃ e' ∈ p.rows db .empty, e' a = e a) :
    p.primaryIds db = q.primaryIds db := by
  ext v
  simp only [primaryIds, Set.mem_ofPred_eq, hp, hq, Option.some.injEq, exists_eq_left']
  constructor
  · rintro ⟨e, he, rfl⟩
    obtain ⟨e', he', heq⟩ := hpq e he
    exact ⟨e', he', Assignment.value_congr heq⟩
  · rintro ⟨e, he, rfl⟩
    obtain ⟨e', he', heq⟩ := hqp e he
    exact ⟨e', he', Assignment.value_congr heq⟩

/-! ### The groups of a collection that is read alone -/

section

variable {s : Scope} {top : List Condition} {u : String} {c k : Condition} {op : Connective}
  {siblings : List Condition}

variable (hI : s.Independent) (hF : s.tree.IsForest) (hu : u ∈ s.active)

include hI hF hu

theorem Lateral.only?_of_asksOf (h : asksOf s.tree u k = true) : s.only? k = some u := by
  obtain ⟨-, hne, hall⟩ := asksOf_iff.1 h
  obtain ⟨a, ha⟩ := List.exists_mem_of_ne_nil k.aliases hne
  have hunit := fun a ha => (Scope.unit?_eq_some_iff hI hF).2 ⟨hu, hall a ha⟩
  exact Scope.only?_eq_some_iff.2 ⟨⟨a, ha, hunit a ha⟩, hunit⟩

/-- What is asked of a collection that is read alone stands at the top and is replaced as one group. -/
theorem Lateral.eq_of_lifts (halone : ReadsAlone s.tree u top)
    (h : Lifts s .and (askedOf s top) u c) :
    c = asOne .and ((askedOf s top).filter fun m => s.only? m = some u) ∧
      ∃ m ∈ askedOf s top, s.only? m = some u := by
  cases h with
  | here h => exact ⟨rfl, h⟩
  | @inside _ op' _ conditions _ _ hm hn h =>
    obtain ⟨m, hm', a, ha, hua⟩ := exists_unit?_of_lifts h
    have hreads : ∃ a ∈ (Condition.group ⟨op', conditions⟩).aliases, u ∈ s.tree.above a :=
      ⟨a, Condition.mem_aliases_group.2 ⟨m, hm', ha⟩, (Scope.of_unit? hua).2⟩
    rw [only?_of_asksOf hI hF hu (halone _ (List.mem_filter.1 hm).1 rfl hreads)] at hn
    cases hn

/-- The members of that group are what is asked of the collection. -/
theorem Lateral.filter_askedOf (top : List Condition) :
    ((askedOf s top).filter fun m => s.only? m = some u) = top.filter (asksOf s.tree u) := by
  rw [askedOf, List.filter_filter]
  refine List.filter_congr fun k _ => ?_
  rw [Bool.eq_iff_iff, Bool.and_eq_true, decide_eq_true_iff, Bool.not_eq_true']
  constructor
  · rintro ⟨honly, hguard⟩
    obtain ⟨⟨a, ha, -⟩, hall⟩ := Scope.only?_eq_some_iff.1 honly
    refine asksOf_iff.2 ⟨?_, List.ne_nil_of_mem ha, fun a ha => (Scope.of_unit? (hall a ha)).2⟩
    -- what was not asked for and reads the collection alone is a guard
    rw [← Bool.not_eq_true]
    intro hp
    have hunits : (s.units k).1 = [u] := Scope.units_eq_singleton_iff.2
      ⟨⟨a, ha, hall a ha⟩, fun a ha v hv => by
        rw [hall a ha, Option.some.injEq] at hv
        exact hv.symm⟩
    rw [isGuard, hp, hunits] at hguard
    cases hguard
  · intro hasks
    exact ⟨only?_of_asksOf hI hF hu hasks, by rw [isGuard, (asksOf_iff.1 hasks).1, Bool.false_and]⟩

end

theorem Existence.rejectsNull_asOne {db : Database} {members : List Condition} {k : Condition}
    (hk : k ∈ members) (hnull : RejectsNull db k) : RejectsNull db (asOne .and members) := by
  intro e he hholds
  rw [holds_asOne_iff, Condition.holds_all_iff] at hholds
  exact hnull e (fun a ha => he a (mem_aliases_asOne_iff.2 ⟨k, hk, ha⟩)) (hholds k hk)

/-! ### Conditions that compare values -/

/-- The predicate compares with values, or asks for one to be there. -/
def Predicate.isStrict : Predicate → Bool
  | .compare .. | .isIn _ | .notIn _ | .between .. | .notNull => true
  | _ => false

/-- A predicate on a column that is not true of null. -/
def Condition.isStrict : Condition → Bool
  | .column c => c.predicate.isStrict
  | _ => false

theorem Predicate.eval_null_of_isStrict {db : Database} {p : Predicate} (h : p.isStrict = true) :
    p.eval db .null ≠ some true := by
  cases p <;> simp_all [isStrict, eval, Value.compare?, Value.among?, Value.isNull]

theorem Existence.rejectsNull_of_isStrict {db : Database} {k : Condition} (h : k.isStrict = true) :
    RejectsNull db k := by
  cases k with
  | column c =>
    intro e he
    have hnull : e.value ⟨c.aliasName, c.column⟩ = .null :=
      Assignment.value_of_none (he c.aliasName (List.mem_singleton_self _))
    rw [Condition.Holds, Condition.eval, hnull]
    exact Predicate.eval_null_of_isStrict h
  | _ => cases h

namespace Plan

variable {T : JoinTree} {p : Plan} {joins : List Join} {db : Database} {force : Bool}
  {threshold : Nat} {supply supply' : AliasSupply} {r : Resolved} {u : String} {c : Condition}

/-- A plan is agreeable that asks for comparisons with values alone, each in a condition of its own. -/
theorem agreeable_of_isStrict
    (h : ∀ k ∈ p.topConditions, k.isPruneable = false → k.isStrict = true) :
    p.Agreeable db threshold joins := by
  have halone : ∀ d, ReadsAlone (Collections.ofPlan p joins) d p.topConditions := by
    rintro d k hk hp ⟨a, ha, hd⟩
    have hstrict := h k hk hp
    cases k with
    | column c =>
      refine asksOf_iff.2 ⟨hp, List.cons_ne_nil _ _, fun b hb => ?_⟩
      rw [List.mem_singleton.1 hb, ← List.mem_singleton.1 ha]
      exact hd
    | _ => cases hstrict
  refine ⟨fun d _ _ ⟨k, hk, hasks⟩ => .inl ⟨k, hk, hasks, ?_⟩, fun _ u _ hnot => absurd (halone u) hnot⟩
  exact rejectsNull_of_isStrict (h k hk (asksOf_iff.1 hasks).1)

theorem primaryAlias?_of_tree (h : p.tables = T.tables) : p.primaryAlias? = some T.aliasName := by
  rw [primaryAlias?, h]
  rfl

/-- The primary table stays the primary one among tables that are left and others behind them. -/
theorem primaryAlias?_of_filter {keep : Table → Bool} (others : List Table)
    (h : p.tables = T.tables.filter keep ++ others)
    (hkeep : keep (.primary T.aliasName T.table) = true) : p.primaryAlias? = some T.aliasName := by
  rw [primaryAlias?, h, JoinTree.tables, List.filter_cons_of_pos hkeep]
  rfl

/-! ### Existence conditions -/

theorem Agreeable.telling (h : p.Agreeable db threshold joins) (hsupported : p.Supported joins)
    (hflat : ∀ k ∈ p.topConditions, k.plans = []) :
    Telling db (Collections.ofPlan p joins) p.topConditions :=
  ⟨hflat, fun _ _ d hcol _ => h.alone d hcol, hsupported⟩

section

variable (hT : p.tables = T.tables) (hjoins : ∀ j ∈ joins, j ∈ T.joins)

include hT hjoins

theorem primaryAlias?_toExistence (h : p.toExistence joins = .ok r) :
    r.plan.primaryAlias? = some T.aliasName := by
  refine primaryAlias?_of_filter []
    ((tables_toExistence h).trans (by rw [hT, List.append_nil])) ?_
  rw [decide_eq_true_iff]
  intro hm
  obtain ⟨root, -, hm⟩ := List.mem_flatMap.1 hm
  exact JoinTree.not_mem_above_primary hT hjoins
    ((JoinTree.isForest hT hjoins).mem_subtree_iff.1 hm)

/-- Existence conditions instead of joins: the same primary rows are selected. -/
theorem primaryIds_toExistence
    (houter : ∀ j ∈ T.joins, (Collections.ofPlan p joins).above j.aliasName ≠ [] → j.kind = .outer)
    (hcorr : ∀ j ∈ joins, db.Correlates j) (hids : db.HasIds)
    (hflat : ∀ k ∈ p.topConditions, k.plans = []) (hagree : p.Agreeable db threshold joins)
    (hsupported : p.Supported joins) (h : p.toExistence joins = .ok r) :
    r.plan.primaryIds db = p.primaryIds db := by
  have htelling := hagree.telling hsupported hflat
  have hprimary : T.aliasName ∈ r.plan.tables.map Table.aliasName :=
    (mem_aliases_toExistence hT hjoins h).2 ⟨List.mem_cons_self,
      fun _ _ => JoinTree.not_mem_above_primary hT hjoins⟩
  refine primaryIds_eq (primaryAlias?_toExistence hT hjoins h) (primaryAlias?_of_tree hT)
    (fun e he => ?_) fun e he => ?_
  · obtain ⟨e', he', heq⟩ :=
      exists_mem_rows_of_toExistence hT hjoins houter hcorr hids htelling h he
    exact ⟨e', he', heq _ hprimary⟩
  · exact ⟨_, restrict_mem_rows_toExistence hT hjoins houter hcorr hids htelling h he,
      if_pos hprimary⟩

/-! ### Lateral subqueries -/

/-- The groups of a collection that is read alone are one, which tells whether there is a row. -/
theorem Agreeable.of_lifts (h : p.Agreeable db threshold joins)
    (hl : Lifts (p.lateralScope force threshold joins) .and
      (askedOf (p.lateralScope force threshold joins) p.topConditions) u c) :
    (c.isMissing u = true ∨ RejectsNull db c) ∧
      ∀ c', Lifts (p.lateralScope force threshold joins) .and
        (askedOf (p.lateralScope force threshold joins) p.topConditions) u c' → c = c' := by
  obtain ⟨hs, hdiv⟩ : (p.lateralScope force threshold joins).tree = Collections.ofPlan p joins ∧
      Divisible (p.lateralScope force threshold joins) p.topConditions :=
    divisible_lateralScope hT hjoins
  have hu := mem_active_of_lifts hl
  by_cases halone : ReadsAlone (Collections.ofPlan p joins) u p.topConditions
  · have hF := JoinTree.isForest hT hjoins
    have hone := fun c hl => eq_of_lifts (c := c) hdiv.independent (hs ▸ hF) hu (hs ▸ halone) hl
    have hmembers := filter_askedOf hdiv.independent (hs ▸ hF) hu p.topConditions
    rw [hs] at hmembers
    obtain ⟨hc, m, hm, hmu⟩ := hone c hl
    have hasks : m ∈ p.topConditions.filter (asksOf (Collections.ofPlan p joins) u) :=
      hmembers ▸ List.mem_filter.2 ⟨hm, decide_eq_true hmu⟩
    refine ⟨?_, fun c' hl' => hc.trans (hone c' hl').1.symm⟩
    have hcol := hdiv.independent.collection u hu
    rw [hc, hmembers]
    rcases h.alone u (hs ▸ hcol) halone ⟨m, List.mem_filter.1 hasks⟩ with
      ⟨k, hk, hasks, hnull⟩ | ⟨⟨k, hone, hk⟩, -⟩
    · exact .inr (rejectsNull_asOne (List.mem_filter.2 ⟨hk, hasks⟩) hnull)
    · exact .inl (by rwa [hone])
  · exact (h.shared force u hu halone).2 c hl

theorem Agreeable.rejects (h : p.Agreeable db threshold joins) :
    Rejects db (p.lateralScope force threshold joins) p.topConditions := by
  obtain ⟨hs, -⟩ : (p.lateralScope force threshold joins).tree = Collections.ofPlan p joins ∧
      Divisible (p.lateralScope force threshold joins) p.topConditions :=
    divisible_lateralScope hT hjoins
  intro u c hl
  refine (h.of_lifts hT hjoins hl).1.imp id fun hnull e he => hnull e fun a ha => he a ?_
  have habove := (Scope.of_unit? (unit?_of_lifts hl a ha)).2
  rw [hs] at habove ⊢
  exact (JoinTree.isForest hT hjoins).mem_subtree_iff.2 habove

theorem Agreeable.condenses (h : p.Agreeable db threshold joins)
    (hu : u ∈ (p.lateralScope force threshold joins).active)
    (hr : isRewritten (columnsOf (p.lateralScope force threshold joins) supply p) u = true) :
    Condenses db (p.lateralScope force threshold joins) supply p u where
  same k k' _ _ hl hl' _ _ _ _ e := by rw [(h.of_lifts hT hjoins hl).2 k' hl']
  guards := by
    obtain ⟨hs, hdiv⟩ : (p.lateralScope force threshold joins).tree = Collections.ofPlan p joins ∧
        Divisible (p.lateralScope force threshold joins) p.topConditions :=
      divisible_lateralScope hT hjoins
    by_cases halone : ReadsAlone (Collections.ofPlan p joins) u p.topConditions
    · right
      have hF := JoinTree.isForest hT hjoins
      have hmembers := filter_askedOf hdiv.independent (hs ▸ hF) hu p.topConditions
      rw [hs] at hmembers
      obtain ⟨c, hl⟩ := exists_lifts_of_isRewritten hr
      obtain ⟨-, m, hm, hmu⟩ := eq_of_lifts hdiv.independent (hs ▸ hF) hu (hs ▸ halone) hl
      refine ⟨⟨m, hm, hmu⟩, fun hmissing g hg => ?_⟩
      have hasks : m ∈ p.topConditions.filter (asksOf (Collections.ofPlan p joins) u) :=
        hmembers ▸ List.mem_filter.2 ⟨hm, decide_eq_true hmu⟩
      rw [hmembers] at hmissing
      have hcol := hdiv.independent.collection u hu
      rcases h.alone u (hs ▸ hcol) halone ⟨m, List.mem_filter.1 hasks⟩ with
        ⟨k, hk, hasks, hnull⟩ | ⟨-, hchecks⟩
      · refine absurd ?_ (rejectsNull_asOne (List.mem_filter.2 ⟨hk, hasks⟩) hnull .empty
          fun _ _ => rfl)
        exact (Condition.holds_isMissing_iff hmissing).2 (Assignment.value_of_none rfl)
      · obtain ⟨hgtop, hp, -⟩ := mem_guardsOf_iff.1 hg
        obtain ⟨a, ha, hua⟩ := exists_unit?_of_mem_guardsOf hg
        exact hchecks g hgtop hp ⟨a, ha, hs ▸ (Scope.of_unit? hua).2⟩
    · exact .inl (h.shared force u hu halone).1

theorem primaryAlias?_lateralPlan :
    (lateralPlan (p.lateralScope force threshold joins) supply p).primaryAlias? =
      some T.aliasName := by
  obtain ⟨hs, -⟩ : (p.lateralScope force threshold joins).tree = Collections.ofPlan p joins ∧
      Divisible (p.lateralScope force threshold joins) p.topConditions :=
    divisible_lateralScope hT hjoins
  refine primaryAlias?_of_filter _ (congrArg (· ++ _) (congrArg (List.filter _) hT)) ?_
  rw [List.all_eq_true]
  intro u hu
  rw [Bool.or_eq_true]
  refine .inr (decide_eq_true fun hm => ?_)
  rw [hs] at hm
  exact JoinTree.not_mem_above_primary hT hjoins
    ((JoinTree.isForest hT hjoins).mem_subtree_iff.1 hm)

/-- Lateral subqueries instead of joins: the same primary rows are selected. -/
theorem primaryIds_lateralPlan
    (houter : ∀ j ∈ T.joins, (Collections.ofPlan p joins).above j.aliasName ≠ [] → j.kind = .outer)
    (hcorr : ∀ j ∈ joins, db.Correlates j) (hids : db.HasIds) (hreads : db.ReadsColumns)
    (hflat : ∀ k ∈ p.topConditions, k.plans = []) (hagree : p.Agreeable db threshold joins)
    (hfresh : Fresh (p.lateralScope force threshold joins) p supply) :
    (lateralPlan (p.lateralScope force threshold joins) supply p).primaryIds db =
      p.primaryIds db := by
  obtain ⟨hs, hdiv⟩ : (p.lateralScope force threshold joins).tree = Collections.ofPlan p joins ∧
      Divisible (p.lateralScope force threshold joins) p.topConditions :=
    divisible_lateralScope hT hjoins
  have hsurvives : Survives (p.lateralScope force threshold joins) supply p T.aliasName :=
    fun u _ _ hm => JoinTree.not_mem_above_primary hT hjoins (hs ▸ hm)
  refine primaryIds_eq (primaryAlias?_lateralPlan hT hjoins) (primaryAlias?_of_tree hT)
    (fun e he => ?_) fun e he => ?_
  · obtain ⟨e', he', heq⟩ := exists_mem_rows_of_lateralPlan hT hjoins hs hdiv hfresh hflat hcorr
      hreads houter (fun u hu hr => hagree.condenses hT hjoins hu hr) he
    exact ⟨e', he', heq _ List.mem_cons_self hsurvives⟩
  · obtain ⟨e', he', heq⟩ := exists_mem_rows_lateralPlan hT hjoins hs hdiv hfresh hflat hcorr hids
      hreads houter (hagree.rejects hT hjoins) he
    exact ⟨e', he', heq _ List.mem_cons_self hsurvives⟩

end

end Plan

end EntityQuery
