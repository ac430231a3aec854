import EntityQuery.Proofs.Failure.Basic
import EntityQuery.Proofs.Lateral.Combinations

/-!
# The rounds of the choice

Each round of the choice excludes the collections that are read together with other tables and
chooses again; excluding one may let those below it take its place.  A collection is excluded once,
so there is at most one round more than there are collections.

* `Lateral.Rounds`: the rounds as they are made, however many there are;
* `Lateral.exists_rounds`, `Lateral.Rounds.length_le`: the rounds end, and how soon;
* `Lateral.Rounds.settle_eq`: the choice is what they end with;
* `Lateral.Replaced`: a plan with lateral tables in the place of collections;
* `Plan.replaced_toLateral`: what comes of the choice.
-/

namespace EntityQuery

namespace Lateral

/-- The rounds as they are made, however many there are: with these collections excluded and these
warnings given, the choice ends after `n` rounds with the result. -/
inductive Rounds (t : Collections) (eligible : List String) (top : List Condition) :
    List String → List String → Nat → Except PlanError (Scope × List String) → Prop
  | refused {excluded warnings units : List String} {sql : String}
      (h : Condition.spanningOf? (Scope.unit? ⟨t, topmost t eligible excluded⟩) top =
        some (sql, units)) :
      Rounds t eligible top excluded warnings 1 (.error (.fragmentSpansRoots sql units))
  | settled {excluded warnings : List String}
      (h : Condition.spanningOf? (Scope.unit? ⟨t, topmost t eligible excluded⟩) top = none)
      (hpinned : Scope.pinned ⟨t, topmost t eligible excluded⟩ top = []) :
      Rounds t eligible top excluded warnings 1
        (.ok (⟨t, topmost t eligible excluded⟩, warnings))
  | again {excluded warnings pinned : List String} {n : Nat}
      {result : Except PlanError (Scope × List String)}
      (h : Condition.spanningOf? (Scope.unit? ⟨t, topmost t eligible excluded⟩) top = none)
      (hpinned : Scope.pinned ⟨t, topmost t eligible excluded⟩ top = pinned) (hne : pinned ≠ [])
      (hrest : Rounds t eligible top (excluded ++ pinned) (warnings ++ pinned.map warning) n
        result) :
      Rounds t eligible top excluded warnings (n + 1) result

section

variable {t : Collections} {eligible excluded warnings warnings' : List String}
  {top : List Condition} {s : Scope} {u : String}

/-! ### What a round excludes -/

/-- A topmost collection is eligible and not excluded. -/
theorem of_mem_topmost (hu : u ∈ topmost t eligible excluded) :
    u ∈ t.collections ∧ u ∈ eligible ∧ u ∉ excluded := by
  have step : ∀ cs units : List String,
      u ∈ cs.foldl (fun units c =>
        if c ∉ eligible || c ∈ excluded || units.any (t.inSubtree c ·) then units
        else units ++ [c]) units → u ∈ units ∨ u ∈ cs ∧ u ∈ eligible ∧ u ∉ excluded := by
    intro cs
    induction cs with
    | nil => exact fun units h => .inl h
    | cons c cs ih =>
      intro units h
      rw [List.foldl_cons] at h
      rcases ih _ h with h | ⟨h, he⟩
      · split_ifs at h with hskip
        · exact .inl h
        · rcases List.mem_append.1 h with h | h
          · exact .inl h
          · rw [List.mem_singleton.1 h]
            simp only [Bool.or_eq_true, not_or, decide_eq_true_eq, not_not] at hskip
            exact .inr ⟨List.mem_cons_self, hskip.1.1, hskip.1.2⟩
      · exact .inr ⟨List.mem_cons_of_mem c h, he⟩
  exact (step t.collections [] hu).resolve_left List.not_mem_nil

namespace Scope

theorem mem_active_of_mem_units {c : Condition} (hu : u ∈ (s.units c).1) : u ∈ s.active := by
  obtain ⟨a, -, ha⟩ := mem_units_iff.1 hu
  exact (of_unit? ha).1

mutual

theorem mem_active_of_mem_pinnedBy : ∀ {c : Condition}, u ∈ s.pinnedBy c → u ∈ s.active
  | .group ⟨op, cs⟩, hu => by
    simp only [pinnedBy] at hu
    split_ifs at hu
    · cases hu
    · exact mem_active_of_mem_pinnedByAll hu
  | .column _, hu | .raw _, hu | .existence .., hu => by
    simp only [pinnedBy] at hu
    split_ifs at hu
    · cases hu
    · exact mem_active_of_mem_units hu

theorem mem_active_of_mem_pinnedByAll : ∀ {cs : List Condition}, u ∈ s.pinnedByAll cs → u ∈ s.active
  | [], hu => by
    rw [pinnedByAll] at hu
    cases hu
  | c :: cs, hu => by
    rw [pinnedByAll, List.mem_append] at hu
    exact hu.elim mem_active_of_mem_pinnedBy mem_active_of_mem_pinnedByAll

end

/-- What has to stay a join was chosen. -/
theorem mem_active_of_mem_pinned (hu : u ∈ s.pinned top) : u ∈ s.active := by
  rw [pinned, mem_foldl_insertNew] at hu
  exact mem_active_of_mem_pinnedByAll (hu.resolve_left List.not_mem_nil)

end Scope

/-- The collections that are not excluded. -/
def remaining (t : Collections) (excluded : List String) : List String :=
  t.collections.filter (· ∉ excluded)

/-- A round that excludes anything leaves fewer collections. -/
theorem length_remaining_lt {pinned : List String}
    (hpinned : Scope.pinned ⟨t, topmost t eligible excluded⟩ top = pinned) (hne : pinned ≠ []) :
    (remaining t (excluded ++ pinned)).length < (remaining t excluded).length := by
  obtain ⟨u, hu⟩ := List.exists_mem_of_ne_nil _ hne
  have hchosen : u ∈ topmost t eligible excluded :=
    Scope.mem_active_of_mem_pinned (s := ⟨t, topmost t eligible excluded⟩) (hpinned ▸ hu)
  obtain ⟨hcollection, -, hfresh⟩ := of_mem_topmost hchosen
  have hsub : remaining t (excluded ++ pinned) = (remaining t excluded).filter (· ∉ pinned) := by
    rw [remaining, remaining, List.filter_filter]
    refine List.filter_congr fun c _ => ?_
    rw [Bool.and_comm]
    simp
  rw [hsub]
  refine List.length_filter_lt_length_iff_exists.2 ⟨u, ?_, by simpa using hu⟩
  exact List.mem_filter.2 ⟨hcollection, by simpa using hfresh⟩

/-! ### The rounds end -/

/-- However the collections are read, the rounds end. -/
theorem exists_rounds (t : Collections) (eligible : List String) (top : List Condition)
    (excluded warnings : List String) : ∃ n result, Rounds t eligible top excluded warnings n result := by
  induction hlen : (remaining t excluded).length using Nat.strong_induction_on
    generalizing excluded warnings with
  | _ k ih =>
    cases hspan : Condition.spanningOf? (Scope.unit? ⟨t, topmost t eligible excluded⟩) top with
    | some found => exact ⟨1, _, .refused hspan⟩
    | none =>
      by_cases hpinned : Scope.pinned ⟨t, topmost t eligible excluded⟩ top = []
      · exact ⟨1, _, .settled hspan hpinned⟩
      · have hlt := length_remaining_lt rfl hpinned
        obtain ⟨n, result, hrest⟩ := ih _ (hlen ▸ hlt) _ _ rfl
        exact ⟨n + 1, result, .again hspan rfl hpinned hrest⟩

namespace Rounds

variable {n : Nat} {result : Except PlanError (Scope × List String)}

/-- Every round but the last excludes a collection. -/
theorem length_le (h : Rounds t eligible top excluded warnings n result) :
    n ≤ (remaining t excluded).length + 1 := by
  induction h with
  | refused | settled => omega
  | again _ hpinned hne _ ih =>
    have := length_remaining_lt hpinned hne
    omega

/-- The choice is what the rounds end with, if enough of them are allowed. -/
theorem settle_eq (h : Rounds t eligible top excluded warnings n result) :
    ∀ rounds, n ≤ rounds + 1 → settle t eligible top rounds excluded warnings = result := by
  induction h with
  | refused h =>
    intro rounds _
    unfold settle
    simp only [h]
  | settled h hpinned =>
    intro rounds _
    unfold settle
    simp only [h, hpinned]
  | @again _ _ pinned n _ h hpinned hne hrest ih =>
    intro rounds hle
    obtain ⟨k, rfl⟩ : ∃ k, rounds = k + 1 := by
      -- the rounds behind this one are at least one
      have hpos : 0 < n := by cases hrest <;> omega
      exact ⟨rounds - 1, by omega⟩
    obtain ⟨c, cs, rfl⟩ := List.exists_cons_of_ne_nil hne
    unfold settle
    simp only [h, hpinned]
    exact ih k (by omega)

/-- What is chosen in the end was eligible. -/
theorem active_subset (h : Rounds t eligible top excluded warnings n result)
    (hs : result = .ok (s, warnings')) : s.active ⊆ eligible := by
  induction h with
  | refused => cases hs
  | settled =>
    obtain ⟨rfl, -⟩ := Prod.mk.inj (Except.ok.inj hs)
    exact fun u hu => (of_mem_topmost hu).2.1
  | again _ _ _ _ ih => exact ih hs

end Rounds

/-- The choice is made in one round more than there are collections at most. -/
theorem exists_rounds_settle (t : Collections) (eligible : List String) (top : List Condition) :
    ∃ n result, n ≤ t.collections.length + 1 ∧ Rounds t eligible top [] [] n result ∧
      settle t eligible top (t.collections.length + 1) [] [] = result := by
  obtain ⟨n, result, h⟩ := exists_rounds t eligible top [] []
  have hall : remaining t [] = t.collections := by simp [remaining]
  have hle := hall ▸ h.length_le
  exact ⟨n, result, hle, h, h.settle_eq _ (Nat.le_succ_of_le hle)⟩

end

/-! ### The conditions that stay outside -/

/-- The condition reads no table below a chosen collection. -/
def Scope.Spares (s : Scope) (c : Condition) : Prop :=
  ∀ a ∈ c.aliases, ∀ u ∈ s.active, u ∉ s.tree.above a

section

variable {s : Scope} {supply : AliasSupply} {top : List Condition} {c : Condition}

theorem Scope.spares_group_iff {op : Connective} {cs : List Condition} :
    s.Spares (.group ⟨op, cs⟩) ↔ ∀ c ∈ cs, s.Spares c := by
  constructor
  · exact fun h c hc a ha => h a (Condition.mem_aliases_group.2 ⟨c, hc, ha⟩)
  · intro h a ha
    obtain ⟨c, hc, ha⟩ := Condition.mem_aliases_group.1 ha
    exact h c hc a ha

/-- What is left of the conditions reads no table of a subquery: references read the subquery. -/
theorem spares_divided (hdiv : Divisible s top)
    (hnew : ∀ u ∈ s.active, ∀ v ∈ s.active, v ∉ s.tree.above (subqueryName supply u))
    (hc : c ∈ (divided s supply top).1) : s.Spares c := by
  have hfollows : Follows s (aliasOf s supply) (divided s supply top).2 (fun _ => True)
      (fun u _ => u ∈ s.active) (fun _ c => s.Spares c) := by
    refine ⟨fun _ _ _ => trivial, fun hall => Scope.spares_group_iff.2 ?_, id,
      fun _ hnil a ha => Scope.unit?_eq_none_iff.1 (Scope.units_eq_nil_iff.1 hnil a ha),
      fun {u name _} hu _ a ha => ?_⟩
    · induction hall with
      | nil => exact nofun
      | cons hfirst _ ih => exact List.forall_mem_cons.2 ⟨hfirst, ih⟩
    · rw [reference, Condition.aliases, List.mem_singleton, aliasOf_of_mem hu] at ha
      exact ha ▸ hnew u hu
  exact Scope.spares_group_iff.1 (follows_group hfollows (fun _ _ h => mem_active_of_lifts h)
    (fun _ _ => trivial) (pinnedByAll_askedOf hdiv) (List.Subset.refl _)) c hc

/-- A guard reads no table below another collection than the one that it guards. -/
theorem not_above_of_mem_guardsOf (hI : s.Independent) (hF : s.tree.IsForest) {u v a : String}
    (hc : c ∈ guardsOf s top u) (ha : a ∈ c.aliases) (hv : v ∈ s.active) (hne : v ≠ u) :
    v ∉ s.tree.above a := by
  intro hm
  have hunit := (Scope.unit?_eq_some_iff hI hF).2 ⟨hv, hm⟩
  exact hne ((Scope.units_eq_singleton_iff.1 (mem_guardsOf_iff.1 hc).2.2).2 a ha v hunit)

end

/-! ### The rewritten plan -/

/-- The table is the lateral table of a collection: it is joined to the parent of the collection and
queries the tables below it. -/
def IsLateralOf (p : Plan) (t : Collections) (unit : String) (x : Table) : Prop :=
  ∃ j name query, t.join? unit = some j ∧ x = .lateral name j.parent.aliasName query ∧
    query.tables = subqueryTables p.tables unit (t.subtree unit)

/-- The plan `q` has lateral tables in the place of these collections of the plan `p`: the tables
below none of them stay as they are, in front of the lateral tables; these are joined to tables that
stay, and all conditions at the top read tables that stay or lateral ones. -/
structure Replaced (p q : Plan) (t : Collections) (units : List String) (laterals : List Table) :
    Prop where
  tables : q.tables =
    (p.tables.filter fun x => ∀ u ∈ units, u ∉ t.above x.aliasName) ++ laterals
  each : List.Forall₂ (IsLateralOf p t) units laterals
  parents : ∀ x ∈ laterals, ∀ a, x.parentAlias? = some a →
    a ∈ p.tables.map Table.aliasName ∧ ∀ u ∈ units, u ∉ t.above a
  conditions : ∀ c ∈ q.topConditions, ∀ a ∈ c.aliases, ∀ u ∈ units, u ∉ t.above a

section

variable {s : Scope} {supply : AliasSupply} {p : Plan} {columns : List Column}
  {top : List Condition}

/-- The lateral tables belong to the collections with columns, one to each. -/
theorem forall₂_laterals (hI : s.Independent) :
    List.Forall₂ (IsLateralOf p s.tree) (s.active.filter (isRewritten columns))
      (laterals s top columns supply p.tables) := by
  have step : ∀ units ⊆ s.active, List.Forall₂ (IsLateralOf p s.tree)
      (units.filter (isRewritten columns))
      (units.filterMap (lateral? s top columns (subqueryName supply) p.tables)) := by
    intro units hsub
    induction units with
    | nil => exact .nil
    | cons u units ih =>
      obtain ⟨hu, hsub⟩ := List.cons_subset.1 hsub
      obtain ⟨j, hj⟩ := Option.isSome_iff_exists.1 (hI.collection u hu)
      by_cases hr : isRewritten columns u = true
      · have hl : lateral? s top columns (subqueryName supply) p.tables u =
            some (.lateral (subqueryName supply u) j.parent.aliasName
              (subqueryOf s top columns u j p.tables)) := by
          simp [lateral?, hj, hr]
        rw [List.filter_cons_of_pos hr, List.filterMap_cons_some hl]
        exact .cons ⟨j, _, _, hj, rfl, rfl⟩ (ih hsub)
      · have hl : lateral? s top columns (subqueryName supply) p.tables u = none := by
          simp [lateral?, hj, hr]
        rw [List.filter_cons_of_neg hr, List.filterMap_cons_none hl]
        exact ih hsub
  exact step s.active (List.Subset.refl _)

end

end Lateral

namespace Plan

open Lateral

variable {p : Plan} {joins : List Join} {force : Bool} {threshold : Nat} {s : Scope}
  {supply : AliasSupply}

/-- A plan with lateral tables has them in the place of the collections that have columns. -/
theorem replaced_lateralPlan (hts : Table.Ordered [] p.tables)
    (hjoins : ∀ j ∈ joins, Table.join j ∈ p.tables) (hs : s.tree = Collections.ofPlan p joins)
    (hdiv : Divisible s p.topConditions)
    (hnew : ∀ u ∈ s.active, subqueryName supply u ∉ p.tables.map Table.aliasName) :
    Replaced p (lateralPlan s supply p) (Collections.ofPlan p joins)
      (s.active.filter (isRewritten (divided s supply p.topConditions).2))
      (laterals s p.topConditions (divided s supply p.topConditions).2 supply p.tables) := by
  have hF : s.tree.IsForest := hs ▸ isForest joins hts
  have hI := hdiv.independent
  set columns := (divided s supply p.topConditions).2 with hcolumns
  rw [← hs]
  refine ⟨?_, forall₂_laterals hI, fun x hx a ha => ?_, fun c hc a ha u hu => ?_⟩
  · -- the tables outside are the ones that `outside` tells
    show outside s columns s.active p.tables ++ _ = _
    congr 1
    refine List.filter_congr fun x _ => Bool.eq_iff_iff.2 ?_
    rw [List.all_eq_true, decide_eq_true_iff]
    simp only [List.mem_filter, and_imp, hF.mem_subtree_iff, Bool.or_eq_true, Bool.not_eq_true',
      decide_eq_true_eq]
    refine forall₂_congr fun u _ => ?_
    cases isRewritten columns u <;> simp
  · obtain ⟨u, hu, j, hj, hr, rfl⟩ := mem_laterals_iff.1 hx
    obtain rfl := Option.some.inj ha
    rw [hs] at hj
    obtain ⟨hjm, rfl, -⟩ := of_join? hj
    have hparent : s.tree.parent? j.aliasName = some j.parent.aliasName := by
      rw [hs, Plan.parent?_iff hts.nodup]
      exact ⟨_, hjoins j hjm, rfl, rfl⟩
    refine ⟨?_, fun v hv hm => ?_⟩
    · have := (hF.mem_of_parent hparent).2
      rwa [hs] at this
    -- a collection above the parent is above the collection itself, so it is that one
    obtain rfl := hI.apart v (List.mem_filter.1 hv).1 _ hu (hF.mem_above_of_parent hparent hm)
    exact hF.ne_of_mem_chain_parent hparent (Collections.mem_above.1 hm).1 rfl
  · obtain ⟨hu, hr⟩ := List.mem_filter.1 hu
    rw [topConditions_lateralPlan] at hc
    rcases List.mem_append.1 hc with hc | hc
    · refine spares_divided hdiv (fun u hu v _ hm => ?_) hc a ha u hu
      exact hnew u hu (by rw [hs] at hm; exact (isForest joins hts).mem_aliases_of_above hm)
    · obtain ⟨v, hv, hc⟩ := List.mem_flatMap.1 hc
      split_ifs at hc with hrv
      · cases hc
      · refine not_above_of_mem_guardsOf hI hF hc ha hu ?_
        rintro rfl
        exact hrv hr

/-- What is chosen in the end is eligible. -/
theorem active_lateralScope_subset : (p.lateralScope force threshold joins).active ⊆
    eligible (Collections.ofPlan p joins) force threshold := by
  obtain ⟨n, result, -, hrounds, hsettle⟩ := exists_rounds_settle (Collections.ofPlan p joins)
    (eligible (Collections.ofPlan p joins) force threshold) p.topConditions
  unfold lateralScope
  simp only [hsettle]
  split
  · exact hrounds.active_subset rfl
  · exact List.nil_subset _

/-- The choice of collections is made in one round more than there are collections at most.  Where no
table is called as one of the subqueries, eligible collections, none of them below another, are
replaced by lateral tables. -/
theorem replaced_toLateral (hts : Table.Ordered [] p.tables)
    (hjoins : ∀ j ∈ joins, Table.join j ∈ p.tables) :
    (∃ n result, n ≤ (Collections.ofPlan p joins).collections.length + 1 ∧
      Rounds (Collections.ofPlan p joins) (eligible (Collections.ofPlan p joins) force threshold)
        p.topConditions [] [] n result ∧
      settle (Collections.ofPlan p joins) (eligible (Collections.ofPlan p joins) force threshold)
        p.topConditions ((Collections.ofPlan p joins).collections.length + 1) [] [] = result) ∧
    ∀ r supply', p.toLateral force threshold joins supply = .ok (r, supply') →
      (∀ u ∈ (p.lateralScope force threshold joins).active,
        subqueryName supply u ∉ p.tables.map Table.aliasName) →
      ∃ units laterals, units ⊆ eligible (Collections.ofPlan p joins) force threshold ∧
        Scope.Independent ⟨Collections.ofPlan p joins, units⟩ ∧
        Replaced p r.plan (Collections.ofPlan p joins) units laterals := by
  refine ⟨exists_rounds_settle _ _ _, fun r supply' h hnew => ?_⟩
  obtain ⟨hs, hdiv⟩ : (p.lateralScope force threshold joins).tree = Collections.ofPlan p joins ∧
      Divisible (p.lateralScope force threshold joins) p.topConditions := divisible_of_ordered hts
  have hI := hdiv.independent
  rcases toLateral_cases_of_ordered hts hnew h with ⟨-, hr⟩ | hr
  · -- without eligible collections nothing changes
    rw [hr]
    refine ⟨[], [], List.nil_subset _, ⟨nofun, List.nodup_nil, nofun⟩, ?_⟩
    exact ⟨by simp, .nil, nofun, fun _ _ _ _ => nofun⟩
  · have hsub : ∀ u ∈ (p.lateralScope force threshold joins).active.filter (isRewritten
        (divided (p.lateralScope force threshold joins) supply p.topConditions).2),
        u ∈ (p.lateralScope force threshold joins).active := fun u hu => (List.mem_filter.1 hu).1
    rw [hr]
    exact ⟨_, _, fun u hu => active_lateralScope_subset (hsub u hu),
      ⟨fun u hu => hs ▸ hI.collection u (hsub u hu), hI.nodup.filter _, fun u hu v hv hm =>
        hI.apart u (hsub u hu) v (hsub v hv) (hs ▸ hm)⟩,
      replaced_lateralPlan hts hjoins hs hdiv hnew⟩

/-- The books of an author become a lateral table. -/
theorem replaced_toLateral_books : Table.Ordered [] Bookshelf.found.tables ∧
    ∃ r supply units laterals, Bookshelf.found.toLateral true 1 [Bookshelf.books]
        (.ofPlan Bookshelf.found) = .ok (r, supply) ∧
      Replaced Bookshelf.found r.plan (Collections.ofPlan Bookshelf.found [Bookshelf.books]) units
        laterals ∧ r.plan.hasAlias "b" = false := by
  have hordered : Table.Ordered [] Bookshelf.found.tables :=
    JoinTree.ordered_tables (T := Bookshelf.tree) rfl
  have hrun : (Bookshelf.found.toLateral true 1 [Bookshelf.books] (.ofPlan Bookshelf.found)
      ).toOption.any (fun x => !x.1.plan.hasAlias "b") = true := by decide +kernel
  obtain ⟨x, h, hgone⟩ := exists_of_any_toOption hrun
  obtain ⟨units, laterals, -, -, hreplaced⟩ := (replaced_toLateral hordered
    (by simp [Bookshelf.found, Bookshelf.authors, Bookshelf.tree, JoinTree.tables])).2 x.1 x.2 h
    Bookshelf.fresh_found.tables
  exact ⟨hordered, x.1, x.2, units, laterals, h, hreplaced, by simpa using hgone⟩

end Plan

/-! ### A name that is taken -/

namespace Bookshelf

/-- Comments on an author. -/
def comments : Join := ⟨"c", "comments", .outer, ⟨"a", "id"⟩, ⟨"c", "author_id"⟩, none⟩

/-- The biography that a comment is about, which has the name of a lateral subquery. -/
def discussed : Join := ⟨"_b1", "biographies", .outer, ⟨"c", "biography_id"⟩, ⟨"_b1", "id"⟩, none⟩

/-- The editors of Emma with a comment on Emma. -/
def commented : Plan where
  selects := [.star "a"]
  tables := [.primary "a" "authors", .join edited, .join comments, .join discussed]
  condition := some (.all [titled "b1", titled "c"])
  sortKeys := []
  groupBys := none
  ctes := none

end Bookshelf

/-- The subquery of the edited books is called `_b1`, as is a table below the comments.  It goes
with them, and the condition reads a table that is gone. -/
theorem Plan.dangling_toLateral_commented : Table.Ordered [] Bookshelf.commented.tables ∧
    (∀ j ∈ [Bookshelf.edited, Bookshelf.comments], Table.join j ∈ Bookshelf.commented.tables) ∧
    ∃ r supply, Bookshelf.commented.toLateral true 1 [Bookshelf.edited, Bookshelf.comments]
        (.ofPlan Bookshelf.commented) = .ok (r, supply) ∧
      Bookshelf.commented.hasAlias "_b1" = true ∧ r.plan.hasAlias "_b1" = false ∧
      ∃ c ∈ r.plan.topConditions, "_b1" ∈ c.aliases := by
  have hrun : (Bookshelf.commented.toLateral true 1 [Bookshelf.edited, Bookshelf.comments]
      (.ofPlan Bookshelf.commented)).toOption.any (fun x => !x.1.plan.hasAlias "_b1" &&
        x.1.plan.topConditions.any (decide <| "_b1" ∈ ·.aliases)) = true := by decide +kernel
  refine ⟨?_, by simp [Bookshelf.commented], ?_⟩
  · simp [Bookshelf.commented, Bookshelf.edited, Bookshelf.comments, Bookshelf.discussed,
      Table.Ordered, Table.parentAlias?, Table.aliasName]
  obtain ⟨x, h, hrun⟩ := exists_of_any_toOption hrun
  obtain ⟨hgone, hread⟩ := (Bool.and_eq_true _ _).mp hrun
  obtain ⟨c, hc, hread⟩ := List.any_eq_true.1 hread
  exact ⟨x.1, x.2, h, by decide, by simpa using hgone, c, hc, of_decide_eq_true hread⟩

end EntityQuery
