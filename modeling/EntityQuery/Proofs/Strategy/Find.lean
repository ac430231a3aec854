import EntityQuery.Proofs.Blank.Find
import EntityQuery.Proofs.Draft.Parted
import EntityQuery.Proofs.Missing.Find
import EntityQuery.Proofs.Scoping.Find
import EntityQuery.Proofs.Strategy.Resolved

/-!
# Queries under every strategy

A query selects the same primary rows whether its collections stay joins, become existence conditions
or become lateral subqueries, where what it asks of them in the end is met alike by all three.  It is
not for a collection inside a collection that is asked to be missing: a join also lets those pass that
have no row of the outer collection.

* `Plan.prune_byId`: the order that a plan gets by itself;
* `QueryRun.primaryIds_plan`: what a query selects, from the plan whose collections are resolved;
* `primaryIds_find`: every strategy selects the same primary rows.
-/

namespace EntityQuery

namespace Plan

variable {p : Plan} {a : String} {keep : List String}

/-! ### Plans in the order of ids -/

theorem unreferenced_byId (hsorted : p.sortKeys = [])
    (ha : ∀ t ∈ p.tables, t.isPrimary = false → t.aliasName ≠ a) :
    (p.byId a).unreferenced keep = p.unreferenced keep := by
  refine List.filter_congr fun b hb => ?_
  obtain ⟨t, ht, rfl⟩ := List.mem_map.1 hb
  obtain ⟨ht, hnot⟩ := List.mem_filter.1 ht
  have hne := ha t ht (by simpa using hnot)
  have hreferences : t.aliasName ∈ (p.byId a).references ↔ t.aliasName ∈ p.references := by
    rw [mem_references_iff, mem_references_iff]
    simp [byId, hsorted, hne.symm]
  simp only [hreferences]

theorem remove_byId {removed : List String} : (p.byId a).remove removed = (p.remove removed).byId a := by
  cases p
  rfl

theorem trimWithin_byId {n : Nat} (hsorted : p.sortKeys = [])
    (ha : ∀ t ∈ p.tables, t.isPrimary = false → t.aliasName ≠ a) :
    (p.byId a).trimWithin keep n = (p.trimWithin keep n).byId a := by
  induction n generalizing p with
  | zero => rfl
  | succ n ih =>
    rw [trimWithin, trimWithin, unreferenced_byId hsorted ha]
    split
    · rfl
    · rw [remove_byId]
      refine ih ?_ ?_
      · cases p
        exact hsorted
      · rw [tables_remove, Table.mapLeavesAll_eq_map]
        refine List.forall_mem_map.2 fun t ht hnot => ?_
        rw [Table.aliasName_mapPlan]
        refine ha t (List.mem_filter.1 ht).1 ?_
        cases t <;> first | rfl | exact hnot

/-- A plan in the order of the ids of its primary table is pruned like the plan. -/
theorem prune_byId (hsorted : p.sortKeys = [])
    (ha : ∀ t ∈ p.tables, t.isPrimary = false → t.aliasName ≠ a) :
    (p.byId a).prune keep = (p.prune keep).byId a := by
  rw [prune_eq, prune_eq, trim, trim]
  show mapPlans _ ((p.byId a).trimWithin keep p.tables.length) = _
  rw [trimWithin_byId hsorted ha]
  rfl

/-- The tables of a well-scoped plan besides the primary one have other names. -/
theorem Keeps.name_ne_of_scoped {T : JoinTree} {outer : List String} (h : p.Keeps T)
    (hscoped : p.Scoped outer) : ∀ t ∈ p.tables, t.isPrimary = false → t.aliasName ≠ T.aliasName := by
  obtain ⟨table, rest, htables⟩ := h.primary
  have hled := (scoped_iff.1 hscoped).1
  rw [htables] at hled ⊢
  intro t ht hnot
  rcases List.mem_cons.1 ht with rfl | ht
  · cases hnot
  · exact (hled t ht).2

theorem primaryIds_byId {db : Database} : (p.byId a).primaryIds db = p.primaryIds db :=
  primaryIds_congr rfl rfl

end Plan

/-! ### Drafts -/

/-- The conditions of result columns do not come with tables: there are none. -/
theorem Draft.Parted.implied_select {d : Draft} (h : d.Parted) : ∀ x ∈ d.selects, x.implied = [] := by
  intro x hx
  cases x with
  | boolOr g name => exact absurd rfl (h.selects _ hx g name)
  | _ => rfl

/-- Tables of collections are outer-joined. -/
theorem Draft.Sound.kind_of_above {s : Setting} {d : Draft} {T : JoinTree} (h : d.Sound s T) :
    ∀ j ∈ T.joins, (Collections.ofPlan d.toPlan d.collections).above j.aliasName ≠ [] →
      j.kind = .outer := by
  intro j hj habove
  cases hkind : j.kind with
  | outer => rfl
  | inner => exact absurd (h.rooted.above_eq_nil h.tables (fun j hj => (h.collections j hj).1) h.outer
      (JoinTree.mem_required_of_inner hj hkind)) habove

/-! ### Queries -/

section

variable {schema : Schema} {config : Config} {typeName : String} {filter : EntityFilter}
  {options : FindOptions} {db : Database} {strategy : Strategy} {r r' : Resolved}

/-- The plan of a query without an order, from the plan whose collections are resolved. -/
theorem QueryRun.plan_eq_byId (run : QueryRun schema config typeName filter options)
    (hnames : schema.Spelled) (hkeep : options.keepAliases = []) (horder : options.orderBy = .keys [])
    (hprune : options.pruneJoins.getD config.pruneJoins = true) :
    run.plan = ((run.resolved.plan.addNullChecks run.draft.idDbType).prune []).byId run.aliasName := by
  obtain ⟨T, hname, -, hsound⟩ :=
    Draft.sound_ofQuery (s := options.setting schema config) hnames run.entity_mem run.draft_eq
  obtain ⟨⟨hscoped, hkeeps⟩, -⟩ := hsound.scoped_resolveCollections run.resolved_eq
  have hsorted : (run.resolved.plan.addNullChecks run.draft.idDbType).sortKeys = [] :=
    Plan.sortKeys_mapLeaves.trans ((Draft.gathered_toPlan hsound).sortKeys_resolveCollections
      (fun _ => hsound.fresh _) run.resolved_eq)
  have hnone := run.keep_eq
  rw [hkeep] at hnone
  obtain hnone : [] = run.keep := Except.ok.inj hnone
  have hordered := run.ordered_eq
  rw [horder, Plan.addOrder_nil, hsorted] at hordered
  obtain ⟨hordered, -⟩ := Prod.mk.inj (Except.ok.inj hordered)
  have hids : run.ordered = (run.resolved.plan.addNullChecks run.draft.idDbType).byId run.aliasName :=
    hordered.symm
  rw [plan, if_pos hprune, ← hnone, hids, Plan.prune_byId hsorted]
  rw [← hname]
  exact hkeeps.mapLeaves.name_ne_of_scoped (Plan.scoped_addNullChecks hscoped)

/-- Every strategy selects the primary rows that joins select, where what is asked for in the end is met
alike by a join and by a subquery. -/
theorem primaryIds_find (hnames : schema.Spelled) (hkeep : options.keepAliases = [])
    (horder : options.orderBy = .keys []) (hprune : options.pruneJoins.getD config.pruneJoins = true)
    (hids : db.HasIds) (hreads : db.ReadsColumns)
    (hjoins : find schema config typeName filter { options with strategy := some .keep } = .ok r)
    (hagree : ∀ e a d, schema.entity typeName = .ok e →
      Draft.ofQuery (options.setting schema config) e filter options.conditions = .ok (a, d) →
        (∀ j ∈ d.collections, db.Correlates j) ∧
        { d.toPlan with condition := r.plan.condition }.Agreeable db config.lateralThreshold
          d.collections)
    (hfound : find schema config typeName filter { options with strategy := some strategy } = .ok r') :
    r'.plan.primaryIds db = r.plan.primaryIds db := by
  obtain ⟨run, rfl⟩ := exists_run_of_find hjoins
  obtain ⟨run', rfl⟩ := exists_run_of_find hfound
  obtain ⟨T, -, -, hsound⟩ :=
    Draft.sound_ofQuery (s := options.setting schema config) hnames run.entity_mem run.draft_eq
  have hgathered := Draft.gathered_toPlan hsound
  have hparted := Draft.parted_ofQuery run.entity_mem run.draft_eq
  have hentity : run'.entity = run.entity :=
    Except.ok.inj (run'.entity_eq.symm.trans run.entity_eq)
  have hdraft : run'.draft = run.draft := by
    have h := run'.draft_eq
    rw [hentity] at h
    exact (Prod.mk.inj (Except.ok.inj (h.symm.trans run.draft_eq))).2
  -- the joins are left as they are
  have hresolved : run.resolved.plan = run.draft.toPlan := by
    have h := run.resolved_eq
    unfold Plan.resolveCollections at h
    split_ifs at h <;> exact (congrArg (Resolved.plan ∘ Prod.fst) (Except.ok.inj h)).symm
  have hplan := run.plan_eq_byId hnames hkeep horder hprune
  obtain ⟨hcorr, hagree⟩ := hagree _ _ _ (of_planning_eq_ok run.entity_eq) run.draft_eq
  have hstrategy := run'.resolved_eq
  rw [hdraft] at hstrategy
  show run'.plan.primaryIds db = run.plan.primaryIds db
  rw [hplan, run'.plan_eq_byId hnames hkeep horder hprune, Plan.primaryIds_byId, Plan.primaryIds_byId, hdraft,
    hresolved]
  refine hgathered.primaryIds_prune_resolveCollections hparted.topConditions hsound.kind_of_above
    hparted.implied_select hids hreads hcorr (fun _ => hsound.fresh _) ?_ hstrategy
  have hcondition : run.plan.condition =
      ((run.draft.toPlan.addNullChecks run.draft.idDbType).prune []).condition := by
    rw [hplan, hresolved]
    rfl
  rw [← hcondition]
  exact hagree

end

/-! ### Queries on the library -/

/-- Authors of Emma, on the shelf of its author. -/
theorem primaryIds_find_library : library.Spelled ∧ ∃ r r',
    find library .default "Author" (authorsOf "Emma")
      { FindOptions.default with strategy := some .keep } = .ok r ∧
    find library .default "Author" (authorsOf "Emma")
      { FindOptions.default with strategy := some .existence } = .ok r' ∧
    r'.plan.primaryIds Bookshelf.database = r.plan.primaryIds Bookshelf.database := by
  have hnames : library.Spelled := by constructor <;> decide +kernel
  have hjoined : ((find library .default "Author" (authorsOf "Emma")
      { FindOptions.default with strategy := some .keep }).toOption.map fun r =>
        r.plan.topConditions.all fun k => k.isPruneable || k.isStrict) = some true := by
    decide +kernel
  have hcollected : ((library.entity "Author").toOption.bind fun e =>
      (Draft.ofQuery (FindOptions.default.setting library .default) e (authorsOf "Emma")
        none).toOption.map fun r => r.2.collections) = some [Bookshelf.books] := by
    decide +kernel
  have hfound : (find library .default "Author" (authorsOf "Emma")
      { FindOptions.default with strategy := some .existence }).isOk = true := by
    decide +kernel
  obtain ⟨r, hr, hstrict⟩ := exists_of_map_toOption hjoined
  obtain ⟨r', hr'⟩ := exists_of_isOk hfound
  refine ⟨hnames, r, r', hr, hr', primaryIds_find hnames rfl rfl rfl Bookshelf.hasIds_database
    Database.readsColumns_ofTables hr (fun e a d he hd => ⟨?_, ?_⟩) hr'⟩
  · rw [he] at hcollected
    change ((Draft.ofQuery _ e _ _).toOption.map _) = _ at hcollected
    change Draft.ofQuery (FindOptions.default.setting library .default) e (authorsOf "Emma") none = _ at hd
    rw [hd] at hcollected
    have hcollections : d.collections = [Bookshelf.books] := Option.some.inj hcollected
    rw [hcollections]
    exact List.forall_mem_singleton.2 (Bookshelf.correlates_database _ List.mem_cons_self)
  · refine Plan.agreeable_of_isStrict fun k hk hp => ?_
    simpa [hp] using List.all_eq_true.1 hstrict k hk

/-- Reviews of a book. -/
def reviews : Join := ⟨"br", "book_reviews", .outer, ⟨"b", "id"⟩, ⟨"br", "book_id"⟩, none⟩

/-- Authors with their books and the reviews of these. -/
def reviewed : JoinTree where
  aliasName := "a"
  table := "authors"
  joins := [Bookshelf.books, reviews]
  ordered := by simp [Join.Ordered, Bookshelf.books, reviews]

/-- An author of a book that is reviewed, and an author without books. -/
def twoAuthors : Database := .ofTables (Database.withSecond "authors" bookLink).table reviewed.joins

/-- Authors of a book without reviews. -/
def unreviewed : EntityFilter :=
  ⟨none, [⟨"books", .nested ⟨none, [⟨"reviews", .scalar .null⟩]⟩⟩]⟩

/-- There is no book without a review.  Still the author without books is selected where books are
joined: the missing row of a review is told from the missing row of a book by subqueries alone. -/
theorem not_primaryIds_find_unreviewed : ∃ r r',
    find library .default "Author" unreviewed
      { FindOptions.default with strategy := some .keep } = .ok r ∧
    find library .default "Author" unreviewed
      { FindOptions.default with strategy := some .existence } = .ok r' ∧
    twoAuthors.HasIds ∧ (∀ name, ((twoAuthors.table name).map (· "id")).Nodup) ∧
    twoAuthors.Resolves library ∧ twoAuthors.ReadsColumns ∧
    (∀ j ∈ reviewed.joins, twoAuthors.Correlates j) ∧
    r.plan.primaryIds twoAuthors = {.int 2} ∧ r'.plan.primaryIds twoAuthors = ∅ := by
  have hjoined : ((find library .default "Author" unreviewed
      { FindOptions.default with strategy := some .keep }).toOption.map fun r =>
        (r.plan.primaryAlias?, (r.plan.rows twoAuthors .empty).map fun e =>
          match e.value ⟨"a", "id"⟩ with
          | .int n => some n
          | _ => none)) = some (some "a", [some 2]) := by
    decide +kernel
  have hfound : ((find library .default "Author" unreviewed
      { FindOptions.default with strategy := some .existence }).toOption.map fun r =>
        (r.plan.rows twoAuthors .empty).isEmpty) = some true := by
    decide +kernel
  obtain ⟨r, hr, hrows⟩ := exists_of_map_toOption hjoined
  obtain ⟨r', hr', hnone⟩ := exists_of_map_toOption hfound
  obtain ⟨halias, hrows⟩ := Prod.mk.inj hrows
  obtain ⟨e, he, hid⟩ := List.map_eq_singleton_iff.1 hrows
  have hid : e.value ⟨"a", "id"⟩ = .int 2 := by
    split at hid
    · next n hn => rw [hn, Option.some.inj hid]
    · cases hid
  have hresolves : (Database.withSecond "authors" bookLink).Resolves library :=
    Database.resolves_withSecond (by decide +kernel)
  have hids : (Database.withSecond "authors" bookLink).HasIds := Database.hasIds_withSecond
  refine ⟨r, r', hr, hr', hids, fun name => ?_, hresolves, Database.readsColumns_ofTables,
    Database.correlates_ofTables reviewed, ?_, ?_⟩
  · show (List.map (· "id") (if name = "authors" then [numbered 1, numbered 2]
      else [numbered 1])).Nodup
    split_ifs <;> simp [numbered]
  · ext v
    simp only [Plan.primaryIds, he, halias, Set.mem_ofPred_eq, List.mem_singleton, exists_eq_left,
      Option.some.injEq, exists_eq_left', hid, Set.mem_singleton_iff, eq_comm]
  · refine Set.eq_empty_iff_forall_notMem.2 fun v hv => ?_
    obtain ⟨e, he, -⟩ := hv
    rw [List.isEmpty_iff.1 hnone] at he
    cases he

end EntityQuery
