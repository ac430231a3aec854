import EntityQuery.Proofs.Naming.Find
import EntityQuery.Proofs.Pruning.Retained

/-!
# Tables that are to be kept

A query can name tables that are to be kept.  They are, in the plan itself.  In the plans inside it
nothing is kept on demand: a named table that came to lie in a subquery is left there only where the
subquery needs it.

* `Plan.exists_mem_tables_prune`: a table that is to be kept stays, up to its subquery;
* `QueryRun.exists_binding_of_keep`: what is to be kept is bound;
* `retained_find`: the tables of a pruned query, told from those of the same query with its tables
  kept;
* `not_kept_find_coauthored`: a table that was to be kept and is removed in a subquery.
-/

namespace EntityQuery

/-! ### Tables that are kept -/

theorem Table.mapPlan_mapPlan {t : Table} {f g : Plan → Plan} :
    (t.mapPlan f).mapPlan g = t.mapPlan (g ∘ f) := by
  cases t <;> rfl

namespace Plan

variable {p : Plan} {keep : List String} {t : Table}

theorem exists_mem_tables_trim (ht : t ∈ p.tables) (hkeep : t.aliasName ∈ keep) :
    ∃ g, t.mapPlan g ∈ (p.trim keep).tables := by
  refine trim_induct (P := fun q => ∃ g, t.mapPlan g ∈ q.tables) (fun q ⟨g, hg⟩ => ?_) ⟨id, ?_⟩
  · refine ⟨mapLeaves (Condition.withoutRemoved (q.unreferenced keep)) ∘ g, ?_⟩
    rw [tables_remove, Table.mapLeavesAll_eq_map, ← Table.mapPlan_mapPlan]
    refine List.mem_map_of_mem (List.mem_filter.2 ⟨hg, decide_eq_true ?_⟩)
    rw [Table.aliasName_mapPlan]
    exact fun hm => (mem_unreferenced_iff.1 hm).2.1 hkeep
  · cases t <;> exact ht

/-- A table of the plan that is to be kept stays; only its subquery is pruned. -/
theorem exists_mem_tables_prune (ht : t ∈ p.tables) (hkeep : t.aliasName ∈ keep) :
    ∃ g, t.mapPlan g ∈ (p.prune keep).tables := by
  obtain ⟨g, hg⟩ := exists_mem_tables_trim ht hkeep
  rw [Plan.prune]
  cases p.depth with
  | zero => exact ⟨g, hg⟩
  | succ n =>
    exact ⟨pruneWithin n [] ∘ g, List.mem_map.2 ⟨_, hg, Table.mapPlan_mapPlan⟩⟩

end Plan

/-! ### Queries -/

section

variable {schema : Schema} {config : Config} {typeName : String} {filter : EntityFilter}
  {options : FindOptions}

/-- What is to be kept is bound, and its table is among those that the plan keeps. -/
theorem QueryRun.exists_binding_of_keep (run : QueryRun schema config typeName filter options)
    {name : String} (h : name ∈ options.keepAliases) :
    ∃ b, run.draft.binding name = .ok b ∧ b.aliasName ∈ run.keep := by
  obtain ⟨a, ha, hname⟩ := exists_of_forall₂ (forall₂_of_mapM_eq_ok run.keep_eq).flip name h
  obtain ⟨b, hb, hname⟩ := exists_of_bind_eq_ok hname
  exact ⟨b, hb, Except.ok.inj hname ▸ ha⟩

/-- A query that is pruned has a plan without pruning too, and its tables are those of that plan
that are left.  A table that is to be kept stays in the plan itself; inside it, the table is left
just where the subquery needs it. -/
theorem retained_find {r : Resolved} (h : find schema config typeName filter options = .ok r)
    (hprune : options.pruneJoins.getD config.pruneJoins = true) :
    ∃ (run : QueryRun schema config typeName filter options) (full : Resolved),
      find schema config typeName filter { options with pruneJoins := some false } = .ok full ∧
      r.warnings = full.warnings ∧ r.plan = full.plan.prune run.keep ∧
      (∀ a, a ∈ r.plan.allAliases ↔ full.plan.Retained run.keep a) ∧
      ∀ name ∈ options.keepAliases, ∃ b, run.draft.binding name = .ok b ∧ b.aliasName ∈ run.keep ∧
        ∀ t ∈ full.plan.tables, t.aliasName = b.aliasName → ∃ g, t.mapPlan g ∈ r.plan.tables := by
  obtain ⟨run, rfl⟩ := exists_run_of_find h
  have hplan : run.plan = run.ordered.prune run.keep := if_pos hprune
  refine ⟨run, ⟨run.ordered, run.resolved.warnings⟩, run.unpruned.find_eq, rfl, hplan,
    fun a => ?_, fun name hname => ?_⟩
  · show a ∈ run.plan.allAliases ↔ _
    rw [hplan]
    exact Plan.mem_allAliases_prune_iff
  · obtain ⟨b, hb, hkeep⟩ := run.exists_binding_of_keep hname
    refine ⟨b, hb, hkeep, fun t ht ha => ?_⟩
    show ∃ g, t.mapPlan g ∈ run.plan.tables
    rw [hplan]
    exact Plan.exists_mem_tables_prune ht (ha ▸ hkeep)

end

/-! ### Queries on the library -/

/-- Authors with a book of the title, whose publisher is named. -/
def publishedWith (title : String) : EntityFilter :=
  ⟨none, [⟨"publisher", .binding "p"⟩,
    ⟨"books", .nested ⟨some "b", [⟨"title", .scalar (.text title)⟩]⟩⟩]⟩

/-- The tables of the named aliases are to be kept. -/
def keeping (names : List String) : FindOptions :=
  { FindOptions.default with keepAliases := names }

theorem retained_find_library : ∃ r,
    find library .default "Author" (publishedWith "Emma") (keeping ["p", "b"]) = .ok r ∧
    ∃ (run : QueryRun library .default "Author" (publishedWith "Emma") (keeping ["p", "b"]))
      (full : Resolved),
      find library .default "Author" (publishedWith "Emma")
        { keeping ["p", "b"] with pruneJoins := some false } = .ok full ∧
      r.warnings = full.warnings ∧ r.plan = full.plan.prune run.keep ∧
      (∀ a, a ∈ r.plan.allAliases ↔ full.plan.Retained run.keep a) ∧
      ∀ name ∈ ["p", "b"], ∃ b, run.draft.binding name = .ok b ∧ b.aliasName ∈ run.keep ∧
        ∀ t ∈ full.plan.tables, t.aliasName = b.aliasName → ∃ g, t.mapPlan g ∈ r.plan.tables := by
  have hfound : (find library .default "Author" (publishedWith "Emma")
      (keeping ["p", "b"])).isOk = true := by
    decide +kernel
  obtain ⟨r, h⟩ := exists_of_isOk hfound
  exact ⟨r, h, retained_find h rfl⟩

/-- Authors of a book of the title, where the author of the book is named. -/
def coauthored (title : String) : EntityFilter :=
  ⟨none, [⟨"books", .nested ⟨none, [⟨"title", .scalar (.text title)⟩, ⟨"author", .binding "ba"⟩]⟩⟩]⟩

/-- The author of the book comes to lie in the subquery of the books, where nothing needs it: its
table is removed though it was to be kept. -/
theorem not_kept_find_coauthored : ∃ e a d b r full,
    ((keeping ["ba"]).setting library .default).entity "Author" = .ok e ∧
    Draft.ofQuery ((keeping ["ba"]).setting library .default) e (coauthored "Emma") none =
      .ok (a, d) ∧
    d.binding "ba" = .ok b ∧
    find library .default "Author" (coauthored "Emma") (keeping ["ba"]) = .ok r ∧
    find library .default "Author" (coauthored "Emma")
      { keeping ["ba"] with pruneJoins := some false } = .ok full ∧
    b.aliasName ∈ full.plan.allAliases ∧ b.aliasName ∉ r.plan.allAliases := by
  have hbound : ((((keeping ["ba"]).setting library .default).entity "Author" >>= fun e =>
      Draft.ofQuery ((keeping ["ba"]).setting library .default) e (coauthored "Emma") none >>= fun d =>
        d.2.binding "ba").toOption.map (·.aliasName)) = some "a1" := by
    decide +kernel
  have hpruned : ((find library .default "Author" (coauthored "Emma")
      (keeping ["ba"])).toOption.map fun r => r.plan.allAliases) = some ["a", "b"] := by
    decide +kernel
  have hfull : ((find library .default "Author" (coauthored "Emma")
      { keeping ["ba"] with pruneJoins := some false }).toOption.map fun r =>
        r.plan.allAliases) = some ["a", "b", "a1"] := by
    decide +kernel
  obtain ⟨b, hb, hname⟩ := exists_of_map_toOption hbound
  obtain ⟨e, he, hb⟩ := exists_of_bind_eq_ok hb
  obtain ⟨⟨a, d⟩, hd, hb⟩ := exists_of_bind_eq_ok hb
  obtain ⟨r, hr, hpruned⟩ := exists_of_map_toOption hpruned
  obtain ⟨full, hf, hfull⟩ := exists_of_map_toOption hfull
  refine ⟨e, a, d, b, r, full, he, hd, hb, hr, hf, ?_, ?_⟩
  · rw [hname, hfull]
    decide
  · rw [hname, hpruned]
    decide

end EntityQuery
